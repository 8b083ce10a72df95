import SweepPlot.Proofs.Number.Shortest
import SweepPlot.Proofs.Table.Text
set_option autoImplicit false

namespace SweepPlot.Number

section Bits

theorem ofBits_of_toBits {x : Float} {negative : Bool} {size : Nat}
    (bits : x.toBits.toNat = if negative then size + signBit else size) : ofBits negative size = x := by
  rw [ofBits, ← bits, UInt64.ofNat_toNat, Float.ofBits_toBits]

theorem toBits_split (x : Float) : x.toBits.toNat =
    (if signBit ≤ x.toBits.toNat then signBit else 0) + x.toBits.toNat / exponentBit % 2048 * exponentBit +
      x.toBits.toNat % exponentBit := by
  have word : x.toBits.toNat < 2 ^ 64 := x.toBits.toNat_lt
  have sign : signBit = 9223372036854775808 := by decide
  rw [sign, exponentBit_eq]
  split_ifs <;> omega

theorem toBits_of_nan {x : Float} (field : x.toBits.toNat / exponentBit % 2048 = 2047)
    (fraction : x.toBits.toNat % exponentBit ≠ 0) : x.toBits.toNat = notNumberBits := by
  have word : x.toBits.toBitVec.toNat = x.toBits.toNat := rfl
  rw [exponentBit_eq] at field fraction
  have same : x.toBits.toBitVec = Float.Model.UnpackedFloat.packedNaN Float.Model.Format.binary64 := by
    refine x.toModel.valid.eq_packedNaN (BitVec.eq_of_toNat_eq ?_) fun none => fraction ?_
    · rw [Float.Model.UnpackedFloat.unpackExponent, BitVec.toNat_cast, BitVec.extractLsb_toNat,
        Nat.shiftRight_eq_div_pow]
      exact field
    · have zero := congrArg BitVec.toNat none
      rw [Float.Model.UnpackedFloat.unpackMantissa, BitVec.toNat_cast, BitVec.extractLsb_toNat] at zero
      exact zero
  rw [← word, same]
  decide +kernel

/-- What a double is tells its bits, for it has no others. -/
theorem ofBits_of_exact (x : Float) : match exact x with
    | .nan => ofBits false notNumberBits = x
    | .infinite negative => ofBits negative infinityBits = x
    | .finite negative m q =>
      ofBits negative ((q + 1074).toNat * exponentBit + m) = x ∧ (m = 0 ∧ q = -1074 ∨ Canonical m q) := by
  have parts := toBits_split x
  have small : x.toBits.toNat % exponentBit < exponentBit := Nat.mod_lt _ (by decide)
  have signed : ∀ {size : Nat},
      x.toBits.toNat / exponentBit % 2048 * exponentBit + x.toBits.toNat % exponentBit = size →
        ofBits (decide (signBit ≤ x.toBits.toNat)) size = x := by
    intro size same
    apply ofBits_of_toBits
    by_cases negative : signBit ≤ x.toBits.toNat
    · rw [if_pos negative] at parts
      rw [if_pos (decide_eq_true negative)]
      omega
    · rw [if_neg negative] at parts
      rw [if_neg (by simpa using negative)]
      omega
  unfold exact exactOfBits
  dsimp only
  split_ifs with top whole bottom
  · refine signed ?_
    rw [top, whole]
    rfl
  · exact ofBits_of_toBits (toBits_of_nan top whole)
  · refine ⟨signed (by rw [bottom]; rfl), ?_⟩
    by_cases zero : x.toBits.toNat % exponentBit = 0
    · exact .inl ⟨zero, rfl⟩
    · rw [exponentBit_eq] at small zero ⊢
      exact .inr ⟨by omega, by omega, by omega, by omega, .inl rfl⟩
  · have field : x.toBits.toNat / exponentBit % 2048 < 2048 := Nat.mod_lt _ (by decide)
    generalize x.toBits.toNat / exponentBit % 2048 = f at *
    refine ⟨signed ?_, .inr ?_⟩
    · obtain ⟨g, rfl⟩ := Nat.exists_eq_succ_of_ne_zero bottom
      have shift : (((g.succ : Nat) : Int) - 1075 + 1074).toNat = g := by omega
      rw [shift, Nat.succ_mul]
      omega
    · rw [exponentBit_eq] at small ⊢
      exact ⟨by omega, by omega, by omega, by omega, .inr (by omega)⟩

end Bits

section Text

/-- A positive decimal in digits, as it is printed. -/
def shown (d : Nat) (k : Int) : String :=
  if 0 ≤ k then toString d ++ zeros k.toNat else pointed d (-k).toNat

theorem toList_pointed (d : Nat) {places : Nat} (given : places ≠ 0) :
    ∃ digits cut : List Char, digits ++ cut =
        List.replicate (places + 1 - (Nat.toDigits 10 d).length) '0' ++ Nat.toDigits 10 d ∧
      digits ≠ [] ∧ cut.length = places ∧ (pointed d places).toList = digits ++ '.' :: cut := by
  have long : places < (zeros (places + 1 - (toString d).length) ++ toString d).length := by
    rw [String.length_append, zeros, String.length_ofList, List.length_replicate]
    omega
  have padded : (zeros (places + 1 - (toString d).length) ++ toString d).toList =
      List.replicate (places + 1 - (Nat.toDigits 10 d).length) '0' ++ Nat.toDigits 10 d := by
    rw [String.toList_append, zeros, String.toList_ofList, toList_toString, ← String.length_toList, toList_toString]
  unfold pointed
  rw [if_neg given]
  dsimp only
  generalize zeros (places + 1 - (toString d).length) ++ toString d = text at long padded ⊢
  rw [← String.length_toList] at long ⊢
  refine ⟨text.toList.take (text.toList.length - places), text.toList.drop (text.toList.length - places),
    ?_, ?_, ?_, ?_⟩
  · rw [List.take_append_drop, padded]
  · have short := List.length_take_of_le (Nat.sub_le text.toList.length places)
    exact List.ne_nil_of_length_pos (by omega)
  · rw [List.length_drop]
    omega
  · simp

theorem shown_cases (d : Nat) (k : Int) :
    ∃ front back, front ≠ [] ∧ (∀ c ∈ front, isDigit c = true) ∧ (∀ c ∈ back, isDigit c = true) ∧
      ((0 ≤ k ∧ back = [] ∧ (shown d k).toList = front ∧ digitsValue front = d * 10 ^ k.toNat) ∨
        (k < 0 ∧ (shown d k).toList = front ++ '.' :: back ∧ digitsValue (front ++ back) = d ∧
          (back.length : Int) = -k)) := by
  unfold shown
  split_ifs with whole
  · refine ⟨Nat.toDigits 10 d ++ List.replicate k.toNat '0', [], ?_, ?_, by simp, .inl ⟨whole, rfl, ?_, ?_⟩⟩
    · simp
    · intro c mem
      obtain mem | mem := List.mem_append.mp mem
      · exact isDigit_of_mem_toDigits mem
      · exact isDigit_of_mem_zeros mem
    · rw [String.toList_append, toList_toString, zeros, String.toList_ofList]
    · rw [digitsValue_append_zeros, digitsValue_toDigits]
  · have cut : (-k).toNat ≠ 0 := by omega
    obtain ⟨front, back, digits, given, places, text⟩ := toList_pointed d cut
    have isDigit' : ∀ c ∈ front ++ back, isDigit c = true := by
      intro c mem
      rw [digits] at mem
      obtain mem | mem := List.mem_append.mp mem
      · exact isDigit_of_mem_zeros mem
      · exact isDigit_of_mem_toDigits mem
    refine ⟨front, back, given, fun c mem => isDigit' c (List.mem_append_left back mem),
      fun c mem => isDigit' c (List.mem_append_right front mem), .inr ⟨by omega, text, ?_, by omega⟩⟩
    rw [digits, digitsValue_zeros_append, digitsValue_toDigits]

theorem decimal?_shown {d : Nat} (positive : 0 < d) (k : Int) :
    ∃ c e, decimal? (shown d k).toList = some (decimalBits c e) ∧ 0 < c ∧ (c : ℚ) * 10 ^ e = d * 10 ^ k := by
  obtain ⟨front, back, given, digits, places, ⟨whole, -, text, value⟩ | ⟨-, text, value, length⟩⟩ := shown_cases d k
  · refine ⟨d * 10 ^ k.toNat, 0, ?_, by positivity, ?_⟩
    · rw [text, decimal?_whole given digits, value]
    · obtain ⟨n, rfl⟩ := Int.eq_ofNat_of_zero_le whole
      simp
  · refine ⟨d, k, ?_, positive, rfl⟩
    rw [text, decimal?_pointed given digits places, value, length, neg_neg]

theorem toList_signed (negative : Bool) (s : String) :
    (signed negative s).toList = (if negative then ['-'] else []) ++ s.toList := by
  cases negative
  · rfl
  · rw [signed, if_pos rfl, String.toList_append]
    rfl

theorem number?_signed {negative : Bool} {s : String} {size : Nat} (plain : unsigned s.toList = (false, s.toList))
    (reads : (decimal? s.toList).or (word? s.toList) = some size) :
    number? (signed negative s) = some (ofBits negative size) := by
  have sign : unsigned (signed negative s).toList = (negative, s.toList) := by
    rw [toList_signed]
    cases negative
    · exact plain
    · rfl
  unfold number?
  rw [sign]
  dsimp only
  rw [reads]
  rfl

theorem unsigned_shown (d : Nat) (k : Int) : unsigned (shown d k).toList = (false, (shown d k).toList) := by
  obtain ⟨front, back, given, digits, -, text⟩ := shown_cases d k
  obtain ⟨c, cs, rfl⟩ := List.exists_cons_of_ne_nil given
  have digit := digits c List.mem_cons_self
  obtain ⟨-, -, text, -⟩ | ⟨-, text, -⟩ := text
  · rw [text, unsigned_of_digit digit]
  · rw [text, List.cons_append, unsigned_of_digit digit]

theorem positional_finite {x : Float} {negative : Bool} {m : Nat} {q : Int} (known : exact x = .finite negative m q)
    (given : m ≠ 0) :
    positional x = signed negative (shown (dropEndZeros (shortest m q).1 (shortest m q).2 20).1
      (dropEndZeros (shortest m q).1 (shortest m q).2 20).2) := by
  unfold positional
  rw [known]
  cases m with
  | zero => exact absurd rfl given
  | succ m => rfl

/-- The positional text of a double is read as that double. -/
theorem number?_positional (x : Float) : number? (positional x) = some x := by
  have bits := ofBits_of_exact x
  cases known : exact x with
  | nan =>
    rw [known] at bits
    have text : positional x = "NaN" := by rw [positional, known]
    have reads : number? "NaN" = some (ofBits false notNumberBits) := by decide +kernel
    rw [text, reads, bits]
  | infinite negative =>
    rw [known] at bits
    have text : positional x = signed negative "inf" := by rw [positional, known]
    have reads : (decimal? "inf".toList).or (word? "inf".toList) = some infinityBits := by decide +kernel
    rw [text, number?_signed (by decide +kernel) reads, bits]
  | finite negative m q =>
    rw [known] at bits
    obtain ⟨same, ⟨rfl, rfl⟩ | canonical⟩ := bits
    · have text : positional x = signed negative "0" := by
        rw [positional, known]
        rfl
      have reads : (decimal? "0".toList).or (word? "0".toList) = some 0 := by decide +kernel
      rw [text, number?_signed (by decide +kernel) reads]
      exact congrArg some same
    · obtain ⟨positive, rounds⟩ := shortest_spec canonical
      obtain ⟨value, kept⟩ := dropEndZeros_spec (shortest m q).1 (shortest m q).2 20
      rw [positional_finite known canonical.positive.ne']
      obtain ⟨c, e, reads, given, value'⟩ :=
        decimal?_shown (kept positive) (dropEndZeros (shortest m q).1 (shortest m q).2 20).2
      rw [← value, ← value'] at rounds
      rw [number?_signed (unsigned_shown _ _) (by rw [reads, Option.some_or]), decimalBits_eq canonical given rounds,
        same]

end Text

section Solid

theorem isBlank_of_isDigit {c : Char} (digit : isDigit c = true) : Text.isBlank c = false := by
  rw [isDigit, Bool.and_eq_true, decide_eq_true_eq, decide_eq_true_eq] at digit
  have low : 48 ≤ c.toNat := digit.1
  have high : c.toNat ≤ 57 := digit.2
  simp only [Text.isBlank, Bool.or_eq_false_iff, Bool.and_eq_false_iff, decide_eq_false_iff_not, beq_eq_false_iff_ne]
  omega

theorem solid_shown (d : Nat) (k : Int) : ∀ c ∈ (shown d k).toList, Text.isBlank c = false := by
  obtain ⟨front, back, -, digits, places, ⟨-, -, text, -⟩ | ⟨-, text, -⟩⟩ := shown_cases d k
  · rw [text]
    exact fun c mem => isBlank_of_isDigit (digits c mem)
  · rw [text]
    intro c mem
    obtain mem | mem := List.mem_append.mp mem
    · exact isBlank_of_isDigit (digits c mem)
    · obtain rfl | mem := List.mem_cons.mp mem
      · decide
      · exact isBlank_of_isDigit (places c mem)

theorem solid_signed {s : String} (solid : ∀ c ∈ s.toList, Text.isBlank c = false) (negative : Bool) :
    ∀ c ∈ (signed negative s).toList, Text.isBlank c = false := by
  rw [toList_signed]
  intro c mem
  obtain mem | mem := List.mem_append.mp mem
  · cases negative
    · cases mem
    · obtain rfl := List.mem_singleton.mp mem
      decide
  · exact solid c mem

theorem trim_positional (x : Float) : Text.trim (positional x) = positional x := by
  apply Text.trim_eq_self
  cases known : exact x with
  | nan =>
    rw [positional, known]
    simp [Text.isBlank]
  | infinite negative =>
    rw [positional, known]
    exact solid_signed (by simp [Text.isBlank]) negative
  | finite negative m q =>
    by_cases zero : m = 0
    · subst zero
      rw [positional, known]
      exact solid_signed (by simp [Text.isBlank]) negative
    · rw [positional_finite known zero]
      exact solid_signed (solid_shown _ _) negative

theorem trim_toString (v : Int) : Text.trim (toString v) = toString v := by
  have digits : ∀ n : Nat, ∀ c ∈ (toString n).toList, Text.isBlank c = false := by
    intro n c mem
    rw [toList_toString] at mem
    exact isBlank_of_isDigit (isDigit_of_mem_toDigits mem)
  apply Text.trim_eq_self
  cases v with
  | ofNat n => exact digits n
  | negSucc n => exact solid_signed (digits (n + 1)) true

theorem positional_ne_empty (x : Float) : positional x ≠ "" := by
  intro empty
  have reads := number?_positional x
  rw [empty] at reads
  cases reads

theorem toString_ne_empty {v : Int} (fits : inInt64 v = true) : toString v ≠ "" := by
  intro empty
  have reads := integer?_toString fits
  rw [empty] at reads
  cases reads

end Solid

end SweepPlot.Number
