import Mathlib.Algebra.Group.Nat.Defs
import SweepPlot.Number.Printed
import SweepPlot.Number.Reading
set_option autoImplicit false

namespace SweepPlot.Number

section Digits

theorem digitsValue_eq (cs : List Char) : digitsValue cs = Nat.ofDigitChars 10 cs 0 := rfl

@[simp]
theorem toList_toString (n : Nat) : (toString n).toList = Nat.toDigits 10 n :=
  Nat.toList_repr

theorem digitsValue_toDigits (n : Nat) : digitsValue (Nat.toDigits 10 n) = n :=
  Nat.ofDigitChars_ten_toDigits

theorem digitsValue_zeros_append (k : Nat) (cs : List Char) :
    digitsValue (List.replicate k '0' ++ cs) = digitsValue cs := by
  rw [digitsValue_eq, Nat.ofDigitChars_append, Nat.ofDigitChars_replicate_zero, Nat.mul_zero]
  rfl

theorem digitsValue_append_zeros (cs : List Char) (k : Nat) :
    digitsValue (cs ++ List.replicate k '0') = digitsValue cs * 10 ^ k := by
  rw [digitsValue_eq, Nat.ofDigitChars_append, Nat.ofDigitChars_replicate_zero, Nat.mul_comm]
  rfl

theorem isDigit_of_mem_toDigits {n : Nat} {c : Char} (mem : c ∈ Nat.toDigits 10 n) : isDigit c = true := by
  have digit := Nat.isDigit_of_mem_toDigits (by decide) (by decide) mem
  exact digit

theorem head?_toDigits {n : Nat} (positive : 0 < n) : (Nat.toDigits 10 n).head? ≠ some '0' := by
  induction n using Nat.strongRecOn with
  | ind n ih =>
    by_cases small : n < 10
    · have digits : ∀ n < 10, 0 < n → [Nat.digitChar n].head? ≠ some '0' := by decide
      rw [Nat.toDigits_of_lt_base small]
      exact digits n small positive
    · rw [Nat.toDigits_of_base_le (by decide) (Nat.not_lt.mp small),
        List.head?_append, Option.or_of_isSome (by simp [Nat.toDigits_ne_nil])]
      exact ih (n / 10) (by omega) (by omega)

theorem isDigit_of_mem_zeros {k : Nat} {c : Char} (mem : c ∈ List.replicate k '0') : isDigit c = true := by
  rw [List.eq_of_mem_replicate mem]
  decide

theorem lt_pow_length_toDigits (n : Nat) : n < 10 ^ (Nat.toDigits 10 n).length :=
  (Nat.length_toDigits_le_iff (by decide) Nat.length_toDigits_pos).mp (Nat.le_refl _)

theorem pow_length_toDigits_le {n : Nat} (positive : 0 < n) : 10 ^ ((Nat.toDigits 10 n).length - 1) ≤ n := by
  by_cases short : (Nat.toDigits 10 n).length - 1 = 0
  · rw [short]
    exact positive
  · refine Nat.le_of_not_lt fun small => ?_
    have less := (Nat.length_toDigits_le_iff (by decide) (Nat.pos_of_ne_zero short)).mpr small
    omega

end Digits

section Integers

theorem wholeDigits?_of_digits {cs : List Char} (given : cs ≠ []) (digits : ∀ c ∈ cs, isDigit c = true) :
    wholeDigits? cs = some (digitsValue cs) :=
  if_pos ⟨given, List.all_eq_true.mpr digits⟩

theorem unsigned_of_digit {c : Char} (digit : isDigit c = true) (cs : List Char) :
    unsigned (c :: cs) = (false, c :: cs) := by
  unfold unsigned
  split
  next same =>
    rw [(List.cons.inj same).1] at digit
    exact absurd digit (by decide)
  next same =>
    rw [(List.cons.inj same).1] at digit
    exact absurd digit (by decide)
  next => rfl

theorem unsigned_toDigits (n : Nat) : unsigned (Nat.toDigits 10 n) = (false, Nat.toDigits 10 n) := by
  obtain ⟨c, cs, same⟩ := List.exists_cons_of_ne_nil (Nat.toDigits_ne_nil (n := n) (b := 10))
  have mem : c ∈ Nat.toDigits 10 n := by
    rw [same]
    exact List.mem_cons_self
  rw [same]
  exact unsigned_of_digit (isDigit_of_mem_toDigits mem) cs

theorem integer?_toString {v : Int} (fits : inInt64 v = true) : integer? (toString v) = some v := by
  have whole : ∀ n, wholeDigits? (Nat.toDigits 10 n) = some n := fun n => by
    rw [wholeDigits?_of_digits Nat.toDigits_ne_nil fun _ => isDigit_of_mem_toDigits, digitsValue_toDigits]
  unfold integer?
  cases v with
  | ofNat n =>
    have text : (toString (Int.ofNat n)).toList = Nat.toDigits 10 n := toList_toString n
    rw [text, unsigned_toDigits]
    dsimp only
    rw [whole]
    exact if_pos fits
  | negSucc n =>
    have text : (toString (Int.negSucc n)).toList = '-' :: Nat.toDigits 10 (n + 1) :=
      String.toList_append.trans (congrArg ('-' :: ·) (toList_toString (n + 1)))
    rw [text, unsigned]
    dsimp only
    rw [whole]
    exact if_pos fits

end Integers

section Decimals

variable {front back : List Char}

theorem takeWhile_of_digits (digits : ∀ c ∈ front, isDigit c = true) (rest : List Char) :
    (front ++ rest).takeWhile isDigit = front ++ rest.takeWhile isDigit ∧
      (front ++ rest).dropWhile isDigit = rest.dropWhile isDigit :=
  ⟨List.takeWhile_append_of_pos digits, List.dropWhile_append_of_pos digits⟩

theorem decimal?_whole (given : front ≠ []) (digits : ∀ c ∈ front, isDigit c = true) :
    decimal? front = some (decimalBits (digitsValue front) 0) := by
  obtain ⟨taken, dropped⟩ := takeWhile_of_digits digits []
  rw [List.append_nil] at taken dropped
  unfold decimal?
  rw [taken, dropped]
  simp [given, exponent?]

theorem decimal?_pointed (given : front ≠ []) (digits : ∀ c ∈ front, isDigit c = true)
    (places : ∀ c ∈ back, isDigit c = true) :
    decimal? (front ++ '.' :: back) = some (decimalBits (digitsValue (front ++ back)) (-back.length)) := by
  obtain ⟨taken, dropped⟩ := takeWhile_of_digits digits ('.' :: back)
  obtain ⟨taken', dropped'⟩ := takeWhile_of_digits places []
  rw [List.append_nil] at taken' dropped'
  have stop : isDigit '.' = false := by decide
  rw [List.takeWhile_cons_of_neg (by simp [stop]), List.append_nil] at taken
  rw [List.dropWhile_cons_of_neg (by simp [stop])] at dropped
  unfold decimal?
  rw [taken, dropped]
  simp [given, exponent?, taken', dropped']

end Decimals

end SweepPlot.Number
