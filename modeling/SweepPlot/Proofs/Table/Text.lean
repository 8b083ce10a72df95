import Mathlib.Data.List.TakeWhile
import SweepPlot.Bytes
import SweepPlot.Text
set_option autoImplicit false

namespace SweepPlot

section Stripped

variable {α β : Type}

def stripped (p : α → Bool) (l : List α) : List α :=
  ((l.dropWhile p).reverse.dropWhile p).reverse

theorem Text.trimList_eq (cs : List Char) : trimList cs = stripped isBlank cs := rfl

theorem Bytes.trim_eq (bytes : Bytes) : bytes.trim = stripped isBlank bytes := rfl

theorem exists_of_stripped (p : α → Bool) (l : List α) :
    ∃ front back, (∀ x ∈ front, p x = true) ∧ (∀ x ∈ back, p x = true) ∧ l = front ++ stripped p l ++ back := by
  have passes : ∀ l : List α, ∀ x ∈ l.takeWhile p, p x = true := by
    intro l x mem
    exact List.all_eq_true.mp (List.all_takeWhile) x mem
  refine ⟨l.takeWhile p, ((l.dropWhile p).reverse.takeWhile p).reverse, passes l, fun x mem => ?_, ?_⟩
  · exact passes _ x (List.mem_reverse.mp mem)
  · rw [stripped, List.append_assoc, ← List.reverse_append, List.takeWhile_append_dropWhile, List.reverse_reverse,
      List.takeWhile_append_dropWhile]

theorem stripped_append {p : α → Bool} {front back : List α} (blankFront : ∀ x ∈ front, p x = true)
    (blankBack : ∀ x ∈ back, p x = true) (l : List α) : stripped p (front ++ l ++ back) = stripped p l := by
  unfold stripped
  rw [List.append_assoc, List.dropWhile_append_of_pos blankFront, List.dropWhile_append]
  by_cases none : l.dropWhile p = []
  · have all : back.dropWhile p = [] := List.dropWhile_eq_nil_iff.mpr blankBack
    simp [none, all]
  · rw [if_neg (by simpa using none), List.reverse_append,
      List.dropWhile_append_of_pos fun x mem => blankBack x (List.mem_reverse.mp mem)]

theorem stripped_stripped {p q : α → Bool} (weaker : ∀ x, q x = true → p x = true) (l : List α) :
    stripped p (stripped q l) = stripped p l := by
  obtain ⟨front, back, blankFront, blankBack, whole⟩ := exists_of_stripped q l
  have same := stripped_append (fun x mem => weaker x (blankFront x mem)) (fun x mem => weaker x (blankBack x mem))
    (stripped q l)
  rw [← whole] at same
  exact same.symm

theorem stripped_eq_self {p : α → Bool} {l : List α} (solid : ∀ x ∈ l, p x = false) : stripped p l = l := by
  have kept : ∀ l : List α, (∀ x ∈ l, p x = false) → l.dropWhile p = l := by
    intro l solid
    cases l with
    | nil => rfl
    | cons x xs => exact List.dropWhile_cons_of_neg (by simp [solid x List.mem_cons_self])
  unfold stripped
  rw [kept l solid, kept l.reverse fun x mem => solid x (List.mem_reverse.mp mem), List.reverse_reverse]

theorem dropWhile_flatMap {p : α → Bool} {q : β → Bool} {f : β → List α}
    (blank : ∀ x, q x = true → ∀ y ∈ f x, p y = true) (solid : ∀ x, q x = false → ∃ y ∈ (f x).head?, p y = false)
    (l : List β) : (l.flatMap f).dropWhile p = (l.dropWhile q).flatMap f := by
  induction l with
  | nil => rfl
  | cons x xs ih =>
    rw [List.flatMap_cons]
    cases test : q x with
    | true => rw [List.dropWhile_append_of_pos (blank x test), ih, List.dropWhile_cons_of_pos test]
    | false =>
      obtain ⟨y, first, other⟩ := solid x test
      obtain ⟨ys, same⟩ := List.head?_eq_some_iff.mp first
      rw [List.dropWhile_cons_of_neg (by simp [test]), List.flatMap_cons, same, List.cons_append,
        List.dropWhile_cons_of_neg (by simp [other])]

/-- What is stripped off a text written out in pieces are whole pieces. -/
theorem stripped_flatMap {p : α → Bool} {q : β → Bool} {f : β → List α}
    (blank : ∀ x, q x = true → ∀ y ∈ f x, p y = true)
    (solid : ∀ x, q x = false → f x ≠ [] ∧ ∀ y ∈ f x, p y = false) (l : List β) :
    stripped p (l.flatMap f) = (stripped q l).flatMap f := by
  have first : ∀ x, q x = false → ∃ y ∈ (f x).head?, p y = false := by
    intro x other
    obtain ⟨given, apart⟩ := solid x other
    exact ⟨_, List.head?_eq_some_head given, apart _ (List.head_mem given)⟩
  have last : ∀ x, q x = false → ∃ y ∈ ((f x).reverse).head?, p y = false := by
    intro x other
    obtain ⟨given, apart⟩ := solid x other
    exact ⟨_, List.head?_eq_some_head (List.reverse_ne_nil_iff.mpr given), apart _ (by simp)⟩
  have blank' : ∀ x, q x = true → ∀ y ∈ (f x).reverse, p y = true :=
    fun x test y mem => blank x test y (List.mem_reverse.mp mem)
  unfold stripped
  rw [dropWhile_flatMap blank first, List.reverse_flatMap]
  change ((List.flatMap (fun x => (f x).reverse) _).dropWhile p).reverse = _
  rw [dropWhile_flatMap blank' last]
  exact List.flatMap_reverse.symm

end Stripped

namespace Text

def isByteBlank (c : Char) : Bool :=
  c.toNat == 0x20 || c.toNat == 0x09 || c.toNat == 0x0A || c.toNat == 0x0C || c.toNat == 0x0D

theorem isBlank_of_isByteBlank (c : Char) (blank : isByteBlank c = true) : isBlank c = true := by
  simp only [isByteBlank, isBlank, Bool.or_eq_true, Bool.and_eq_true, beq_iff_eq, decide_eq_true_eq] at *
  omega

theorem trim_trim (s : String) : trim (trim s) = trim s := by
  unfold trim
  rw [String.toList_ofList, trimList_eq, trimList_eq, stripped_stripped fun _ => id]

theorem trim_eq_self {s : String} (solid : ∀ c ∈ s.toList, isBlank c = false) : trim s = s := by
  unfold trim
  rw [trimList_eq, stripped_eq_self solid, String.ofList_toList]

end Text

namespace Bytes

theorem ofText_ofList (cs : List Char) : ofText (String.ofList cs) = cs.flatMap String.utf8EncodeChar := by
  unfold ofText
  rw [String.toUTF8_eq_toByteArray, String.toByteArray_ofList]
  exact List.toList_data_toByteArray

theorem text?_ofText (s : String) : text? (ofText s) = some s := by
  have same : (⟨(ofText s).toArray⟩ : ByteArray) = s.toByteArray := rfl
  unfold text?
  rw [same, String.fromUTF8?, dif_pos s.isValidUTF8]
  rfl

theorem text?_eq_some_iff {bytes : Bytes} {s : String} : text? bytes = some s ↔ bytes = ofText s := by
  refine ⟨fun reads => ?_, fun same => same ▸ text?_ofText s⟩
  unfold text? String.fromUTF8? at reads
  split at reads
  · cases reads
    rfl
  · cases reads

theorem ofText_injective : Function.Injective ofText := fun s t same =>
  Option.some.inj ((text?_ofText s).symm.trans ((congrArg text? same).trans (text?_ofText t)))

@[simp]
theorem ofText_inj {s t : String} : ofText s = ofText t ↔ s = t :=
  ofText_injective.eq_iff

theorem utf8EncodeChar_cases (c : Char) :
    (c.toNat < 128 ∧ String.utf8EncodeChar c = [UInt8.ofNat c.toNat]) ∨
      (128 ≤ c.toNat ∧ ∀ b ∈ String.utf8EncodeChar c, 128 ≤ b.toNat) := by
  have value : c.val.toNat = c.toNat := rfl
  unfold String.utf8EncodeChar
  simp only [value]
  split
  · exact .inl ⟨by omega, rfl⟩
  · refine .inr ⟨by omega, fun b mem => ?_⟩
    split at mem
    · simp only [List.mem_cons, List.not_mem_nil, or_false] at mem
      obtain rfl | rfl := mem <;> simp only [UInt8.toNat_ofNat'] <;> omega
    · split at mem
      · simp only [List.mem_cons, List.not_mem_nil, or_false] at mem
        obtain rfl | rfl | rfl := mem <;> simp only [UInt8.toNat_ofNat'] <;> omega
      · simp only [List.mem_cons, List.not_mem_nil, or_false] at mem
        obtain rfl | rfl | rfl | rfl := mem <;> simp only [UInt8.toNat_ofNat'] <;> omega

theorem isBlank_eq (b : UInt8) : isBlank b =
    (b.toNat == 0x20 || b.toNat == 0x09 || b.toNat == 0x0A || b.toNat == 0x0C || b.toNat == 0x0D) := by
  have same : ∀ n : UInt8, (b == n) = (b.toNat == n.toNat) := by
    intro n
    rw [Bool.eq_iff_iff, beq_iff_eq, beq_iff_eq, UInt8.toNat_inj]
  simp only [isBlank, same]
  rfl

theorem isBlank_of_ascii {c : Char} (ascii : c.toNat < 128) :
    isBlank (UInt8.ofNat c.toNat) = Text.isByteBlank c := by
  have small : (UInt8.ofNat c.toNat).toNat = c.toNat := by
    rw [UInt8.toNat_ofNat']
    omega
  rw [isBlank_eq, small]
  rfl

theorem isBlank_of_beyond {b : UInt8} (beyond : 128 ≤ b.toNat) : isBlank b = false := by
  rw [isBlank_eq]
  simp only [Bool.or_eq_false_iff, beq_eq_false_iff_ne]
  omega

/-- Text from which blank bytes are cut off is text with fewer blanks at its ends. -/
theorem trim_ofText (s : String) :
    trim (ofText s) = ofText (String.ofList (stripped Text.isByteBlank s.toList)) := by
  have whole := ofText_ofList s.toList
  rw [String.ofList_toList] at whole
  rw [whole, ofText_ofList, trim_eq]
  refine stripped_flatMap (fun c blank b mem => ?_) (fun c solid => ?_) s.toList
  · obtain ⟨ascii, single⟩ | ⟨wide, -⟩ := utf8EncodeChar_cases c
    · rw [single, List.mem_singleton] at mem
      rw [mem, isBlank_of_ascii ascii, blank]
    · simp only [Text.isByteBlank, Bool.or_eq_true, beq_iff_eq] at blank
      omega
  · refine ⟨String.utf8EncodeChar_ne_nil, fun b mem => ?_⟩
    obtain ⟨ascii, single⟩ | ⟨-, beyond⟩ := utf8EncodeChar_cases c
    · rw [single, List.mem_singleton] at mem
      rw [mem, isBlank_of_ascii ascii, solid]
    · exact isBlank_of_beyond (beyond b mem)

/-- A cell is trimmed in two turns, first its bytes and then its text. -/
theorem text?_trim_ofText (s : String) : ∃ t, text? (trim (ofText s)) = some t ∧ Text.trim t = Text.trim s := by
  refine ⟨_, by rw [trim_ofText, text?_ofText], ?_⟩
  unfold Text.trim
  rw [String.toList_ofList, Text.trimList_eq, Text.trimList_eq, stripped_stripped Text.isBlank_of_isByteBlank]

section Order

theorem ofNat_cons_lt_iff {x y : Nat} (hx : x < 256) (hy : y < 256) (s t : Bytes) :
    UInt8.ofNat x :: s < UInt8.ofNat y :: t ↔ x < y ∨ x = y ∧ s < t := by
  have value : ∀ {z : Nat}, z < 256 → (UInt8.ofNat z).toNat = z := UInt8.toNat_ofNat_of_lt'
  rw [List.cons_lt_cons_iff, UInt8.lt_iff_toNat_lt, ← UInt8.toNat_inj, value hx, value hy]

/-- Numbers stand in the order of their digits to the base 64, which is what the bytes of a character carry. -/
theorem digits_lt {m n : Nat} (below : m < n) :
    m / 262144 < n / 262144 ∨ m / 262144 = n / 262144 ∧ (m / 4096 % 64 < n / 4096 % 64 ∨
      m / 4096 % 64 = n / 4096 % 64 ∧ (m / 64 % 64 < n / 64 % 64 ∨
        m / 64 % 64 = n / 64 % 64 ∧ m % 64 < n % 64)) := by
  have whole : ∀ k, k = 262144 * (k / 262144) + 4096 * (k / 4096 % 64) + 64 * (k / 64 % 64) + k % 64 := by omega
  have small : ∀ k, k / 4096 % 64 < 64 ∧ k / 64 % 64 < 64 ∧ k % 64 < 64 := by omega
  have wm := whole m
  have wn := whole n
  have sm := small m
  have sn := small n
  generalize m / 262144 = m1, m / 4096 % 64 = m2, m / 64 % 64 = m3, m % 64 = m4 at *
  generalize n / 262144 = n1, n / 4096 % 64 = n2, n / 64 % 64 = n3, n % 64 = n4 at *
  omega

theorem utf8EncodeChar_lt {c d : Char} (below : c < d) (s t : Bytes) :
    String.utf8EncodeChar c ++ s < String.utf8EncodeChar d ++ t := by
  have valid : d.val.toNat < 0xD800 ∨ 0xDFFF < d.val.toNat ∧ d.val.toNat < 0x110000 := d.valid
  have below : c.val.toNat < d.val.toNat := UInt32.lt_iff_toNat_lt.mp below
  unfold String.utf8EncodeChar
  generalize c.val.toNat = m at below ⊢
  generalize d.val.toNat = n at below valid ⊢
  have digits := digits_lt below
  have lead : m / 262144 % 8 = m / 262144 ∧ n / 262144 % 8 = n / 262144 := by omega
  dsimp only
  split_ifs <;> simp (disch := omega) only [List.cons_append, ofNat_cons_lt_iff] <;> omega

theorem flatMap_utf8EncodeChar_lt {cs ds : List Char} (below : cs < ds) :
    cs.flatMap String.utf8EncodeChar < ds.flatMap String.utf8EncodeChar := by
  induction below with
  | @nil d ds =>
    obtain ⟨b, bs, first⟩ := List.exists_cons_of_ne_nil (String.utf8EncodeChar_ne_nil (c := d))
    rw [List.flatMap_cons, first]
    exact List.nil_lt_cons _ _
  | rel below => exact utf8EncodeChar_lt below _ _
  | cons _ ih => exact List.append_left_lt ih

theorem ofText_lt {s t : String} (below : s < t) : ofText s < ofText t := by
  have bytes := flatMap_utf8EncodeChar_lt (show s.toList < t.toList from below)
  rwa [← ofText_ofList, ← ofText_ofList, String.ofList_toList, String.ofList_toList] at bytes

theorem ofText_lt_iff {s t : String} : ofText s < ofText t ↔ s < t := by
  refine ⟨fun bytes => ?_, ofText_lt⟩
  obtain below | rfl | above := Std.lt_trichotomy s t
  · exact below
  · exact absurd bytes (List.lt_irrefl _)
  · exact absurd (ofText_lt above) (List.lt_asymm bytes)

end Order

end Bytes

end SweepPlot
