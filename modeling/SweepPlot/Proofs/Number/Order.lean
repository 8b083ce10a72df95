import Mathlib
import SweepPlot.Number.Exact
set_option autoImplicit false

namespace SweepPlot.Number

variable {a b c : Float}

theorem isNumber_of_isFinite (finite : isFinite a = true) : isNumber a = true := by
  simp only [isFinite, isNumber, decide_eq_true_eq] at *
  exact Nat.le_of_lt finite

theorem atMost_iff : atMost a b = true ↔ isNumber a = true ∧ isNumber b = true ∧ lineKey a ≤ lineKey b := by
  simp [atMost, and_assoc]

theorem below_iff : below a b = true ↔ isNumber a = true ∧ isNumber b = true ∧ lineKey a < lineKey b := by
  simp [below, and_assoc]

theorem atMost_refl (number : isNumber a = true) : atMost a a = true :=
  atMost_iff.mpr ⟨number, number, Int.le_refl _⟩

theorem atMost_trans (ab : atMost a b = true) (bc : atMost b c = true) : atMost a c = true := by
  rw [atMost_iff] at *
  exact ⟨ab.1, bc.2.1, Int.le_trans ab.2.2 bc.2.2⟩

theorem below_of_below_of_atMost (ab : below a b = true) (bc : atMost b c = true) : below a c = true := by
  rw [below_iff] at ab ⊢
  rw [atMost_iff] at bc
  exact ⟨ab.1, bc.2.1, Int.lt_of_lt_of_le ab.2.2 bc.2.2⟩

theorem atMost_of_not (na : isNumber a = true) (nb : isNumber b = true) (h : ¬ atMost b a = true) :
    atMost a b = true := by
  rw [atMost_iff] at h ⊢
  have less : lineKey a < lineKey b := Int.not_le.mp fun le => h ⟨nb, na, le⟩
  exact ⟨na, nb, Int.le_of_lt less⟩

theorem below_irrefl (a : Float) : ¬ below a a = true := by
  rw [below_iff]
  exact fun h => Int.lt_irrefl _ h.2.2

theorem atMost_of_below (ab : below a b = true) : atMost a b = true := by
  rw [below_iff] at ab
  exact atMost_iff.mpr ⟨ab.1, ab.2.1, Int.le_of_lt ab.2.2⟩

theorem below_of_atMost_of_below (ab : atMost a b = true) (bc : below b c = true) : below a c = true := by
  rw [atMost_iff] at ab
  rw [below_iff] at bc ⊢
  exact ⟨ab.1, bc.2.1, Int.lt_of_le_of_lt ab.2.2 bc.2.2⟩

theorem not_below_of_atMost (ab : atMost a b = true) : ¬ below b a = true := by
  rw [atMost_iff] at ab
  rw [below_iff]
  exact fun h => Int.not_lt.mpr ab.2.2 h.2.2

theorem atMost_of_not_below (na : isNumber a = true) (nb : isNumber b = true) (h : ¬ below b a = true) :
    atMost a b = true := by
  rw [below_iff] at h
  exact atMost_iff.mpr ⟨na, nb, Int.not_lt.mp fun less => h ⟨nb, na, less⟩⟩

theorem least_cases (a b : Float) : least a b = a ∨ least a b = b := by
  unfold least
  split
  · exact Or.inr rfl
  · exact Or.inl rfl

theorem greatest_cases (a b : Float) : greatest a b = a ∨ greatest a b = b := by
  unfold greatest
  split
  · exact Or.inr rfl
  · exact Or.inl rfl

theorem least_atMost (na : isNumber a = true) (nb : isNumber b = true) :
    atMost (least a b) a = true ∧ atMost (least a b) b = true := by
  unfold least
  by_cases h : atMost b a = true
  · rw [if_pos (by simp [h])]
    exact ⟨h, atMost_refl nb⟩
  · rw [if_neg (by simp [na, h])]
    exact ⟨atMost_refl na, atMost_of_not na nb h⟩

theorem atMost_greatest (na : isNumber a = true) (nb : isNumber b = true) :
    atMost a (greatest a b) = true ∧ atMost b (greatest a b) = true := by
  unfold greatest
  by_cases h : atMost a b = true
  · rw [if_pos (by simp [h])]
    exact ⟨h, atMost_refl nb⟩
  · rw [if_neg (by simp [na, h])]
    exact ⟨atMost_refl na, atMost_of_not nb na h⟩

theorem orderKey_cases (x : Float) :
    (x.toBits.toNat < signBit ∧ orderKey x = x.toBits.toNat ∧ lineKey x = x.toBits.toNat) ∨
      (signBit ≤ x.toBits.toNat ∧ orderKey x = signBit - 1 - x.toBits.toNat ∧
        lineKey x = signBit - x.toBits.toNat) := by
  have word : x.toBits.toNat < signBit + signBit := x.toBits.toNat_lt
  unfold orderKey lineKey magnitude
  dsimp only
  by_cases plain : x.toBits.toNat < signBit
  · rw [if_pos plain, if_pos plain, Nat.mod_eq_of_lt plain]
    exact .inl ⟨plain, rfl, rfl⟩
  · have size : x.toBits.toNat % signBit = x.toBits.toNat - signBit := by
      rw [Nat.mod_eq_sub_mod (Nat.le_of_not_lt plain), Nat.mod_eq_of_lt (by omega)]
    rw [if_neg plain, if_neg plain, size]
    exact .inr ⟨Nat.le_of_not_lt plain, rfl, by omega⟩

theorem orderKey_injective {a b : Float} (same : orderKey a = orderKey b) : a = b := by
  have bits : a.toBits.toNat = b.toBits.toNat := by
    obtain ⟨ha, keyA, -⟩ | ⟨ha, keyA, -⟩ := orderKey_cases a <;>
      obtain ⟨hb, keyB, -⟩ | ⟨hb, keyB, -⟩ := orderKey_cases b <;> omega
  exact Float.toBits_inj.mp (UInt64.toNat_inj.mp bits)

/-- Numbers that rise in the total order rise on the line. -/
theorem atMost_of_orderKey_le (na : isNumber a = true) (nb : isNumber b = true) (le : orderKey a ≤ orderKey b) :
    atMost a b = true := by
  refine atMost_iff.mpr ⟨na, nb, ?_⟩
  obtain ⟨ha, keyA, lineA⟩ | ⟨ha, keyA, lineA⟩ := orderKey_cases a <;>
    obtain ⟨hb, keyB, lineB⟩ | ⟨hb, keyB, lineB⟩ := orderKey_cases b <;> omega

end SweepPlot.Number
