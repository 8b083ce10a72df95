import Mathlib
import SweepPlot.Proofs.Number.Digits
set_option autoImplicit false

/-!
A number in the rounding interval of a double is read as that double. Numbers are rational here; the interval of
m * 2 ^ q reaches half a step to both sides, a quarter below where the steps get smaller, and has its ends if m is
even. An integer that is a double is read as itself.
-/

namespace SweepPlot.Number

section Scaling

theorem twoTo_eq (k : Nat) : ((twoTo k : Nat) : ℚ) = 2 ^ k := by
  simp [twoTo]

theorem tenTo_eq (k : Nat) : ((tenTo k : Nat) : ℚ) = 10 ^ k := by
  simp [tenTo]

theorem exponentBit_eq : exponentBit = 4503599627370496 := by
  decide

theorem zpow_mul_toNat {b : ℚ} (given : b ≠ 0) (e : Int) : b ^ e * b ^ (-e).toNat = b ^ e.toNat := by
  rw [← zpow_natCast, ← zpow_natCast, ← zpow_add₀ given]
  congr 1
  omega

theorem mul_twoTo_le_iff (a c : Nat) (e : Int) :
    a * twoTo e.toNat ≤ c * twoTo (-e).toNat ↔ (a : ℚ) * 2 ^ e ≤ c := by
  have positive : (0 : ℚ) < 2 ^ (-e).toNat := by positivity
  rw [← mul_le_mul_iff_left₀ positive, mul_assoc, zpow_mul_toNat two_ne_zero, ← twoTo_eq, ← twoTo_eq]
  exact_mod_cast Iff.rfl

end Scaling

section Rounding

/-- A quotient within half of a natural number rounds to it, at half only if that is even. -/
theorem roundDiv_eq {n d s : Nat} (positive : 0 < d) (low : 2 * (s * d) ≤ 2 * n + d) (high : 2 * n ≤ 2 * (s * d) + d)
    (odd : s % 2 = 1 → 2 * (s * d) < 2 * n + d ∧ 2 * n < 2 * (s * d) + d) : roundDiv n d = s := by
  have whole := Nat.div_add_mod n d
  have part := Nat.mod_lt n positive
  unfold roundDiv
  generalize n / d = q at whole ⊢
  generalize n % d = r at whole part ⊢
  have above : s < q + 2 := by
    refine Nat.lt_of_mul_lt_mul_right (a := d) ?_
    have expand : (q + 2) * d = d * q + 2 * d := by ring
    omega
  have below : q < s + 1 := by
    refine Nat.lt_of_mul_lt_mul_right (a := d) ?_
    have expand : (s + 1) * d = s * d + d := by ring
    have same : q * d = d * q := Nat.mul_comm q d
    omega
  obtain rfl | rfl : s = q ∨ s = q + 1 := by omega
  · have same : s * d = d * s := Nat.mul_comm s d
    dsimp only
    split_ifs <;> omega
  · have expand : (q + 1) * d = d * q + d := by ring
    dsimp only
    split_ifs <;> omega

theorem roundDiv_mul (q : Nat) {d : Nat} (positive : 0 < d) : roundDiv (q * d) d = q := by
  unfold roundDiv
  rw [Nat.mul_mod_left, Nat.mul_div_cancel q positive]
  exact if_pos positive

theorem nearestWhole_of_natAbs_le {n : Int} (small : n.natAbs ≤ 2 ^ 53) : nearestWhole n = n := by
  have divides : twoTo (n.natAbs.log2 - 52) ∣ n.natAbs := by
    obtain less | same := Nat.lt_or_eq_of_le small
    · have short : n.natAbs.log2 ≤ 52 := by
        by_cases zero : n.natAbs = 0
        · rw [zero]
          decide
        · exact Nat.le_of_lt_succ ((Nat.log2_lt zero).mpr less)
      rw [Nat.sub_eq_zero_of_le short]
      exact one_dvd _
    · rw [same, Nat.log2_two_pow]
      exact Dvd.intro_left (2 ^ 52) rfl
  obtain ⟨q, exact⟩ := divides
  have positive : 0 < twoTo (n.natAbs.log2 - 52) := Nat.pow_pos (by decide)
  have kept : roundDiv n.natAbs (twoTo (n.natAbs.log2 - 52)) * twoTo (n.natAbs.log2 - 52) = n.natAbs := by
    generalize twoTo (n.natAbs.log2 - 52) = unit at exact positive ⊢
    rw [exact, Nat.mul_comm unit q, roundDiv_mul q positive]
  rw [nearestWhole]
  simp only [kept]
  split <;> omega
theorem binade_spec {n d : Nat} (hn : 0 < n) (hd : 0 < d) :
    (2 : ℚ) ^ binade n d ≤ n / d ∧ (n / d : ℚ) < 2 ^ (binade n d + 1) := by
  have positive : (0 : ℚ) < d := by exact_mod_cast hd
  have lowN : (2 : ℚ) ^ (n.log2 : Int) ≤ n := by
    rw [zpow_natCast]
    exact_mod_cast Nat.log2_self_le hn.ne'
  have highN : (n : ℚ) < 2 ^ ((n.log2 : Int) + 1) := by
    exact_mod_cast Nat.lt_log2_self
  have lowD : (2 : ℚ) ^ (d.log2 : Int) ≤ d := by
    rw [zpow_natCast]
    exact_mod_cast Nat.log2_self_le hd.ne'
  have highD : (d : ℚ) < 2 ^ ((d.log2 : Int) + 1) := by
    exact_mod_cast Nat.lt_log2_self
  set guess : Int := (n.log2 : Int) - d.log2 with hg
  have test : d * twoTo guess.toNat ≤ n * twoTo (-guess).toNat ↔ (2 : ℚ) ^ guess ≤ n / d := by
    rw [le_div_iff₀ positive, mul_comm (2 ^ guess), mul_twoTo_le_iff]
  have upper : (n / d : ℚ) < 2 ^ (guess + 1) := by
    rw [div_lt_iff₀ positive]
    calc (n : ℚ) < 2 ^ ((n.log2 : Int) + 1) := highN
      _ = 2 ^ (guess + 1) * 2 ^ (d.log2 : Int) := by
        rw [← zpow_add₀ two_ne_zero]
        congr 1
        omega
      _ ≤ 2 ^ (guess + 1) * d := by gcongr
  have lower : (2 : ℚ) ^ (guess - 1) ≤ n / d := by
    rw [le_div_iff₀ positive]
    calc (2 : ℚ) ^ (guess - 1) * d ≤ 2 ^ (guess - 1) * 2 ^ ((d.log2 : Int) + 1) := by gcongr
      _ = 2 ^ (n.log2 : Int) := by
        rw [← zpow_add₀ two_ne_zero]
        congr 1
        omega
      _ ≤ n := lowN
  unfold binade
  rw [← hg]
  dsimp only
  split_ifs with reached
  · exact ⟨test.mp reached, upper⟩
  · rw [sub_add_cancel]
    exact ⟨lower, lt_of_not_ge (test.not.mp reached)⟩

end Rounding

/-- Significand and exponent of a positive finite double. -/
structure Canonical (m : Nat) (q : Int) : Prop where
  positive : 0 < m
  fits : m < 2 ^ 53
  low : -1074 ≤ q
  high : q ≤ 971
  full : q = -1074 ∨ 2 ^ 52 ≤ m

def lowEnd (m : Nat) (q : Int) : ℚ :=
  if m = exponentBit ∧ -1074 < q then m - 1 / 4 else m - 1 / 2

/-- The number is between the ends of the rounding interval, and at one only if the significand is even. -/
structure Rounds (m : Nat) (q : Int) (r : ℚ) : Prop where
  low : lowEnd m q * 2 ^ q ≤ r
  high : r ≤ (m + 1 / 2) * 2 ^ q
  odd : m % 2 = 1 → lowEnd m q * 2 ^ q < r ∧ r < (m + 1 / 2) * 2 ^ q

section Nearest

variable {m n d : Nat} {q : Int}

theorem roundDiv_scaled {s : Nat} {e : Int} (hd : 0 < d) (low : ((s : ℚ) - 1 / 2) * 2 ^ e ≤ n / d)
    (high : (n / d : ℚ) ≤ (s + 1 / 2) * 2 ^ e)
    (odd : s % 2 = 1 → ((s : ℚ) - 1 / 2) * 2 ^ e < n / d ∧ (n / d : ℚ) < (s + 1 / 2) * 2 ^ e) :
    roundDiv (n * twoTo (-e).toNat) (d * twoTo e.toNat) = s := by
  have step : (0 : ℚ) < 2 ^ e := by positivity
  have inside : (0 : ℚ) < d := by exact_mod_cast hd
  have width : 0 < d * twoTo e.toNat := Nat.mul_pos hd (Nat.pow_pos (by decide))
  have width' : (0 : ℚ) < (d * twoTo e.toNat : Nat) := by exact_mod_cast width
  have scaled : ((n * twoTo (-e).toNat : Nat) : ℚ) = n / d / 2 ^ e * (d * twoTo e.toNat : Nat) := by
    push_cast
    rw [twoTo_eq, twoTo_eq, ← zpow_mul_toNat two_ne_zero e]
    field_simp
  rw [← le_div_iff₀ step] at low
  rw [← div_le_iff₀ step] at high
  rw [← lt_div_iff₀ step, ← div_lt_iff₀ step] at odd
  generalize (n / d / 2 ^ e : ℚ) = x at low high odd scaled
  generalize d * twoTo e.toNat = D at width width' scaled ⊢
  generalize n * twoTo (-e).toNat = N at scaled ⊢
  have lower : ((s : ℚ) - 1 / 2) * D ≤ N := by
    rw [scaled]
    exact mul_le_mul_of_nonneg_right low width'.le
  have upper : (N : ℚ) ≤ (s + 1 / 2) * D := by
    rw [scaled]
    exact mul_le_mul_of_nonneg_right high width'.le
  refine roundDiv_eq width ?_ ?_ fun isOdd => ?_
  · have doubled : ((2 * (s * D) : Nat) : ℚ) ≤ (2 * N + D : Nat) := by
      push_cast
      linarith
    exact_mod_cast doubled
  · have doubled : ((2 * N : Nat) : ℚ) ≤ (2 * (s * D) + D : Nat) := by
      push_cast
      linarith
    exact_mod_cast doubled
  · obtain ⟨above, below⟩ := odd isOdd
    have lower : ((s : ℚ) - 1 / 2) * D < N := by
      rw [scaled]
      exact mul_lt_mul_of_pos_right above width'
    have upper : (N : ℚ) < (s + 1 / 2) * D := by
      rw [scaled]
      exact mul_lt_mul_of_pos_right below width'
    constructor
    · have doubled : ((2 * (s * D) : Nat) : ℚ) < (2 * N + D : Nat) := by
        push_cast
        linarith
      exact_mod_cast doubled
    · have doubled : ((2 * N : Nat) : ℚ) < (2 * (s * D) + D : Nat) := by
        push_cast
        linarith
      exact_mod_cast doubled

theorem lowEnd_le (m : Nat) (q : Int) : (m : ℚ) - 1 / 2 ≤ lowEnd m q := by
  unfold lowEnd
  split_ifs <;> linarith

/-- The exponent in which a number in the interval is read: that of the double, or the one below if it lies below
a power of two. -/
theorem binade_of_rounds (canonical : Canonical m q) (hn : 0 < n) (hd : 0 < d) (rounds : Rounds m q (n / d)) :
    max (binade n d - 52) (-1074) = q ∨
      (m = exponentBit ∧ -1074 < q ∧ max (binade n d - 52) (-1074) = q - 1 ∧ (n / d : ℚ) < m * 2 ^ q) := by
  obtain ⟨reaches, before⟩ := binade_spec hn hd
  have step : (0 : ℚ) < 2 ^ q := by positivity
  have order : ∀ {a c : Int}, (2 : ℚ) ^ a < 2 ^ c → a < c := fun less => (zpow_lt_zpow_iff_right₀ one_lt_two).mp less
  have shift : ∀ k : Int, (2 : ℚ) ^ (q + k) = 2 ^ k * 2 ^ q := fun k => by rw [zpow_add₀ two_ne_zero, mul_comm]
  have fits : (m : ℚ) + 1 / 2 < 2 ^ (53 : Int) := by
    have : (m : ℚ) + 1 ≤ 2 ^ 53 := by exact_mod_cast canonical.fits
    norm_num at this ⊢
    linarith
  have below : binade n d < q + 53 := by
    apply order
    rw [shift]
    exact lt_of_le_of_lt (reaches.trans rounds.high) (mul_lt_mul_of_pos_right fits step)
  obtain least | full := canonical.full
  · left
    omega
  by_cases least : q = -1074
  · left
    omega
  have least : -1074 < q := lt_of_le_of_ne canonical.low (Ne.symm least)
  have full' : (2 : ℚ) ^ (52 : Int) ≤ m := by exact_mod_cast full
  by_cases inside : (2 : ℚ) ^ (q + 52) ≤ n / d
  · have reached := order (inside.trans_lt before)
    left
    omega
  · -- Only below a power of two does the interval reach into the binade below.
    right
    rw [not_le, shift] at inside
    have edge : m = exponentBit := by
      by_contra other
      have more : (2 : ℚ) ^ (52 : Int) + 1 ≤ m := by exact_mod_cast Nat.lt_of_le_of_ne full (Ne.symm other)
      have low := rounds.low
      rw [lowEnd, if_neg fun both => other both.1] at low
      nlinarith
    have low := rounds.low
    rw [lowEnd, if_pos ⟨edge, least⟩] at low
    have next : binade n d < q + 52 := by
      apply order
      rw [shift]
      exact reaches.trans_lt inside
    have last : q + 51 < binade n d + 1 := by
      apply order
      rw [shift]
      refine lt_of_le_of_lt (le_trans ?_ low) before
      have half : (2 : ℚ) ^ (51 : Int) ≤ m - 1 / 4 := by
        have twice : (2 : ℚ) ^ (52 : Int) = 2 * 2 ^ (51 : Int) := by norm_num
        have one : (1 : ℚ) ≤ 2 ^ (51 : Int) := by norm_num
        linarith
      exact mul_le_mul_of_nonneg_right half step.le
    refine ⟨edge, least, by omega, lt_of_lt_of_le inside ?_⟩
    exact mul_le_mul_of_nonneg_right full' step.le

/-- A number in the rounding interval of a double is read as that double. -/
theorem nearestBits_eq (canonical : Canonical m q) (hn : 0 < n) (hd : 0 < d) (rounds : Rounds m q (n / d)) :
    nearestBits n d = (q + 1074).toNat * exponentBit + m := by
  have step : (0 : ℚ) < 2 ^ q := by positivity
  have finite : (q + 1074).toNat * exponentBit + m ≤ infinityBits := by
    have high := canonical.high
    have fits := canonical.fits
    have widest : (q + 1074).toNat ≤ 2045 := by omega
    have top := Nat.mul_le_mul_right exponentBit widest
    have limit : infinityBits = 2045 * exponentBit + 2 ^ 53 := by decide
    omega
  unfold nearestBits
  obtain same | ⟨edge, least, down, under⟩ := binade_of_rounds canonical hn hd rounds
  · have low : ∀ x : ℚ, lowEnd m q * 2 ^ q ≤ x → ((m : ℚ) - 1 / 2) * 2 ^ q ≤ x := fun x le =>
      le_trans (mul_le_mul_of_nonneg_right (lowEnd_le m q) step.le) le
    have rounded : roundDiv (n * twoTo (-q).toNat) (d * twoTo q.toNat) = m := by
      refine roundDiv_scaled hd (low _ rounds.low) rounds.high fun isOdd => ?_
      obtain ⟨above, before⟩ := rounds.odd isOdd
      exact ⟨lt_of_le_of_lt (low _ le_rfl) above, before⟩
    dsimp only
    rw [same, rounded, min_eq_left finite]
  · have half : (2 : ℚ) ^ q = 2 * 2 ^ (q - 1) := by
      rw [← zpow_one_add₀ two_ne_zero]
      congr 1
      omega
    have value : (m : ℚ) = 2 ^ 52 := by
      rw [edge, exponentBit, twoTo_eq]
    have low := rounds.low
    rw [lowEnd, if_pos ⟨edge, least⟩, half, value] at low
    rw [half, value] at under
    have smaller : (0 : ℚ) < 2 ^ (q - 1) := by positivity
    have rounded : roundDiv (n * twoTo (-(q - 1)).toNat) (d * twoTo (q - 1).toNat) = 2 ^ 53 := by
      refine roundDiv_scaled hd ?_ ?_ fun isOdd => absurd isOdd (by decide)
      · push_cast
        nlinarith
      · push_cast
        nlinarith
    have carried : (q - 1 + 1074).toNat * exponentBit + 2 ^ 53 = (q + 1074).toNat * exponentBit + m := by
      obtain ⟨k, hk⟩ : ∃ k : Nat, q + 1074 = k + 1 := ⟨(q + 1073).toNat, by omega⟩
      have one : (q + 1074).toNat = k + 1 := by omega
      have other : (q - 1 + 1074).toNat = k := by omega
      rw [one, other, edge, Nat.succ_mul, exponentBit_eq]
      omega
    dsimp only
    rw [down, rounded, carried, min_eq_left finite]

end Nearest

section Decimal

variable {m c : Nat} {q k : Int}

theorem tenTo_quotient (c : Nat) (k : Int) :
    ((c * tenTo k.toNat : Nat) / (tenTo (-k).toNat : Nat) : ℚ) = c * 10 ^ k := by
  have positive : (0 : ℚ) < 10 ^ (-k).toNat := by positivity
  push_cast
  rw [tenTo_eq, tenTo_eq, ← zpow_mul_toNat (by norm_num) k]
  field_simp

/-- All numbers that are read as positive finite doubles, within rough bounds. -/
theorem Rounds.bounds (canonical : Canonical m q) {r : ℚ} (rounds : Rounds m q r) :
    (2 : ℚ) ^ (-1075 : Int) ≤ r ∧ r ≤ 2 ^ (1024 : Int) := by
  have step : (0 : ℚ) < 2 ^ q := by positivity
  have least : (2 : ℚ) ^ (-1074 : Int) ≤ 2 ^ q := zpow_le_zpow_right₀ one_le_two canonical.low
  have most : (2 : ℚ) ^ q ≤ 2 ^ (971 : Int) := zpow_le_zpow_right₀ one_le_two canonical.high
  have given : (1 : ℚ) ≤ m := by exact_mod_cast canonical.positive
  have fits : (m : ℚ) + 1 ≤ 2 ^ (53 : Int) := by exact_mod_cast canonical.fits
  have low := lowEnd_le m q
  constructor
  · calc (2 : ℚ) ^ (-1075 : Int) = 1 / 2 * 2 ^ (-1074 : Int) := by
          rw [show (-1074 : Int) = 1 + -1075 from rfl, zpow_add₀ two_ne_zero]
          ring
      _ ≤ lowEnd m q * 2 ^ q := by
        apply mul_le_mul _ least (by positivity)
        · linarith
        · linarith
      _ ≤ r := rounds.low
  · calc r ≤ (m + 1 / 2) * 2 ^ q := rounds.high
      _ ≤ 2 ^ (53 : Int) * 2 ^ (971 : Int) := by
        apply mul_le_mul _ most step.le (by positivity)
        linarith
      _ = 2 ^ (1024 : Int) := by
        rw [← zpow_add₀ two_ne_zero]
        norm_num

theorem tens_outgrow_twos : 2 ^ 1075 < 10 ^ 401 ∧ 2 ^ 1024 < 10 ^ 400 := by
  decide +kernel

theorem decimalBits_eq (canonical : Canonical m q) (hc : 0 < c) (rounds : Rounds m q (c * 10 ^ k)) :
    decimalBits c k = (q + 1074).toNat * exponentBit + m := by
  obtain ⟨least, most⟩ := rounds.bounds canonical
  have size : (toString c).length = (Nat.toDigits 10 c).length := by
    rw [← String.length_toList, toList_toString]
  have tens : (0 : ℚ) < 10 ^ k := by positivity
  have ten : (10 : ℚ) ≠ 0 := by norm_num
  have digits : 0 < (Nat.toDigits 10 c).length := Nat.length_toDigits_pos
  have below : (c : ℚ) * 10 ^ k < 10 ^ (((Nat.toDigits 10 c).length : Int) + k) := by
    rw [zpow_add₀ ten, zpow_natCast]
    exact mul_lt_mul_of_pos_right (by exact_mod_cast lt_pow_length_toDigits c) tens
  have above : (10 : ℚ) ^ ((((Nat.toDigits 10 c).length - 1 : Nat) : Int) + k) ≤ c * 10 ^ k := by
    rw [zpow_add₀ ten, zpow_natCast]
    exact mul_le_mul_of_nonneg_right (by exact_mod_cast pow_length_toDigits_le hc) tens.le
  have notSmall : ¬ ((Nat.toDigits 10 c).length : Int) + k < -400 := by
    intro small
    have tiny : (10 : ℚ) ^ (((Nat.toDigits 10 c).length : Int) + k) ≤ 10 ^ (-401 : Int) :=
      zpow_le_zpow_right₀ (by norm_num) (by omega)
    have less : (10 : ℚ) ^ (-401 : Int) < 2 ^ (-1075 : Int) := by
      rw [zpow_neg, zpow_neg]
      exact inv_strictAnti₀ (by positivity) (by exact_mod_cast tens_outgrow_twos.1)
    exact absurd (least.trans_lt below) (not_lt.mpr (tiny.trans less.le))
  have notLarge : ¬ 400 < ((Nat.toDigits 10 c).length : Int) + k := by
    intro large
    have huge : (10 : ℚ) ^ (400 : Int) ≤ 10 ^ ((((Nat.toDigits 10 c).length - 1 : Nat) : Int) + k) :=
      zpow_le_zpow_right₀ (by norm_num) (by omega)
    have more : (2 : ℚ) ^ (1024 : Int) < 10 ^ (400 : Int) := by exact_mod_cast tens_outgrow_twos.2
    exact absurd (huge.trans (above.trans most)) (not_le.mpr more)
  unfold decimalBits
  rw [size]
  dsimp only
  rw [if_neg (by omega), if_neg notLarge]
  refine nearestBits_eq canonical ?_ ?_ ?_
  · exact Nat.mul_pos hc (Nat.pow_pos (by decide))
  · exact Nat.pow_pos (by decide)
  · rw [tenTo_quotient]
    exact rounds

end Decimal

end SweepPlot.Number
