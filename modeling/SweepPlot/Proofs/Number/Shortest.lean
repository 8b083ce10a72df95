import SweepPlot.Proofs.Number.Nearest
set_option autoImplicit false

namespace SweepPlot.Number

section Grid

variable {m : Nat} {q k : Int}

/-- A quarter of a step, and of a grid point, in common units. -/
def quarter (q k : Int) : Nat :=
  twoTo (q - 2).toNat * tenTo (-k).toNat

def gridUnit (q k : Int) : Nat :=
  twoTo (2 - q).toNat * tenTo k.toNat

theorem quarter_pos (q k : Int) : 0 < quarter q k :=
  Nat.mul_pos (Nat.pow_pos (by decide)) (Nat.pow_pos (by decide))

theorem gridUnit_pos (q k : Int) : 0 < gridUnit q k :=
  Nat.mul_pos (Nat.pow_pos (by decide)) (Nat.pow_pos (by decide))

theorem exists_scale (q k : Int) :
    ∃ scale : ℚ, 0 < scale ∧ (quarter q k : ℚ) = scale * (2 ^ q / 4) ∧ (gridUnit q k : ℚ) = scale * 10 ^ k := by
  have twos : (2 : ℚ) ^ (q - 2) * 2 ^ (-(q - 2)).toNat = 2 ^ (q - 2).toNat := zpow_mul_toNat two_ne_zero (q - 2)
  have tens : (10 : ℚ) ^ k * 10 ^ (-k).toNat = 10 ^ k.toNat := zpow_mul_toNat (by norm_num) k
  have four : (2 : ℚ) ^ q / 4 = 2 ^ (q - 2) := by
    rw [zpow_sub₀ two_ne_zero]
    norm_num
  rw [neg_sub] at twos
  refine ⟨2 ^ (2 - q).toNat * 10 ^ (-k).toNat, by positivity, ?_, ?_⟩
  · unfold quarter
    push_cast
    rw [twoTo_eq, tenTo_eq, four, ← twos]
    ring
  · unfold gridUnit
    push_cast
    rw [twoTo_eq, tenTo_eq, ← tens]
    ring

theorem quarters_le_iff (a d : Nat) (q k : Int) :
    a * quarter q k ≤ d * gridUnit q k ↔ (a : ℚ) / 4 * 2 ^ q ≤ d * 10 ^ k := by
  obtain ⟨scale, positive, step, point⟩ := exists_scale q k
  rw [← mul_le_mul_iff_right₀ positive, ← Nat.cast_le (α := ℚ), Nat.cast_mul, Nat.cast_mul, step, point]
  ring_nf

theorem le_quarters_iff (a d : Nat) (q k : Int) :
    d * gridUnit q k ≤ a * quarter q k ↔ (d : ℚ) * 10 ^ k ≤ a / 4 * 2 ^ q := by
  obtain ⟨scale, positive, step, point⟩ := exists_scale q k
  rw [← mul_le_mul_iff_right₀ positive, ← Nat.cast_le (α := ℚ), Nat.cast_mul, Nat.cast_mul, step, point]
  ring_nf

def lowQuarters (m : Nat) (q : Int) : Nat :=
  if m = exponentBit ∧ -1074 < q then 4 * m - 1 else 4 * m - 2

theorem lowQuarters_eq (positive : 0 < m) : (lowQuarters m q : ℚ) / 4 = lowEnd m q := by
  unfold lowQuarters lowEnd
  split_ifs
  · rw [Nat.cast_sub (by omega)]
    push_cast
    ring
  · rw [Nat.cast_sub (by omega)]
    push_cast
    ring

/-- The test of a grid point: whether it is read as the double. -/
def readsBack (m : Nat) (q k : Int) (d : Nat) : Bool :=
  if m % 2 = 0 then
    lowQuarters m q * quarter q k ≤ d * gridUnit q k && d * gridUnit q k ≤ (4 * m + 2) * quarter q k
  else lowQuarters m q * quarter q k < d * gridUnit q k && d * gridUnit q k < (4 * m + 2) * quarter q k

theorem rounds_of_readsBack (positive : 0 < m) {d : Nat} (reads : readsBack m q k d = true) :
    Rounds m q (d * 10 ^ k) := by
  have ends : ((4 * m + 2 : Nat) : ℚ) / 4 = m + 1 / 2 := by
    push_cast
    ring
  unfold readsBack at reads
  split_ifs at reads with even
  · rw [Bool.and_eq_true, decide_eq_true_eq, decide_eq_true_eq, quarters_le_iff, le_quarters_iff,
      lowQuarters_eq positive, ends] at reads
    exact ⟨reads.1, reads.2, fun odd => by omega⟩
  · rw [Bool.and_eq_true, decide_eq_true_eq, decide_eq_true_eq, ← not_le, ← not_le, quarters_le_iff,
      le_quarters_iff, lowQuarters_eq positive, ends, not_le, not_le] at reads
    exact ⟨reads.1.le, reads.2.le, fun _ => reads⟩

/-- The search on a grid gives a point that is read back, unless neither neighbour of the value is. -/
theorem nearestOnGrid?_cases (m : Nat) (q k : Int) :
    (∃ d, nearestOnGrid? m q k = some d ∧ 0 < d ∧ readsBack m q k d = true) ∨
      (nearestOnGrid? m q k = none ∧
        ¬ (0 < 4 * m * quarter q k / gridUnit q k ∧ readsBack m q k (4 * m * quarter q k / gridUnit q k) = true) ∧
        readsBack m q k (4 * m * quarter q k / gridUnit q k + 1) = false) := by
  set below := 4 * m * quarter q k / gridUnit q k
  unfold nearestOnGrid?
  dsimp only
  split
  next lower upper =>
    have lower : (readsBack m q k below && decide (0 < below)) = true := lower
    rw [Bool.and_eq_true, decide_eq_true_eq] at lower
    refine .inl ⟨_, rfl, ?_⟩
    split_ifs
    · exact ⟨lower.2, lower.1⟩
    · exact ⟨Nat.succ_pos below, upper⟩
  next lower _ =>
    have lower : (readsBack m q k below && decide (0 < below)) = true := lower
    rw [Bool.and_eq_true, decide_eq_true_eq] at lower
    exact .inl ⟨below, rfl, lower.2, lower.1⟩
  next _ upper => exact .inl ⟨below + 1, rfl, Nat.succ_pos below, upper⟩
  next lower upper =>
    have lower : (readsBack m q k below && decide (0 < below)) = false := lower
    refine .inr ⟨rfl, fun given => ?_, upper⟩
    rw [given.2, decide_eq_true given.1] at lower
    cases lower

theorem readsBack_of_inside {d : Nat} (low : lowQuarters m q * quarter q k < d * gridUnit q k)
    (high : d * gridUnit q k < (4 * m + 2) * quarter q k) : readsBack m q k d = true := by
  unfold readsBack
  split_ifs
  · simp [low.le, high.le]
  · simp [low, high]

theorem lowQuarters_mul (positive : 0 < m) (u : Nat) :
    lowQuarters m q * u + u ≤ 4 * m * u ∧ (m ≠ exponentBit → lowQuarters m q * u + 2 * u = 4 * m * u) := by
  have enough : ∀ j : Nat, j ≤ 4 → (4 * m - j) * u + j * u = 4 * m * u := by
    intro j small
    rw [← Nat.add_mul, Nat.sub_add_cancel (by omega)]
  have one := enough 1 (by decide)
  have two := enough 2 (by decide)
  unfold lowQuarters
  split_ifs with edge
  · exact ⟨by omega, fun other => absurd edge.1 other⟩
  · exact ⟨by omega, fun _ => two⟩

/-- A grid of sixteen decades below the value has a point that is read back. -/
theorem nearestOnGrid?_isSome (canonical : Canonical m q) (fine : (10 : ℚ) ^ (k + 16) ≤ m * 2 ^ q) :
    ∃ d, nearestOnGrid? m q k = some d ∧ 0 < d ∧ Rounds m q (d * 10 ^ k) := by
  obtain ⟨d, hit, positive, reads⟩ | ⟨-, lower, upper⟩ := nearestOnGrid?_cases m q k
  · exact ⟨d, hit, positive, rounds_of_readsBack canonical.positive reads⟩
  exfalso
  have points : 10 ^ 16 * gridUnit q k ≤ 4 * m * quarter q k := by
    rw [le_quarters_iff]
    push_cast
    calc (10 : ℚ) ^ 16 * 10 ^ k = 10 ^ (k + 16) := by
          rw [zpow_add₀ (by norm_num), mul_comm]
          norm_num
      _ ≤ m * 2 ^ q := fine
      _ = 4 * m / 4 * 2 ^ q := by ring
  have fits : 4 * m * quarter q k ≤ (2 ^ 55 - 4) * quarter q k := by
    have small := canonical.fits
    exact Nat.mul_le_mul_right _ (by omega)
  have edge : m = exponentBit → 4 * m * quarter q k = 2 ^ 54 * quarter q k := by
    rintro rfl
    rfl
  have high : (4 * m + 2) * quarter q k = 4 * m * quarter q k + 2 * quarter q k := Nat.add_mul _ _ _
  obtain ⟨low, lowOther⟩ := lowQuarters_mul (q := q) canonical.positive (quarter q k)
  have quarters := quarter_pos q k
  have units := gridUnit_pos q k
  have whole := Nat.div_add_mod (4 * m * quarter q k) (gridUnit q k)
  have part := Nat.mod_lt (4 * m * quarter q k) units
  have given : 0 < 4 * m * quarter q k / gridUnit q k := Nat.div_pos (by omega) units
  rw [Nat.mul_comm (gridUnit q k)] at whole
  have next : (4 * m * quarter q k / gridUnit q k + 1) * gridUnit q k =
      4 * m * quarter q k / gridUnit q k * gridUnit q k + gridUnit q k := Nat.succ_mul _ _
  -- The neighbours are less than four quarters apart, so one is less than two from the value.
  by_cases near : 4 * m * quarter q k / gridUnit q k * gridUnit q k + gridUnit q k <
      4 * m * quarter q k + 2 * quarter q k
  · have reads : readsBack m q k (4 * m * quarter q k / gridUnit q k + 1) = true :=
      readsBack_of_inside (by omega) (by omega)
    rw [reads] at upper
    cases upper
  · refine lower ⟨given, readsBack_of_inside ?_ (by omega)⟩
    by_cases other : m = exponentBit
    · have narrow := edge other
      omega
    · have exactly := lowOther other
      omega

end Grid

section Search

variable {m : Nat} {q k : Int}

theorem decade_table : (∀ n < 1024, 10 ^ (n * 30103 / 100000) ≤ 2 ^ n) ∧
    ∀ n < 1075, 2 ^ n ≤ 10 ^ ((n * 30103 + 99999) / 100000) := by
  decide +kernel

/-- The guess is never above the decade, over all exponents of doubles. -/
theorem pow_guess_le {e : Int} (low : -1074 ≤ e) (high : e ≤ 1023) :
    (10 : ℚ) ^ (e * 30103 / 100000) ≤ 2 ^ e := by
  obtain ⟨up, down⟩ := decade_table
  obtain ⟨n, rfl | rfl⟩ := e.eq_nat_or_neg
  · have below := up n (by omega)
    rw [show ((n : Int) * 30103 / 100000) = ((n * 30103 / 100000 : Nat) : Int) by omega, zpow_natCast, zpow_natCast]
    exact_mod_cast below
  · have above := down n (by omega)
    rw [show (-(n : Int) * 30103 / 100000) = -(((n * 30103 + 99999) / 100000 : Nat) : Int) by omega, zpow_neg, zpow_neg,
      zpow_natCast, zpow_natCast]
    exact inv_anti₀ (by positivity) (by exact_mod_cast above)

theorem tenTo_le_iff (m : Nat) (q k : Int) :
    tenTo k.toNat * twoTo (-q).toNat ≤ m * twoTo q.toNat * tenTo (-k).toNat ↔ (10 : ℚ) ^ k ≤ m * 2 ^ q := by
  have twos : (2 : ℚ) ^ q * 2 ^ (-q).toNat = 2 ^ q.toNat := zpow_mul_toNat two_ne_zero q
  have tens : (10 : ℚ) ^ k * 10 ^ (-k).toNat = 10 ^ k.toNat := zpow_mul_toNat (by norm_num) k
  have positive : (0 : ℚ) < 10 ^ (-k).toNat * 2 ^ (-q).toNat := by positivity
  rw [← mul_le_mul_iff_left₀ positive, ← Nat.cast_le (α := ℚ)]
  push_cast
  rw [twoTo_eq, twoTo_eq, tenTo_eq, tenTo_eq, ← twos, ← tens]
  ring_nf

theorem pow_decade_le (canonical : Canonical m q) : (10 : ℚ) ^ decade m q ≤ m * 2 ^ q := by
  have leading : (2 : ℚ) ^ ((m.log2 : Int) + q) ≤ m * 2 ^ q := by
    rw [zpow_add₀ two_ne_zero, zpow_natCast]
    have self : (2 : ℚ) ^ m.log2 ≤ m := by exact_mod_cast Nat.log2_self_le canonical.positive.ne'
    exact mul_le_mul_of_nonneg_right self (by positivity)
  have small : m.log2 < 53 := (Nat.log2_lt canonical.positive.ne').mpr canonical.fits
  have guessed : (10 : ℚ) ^ (((m.log2 : Int) + q) * 30103 / 100000) ≤ 2 ^ ((m.log2 : Int) + q) := by
    have low := canonical.low
    have high := canonical.high
    exact pow_guess_le (by omega) (by omega)
  unfold decade
  dsimp only
  split_ifs with reached
  · exact (tenTo_le_iff _ _ _).mp reached
  · exact guessed.trans leading

theorem searchGrid_spec (canonical : Canonical m q) {more : Nat} (fine : (10 : ℚ) ^ (k - more + 16) ≤ m * 2 ^ q) :
    0 < (searchGrid m q (more + 1) k).1 ∧
      Rounds m q ((searchGrid m q (more + 1) k).1 * 10 ^ (searchGrid m q (more + 1) k).2) := by
  induction more generalizing k with
  | zero =>
    rw [Nat.cast_zero, sub_zero] at fine
    obtain ⟨d, hit, positive, rounds⟩ := nearestOnGrid?_isSome canonical fine
    rw [searchGrid, hit]
    exact ⟨positive, rounds⟩
  | succ more ih =>
    rw [searchGrid]
    obtain ⟨d, hit, positive, reads⟩ | ⟨none, -, -⟩ := nearestOnGrid?_cases m q k
    · rw [hit]
      exact ⟨positive, rounds_of_readsBack canonical.positive reads⟩
    · rw [none]
      refine ih (le_of_eq_of_le ?_ fine)
      congr 1
      push_cast
      omega

/-- The printed digits are those of a decimal that is read as the double. -/
theorem shortest_spec (canonical : Canonical m q) :
    0 < (shortest m q).1 ∧ Rounds m q ((shortest m q).1 * 10 ^ (shortest m q).2) := by
  refine searchGrid_spec canonical (le_of_eq_of_le ?_ (pow_decade_le canonical))
  congr 1
  omega

theorem dropEndZeros_spec (n : Nat) (k : Int) (more : Nat) :
    ((dropEndZeros n k more).1 : ℚ) * 10 ^ (dropEndZeros n k more).2 = n * 10 ^ k ∧
      (0 < n → 0 < (dropEndZeros n k more).1) := by
  induction more generalizing n k with
  | zero => exact ⟨rfl, id⟩
  | succ more ih =>
    rw [dropEndZeros]
    split_ifs with ends
    · obtain ⟨value, positive⟩ := ih (n / 10) (k + 1)
      have tenfold : (n : ℚ) = (n / 10 : Nat) * 10 := by
        exact_mod_cast (Nat.div_mul_cancel (Nat.dvd_of_mod_eq_zero ends)).symm
      refine ⟨?_, fun given => positive (by omega)⟩
      rw [value, tenfold, zpow_add_one₀ (by norm_num)]
      ring
    · exact ⟨rfl, id⟩

end Search

end SweepPlot.Number
