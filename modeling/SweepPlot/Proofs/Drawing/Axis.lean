import Mathlib
import SweepPlot.Drawing.Axis
set_option autoImplicit false

namespace SweepPlot.Drawing

noncomputable instance exactAxis : AxisNumber ℝ where
  log10 := Real.logb 10
  floor v := ⌊v⌋
  ceil v := ⌈v⌉
  size := abs
  larger := max

/-- The ends of some values that the scale can show. -/
structure DataRange (scale : Scale) where
  low : ℝ
  high : ℝ
  ordered : low ≤ high
  positive : scale = .log → 0 < low

variable {scale : Scale}

def DataRange.ends (r : DataRange scale) : ℝ × ℝ :=
  (r.low, r.high)

/-- The ends of the range; without one those of the unit interval. -/
def shown (range : Option (DataRange scale)) : ℝ × ℝ :=
  (range.map DataRange.ends).getD (0, 1)

/-- All values of the range stand on the axis; without a range there are none. -/
def Covers (range : Option (DataRange scale)) (axis : ℝ × ℝ) : Prop :=
  ∀ r ∈ range, ∀ value, r.low ≤ value → value ≤ r.high →
    axis.1 ≤ toAxis scale value ∧ toAxis scale value ≤ axis.2

def decades (bottom top : ℤ) : ℝ × ℝ :=
  (bottom, top)

/-- Whole decades around the values, as few as can be: the lower one as high as the values let it, and the upper one
as low as they and the lower one let it. Without values they begin at zero. -/
structure FewestDecades (range : Option (DataRange scale)) (bottom top : ℤ) : Prop where
  apart : bottom + 1 ≤ top
  highest : range ≠ none → ∀ lower upper, Covers range (decades lower upper) → lower ≤ bottom
  empty : range = none → bottom = 0
  lowest : ∀ upper, bottom + 1 ≤ upper → Covers range (decades bottom upper) → top ≤ upper

/-- The axis goes upwards and covers the range. A linear one ends outside the range, a log one at whole decades. -/
structure Frames (range : Option (DataRange scale)) (axis : ℝ × ℝ) : Prop where
  rising : axis.1 < axis.2
  covers : Covers range axis
  outside : scale = .linear → axis.1 < (shown range).1 ∧ (shown range).2 < axis.2
  whole : scale = .log → ∃ bottom top, axis = decades bottom top ∧ FewestDecades range bottom top

theorem toAxis_le {low high : ℝ} (positive : scale = .log → 0 < low) (ordered : low ≤ high) :
    toAxis scale low ≤ toAxis scale high := by
  cases scale with
  | linear => exact ordered
  | log => exact Real.logb_le_logb_of_le (by norm_num) (positive rfl) ordered

theorem covers_none (axis : ℝ × ℝ) : Covers (none : Option (DataRange scale)) axis := by
  rintro r ⟨⟩

theorem covers_some_iff {r : DataRange scale} {axis : ℝ × ℝ} :
    Covers (some r) axis ↔ axis.1 ≤ toAxis scale r.low ∧ toAxis scale r.high ≤ axis.2 := by
  constructor
  · intro covers
    exact ⟨(covers r rfl r.low le_rfl r.ordered).1, (covers r rfl r.high r.ordered le_rfl).2⟩
  · rintro ⟨below, above⟩ _ ⟨⟩ value lower upper
    have positive : scale = .log → 0 < value := fun log => (r.positive log).trans_le lower
    exact ⟨below.trans (toAxis_le r.positive lower), (toAxis_le positive upper).trans above⟩

section Log

theorem decadeRange_eq (low high : ℝ) :
    decadeRange low high = decades ⌊low⌋ (max ⌈high⌉ (⌊low⌋ + 1)) := by
  norm_num [decadeRange, decades, AxisNumber.floor, AxisNumber.larger, AxisNumber.ceil]

theorem fewestDecades_none : FewestDecades (none : Option (DataRange scale)) 0 1 where
  apart := le_rfl
  highest given := absurd rfl given
  empty _ := rfl
  lowest _ apart _ := apart

theorem fewestDecades_some (r : DataRange scale) : FewestDecades (some r) ⌊toAxis scale r.low⌋
    (max ⌈toAxis scale r.high⌉ (⌊toAxis scale r.low⌋ + 1)) where
  apart := le_max_right _ _
  highest _ _ _ covers := Int.le_floor.mpr (covers_some_iff.mp covers).1
  empty := nofun
  lowest _ apart covers := max_le (Int.ceil_le.mpr (covers_some_iff.mp covers).2) apart

theorem covers_decades (r : DataRange scale) :
    Covers (some r) (decades ⌊toAxis scale r.low⌋ (max ⌈toAxis scale r.high⌉ (⌊toAxis scale r.low⌋ + 1))) := by
  refine covers_some_iff.mpr ⟨Int.floor_le _, ?_⟩
  calc
    toAxis scale r.high ≤ ⌈toAxis scale r.high⌉ := Int.le_ceil _
    _ ≤ (max ⌈toAxis scale r.high⌉ (⌊toAxis scale r.low⌋ + 1) : ℤ) := Int.cast_le.mpr (le_max_left _ _)

theorem FewestDecades.frames {range : Option (DataRange .log)} {bottom top : ℤ}
    (fewest : FewestDecades range bottom top) (covers : Covers range (decades bottom top)) :
    Frames range (decades bottom top) where
  rising := Int.cast_lt.mpr fewest.apart
  covers := covers
  outside := nofun
  whole _ := ⟨bottom, top, rfl, fewest⟩

theorem frames_log (range : Option (DataRange .log)) : Frames range (axisRange .log (range.map DataRange.ends)) := by
  cases range with
  | none =>
    have drawn : axisRange .log ((none : Option (DataRange .log)).map DataRange.ends) = decades 0 1 := by
      norm_num [axisRange, decadeRange_eq]
    rw [drawn]
    exact fewestDecades_none.frames (covers_none _)
  | some r =>
    have drawn : axisRange .log ((some r).map DataRange.ends) =
        decadeRange (toAxis .log r.low) (toAxis .log r.high) := rfl
    rw [drawn, decadeRange_eq]
    exact (fewestDecades_some r).frames (covers_decades r)

end Log

section Linear

theorem exists_margin (low high : ℝ) :
    ∃ margin, 0 < margin ∧ paddedRange low high = (low - margin, high + margin) := by
  refine ⟨_, ?_, rfl⟩
  split
  next wide =>
    norm_num at *
    linarith
  · norm_num [AxisNumber.larger]

theorem axisRange_linear (range : Option (DataRange .linear)) :
    axisRange .linear (range.map DataRange.ends) = paddedRange (shown range).1 (shown range).2 := by
  cases range with
  | none => norm_num [axisRange, shown]
  | some r => rfl

theorem shown_ordered (range : Option (DataRange scale)) : (shown range).1 ≤ (shown range).2 := by
  cases range with
  | none => exact zero_le_one
  | some r => exact r.ordered

theorem frames_linear (range : Option (DataRange .linear)) :
    Frames range (axisRange .linear (range.map DataRange.ends)) := by
  obtain ⟨margin, positive, padded⟩ := exists_margin (shown range).1 (shown range).2
  have below : (shown range).1 - margin < (shown range).1 := sub_lt_self _ positive
  have above : (shown range).2 < (shown range).2 + margin := lt_add_of_pos_right _ positive
  rw [axisRange_linear, padded]
  refine ⟨below.trans_le ((shown_ordered range).trans above.le), ?_, fun _ => ⟨below, above⟩, nofun⟩
  cases range with
  | none => exact covers_none _
  | some r => exact covers_some_iff.mpr ⟨below.le, above.le⟩

end Linear

/-- Whatever the scale and the range, also where all values are one, the axis has some length and covers them. -/
theorem axisRange_frames (range : Option (DataRange scale)) :
    Frames range (axisRange scale (range.map DataRange.ends)) := by
  cases scale with
  | linear => exact frames_linear range
  | log => exact frames_log range

def thousand : DataRange .log where
  low := 1000
  high := 1000
  ordered := le_rfl
  positive _ := by norm_num

theorem axisRange_frames_thousand : axisRange .log (some ((1000 : ℝ), 1000)) = (3, 4) := by
  have third : toAxis .log (1000 : ℝ) = 3 := by
    change Real.logb 10 1000 = 3
    rw [show (1000 : ℝ) = 10 ^ (3 : ℝ) by norm_num, Real.logb_rpow (by norm_num) (by norm_num)]
  have covers_iff : ∀ bottom top : ℤ,
      Covers (some thousand) (decades bottom top) ↔ bottom ≤ 3 ∧ 3 ≤ top := by
    intro bottom top
    rw [covers_some_iff, thousand, third]
    change (bottom : ℝ) ≤ 3 ∧ 3 ≤ (top : ℝ) ↔ _
    norm_cast
  have framed := axisRange_frames (some thousand)
  obtain ⟨bottom, top, drawn, fewest⟩ := framed.whole rfl
  have around := framed.covers
  rw [drawn, covers_iff] at around
  have highest := fewest.highest nofun 3 4 ((covers_iff 3 4).mpr (by decide))
  obtain rfl : bottom = 3 := le_antisymm around.1 highest
  have lowest := fewest.lowest 4 le_rfl ((covers_iff 3 4).mpr (by decide))
  obtain rfl : top = 4 := le_antisymm lowest fewest.apart
  exact drawn.trans (by norm_num [decades])

end SweepPlot.Drawing
