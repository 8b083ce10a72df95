import Mathlib
import SweepPlot.Drawing.Dash
set_option autoImplicit false

/-!
Where dashes begin and end, in exact numbers. A cut is due after every entry of the pattern, taken cyclically. It is made on
the first segment that goes on for more than the tolerance behind it, so the cuts before a vertex are the first ones, and no
segment has more of them than the bound of its loop.
-/

namespace SweepPlot.Drawing

variable {K : Type} [Field K] [LinearOrder K]

instance exactCountable [FloorSemiring K] : Countable K where
  timesIn a b := ⌊a / b⌋₊

/-- A line of at least one segment, with lengths that are not negative, and a pattern of positive entries. -/
structure DashedLine (K : Type) [Field K] [LinearOrder K] where
  first : Vertex K
  others : List (Vertex K)
  lengths : List K
  pattern : List K
  long : others ≠ []
  matched : others.length = lengths.length
  nonneg : ∀ l ∈ lengths, 0 ≤ l
  patterned : pattern ≠ []
  positive : ∀ d ∈ pattern, 0 < d

theorem Pen.lt_foldl_least_iff {L : Type} [LinearOrder L] {x start : L} {entries : List L} :
    x < entries.foldl (fun least e => if e < least then e else least) start ↔ x < start ∧ ∀ e ∈ entries, x < e := by
  induction entries generalizing start with
  | nil => simp
  | cons e entries ih =>
    rw [List.foldl_cons, ih, List.forall_mem_cons]
    split <;> grind

/-- Of a property that ends for good at some number, the positive numbers that have it are the first ones. -/
theorem le_ncard_iff {p : Nat → Prop} (down : ∀ i j, i ≤ j → p j → p i) (ends : ∃ n, ¬ p n) {j : Nat}
    (counted : 1 ≤ j) : j ≤ {i : Nat | 1 ≤ i ∧ p i}.ncard ↔ p j := by
  classical
  have below : ∀ i, p i ↔ i < Nat.find ends := by
    intro i
    constructor
    · intro holds
      by_contra past
      exact Nat.find_spec ends (down _ i (by omega) holds)
    · intro before
      exact not_not.mp (Nat.find_min ends before)
  have range : {i : Nat | 1 ≤ i ∧ p i} = Finset.Ico 1 (Nat.find ends) := by
    ext i
    rw [Set.mem_ofPred_eq, below, Finset.coe_Ico, Set.mem_Ico]
  rw [range, Set.ncard_coe_finset, Nat.card_Ico, below]
  omega

namespace DashedLine

variable (d : DashedLine K)

def line : List (Vertex K) := d.first :: d.others

/-- Length of the line up to its vertex m. -/
def arc (m : Nat) : K := (d.lengths.take m).sum

/-- Where along the line a cut is due, cuts counted from one: after so many entries of the pattern. -/
def due (j : Nat) : K := ((List.range j).map (entry d.pattern)).sum

/-- A place on the line: a segment and the part of it that lies before. -/
structure Cut where
  segment : Fin d.lengths.length
  part : K

theorem length_line : d.line.length = d.lengths.length + 1 :=
  congrArg (· + 1) d.matched

def segment (k : Fin d.lengths.length) : Segment K where
  start := d.line.get ⟨k, by have := d.length_line; omega⟩
  stop := d.line.get ⟨k + 1, by have := d.length_line; omega⟩
  length := d.lengths.get k

/-- A cut is made on the first segment that ends behind it. -/
def cut? (j : Nat) : Option d.Cut :=
  (Fin.find? fun k : Fin d.lengths.length => decide (d.due j + 1e-9 < d.arc (k + 1))).map fun k =>
    ⟨k, (d.due j - d.arc k) / (d.segment k).length⟩

def point (cut : d.Cut) : Vertex K :=
  (d.segment cut.segment).start.between (d.segment cut.segment).stop cut.part

def along (cut : d.Cut) : K :=
  d.arc cut.segment + cut.part * (d.segment cut.segment).length

/-- How many cuts lie before the vertex m, by more than the tolerance. -/
noncomputable def cutsBefore (m : Nat) : Nat :=
  {j : Nat | 1 ≤ j ∧ d.due j + 1e-9 < d.arc m}.ncard

/-- The vertices up to m, but for the first of the line, that have so many cuts before them. -/
noncomputable def verticesAfter (cuts m : Nat) : List (Vertex K) :=
  ((List.range' 1 m).filter fun i => d.cutsBefore i = cuts).filterMap (d.line[·]?)

/-- Where a run starts: the first at the start of the line, any other at a cut. -/
def opening? (i : Nat) : Option (Vertex K) :=
  if i = 0 then some d.first else (d.cut? (2 * i)).map d.point

/-- The run from an even cut, or the start of the line, to the next cut, or the end of the line. -/
noncomputable def run? (i : Nat) : Option (List (Vertex K)) :=
  (d.opening? i).map fun start =>
    start :: d.verticesAfter (2 * i) d.lengths.length ++ ((d.cut? (2 * i + 1)).map d.point).toList

section Lengths

theorem entry_mem (j : Nat) : entry d.pattern j ∈ d.pattern := by
  have inside : j % d.pattern.length < d.pattern.length := Nat.mod_lt j (List.length_pos_of_ne_nil d.patterned)
  rw [entry, List.getD_eq_getElem _ _ inside]
  exact List.getElem_mem inside

theorem entry_pos (j : Nat) : 0 < entry d.pattern j :=
  d.positive _ (d.entry_mem j)

theorem due_succ (j : Nat) : d.due (j + 1) = d.due j + entry d.pattern j := by
  simp [due, List.range_succ]

theorem arc_succ (k : Fin d.lengths.length) : d.arc (k + 1) = d.arc k + (d.segment k).length :=
  List.sum_take_succ d.lengths k k.isLt

theorem segment_nonneg (k : Fin d.lengths.length) : 0 ≤ (d.segment k).length :=
  d.nonneg _ (List.get_mem d.lengths k)

theorem arc_length : d.arc d.lengths.length = d.lengths.sum := by
  rw [arc, List.take_length]

theorem exists_final : ∃ k : Fin d.lengths.length, (k : Nat) + 1 = d.lengths.length ∧
    d.line.getLast? = some (d.segment k).stop := by
  have size := d.length_line
  have some := List.length_pos_of_ne_nil d.long
  have matched := d.matched
  refine ⟨⟨d.lengths.length - 1, by omega⟩, by simp only; omega, ?_⟩
  rw [List.getLast?_eq_getElem?, List.getElem?_eq_some_iff]
  refine ⟨by omega, ?_⟩
  rw [segment, List.get_eq_getElem]
  congr 1
  simp only
  omega

theorem shortest_le (j : Nat) : Pen.shortest d.pattern ≤ entry d.pattern j :=
  not_lt.mp fun longer => lt_irrefl _ ((Pen.lt_foldl_least_iff.mp longer).2 _ (d.entry_mem j))

theorem shortest_pos : 0 < Pen.shortest d.pattern :=
  Pen.lt_foldl_least_iff.mpr ⟨d.entry_pos 0, d.positive⟩

variable [IsStrictOrderedRing K]

theorem due_strictMono : StrictMono d.due := by
  apply strictMono_nat_of_lt_succ
  intro j
  rw [due_succ]
  exact lt_add_of_pos_right _ (d.entry_pos j)

theorem due_nonneg (j : Nat) : 0 ≤ d.due j :=
  d.due_strictMono.monotone (Nat.zero_le j)

theorem arc_mono : Monotone d.arc := by
  apply monotone_nat_of_le_succ
  intro m
  by_cases inside : m < d.lengths.length
  · rw [d.arc_succ ⟨m, inside⟩]
    exact le_add_of_nonneg_right (d.segment_nonneg ⟨m, inside⟩)
  · rw [arc, arc, List.take_of_length_le (by omega), List.take_of_length_le (by omega)]

theorem mul_shortest_le (j n : Nat) : n * Pen.shortest d.pattern ≤ d.due (j + n) - d.due j := by
  induction n with
  | zero => simp
  | succ n ih =>
    have next := d.shortest_le (j + n)
    rw [← Nat.add_assoc, due_succ]
    push_cast
    linarith

theorem tolerance_pos : (0 : K) < 1e-9 := by
  norm_num

end Lengths

section Counting

variable [IsStrictOrderedRing K] [FloorSemiring K]

theorem lt_mul_timesIn (y : K) : y < (Countable.timesIn y (Pen.shortest d.pattern) + 1 : Nat) * Pen.shortest d.pattern := by
  have many := Nat.lt_floor_add_one (y / Pen.shortest d.pattern)
  rw [div_lt_iff₀ d.shortest_pos] at many
  exact_mod_cast many

theorem exists_due_gt (y : K) : ∃ j, y < d.due j := by
  refine ⟨Countable.timesIn y (Pen.shortest d.pattern) + 1, (d.lt_mul_timesIn y).trans_le ?_⟩
  have far := d.mul_shortest_le 0 (Countable.timesIn y (Pen.shortest d.pattern) + 1)
  rw [Nat.zero_add] at far
  linarith [d.due_nonneg 0]

theorem le_cutsBefore_iff {j : Nat} (counted : 1 ≤ j) (m : Nat) :
    j ≤ d.cutsBefore m ↔ d.due j + 1e-9 < d.arc m := by
  refine le_ncard_iff (fun i j le before => ?_) ?_ counted
  · linarith [d.due_strictMono.monotone le]
  · obtain ⟨n, far⟩ := d.exists_due_gt (d.arc m)
    refine ⟨n, fun before => ?_⟩
    linarith [tolerance_pos (K := K)]

theorem cutsBefore_zero : d.cutsBefore 0 = 0 := by
  by_contra some
  have before := (d.le_cutsBefore_iff (by omega) 0).mp (le_refl (d.cutsBefore 0))
  rw [arc, List.take_zero, List.sum_nil] at before
  linarith [d.due_nonneg (d.cutsBefore 0), tolerance_pos (K := K)]

theorem cutsBefore_mono : Monotone d.cutsBefore := by
  intro m n le
  by_contra fewer
  have before := (d.le_cutsBefore_iff (by omega) m).mp (le_refl (d.cutsBefore m))
  exact fewer ((d.le_cutsBefore_iff (by omega) n).mpr (before.trans_le (d.arc_mono le)))

/-- The bound leaves room for all cuts on a segment. -/
theorem cutsBefore_succ_le (k : Fin d.lengths.length) :
    d.cutsBefore (k + 1) ≤ d.cutsBefore k + Pen.bound d.pattern (d.segment k) := by
  -- The first of the cuts on the segment is not due before its start, and the last is due before its end.
  by_contra more
  obtain ⟨n, same⟩ := Nat.exists_eq_add_of_le (show d.cutsBefore k + 1 ≤ d.cutsBefore (k + 1) by omega)
  have first : ¬ d.due (d.cutsBefore k + 1) + 1e-9 < d.arc k := by
    rw [← d.le_cutsBefore_iff (Nat.succ_pos _)]
    omega
  have last := (d.le_cutsBefore_iff (by omega) (k + 1)).mp (le_refl (d.cutsBefore (k + 1)))
  have apart := d.mul_shortest_le (d.cutsBefore k + 1) n
  have many : Countable.timesIn (d.segment k).length (Pen.shortest d.pattern) + 1 ≤ n := by
    rw [Pen.bound] at more
    omega
  have wide : ((Countable.timesIn (d.segment k).length (Pen.shortest d.pattern) + 1 : Nat) : K) * Pen.shortest d.pattern ≤
      n * Pen.shortest d.pattern :=
    mul_le_mul_of_nonneg_right (Nat.cast_le.mpr many) d.shortest_pos.le
  rw [same, d.arc_succ] at last
  linarith [d.lt_mul_timesIn (d.segment k).length]

end Counting

section Places

variable [IsStrictOrderedRing K] [FloorSemiring K]

theorem find?_eq_some_iff {j : Nat} (counted : 1 ≤ j) {k : Fin d.lengths.length} :
    (Fin.find? fun k : Fin d.lengths.length => decide (d.due j + 1e-9 < d.arc (k + 1))) = some k ↔
      d.cutsBefore k < j ∧ j ≤ d.cutsBefore (k + 1) := by
  simp only [Fin.find?_eq_some_iff, ← d.le_cutsBefore_iff counted, decide_eq_true_eq, decide_eq_false_iff_not]
  constructor
  · rintro ⟨here, earlier⟩
    refine ⟨?_, here⟩
    obtain ⟨k, inside⟩ := k
    cases k with
    | zero =>
      rw [cutsBefore_zero]
      exact counted
    | succ i => exact Nat.not_le.mp (earlier ⟨i, by omega⟩ (Fin.mk_lt_mk.mpr (Nat.lt_succ_self i)))
  · rintro ⟨later, here⟩
    refine ⟨here, fun i before => ?_⟩
    have earlier := d.cutsBefore_mono (show (i : Nat) + 1 ≤ k by omega)
    omega

theorem cut?_eq {j : Nat} {k : Fin d.lengths.length} (later : d.cutsBefore k < j) (here : j ≤ d.cutsBefore (k + 1)) :
    d.cut? j = some ⟨k, (d.due j - d.arc k) / (d.segment k).length⟩ := by
  rw [cut?, (d.find?_eq_some_iff (by omega)).mpr ⟨later, here⟩]
  rfl

theorem along_cut? {j : Nat} (counted : 1 ≤ j) {c : d.Cut} (made : d.cut? j = some c) : d.along c = d.due j := by
  obtain ⟨k, found, rfl⟩ := Option.map_eq_some_iff.mp made
  obtain ⟨later, here⟩ := (d.find?_eq_some_iff counted).mp found
  have long : (d.segment k).length ≠ 0 := by
    intro flat
    have same : d.arc (k + 1) = d.arc k := by rw [d.arc_succ, flat, add_zero]
    rw [cutsBefore, same, ← cutsBefore] at here
    omega
  rw [along, div_mul_cancel₀ _ long]
  ring

theorem isSome_cut?_iff {j : Nat} (counted : 1 ≤ j) : (d.cut? j).isSome ↔ j ≤ d.cutsBefore d.lengths.length := by
  rw [cut?, Option.isSome_map, Fin.isSome_find?_iff]
  simp only [← d.le_cutsBefore_iff counted, decide_eq_true_eq]
  constructor
  · rintro ⟨k, here⟩
    exact here.trans (d.cutsBefore_mono k.isLt)
  · intro made
    obtain ⟨k, final, -⟩ := d.exists_final
    exact ⟨k, made.trans_eq (congrArg d.cutsBefore final.symm)⟩

end Places

end DashedLine

end SweepPlot.Drawing
