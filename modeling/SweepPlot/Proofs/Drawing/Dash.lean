import SweepPlot.Proofs.Drawing.Cuts
set_option autoImplicit false

/-!
The runs of a dashed line. One invariant goes through both loops: what is left of an entry is the length of the line from
where the pen stands to the next cut. So the loops end by themselves, and the runs are what lies between the cuts.
-/

namespace SweepPlot.Drawing

section Segments

variable {α : Type}

theorem length_segments {vertices : List (Vertex α)} {lengths : List α}
    (matched : vertices.length = lengths.length + 1) : (segments vertices lengths).length = lengths.length := by
  induction lengths generalizing vertices with
  | nil =>
    obtain ⟨a, rfl⟩ := List.length_eq_one_iff.mp matched
    rfl
  | cons length lengths ih =>
    match vertices with
    | a :: b :: rest =>
      rw [segments, List.length_cons, ih (Nat.succ.inj matched), List.length_cons]

theorem getElem?_segments {vertices : List (Vertex α)} {lengths : List α} {k : Nat} {s : Segment α}
    (start : vertices[k]? = some s.start) (stop : vertices[k + 1]? = some s.stop)
    (length : lengths[k]? = some s.length) : (segments vertices lengths)[k]? = some s := by
  induction k generalizing vertices lengths with
  | zero =>
    match vertices, lengths with
    | a :: b :: rest, l :: lengths =>
      cases start
      cases stop
      cases length
      rfl
  | succ k ih =>
    match vertices, lengths with
    | a :: b :: rest, l :: lengths =>
      have start : (b :: rest)[k]? = some s.start := start
      exact ih start stop length

end Segments

variable {K : Type} [Field K] [LinearOrder K]

namespace Pen

/-- The loop on one segment from the part t on: cuts until what is left of the entry reaches the end of the segment. -/
inductive Cutting (pattern : List K) (s : Segment K) : K → Pen K → Pen K → Prop where
  | past {t : K} {pen : Pen K} (reaches : ¬ pen.left + 1e-9 < (1.0 - t) * s.length) :
      Cutting pattern s t pen { pen with left := pen.left - (1.0 - t) * s.length }
  | cut {t : K} {pen last : Pen K} (short : pen.left + 1e-9 < (1.0 - t) * s.length)
      (later : Cutting pattern s (t + pen.left / s.length)
        (pen.cut pattern (s.start.between s.stop (t + pen.left / s.length))) last) :
      Cutting pattern s t pen last

inductive Passing (pattern : List K) (s : Segment K) : Pen K → Pen K → Prop where
  | flat {pen : Pen K} (none : ¬ 0.0 < s.length) : Passing pattern s pen (pen.reach s.stop)
  | along {pen cutPen : Pen K} (some : 0.0 < s.length) (cutting : Cutting pattern s 0.0 pen cutPen) :
      Passing pattern s pen (cutPen.reach s.stop)

inductive Following (pattern : List K) : Pen K → List (Segment K) → Pen K → Prop where
  | done (pen : Pen K) : Following pattern pen [] pen
  | pass {pen next last : Pen K} {s : Segment K} {rest : List (Segment K)} (passing : Passing pattern s pen next)
      (later : Following pattern next rest last) : Following pattern pen (s :: rest) last

end Pen

namespace DashedLine

variable (d : DashedLine K)

section Drawing

/-- A run up to the vertex m, before the cut that ends it. -/
noncomputable def begun (m i : Nat) : List (Vertex K) :=
  (d.opening? i).toList ++ d.verticesAfter (2 * i) m

noncomputable def closed (m i : Nat) : List (Vertex K) :=
  d.begun m i ++ ((d.cut? (2 * i + 1)).map d.point).toList

/-- What the pen has drawn after so many cuts, the last vertex it has reached being m: it is down after an even cut. -/
inductive Drawn (m : Nat) : Nat → Pen K → Prop where
  | down (i : Nat) (left : K) : Drawn m (2 * i) ⟨(List.range i).map (d.closed m), d.begun m i, 2 * i, left, true⟩
  | up (i : Nat) (left : K) : Drawn m (2 * i + 1) ⟨(List.range (i + 1)).map (d.closed m), [], 2 * i + 1, left, false⟩

variable {d}

theorem verticesAfter_succ (k : Fin d.lengths.length) (cuts : Nat) :
    d.verticesAfter cuts (k + 1) =
      d.verticesAfter cuts k ++ if d.cutsBefore (k + 1) = cuts then [(d.segment k).stop] else [] := by
  have there : d.line[(k : Nat) + 1]? = some (d.segment k).stop :=
    List.getElem?_eq_getElem (by have := d.length_line; omega)
  rw [verticesAfter, verticesAfter, List.range'_1_concat, List.filter_append, List.filterMap_append, Nat.add_comm 1]
  congr 1
  by_cases own : d.cutsBefore (k + 1) = cuts <;> simp [own, there]

theorem begun_succ (k : Fin d.lengths.length) (i : Nat) :
    d.begun (k + 1) i = d.begun k i ++ if d.cutsBefore (k + 1) = 2 * i then [(d.segment k).stop] else [] := by
  rw [begun, begun, verticesAfter_succ, List.append_assoc]

theorem map_closed_succ {k : Fin d.lengths.length} {n : Nat} (later : 2 * n ≤ d.cutsBefore (k + 1) + 1) :
    (List.range n).map (d.closed (k + 1)) = (List.range n).map (d.closed k) := by
  apply List.map_congr_left
  intro i mem
  have before := List.mem_range.mp mem
  rw [closed, closed, begun_succ, if_neg (by omega), List.append_nil]

theorem Drawn.withLeft {m cuts : Nat} {pen : Pen K} (drawn : d.Drawn m cuts pen) (left : K) :
    d.Drawn m cuts { pen with left := left } := by
  cases drawn with
  | down i => exact .down i left
  | up i => exact .up i left

theorem Drawn.index_eq {m cuts : Nat} {pen : Pen K} (drawn : d.Drawn m cuts pen) : pen.index = cuts := by
  cases drawn <;> rfl

theorem Drawn.reach {k : Fin d.lengths.length} {cuts : Nat} {pen : Pen K} (drawn : d.Drawn k cuts pen)
    (all : d.cutsBefore (k + 1) = cuts) : d.Drawn (k + 1) cuts (pen.reach (d.segment k).stop) := by
  cases drawn with
  | down i left =>
    have next : d.Drawn (k + 1) (2 * i) _ := .down i left
    rw [map_closed_succ (by omega), begun_succ, if_pos all] at next
    exact next
  | up i left =>
    have next : d.Drawn (k + 1) (2 * i + 1) _ := .up i left
    rw [map_closed_succ (by omega)] at next
    exact next

variable [IsStrictOrderedRing K] [FloorSemiring K]

theorem verticesAfter_eq_nil {cuts m : Nat} (fewer : d.cutsBefore m < cuts) : d.verticesAfter cuts m = [] := by
  rw [verticesAfter, List.filter_eq_nil_iff.mpr, List.filterMap_nil]
  intro i mem
  have before := d.cutsBefore_mono (show i ≤ m by have := List.mem_range'_1.mp mem; omega)
  simp only [decide_eq_true_eq]
  omega

theorem Drawn.cut {m cuts : Nat} {pen : Pen K} (drawn : d.Drawn m cuts pen) (none : d.cutsBefore m ≤ cuts) {c : d.Cut}
    (made : d.cut? (cuts + 1) = some c) : d.Drawn m (cuts + 1) (pen.cut d.pattern (d.point c)) := by
  cases drawn with
  | down i left =>
    have next : d.Drawn m (2 * i + 1) _ := .up i (entry d.pattern (2 * i + 1))
    rw [List.range_succ, List.map_append, List.map_singleton, closed, made] at next
    exact next
  | up i left =>
    have next : d.Drawn m (2 * (i + 1)) _ := .down (i + 1) (entry d.pattern (2 * (i + 1)))
    rw [begun, opening?, if_neg (Nat.succ_ne_zero i), Nat.mul_succ, made, verticesAfter_eq_nil (by omega)] at next
    exact next

end Drawing

section Loops

/-- The loop on the segment k stands at its part t after so many cuts. What is left of the entry reaches to the next. -/
structure Moves (d : DashedLine K) (k : Fin d.lengths.length) (t : K) (cuts : Nat) (pen : Pen K) : Prop where
  drawn : d.Drawn k cuts pen
  left : pen.left = d.due (cuts + 1) - (d.arc k + t * (d.segment k).length)
  earlier : d.cutsBefore k ≤ cuts
  here : cuts ≤ d.cutsBefore (k + 1)

/-- The pen has made all cuts before the vertex m, and what is left of the entry reaches to the next. -/
structure Stands (d : DashedLine K) (m : Nat) (pen : Pen K) : Prop where
  drawn : d.Drawn m (d.cutsBefore m) pen
  left : pen.left = d.due (d.cutsBefore m + 1) - d.arc m

variable {d} {k : Fin d.lengths.length} {t : K} {cuts : Nat} {pen : Pen K}

theorem Moves.reach (moves : d.Moves k 1 (d.cutsBefore (k + 1)) pen) :
    d.Stands (k + 1) (pen.reach (d.segment k).stop) := by
  refine ⟨moves.drawn.reach rfl, ?_⟩
  have kept : (pen.reach (d.segment k).stop).left = pen.left := by
    rw [Pen.reach]
    split <;> rfl
  rw [kept, moves.left, d.arc_succ, one_mul]

theorem Stands.flat (stands : d.Stands k pen) (flat : (d.segment k).length = 0) :
    d.Moves k 1 (d.cutsBefore (k + 1)) pen := by
  have same : d.arc (k + 1) = d.arc k := by rw [d.arc_succ, flat, add_zero]
  have none : d.cutsBefore (k + 1) = d.cutsBefore k := by rw [cutsBefore, same, cutsBefore]
  refine ⟨none ▸ stands.drawn, ?_, none.ge, Nat.le_refl _⟩
  rw [none, stands.left, flat, mul_zero, add_zero]

variable [FloorSemiring K]

theorem Moves.past (moves : d.Moves k t cuts pen) (all : ¬ cuts < d.cutsBefore (k + 1)) :
    d.Moves k 1 (d.cutsBefore (k + 1)) { pen with left := pen.left - (1.0 - t) * (d.segment k).length } := by
  have one : (1.0 : K) = 1 := by norm_num
  have same : cuts = d.cutsBefore (k + 1) := Nat.le_antisymm moves.here (Nat.not_lt.mp all)
  refine ⟨same ▸ moves.drawn.withLeft _, ?_, same ▸ moves.earlier, Nat.le_refl _⟩
  rw [moves.left, ← same, one]
  ring

variable [IsStrictOrderedRing K]

theorem Moves.short_iff (moves : d.Moves k t cuts pen) :
    pen.left + 1e-9 < (1.0 - t) * (d.segment k).length ↔ cuts < d.cutsBefore (k + 1) := by
  have one : (1.0 : K) = 1 := by norm_num
  rw [← Nat.succ_le_iff, d.le_cutsBefore_iff (Nat.succ_pos cuts), d.arc_succ, moves.left, one]
  constructor <;> intro before <;> linarith

theorem Moves.cut (moves : d.Moves k t cuts pen) (long : 0 < (d.segment k).length) (short : cuts < d.cutsBefore (k + 1)) :
    d.Moves k (t + pen.left / (d.segment k).length) (cuts + 1)
      (pen.cut d.pattern ((d.segment k).start.between (d.segment k).stop (t + pen.left / (d.segment k).length))) := by
  have part : t + pen.left / (d.segment k).length = (d.due (cuts + 1) - d.arc k) / (d.segment k).length := by
    rw [moves.left]
    field_simp
    ring
  have place : d.arc k + (t + pen.left / (d.segment k).length) * (d.segment k).length = d.due (cuts + 1) := by
    rw [part, div_mul_cancel₀ _ long.ne']
    ring
  have made := d.cut?_eq (Nat.lt_succ_of_le moves.earlier) short
  rw [Nat.succ_eq_add_one, ← part] at made
  refine ⟨moves.drawn.cut moves.earlier made, ?_, Nat.le_succ_of_le moves.earlier, short⟩
  rw [place, d.due_succ (cuts + 1), add_sub_cancel_left, Pen.cut, moves.drawn.index_eq]

/-- The loop ends, within the bound, when all cuts before the end of the segment are made. -/
theorem Moves.finishes (moves : d.Moves k t cuts pen) (long : 0 < (d.segment k).length) {bound : Nat}
    (enough : d.cutsBefore (k + 1) ≤ cuts + bound) :
    Pen.Cutting d.pattern (d.segment k) t pen (Pen.cuts d.pattern (d.segment k) bound t pen) ∧
      d.Moves k 1 (d.cutsBefore (k + 1)) (Pen.cuts d.pattern (d.segment k) bound t pen) := by
  induction bound generalizing cuts t pen with
  | zero =>
    have all : ¬ cuts < d.cutsBefore (k + 1) := by omega
    exact ⟨.past (mt moves.short_iff.mp all), moves.past all⟩
  | succ bound ih =>
    rw [Pen.cuts]
    by_cases short : cuts < d.cutsBefore (k + 1)
    · rw [if_pos (moves.short_iff.mpr short)]
      obtain ⟨cutting, ends⟩ := ih (moves.cut long short) (by omega)
      exact ⟨.cut (moves.short_iff.mpr short) cutting, ends⟩
    · rw [if_neg (mt moves.short_iff.mp short)]
      exact ⟨.past (mt moves.short_iff.mp short), moves.past short⟩

theorem Stands.moves (stands : d.Stands k pen) : d.Moves k 0 (d.cutsBefore k) pen where
  drawn := stands.drawn
  left := by rw [stands.left, zero_mul, add_zero]
  earlier := Nat.le_refl _
  here := d.cutsBefore_mono (Nat.le_succ k)

theorem Stands.start : d.Stands 0 (Pen.start d.pattern d.first) := by
  have drawn : d.Drawn 0 (2 * 0) (Pen.start d.pattern d.first) := .down 0 (entry d.pattern 0)
  refine ⟨?_, ?_⟩
  · rw [cutsBefore_zero]
    exact drawn
  · rw [cutsBefore_zero, d.due_succ 0]
    simp [Pen.start, due, arc]

theorem Stands.passing (stands : d.Stands k pen) :
    Pen.Passing d.pattern (d.segment k) pen (pen.follow d.pattern (d.segment k)) ∧
      d.Stands (k + 1) (pen.follow d.pattern (d.segment k)) := by
  have zero : (0.0 : K) = 0 := by norm_num
  rw [Pen.follow]
  by_cases long : 0.0 < (d.segment k).length
  · have moves : d.Moves k 0.0 (d.cutsBefore k) pen := zero ▸ stands.moves
    obtain ⟨cutting, ends⟩ := moves.finishes (zero ▸ long) (d.cutsBefore_succ_le k)
    rw [if_pos long]
    exact ⟨.along long cutting, ends.reach⟩
  · rw [if_neg long]
    refine ⟨.flat long, (stands.flat ?_).reach⟩
    exact le_antisymm (not_lt.mp (zero ▸ long)) (d.segment_nonneg k)

theorem Stands.following {rest : List (Segment K)} {m : Nat} (stands : d.Stands m pen)
    (left : (List.ofFn d.segment).drop m = rest) :
    Pen.Following d.pattern pen rest (rest.foldl (Pen.follow d.pattern) pen) ∧
      d.Stands (m + rest.length) (rest.foldl (Pen.follow d.pattern) pen) := by
  induction rest generalizing m pen with
  | nil => exact ⟨.done pen, stands⟩
  | cons s rest ih =>
    have inside : m < (List.ofFn d.segment).length := by
      by_contra past
      rw [List.drop_of_length_le (by omega)] at left
      cases left
    rw [List.drop_eq_getElem_cons inside, List.getElem_ofFn] at left
    obtain ⟨rfl, later⟩ := List.cons.inj left
    rw [List.length_ofFn] at inside
    obtain ⟨passing, next⟩ := Stands.passing (k := ⟨m, inside⟩) stands
    obtain ⟨following, ends⟩ := ih next later
    rw [List.length_cons, Nat.add_comm rest.length, ← Nat.add_assoc]
    exact ⟨.pass passing following, ends⟩

end Loops

section Runs

theorem segments_eq : segments d.line d.lengths = List.ofFn d.segment := by
  have size := d.length_line
  apply List.ext_getElem?
  intro k
  by_cases inside : k < d.lengths.length
  · rw [List.getElem?_ofFn, dif_pos inside]
    exact getElem?_segments (List.getElem?_eq_getElem (by omega)) (List.getElem?_eq_getElem (by omega))
      (List.getElem?_eq_getElem inside)
  · rw [List.getElem?_eq_none (by rw [length_segments size]; omega), List.getElem?_eq_none (by simpa using inside)]

theorem exists_verticesAfter : ∃ front v, d.line.getLast? = some v ∧
    d.verticesAfter (d.cutsBefore d.lengths.length) d.lengths.length = front ++ [v] := by
  obtain ⟨k, final, last⟩ := d.exists_final
  have vertices := verticesAfter_succ k (d.cutsBefore d.lengths.length)
  rw [final, if_pos rfl] at vertices
  exact ⟨_, _, last, vertices⟩

variable [FloorSemiring K]

theorem dashRuns_eq : dashRuns d.line d.lengths d.pattern =
    ((segments d.line d.lengths).foldl (Pen.follow d.pattern) (Pen.start d.pattern d.first)).finish := by
  have size := d.length_line
  have zero : (0.0 : K) = 0 := by norm_num
  have usable : (d.pattern.isEmpty || d.pattern.any (fun e => decide (e ≤ 0.0)) ||
      d.lengths.length + 1 != d.line.length) = false := by
    have positive : d.pattern.any (fun e => decide (e ≤ 0.0)) = false := by
      rw [List.any_eq_false]
      intro e mem
      simpa [zero] using d.positive e mem
    rw [positive, size, bne_self_eq_false]
    simpa using d.patterned
  obtain ⟨second, rest, others⟩ := List.exists_cons_of_ne_nil d.long
  have line : d.line = d.first :: second :: rest := congrArg (d.first :: ·) others
  rw [line] at usable ⊢
  rw [dashRuns, if_neg (ne_true_of_eq_false usable)]

variable [IsStrictOrderedRing K]

theorem isSome_opening?_iff (i : Nat) : (d.opening? i).isSome ↔ 2 * i ≤ d.cutsBefore d.lengths.length := by
  rw [opening?]
  split
  next first => simp [first]
  next later => rw [Option.isSome_map, d.isSome_cut?_iff (by omega)]

theorem run?_eq_some {i : Nat} (opened : 2 * i ≤ d.cutsBefore d.lengths.length) :
    d.run? i = some (d.closed d.lengths.length i) := by
  obtain ⟨start, given⟩ := Option.isSome_iff_exists.mp ((d.isSome_opening?_iff i).mpr opened)
  rw [run?, closed, begun, given]
  rfl

theorem ends_of_run? {i : Nat} {run : List (Vertex K)} (drawn : d.run? i = some run) :
    2 ≤ run.length ∧ run.getLast? = ((d.cut? (2 * i + 1)).map d.point).or d.line.getLast? := by
  rw [run?] at drawn
  obtain ⟨start, given, rfl⟩ := Option.map_eq_some_iff.mp drawn
  have opened := (d.isSome_opening?_iff i).mp (Option.isSome_of_eq_some given)
  cases made : d.cut? (2 * i + 1) with
  | some c =>
    rw [Option.map_some, Option.toList_some, List.getLast?_concat]
    exact ⟨by simp, rfl⟩
  | none =>
    have unmade := mt (d.isSome_cut?_iff (Nat.succ_pos (2 * i))).mpr (by simp [made])
    obtain ⟨front, v, last, vertices⟩ := d.exists_verticesAfter
    have whole : start :: d.verticesAfter (2 * i) d.lengths.length = start :: front ++ [v] := by
      rw [show 2 * i = d.cutsBefore d.lengths.length by omega, vertices]
      rfl
    rw [Option.map_none, Option.toList_none, List.append_nil, whole, last, List.getLast?_concat]
    exact ⟨by simp, rfl⟩

/-- The pen has drawn a run from each even cut, the start of the line among them. -/
theorem finish_eq {cuts : Nat} {pen : Pen K} (drawn : d.Drawn d.lengths.length cuts pen)
    (all : cuts = d.cutsBefore d.lengths.length) :
    pen.finish = (List.range (cuts / 2 + 1)).map (d.closed d.lengths.length) := by
  cases drawn with
  | down i left =>
    have run := d.run?_eq_some all.le
    have unended : d.closed d.lengths.length i = d.begun d.lengths.length i := by
      have unmade := mt (d.isSome_cut?_iff (Nat.succ_pos (2 * i))).mp (by omega)
      rw [closed, Option.not_isSome_iff_eq_none.mp unmade]
      exact List.append_nil _
    have long := (d.ends_of_run? run).1
    rw [unended] at long
    rw [Nat.mul_div_cancel_left i (by omega), List.range_succ, List.map_append, List.map_singleton, unended, Pen.finish,
      if_pos (by simpa using long)]
  | up i left =>
    rw [show (2 * i + 1) / 2 = i by omega]
    rfl

theorem getElem?_dashRuns (i : Nat) : (dashRuns d.line d.lengths d.pattern)[i]? = d.run? i := by
  obtain ⟨-, stands⟩ := (Stands.start (d := d)).following (List.drop_zero ..)
  rw [Nat.zero_add, List.length_ofFn] at stands
  rw [dashRuns_eq, segments_eq, d.finish_eq stands.drawn rfl, List.getElem?_map]
  by_cases opened : 2 * i ≤ d.cutsBefore d.lengths.length
  · rw [List.getElem?_range (by omega), d.run?_eq_some opened]
    rfl
  · have unopened := mt (d.isSome_opening?_iff i).mp opened
    rw [List.getElem?_eq_none (by rw [List.length_range]; omega), run?, Option.not_isSome_iff_eq_none.mp unopened]
    rfl

/-- A line is cut wherever the pattern says, and its runs are what lies between the cuts in turn. -/
theorem dashRuns_spaced (d : DashedLine K) :
    (∃ last, Pen.Following d.pattern (Pen.start d.pattern d.first) (segments d.line d.lengths) last ∧
        dashRuns d.line d.lengths d.pattern = last.finish) ∧
      (∀ j, 1 ≤ j → ((d.cut? j).isSome ↔ d.due j + 1e-9 < d.lengths.sum)) ∧
      (∀ i, (dashRuns d.line d.lengths d.pattern)[i]? = d.run? i) ∧
      (∀ i run, d.run? i = some run →
        2 ≤ run.length ∧ run.getLast? = ((d.cut? (2 * i + 1)).map d.point).or d.line.getLast?) ∧
      ∀ j a b, 1 ≤ j → d.cut? j = some a → d.cut? (j + 1) = some b →
        d.along b - d.along a = entry d.pattern j := by
  refine ⟨⟨_, ?_, d.dashRuns_eq⟩, ?_, d.getElem?_dashRuns, fun i run => d.ends_of_run?, ?_⟩
  · rw [segments_eq]
    exact (Stands.start.following (List.drop_zero ..)).1
  · intro j counted
    rw [d.isSome_cut?_iff counted, d.le_cutsBefore_iff counted, arc_length]
  · intro j a b counted first second
    rw [d.along_cut? counted first, d.along_cut? (Nat.le_succ_of_le counted) second, due_succ, add_sub_cancel_left]

end Runs

def bend : DashedLine ℚ where
  first := ⟨0, 0⟩
  others := [⟨4, 0⟩, ⟨4, 0⟩, ⟨4, 5⟩]
  lengths := [4, 0, 5]
  pattern := [1, 3 / 2, 2]
  long := by decide
  matched := by decide
  nonneg := by decide +kernel
  patterned := by decide
  positive := by decide +kernel

theorem dashRuns_spaced_bend :
    dashRuns bend.line bend.lengths bend.pattern =
        [[⟨0, 0⟩, ⟨1, 0⟩], [⟨5 / 2, 0⟩, ⟨4, 0⟩, ⟨4, 0⟩, ⟨4, 1 / 2⟩], [⟨4, 3 / 2⟩, ⟨4, 3⟩]] ∧
      bend.run? 1 = some [⟨5 / 2, 0⟩, ⟨4, 0⟩, ⟨4, 0⟩, ⟨4, 1 / 2⟩] ∧ bend.run? 3 = none ∧
      ((bend.cut? 5).isSome ↔ bend.due 5 + 1e-9 < 9) ∧ ¬ bend.due 6 + 1e-9 < 9 := by
  have runs : dashRuns bend.line bend.lengths bend.pattern =
      [[⟨0, 0⟩, ⟨1, 0⟩], [⟨5 / 2, 0⟩, ⟨4, 0⟩, ⟨4, 0⟩, ⟨4, 1 / 2⟩], [⟨4, 3 / 2⟩, ⟨4, 3⟩]] := by
    decide +kernel
  have total : bend.lengths.sum = 9 := by decide +kernel
  obtain ⟨-, made, drawn, -⟩ := dashRuns_spaced bend
  rw [total] at made
  refine ⟨runs, ?_, ?_, made 5 (by decide), by decide +kernel⟩ <;> rw [← drawn, runs] <;> rfl

end DashedLine

end SweepPlot.Drawing
