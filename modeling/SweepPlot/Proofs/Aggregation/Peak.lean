import SweepPlot.Proofs.Aggregation.Selection
import SweepPlot.Proofs.Number.Order
set_option autoImplicit false

/-!
The largest value of a group. A later value takes the place of an earlier one only if it is above it, so of values
that begin with a number the first of the largest is kept, and the order of the records does not matter. A NaN is
above nothing and nothing is above it: among later values it is passed over, but if it comes first it stays.
-/

namespace SweepPlot

namespace Number

/-- Equal as numbers: both NaN, or at the same place on the line. -/
def SameValue (a b : Float) : Prop :=
  isNumber a = isNumber b ∧ (isNumber a = true → lineKey a = lineKey b)

/-- One of the values, and none of the numbers among them is above it. -/
structure Largest (v : Float) (values : List Float) : Prop where
  mem : v ∈ values
  number : isNumber v = true
  atMost : ∀ w ∈ values, isNumber w = true → Number.atMost w v = true

theorem Largest.sameValue {v w : Float} {values others : List Float} (hv : Largest v values) (hw : Largest w others)
    (perm : values.Perm others) : SameValue v w := by
  refine ⟨hv.number.trans hw.number.symm, fun _ => ?_⟩
  have low := hw.atMost v (perm.mem_iff.mp hv.mem) hv.number
  have high := hv.atMost w (perm.mem_iff.mpr hw.mem) hw.number
  exact Int.le_antisymm (atMost_iff.mp low).2.2 (atMost_iff.mp high).2.2

end Number

namespace Aggregation

section Peak

variable {v w : Float} {values : List Float}

/-- The first value is a NaN, which no later value replaces. -/
def blocked (values : List Float) : Bool :=
  values.head?.any fun v => !Number.isNumber v

theorem peak_concat (given : values ≠ []) (w : Float) :
    peak (values ++ [w]) = if Number.below (peak values) w then w else peak values := by
  cases values with
  | nil => exact absurd rfl given
  | cons v values =>
    rw [List.cons_append, peak, List.foldl_append]
    rfl

theorem peak_of_blocked (first : blocked values = true) : Number.isNumber (peak values) = false := by
  induction values using List.reverseRecOn with
  | nil => cases first
  | append_singleton values w ih =>
    by_cases given : values = []
    · subst given
      simpa [blocked, peak] using first
    · have nan := ih (by simpa [blocked, List.head?_append_of_ne_nil _ given] using first)
      rw [peak_concat given, if_neg fun h => Bool.false_ne_true (nan.symm.trans (Number.below_iff.mp h).1)]
      exact nan

structure TopsFirst (v : Float) (before after : List Float) : Prop where
  number : Number.isNumber v = true
  before : ∀ w ∈ before, Number.isNumber w = true → Number.below w v = true
  after : ∀ w ∈ after, Number.isNumber w = true → Number.atMost w v = true

theorem TopsFirst.mono {before after before' after' : List Float} (tops : TopsFirst v before after)
    (fewer : before' ⊆ before) (fewer' : after' ⊆ after) : TopsFirst v before' after' :=
  ⟨tops.number, fun w mem => tops.before w (fewer mem), fun w mem => tops.after w (fewer' mem)⟩

theorem exists_topsFirst (given : values ≠ []) (free : blocked values = false) :
    ∃ before after, values = before ++ peak values :: after ∧ TopsFirst (peak values) before after := by
  induction values using List.reverseRecOn with
  | nil => exact absurd rfl given
  | append_singleton values w ih =>
    by_cases given : values = []
    · subst given
      exact ⟨[], [], rfl, by simpa [blocked, peak] using free, by simp, by simp⟩
    · obtain ⟨before, after, split, tops⟩ := ih given (by simpa [blocked, List.head?_append_of_ne_nil _ given] using free)
      rw [peak_concat given]
      by_cases above : Number.below (peak values) w = true
      · rw [if_pos above]
        refine ⟨values, [], rfl, (Number.below_iff.mp above).2.1, fun x mem number => ?_, by simp⟩
        rw [split, List.mem_append, List.mem_cons] at mem
        obtain mem | rfl | mem := mem
        · exact Number.below_of_below_of_atMost (tops.before x mem number) (Number.atMost_of_below above)
        · exact above
        · exact Number.below_of_atMost_of_below (tops.after x mem number) above
      · rw [if_neg above]
        refine ⟨before, after ++ [w], ?_, tops.number, tops.before, fun x mem number => ?_⟩
        · rw [← List.cons_append, ← List.append_assoc, ← split]
        · obtain mem | mem := List.mem_append.mp mem
          · exact tops.after x mem number
          · rw [List.mem_singleton.mp mem] at number ⊢
            exact Number.atMost_of_not_below number tops.number above

theorem largest_peak (given : values ≠ []) (free : blocked values = false) : Number.Largest (peak values) values := by
  obtain ⟨before, after, split, tops⟩ := exists_topsFirst given free
  generalize peak values = top at split tops ⊢
  subst split
  refine ⟨List.mem_append_right _ List.mem_cons_self, tops.number, fun w mem number => ?_⟩
  rw [List.mem_append, List.mem_cons] at mem
  obtain mem | rfl | mem := mem
  · exact Number.atMost_of_below (tops.before w mem number)
  · exact Number.atMost_refl number
  · exact tops.after w mem number

theorem not_blocked (numbers : ∀ w ∈ values, Number.isNumber w = true) : blocked values = false := by
  cases values with
  | nil => rfl
  | cons v values =>
    rw [blocked, List.head?_cons, Option.any_some, numbers v List.mem_cons_self]
    rfl

theorem peak_of_topsFirst {before after : List Float} (tops : TopsFirst v before after)
    (numbers : ∀ w ∈ before, Number.isNumber w = true) : peak (before ++ v :: after) = v := by
  induction after using List.reverseRecOn with
  | nil =>
    by_cases given : before = []
    · subst given
      rfl
    · have mem := (largest_peak given (not_blocked numbers)).mem
      rw [peak_concat given, if_pos (tops.before _ mem (numbers _ mem))]
  | append_singleton after w ih =>
    have settled : ¬ Number.below v w = true := fun above =>
      Number.not_below_of_atMost (tops.after w (by simp) (Number.below_iff.mp above).2.1) above
    rw [← List.cons_append, ← List.append_assoc, peak_concat (by simp),
      ih ⟨tops.number, tops.before, fun x mem => tops.after x (List.mem_append_left _ mem)⟩, if_neg settled]

/-- What is kept is the largest number, or a NaN that came first. -/
theorem peak_cases (given : values ≠ []) :
    if blocked values then Number.isNumber (peak values) = false else Number.Largest (peak values) values := by
  split
  next first => exact peak_of_blocked first
  next free => exact largest_peak given (eq_false_of_ne_true free)

theorem sameValue_peak_iff {others : List Float} (perm : values.Perm others) (given : values ≠ []) :
    Number.SameValue (peak values) (peak others) ↔ blocked values = blocked others := by
  have given' : others ≠ [] := by
    rintro rfl
    exact given perm.eq_nil
  have here := peak_cases given
  have there := peak_cases given'
  cases first : blocked values <;> cases first' : blocked others <;> rw [first] at here <;> rw [first'] at there
  · exact iff_of_true (here.sameValue there perm) rfl
  · exact iff_of_false (fun same => Bool.false_ne_true (there.symm.trans (same.1.symm.trans here.number))) (by simp)
  · exact iff_of_false (fun same => Bool.false_ne_true (here.symm.trans (same.1.trans there.number))) (by simp)
  · exact iff_of_true ⟨here.trans there.symm, fun number => absurd (here.symm.trans number) Bool.false_ne_true⟩ rfl

end Peak

section Repeated

variable {α : Type} [Quantity α] {a : Aggregation}

def pushTimes (n : Nat) (t : Tally α) (v : α) : Tally α :=
  (fun t => t.push v)^[n] t

theorem pushTimes_succ (n : Nat) (t : Tally α) (v : α) : pushTimes (n + 1) t v = (pushTimes n t v).push v :=
  Function.iterate_succ_apply' _ n t

theorem count_pushTimes (n : Nat) (t : Tally α) (v : α) : (pushTimes n t v).count = t.count + n := by
  induction n with
  | zero => rfl
  | succ n ih =>
    rw [pushTimes_succ, ← Nat.add_assoc, ← ih]
    rfl

/-- A metric that is listed several times takes in its value as often. -/
theorem get_foldl_tallyInto_times (r : Record α) (metrics : List Metric) (tallies : PerMetric (Tally α)) (m : Metric) :
    (metrics.foldl (tallyInto r) tallies).get m =
      (r.metric m).elim (tallies.get m) (pushTimes (metrics.count m) (tallies.get m)) := by
  induction metrics generalizing tallies with
  | nil => cases r.metric m <;> rfl
  | cons k metrics ih =>
    rw [List.foldl_cons, ih]
    by_cases own : k = m
    · subst own
      rw [tallyInto_self, List.count_cons_self]
      cases r.metric k <;> rfl
    · rw [tallyInto_other r tallies (Ne.symm own), List.count_cons_of_ne own]

theorem tallies_gather (r : Record α) (rest : Dataset α) (m : Metric) :
    (a.gather r rest).tallies.get m = (carried m (r :: rest)).foldl (pushTimes (a.metrics.count m)) Tally.empty := by
  have add : ∀ (s : Record α) (g : OpenGroup α), (a.addRecord s g).tallies.get m =
      (s.metric m).toList.foldl (pushTimes (a.metrics.count m)) (g.tallies.get m) := by
    intro s g
    refine (get_foldl_tallyInto_times s a.metrics g.tallies m).trans ?_
    cases s.metric m <;> rfl
  induction rest using List.reverseRecOn with
  | nil =>
    refine (add r _).trans ?_
    rw [start, PerMetric.get_ofFn, carried]
    cases given : r.metric m <;> simp [given]
  | append_singleton rest s ih =>
    rw [gather_concat, add, ih, ← List.cons_append, carried_concat, List.foldl_append]

theorem count_foldl_pushTimes (n : Nat) (values : List α) :
    (values.foldl (pushTimes n) Tally.empty).count = values.length * n := by
  induction values using List.reverseRecOn with
  | nil => exact (Nat.zero_mul n).symm
  | append_singleton values v ih =>
    rw [List.foldl_append, List.foldl_cons, List.foldl_nil, count_pushTimes, ih, List.length_append,
      List.length_singleton, Nat.succ_mul]

end Repeated

section Groups

variable {a : Aggregation} {d d' : Dataset Float} {g : Group Float} {m : Metric}

theorem largest_push (t : Tally Float) (v : Float) : (t.push v).largest =
    if t.count = 0 then v else if Number.below t.largest v then v else t.largest := by
  rw [Tally.push]
  by_cases fresh : t.count = 0
  · rw [if_pos fresh, decide_eq_true fresh]
    rfl
  · rw [if_neg fresh, decide_eq_false fresh]
    rfl

theorem largest_pushTimes (n : Nat) (t : Tally Float) (v : Float) :
    (pushTimes (n + 1) t v).largest = (t.push v).largest := by
  induction n with
  | zero => rfl
  | succ n ih =>
    have counted : (pushTimes (n + 1) t v).count ≠ 0 := by
      rw [count_pushTimes]
      omega
    have settled : ¬ Number.below (t.push v).largest v = true := by
      rw [largest_push]
      split_ifs with fresh above
      · exact Number.below_irrefl v
      · exact Number.below_irrefl v
      · exact above
    rw [pushTimes_succ, largest_push, if_neg counted, ih, if_neg settled]

theorem largest_foldl_pushTimes (n : Nat) {values : List Float} (given : values ≠ []) :
    (values.foldl (pushTimes (n + 1)) Tally.empty).largest = peak values := by
  induction values using List.reverseRecOn with
  | nil => exact absurd rfl given
  | append_singleton values v ih =>
    rw [List.foldl_append, List.foldl_cons, List.foldl_nil, largest_pushTimes, largest_push, count_foldl_pushTimes]
    by_cases before : values = []
    · subst before
      rw [List.length_nil, Nat.zero_mul, if_pos rfl]
      rfl
    · have counted : values.length * (n + 1) ≠ 0 :=
        Nat.mul_ne_zero (fun none => before (List.length_eq_zero_iff.mp none)) (Nat.succ_ne_zero n)
      rw [if_neg counted, ih before, peak_concat before]

theorem reduced_of_mem_groups (max : a.reduction = .max) (mem : g ∈ a.groups d) (listed : m ∈ a.metrics) :
    g.metrics.get m = if carried m (a.members d g.key) = [] then none
      else some ⟨peak (carried m (a.members d g.key)), (carried m (a.members d g.key)).length * a.metrics.count m⟩ := by
  obtain ⟨r, rest, members, -, own⟩ := gathered_of_mem_groups mem
  obtain ⟨n, times⟩ := Nat.exists_eq_succ_of_ne_zero (List.count_pos_iff.mpr listed).ne'
  have tally := tallies_gather (a := a) r rest m
  rw [members]
  rw [own]
  change (PerMetric.ofFn _).get m = _
  rw [PerMetric.get_ofFn, if_pos listed, tally, times, max, Tally.reduce, count_foldl_pushTimes]
  by_cases none : carried m (r :: rest) = []
  · rw [none, List.length_nil, Nat.zero_mul, if_pos rfl, if_pos rfl]
  · rw [if_neg none, if_neg (Nat.mul_ne_zero (fun h => none (List.length_eq_zero_iff.mp h)) (Nat.succ_ne_zero n)),
      largest_foldl_pushTimes n none]

theorem metric_of_not_listed (mem : g ∈ a.groups d) (absent : m ∉ a.metrics) : g.metrics.get m = none := by
  obtain ⟨opened, -, rfl⟩ := List.mem_map.mp mem
  change (PerMetric.ofFn _).get m = _
  rw [PerMetric.get_ofFn, if_neg absent]

theorem contributors_of_mem_groups (max : a.reduction = .max) (mem : g ∈ a.groups d) (m : Metric) :
    g.contributors m = (carried m (a.members d g.key)).length * a.metrics.count m := by
  unfold Group.contributors
  by_cases listed : m ∈ a.metrics
  · rw [reduced_of_mem_groups max mem listed]
    by_cases none : carried m (a.members d g.key) = []
    · rw [if_pos none, none, List.length_nil, Nat.zero_mul]
    · rw [if_neg none]
  · rw [metric_of_not_listed mem listed, List.count_eq_zero.mpr listed, Nat.mul_zero]

theorem metric_eq_some (max : a.reduction = .max) (mem : g ∈ a.groups d) {v : Float} (value : g.metric m = some v) :
    carried m (a.members d g.key) ≠ [] ∧ v = peak (carried m (a.members d g.key)) := by
  have listed : m ∈ a.metrics := by
    by_contra absent
    rw [Group.metric, metric_of_not_listed mem absent] at value
    cases value
  rw [Group.metric, reduced_of_mem_groups max mem listed] at value
  by_cases none : carried m (a.members d g.key) = []
  · rw [if_pos none] at value
    cases value
  · rw [if_neg none] at value
    exact ⟨none, (Option.some.inj value).symm⟩

theorem metric_eq_none_iff (max : a.reduction = .max) (mem : g ∈ a.groups d) :
    g.metric m = none ↔ g.contributors m = 0 := by
  rw [contributors_of_mem_groups max mem, Nat.mul_eq_zero, List.length_eq_zero_iff, List.count_eq_zero, Group.metric]
  by_cases listed : m ∈ a.metrics
  · rw [reduced_of_mem_groups max mem listed]
    by_cases none : carried m (a.members d g.key) = [] <;> simp [none, listed]
  · simp [metric_of_not_listed mem listed, listed]

/-- In whatever order the records come, the groups have the same keys and counts, and the value of a metric is the
largest of its numbers, unless the first of its values is a NaN: then it is NaN. So two orders give the same value if
and only if in both or in neither of them a NaN comes first. -/
theorem groups_peak (a : Aggregation) (max : a.reduction = .max) {d d' : Dataset Float} (perm : d.Perm d') :
    (∀ key, key ∈ (a.groups d).map (·.key) ↔ key ∈ (a.groups d').map (·.key)) ∧
    ∀ g ∈ a.groups d, ∀ h ∈ a.groups d', h.key = g.key → ∀ m,
      h.contributors m = g.contributors m ∧ (g.metric m = none ↔ h.metric m = none) ∧
      ∀ v w, g.metric m = some v → h.metric m = some w →
        (if blocked (carried m (a.members d g.key)) then Number.isNumber v = false
          else Number.Largest v (carried m (a.members d g.key))) ∧
        (Number.SameValue v w ↔
          blocked (carried m (a.members d g.key)) = blocked (carried m (a.members d' g.key))) := by
  refine ⟨fun key => ?_, fun g hg h hh same m => ?_⟩
  · rw [groups_keys, groups_keys, mem_distinct, mem_distinct, (perm.map a.keyOf).mem_iff]
  · have values := carried_perm (members_perm a perm g.key) m
    have counts := contributors_of_mem_groups max hh m
    rw [same, ← values.length_eq, ← contributors_of_mem_groups max hg m] at counts
    refine ⟨counts, ?_, fun v w hv hw => ?_⟩
    · rw [metric_eq_none_iff max hg, metric_eq_none_iff max hh, counts]
    · obtain ⟨given, rfl⟩ := metric_eq_some max hg hv
      obtain ⟨-, rfl⟩ := metric_eq_some max hh hw
      rw [same]
      exact ⟨peak_cases given, sameValue_peak_iff values given⟩

def allocated (y : Float) : Record Float :=
  { queue := "bbq", metrics := ⟨none, none, none, none, some y, none⟩ }

theorem groups_peak_infinite :
    let d : Dataset Float := [allocated 5.0, allocated (0.0 / 0.0), allocated (1.0 / 0.0)]
    let d' : Dataset Float := [allocated (1.0 / 0.0), allocated 5.0, allocated (0.0 / 0.0)]
    peakMemory.reduction = .max ∧ d.Perm d' ∧ (peakMemory.groups d).map (·.metric .memory) = [some (1.0 / 0.0)] ∧
      ∀ g ∈ peakMemory.groups d, ∀ h ∈ peakMemory.groups d', h.key = g.key →
        h.contributors .memory = g.contributors .memory ∧
        ∀ v w, g.metric .memory = some v → h.metric .memory = some w → Number.SameValue v w := by
  intro d d'
  have perm : d.Perm d' := ((List.Perm.swap _ _ _).cons _).trans (.swap _ _ _)
  have free : ∀ g ∈ peakMemory.groups d, blocked (carried .memory (peakMemory.members d g.key)) =
      blocked (carried .memory (peakMemory.members d' g.key)) := by decide +kernel
  refine ⟨rfl, perm, by decide +kernel, fun g hg h hh same => ?_⟩
  obtain ⟨counts, -, values⟩ := (groups_peak peakMemory rfl perm).2 g hg h hh same .memory
  exact ⟨counts, fun v w hv hw => (values v w hv hw).2.mpr (free g hg)⟩

/-- A NaN that comes first makes the value NaN, and the same NaN is passed over if it comes second. -/
theorem groups_peak_nan :
    [allocated (0.0 / 0.0), allocated 5.0].Perm [allocated 5.0, allocated (0.0 / 0.0)] ∧
    (peakMemory.groups [allocated (0.0 / 0.0), allocated 5.0]).map
      (fun g => (g.key, (g.metric .memory).map Number.isNumber)) = [([.text "bbq"], some false)] ∧
    (peakMemory.groups [allocated 5.0, allocated (0.0 / 0.0)]).map (fun g => (g.key, g.metric .memory)) =
      [([.text "bbq"], some 5.0)] :=
  ⟨.swap _ _ _, by decide +kernel, by decide +kernel⟩

end Groups

end Aggregation

end SweepPlot
