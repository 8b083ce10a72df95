import SweepPlot.Proofs.Aggregation.Peak
import SweepPlot.Proofs.Sorting
set_option autoImplicit false

namespace SweepPlot

/-- Exact arithmetic, where a mean times its count is a sum. -/
instance : Quantity ℚ where
  zero := 0
  add a b := a + b
  divCount a n := a / n
  less a b := decide (a < b)

namespace Aggregation

section Coarser

/-- What is left of a key over some fields when it is read over others. -/
def coarserKey (coarse fine : List KeyField) (key : List KeyValue) : List KeyValue :=
  coarse.map (component fine key)

structure Coarsens (coarse fine : Aggregation) : Prop where
  keys : coarse.keys ⊆ fine.keys
  metrics : coarse.metrics = fine.metrics
  reduction : coarse.reduction = fine.reduction

theorem forChart_coarsens (sweep : Sweep) : (forChart sweep false).Coarsens (forChart sweep true) where
  keys := List.subset_cons_self _ _
  metrics := rfl
  reduction := rfl

variable {α : Type} {coarse fine : Aggregation}

theorem Coarsens.key (coarsens : coarse.Coarsens fine) (r : Record α) :
    coarserKey coarse.keys fine.keys (fine.keyOf r) = coarse.keyOf r :=
  List.map_congr_left fun _ listed => component_keyOf (coarsens.keys listed) r

variable [Quantity α]

def parts (coarse fine : Aggregation) (d : Dataset α) (key : List KeyValue) : List (Group α) :=
  (fine.groups d).filter fun h => coarserKey coarse.keys fine.keys h.key = key

theorem parts_eq (coarsens : coarse.Coarsens fine) (d : Dataset α) (key : List KeyValue) :
    parts coarse fine d key = fine.groups (coarse.members d key) := by
  have own := groups_filter (a := fine) (fun k => decide (coarserKey coarse.keys fine.keys k = key)) d
  simp only [coarsens.key] at own
  exact own.symm

/-- What a group has from the groups that it is made of. -/
structure MergedFrom (g : Group α) (parts : List (Group α)) : Prop where
  records : g.records = (parts.map (·.records)).sum
  contributors : ∀ m, g.contributors m = (parts.map (·.contributors m)).sum
  absent : ∀ m, g.metric m = none ↔ ∀ h ∈ parts, h.metric m = none
  first : ∃ h rest, parts = h :: rest ∧ g.queue = h.queue ∧ g.subfolder = h.subfolder ∧ g.variant = h.variant ∧
    g.testId = h.testId ∧ g.counts = h.counts

end Coarser

/-- The groups of the coarser aggregation follow from those of the finer one. -/
structure Recombines (coarse fine : Aggregation) : Prop where
  keys : ∀ {α : Type} [Quantity α] (d : Dataset α), (coarse.groups d).map (·.key) =
    distinct ((fine.groups d).map fun h => coarserKey coarse.keys fine.keys h.key)
  merges : ∀ {α : Type} [Quantity α] (d : Dataset α), ∀ g ∈ coarse.groups d,
    MergedFrom g (parts coarse fine d g.key)
  largest : coarse.reduction = .max → ∀ d : Dataset Float, ∀ g ∈ coarse.groups d, ∀ m,
    (∀ w ∈ carried m (coarse.members d g.key), Number.isNumber w = true) → ∀ v, g.metric m = some v →
      v ∈ (parts coarse fine d g.key).filterMap (·.metric m) ∧
      ∀ w ∈ (parts coarse fine d g.key).filterMap (·.metric m), Number.atMost w v = true
  mean : coarse.reduction = .mean → ∀ d : Dataset ℚ, ∀ g ∈ coarse.groups d, ∀ m,
    (g.metric m).getD 0 * (g.contributors m : ℚ) =
      ((parts coarse fine d g.key).map fun h => (h.metric m).getD 0 * (h.contributors m : ℚ)).sum

section Shares

variable {α : Type} [Quantity α] {a : Aggregation} {d : Dataset α} {m : Metric}

theorem perm_flatMap_members (a : Aggregation) (d : Dataset α) :
    ((a.groups d).flatMap fun g => a.members d g.key).Perm d := by
  have keyed := List.flatMap_map (·.key) (a.members d) (a.groups d)
  rw [← keyed, groups_keys]
  exact perm_flatMap_filter (nodup_distinct _) fun r mem => mem_distinct.mpr (List.mem_map_of_mem mem)

theorem perm_flatMap_carried (a : Aggregation) (d : Dataset α) (m : Metric) :
    ((a.groups d).flatMap fun g => carried m (a.members d g.key)).Perm (carried m d) := by
  have shared := carried_perm (perm_flatMap_members a d) m
  rwa [carried, List.filterMap_flatMap] at shared

theorem sum_records (once : a.metrics.Nodup) (d : Dataset α) : ((a.groups d).map (·.records)).sum = d.length := by
  rw [← (perm_flatMap_members a d).length_eq, List.length_flatMap]
  exact congrArg List.sum (List.map_congr_left fun g mem => (summarizes_of_mem_groups once mem).records)

theorem contributors_eq {g : Group α} (once : a.metrics.Nodup) (mem : g ∈ a.groups d) (listed : m ∈ a.metrics) :
    g.contributors m = (carried m (a.members d g.key)).length := by
  rw [(summarizes_of_mem_groups once mem).contributors m listed, length_carried]

theorem sum_contributors (once : a.metrics.Nodup) (d : Dataset α) (listed : m ∈ a.metrics) :
    ((a.groups d).map (·.contributors m)).sum = (carried m d).length := by
  rw [← (perm_flatMap_carried a d m).length_eq, List.length_flatMap]
  exact congrArg List.sum (List.map_congr_left fun g mem => contributors_eq once mem listed)

theorem metric_eq_none {g : Group α} (once : a.metrics.Nodup) (mem : g ∈ a.groups d) :
    g.metric m = none ↔ g.contributors m = 0 := by
  by_cases listed : m ∈ a.metrics
  · exact (summarizes_of_mem_groups once mem).absent m listed
  · obtain ⟨none, zero⟩ := (summarizes_of_mem_groups once mem).others m listed
    exact iff_of_true none zero

theorem groups_cons (once : a.metrics.Nodup) (r : Record α) (rest : Dataset α) :
    ∃ h hs, a.groups (r :: rest) = h :: hs ∧ h.queue = r.queue ∧ h.subfolder = r.subfolder ∧ h.variant = r.variant ∧
      h.testId = r.testId ∧ h.counts = r.counts := by
  obtain ⟨h, hs, cons, key, -⟩ := List.map_eq_cons_iff.mp (groups_keys (a := a) (r :: rest))
  obtain ⟨s, others, own, tags⟩ :=
    (summarizes_of_mem_groups once (cons ▸ List.mem_cons_self : h ∈ a.groups (r :: rest))).first
  obtain rfl := (List.cons.inj ((members_cons_self a key.symm rest).symm.trans own)).1
  exact ⟨h, hs, cons, tags⟩

end Shares

section Merged

variable {α : Type} [Quantity α] {coarse fine : Aggregation} {d : Dataset α} {g : Group α}

theorem mergedFrom_parts (coarsens : coarse.Coarsens fine) (once : coarse.metrics.Nodup) (mem : g ∈ coarse.groups d) :
    MergedFrom g (parts coarse fine d g.key) := by
  have whole := summarizes_of_mem_groups once mem
  have once' : fine.metrics.Nodup := coarsens.metrics ▸ once
  rw [parts_eq coarsens]
  have counts : ∀ m, g.contributors m =
      ((fine.groups (coarse.members d g.key)).map (·.contributors m)).sum := by
    intro m
    by_cases listed : m ∈ coarse.metrics
    · rw [sum_contributors once' _ (coarsens.metrics ▸ listed), contributors_eq once mem listed]
    · rw [(whole.others m listed).2]
      refine (List.sum_eq_zero fun n hn => ?_).symm
      obtain ⟨h, part, rfl⟩ := List.mem_map.mp hn
      exact ((summarizes_of_mem_groups once' part).others m (coarsens.metrics ▸ listed)).2
  refine ⟨?_, counts, fun m => ?_, ?_⟩
  · rw [sum_records once', whole.records]
  · rw [metric_eq_none once mem, counts, List.sum_eq_zero_iff]
    constructor
    · exact fun zero h part => (metric_eq_none once' part).mpr (zero _ (List.mem_map_of_mem part))
    · intro none n hn
      obtain ⟨h, part, rfl⟩ := List.mem_map.mp hn
      exact (metric_eq_none once' part).mp (none h part)
  · obtain ⟨r, rest, members, queue, subfolder, variant, testId, gcounts⟩ := whole.first
    obtain ⟨h, hs, cons, queue', subfolder', variant', testId', counts'⟩ := groups_cons once' r rest
    rw [members]
    exact ⟨h, hs, cons, queue.trans queue'.symm, subfolder.trans subfolder'.symm, variant.trans variant'.symm,
      testId.trans testId'.symm, gcounts.trans counts'.symm⟩

end Merged

section Largest

variable {a : Aggregation} {d : Dataset Float} {m : Metric}

theorem carried_members_sub (m : Metric) (a : Aggregation) (d : Dataset Float) (key : List KeyValue) :
    carried m (a.members d key) ⊆ carried m d :=
  (List.filter_sublist.filterMap _).subset

theorem exists_record_of_carried {v : Float} {before after : List Float} (split : carried m d = before ++ v :: after) :
    ∃ earlier r later, d = earlier ++ r :: later ∧ carried m earlier = before ∧ r.metric m = some v ∧
      carried m later = after := by
  obtain ⟨earlier, others, rfl, hb, ho⟩ := List.filterMap_eq_append_iff.mp split
  obtain ⟨without, r, later, rfl, none, value, ha⟩ := List.filterMap_eq_cons_iff.mp ho
  refine ⟨earlier ++ without, r, later, (List.append_assoc _ _ _).symm, ?_, value, ha⟩
  rw [carried, List.filterMap_append, hb, List.filterMap_eq_nil_iff.mpr none, List.append_nil]

theorem carried_members_around {r : Record Float} {v : Float} (value : r.metric m = some v) (earlier later : Dataset Float) :
    carried m (a.members (earlier ++ r :: later) (a.keyOf r)) =
      carried m (a.members earlier (a.keyOf r)) ++ v :: carried m (a.members later (a.keyOf r)) := by
  have whole : a.members (earlier ++ r :: later) (a.keyOf r) =
      a.members earlier (a.keyOf r) ++ r :: a.members later (a.keyOf r) :=
    (List.filter_append _ _).trans (congrArg _ (members_cons_self a rfl later))
  rw [whole, carried, List.filterMap_append, List.filterMap_cons_some (f := fun r : Record Float => r.metric m) value]
  rfl

theorem metric_eq_peak {h : Group Float} (max : a.reduction = .max) (mem : h ∈ a.groups d) (listed : m ∈ a.metrics)
    (given : carried m (a.members d h.key) ≠ []) : h.metric m = some (peak (carried m (a.members d h.key))) := by
  rw [Group.metric, reduced_of_mem_groups max mem listed, if_neg given]
  rfl

/-- The largest value of all records is that of a group: no value of this group that comes earlier is as large. -/
theorem exists_group_peak (max : a.reduction = .max) (listed : m ∈ a.metrics) (given : carried m d ≠ [])
    (numbers : ∀ w ∈ carried m d, Number.isNumber w = true) :
    ∃ h ∈ a.groups d, h.metric m = some (peak (carried m d)) := by
  obtain ⟨before, after, split, tops⟩ := exists_topsFirst given (not_blocked numbers)
  generalize peak (carried m d) = top at split tops ⊢
  obtain ⟨earlier, r, later, rfl, hb, value, ha⟩ := exists_record_of_carried split
  obtain ⟨h, mem, key⟩ := exists_group_of_mem a (List.mem_append_right earlier (List.mem_cons_self (a := r) (l := later)))
  have own := carried_members_around (a := a) value earlier later
  have fewer : carried m (a.members earlier (a.keyOf r)) ⊆ before := hb ▸ carried_members_sub m a earlier _
  have fewer' : carried m (a.members later (a.keyOf r)) ⊆ after := ha ▸ carried_members_sub m a later _
  have numbers' : ∀ w ∈ carried m (a.members earlier (a.keyOf r)), Number.isNumber w = true := by
    intro w hw
    refine numbers w ?_
    rw [split]
    exact List.mem_append_left _ (fewer hw)
  rw [← key] at own
  refine ⟨h, mem, ?_⟩
  rw [metric_eq_peak max mem listed (by simp [own]), own, key, peak_of_topsFirst (tops.mono fewer fewer') numbers']

theorem atMost_peak_of_mem_groups (max : a.reduction = .max) (numbers : ∀ w ∈ carried m d, Number.isNumber w = true)
    {h : Group Float} (mem : h ∈ a.groups d) {w : Float} (value : h.metric m = some w) :
    Number.atMost w (peak (carried m d)) = true := by
  obtain ⟨given, rfl⟩ := metric_eq_some max mem value
  have sub := carried_members_sub m a d h.key
  have own := (largest_peak given (not_blocked fun w hw => numbers w (sub hw))).mem
  have given' : carried m d ≠ [] := List.ne_nil_of_mem (sub own)
  exact (largest_peak given' (not_blocked numbers)).atMost _ (sub own) (numbers _ (sub own))

variable {coarse fine : Aggregation}

theorem largest_of_parts (coarsens : coarse.Coarsens fine) (max : coarse.reduction = .max) {g : Group Float}
    (mem : g ∈ coarse.groups d) (numbers : ∀ w ∈ carried m (coarse.members d g.key), Number.isNumber w = true)
    {v : Float} (value : g.metric m = some v) :
    v ∈ (parts coarse fine d g.key).filterMap (·.metric m) ∧
      ∀ w ∈ (parts coarse fine d g.key).filterMap (·.metric m), Number.atMost w v = true := by
  have max' : fine.reduction = .max := coarsens.reduction ▸ max
  have listed : m ∈ fine.metrics := by
    rw [← coarsens.metrics]
    by_contra absent
    rw [Group.metric, metric_of_not_listed mem absent] at value
    cases value
  obtain ⟨given, rfl⟩ := metric_eq_some max mem value
  rw [parts_eq coarsens]
  constructor
  · obtain ⟨h, part, top⟩ := exists_group_peak max' listed given numbers
    exact List.mem_filterMap.mpr ⟨h, part, top⟩
  · intro w hw
    obtain ⟨h, part, top⟩ := List.mem_filterMap.mp hw
    exact atMost_peak_of_mem_groups max' numbers part top

end Largest

section Mean

variable {a : Aggregation} {d : Dataset ℚ} {m : Metric}

theorem total_eq_sum (values : List ℚ) : total values = values.sum :=
  List.sum_eq_foldl.symm

theorem weight_eq_sum (once : a.metrics.Nodup) (mean : a.reduction = .mean) {g : Group ℚ} (mem : g ∈ a.groups d)
    (listed : m ∈ a.metrics) :
    (g.metric m).getD 0 * (g.contributors m : ℚ) = (carried m (a.members d g.key)).sum := by
  rw [Group.metric, Group.contributors, get_metrics_of_mem_groups once mem listed, mean]
  by_cases none : carried m (a.members d g.key) = []
  · rw [if_pos none, none]
    exact zero_mul _
  · have given : ((carried m (a.members d g.key)).length : ℚ) ≠ 0 := by
      rwa [Nat.cast_ne_zero, Ne, List.length_eq_zero_iff]
    rw [if_neg none, ← total_eq_sum]
    exact div_mul_cancel₀ _ given

variable {coarse fine : Aggregation}

theorem mean_of_parts (coarsens : coarse.Coarsens fine) (once : coarse.metrics.Nodup) (mean : coarse.reduction = .mean)
    {g : Group ℚ} (mem : g ∈ coarse.groups d) (m : Metric) :
    (g.metric m).getD 0 * (g.contributors m : ℚ) =
      ((parts coarse fine d g.key).map fun h => (h.metric m).getD 0 * (h.contributors m : ℚ)).sum := by
  have once' : fine.metrics.Nodup := coarsens.metrics ▸ once
  have mean' : fine.reduction = .mean := coarsens.reduction ▸ mean
  have merged := mergedFrom_parts coarsens once mem
  rw [parts_eq coarsens] at merged ⊢
  by_cases listed : m ∈ coarse.metrics
  · have listed' : m ∈ fine.metrics := coarsens.metrics ▸ listed
    have sums := (perm_flatMap_carried fine (coarse.members d g.key) m).sum_eq
    rw [List.flatMap, List.sum_flatten, List.map_map] at sums
    rw [weight_eq_sum once mean mem listed, ← sums]
    exact congrArg List.sum (List.map_congr_left fun h part => (weight_eq_sum once' mean' part listed').symm)
  · have none := ((summarizes_of_mem_groups once mem).others m listed).1
    rw [none, Option.getD_none, zero_mul]
    refine (List.sum_eq_zero fun w hw => ?_).symm
    obtain ⟨h, part, rfl⟩ := List.mem_map.mp hw
    rw [(merged.absent m).mp none h part, Option.getD_none, zero_mul]

end Mean

theorem recombines_of_coarsens {coarse fine : Aggregation} (coarsens : coarse.Coarsens fine)
    (once : coarse.metrics.Nodup) : coarse.Recombines fine where
  keys := by
    intro α _ d
    have restricted : d.map coarse.keyOf = (d.map fine.keyOf).map (coarserKey coarse.keys fine.keys) := by
      rw [List.map_map]
      exact List.map_congr_left fun r _ => (coarsens.key r).symm
    have finer : (fine.groups d).map (fun h => coarserKey coarse.keys fine.keys h.key) =
        (distinct (d.map fine.keyOf)).map (coarserKey coarse.keys fine.keys) := by
      rw [← groups_keys, List.map_map]
      rfl
    rw [groups_keys, restricted, finer, distinct_map_distinct]
  merges := fun d g mem => mergedFrom_parts coarsens once mem
  largest := fun max d g mem m numbers v value => largest_of_parts coarsens max mem numbers value
  mean := fun mean d g mem m => mean_of_parts coarsens once mean mem m

/-- Grouping by fewer key fields gives the groups by more of them recombined: the keys come in the order in which they
are first met among those of the finer groups, sizes and counts of values add up, the largest value is the largest one
of the parts as long as no value is NaN, and in exact arithmetic means add up by their counts. So what is pooled over
trials is what the trials have together. -/
theorem groups_coarsen :
    (∀ coarse fine : Aggregation, coarse.Coarsens fine → coarse.metrics.Nodup → coarse.Recombines fine) ∧
    ∀ sweep, (forChart sweep false).Recombines (forChart sweep true) := by
  have whole : ∀ coarse fine : Aggregation, coarse.Coarsens fine → coarse.metrics.Nodup → coarse.Recombines fine :=
    fun _ _ coarsens once => recombines_of_coarsens coarsens once
  exact ⟨whole, fun sweep => whole _ _ (forChart_coarsens sweep) (forChart_once sweep false)⟩

theorem groups_coarsen_trials :
    let coarse := forChart .threads false
    let fine := forChart .threads true
    let timed : String → ℚ → Record ℚ := fun trial y =>
      { queue := "bbq", counts := ⟨some 2, none, none⟩, testId := some trial,
        metrics := ⟨some y, none, none, none, none, none⟩ }
    let d : Dataset ℚ := [timed "1" 1, timed "2" 7, timed "1" 4]
    coarse.Coarsens fine ∧ coarse.metrics.Nodup ∧
      (coarse.groups d).map (fun g => (g.metric .throughput, g.contributors .throughput)) = [(some 4, 3)] ∧
      (fine.groups d).map (fun g => (g.metric .throughput, g.contributors .throughput)) =
        [(some (5 / 2), 2), (some 7, 1)] ∧
      ∀ g ∈ coarse.groups d, MergedFrom g (parts coarse fine d g.key) ∧
        (g.metric .throughput).getD 0 * (g.contributors .throughput : ℚ) =
          ((parts coarse fine d g.key).map fun h =>
            (h.metric .throughput).getD 0 * (h.contributors .throughput : ℚ)).sum := by
  intro coarse fine timed d
  have coarsens : coarse.Coarsens fine := forChart_coarsens .threads
  have once : coarse.metrics.Nodup := forChart_once .threads false
  have recombines := groups_coarsen.1 coarse fine coarsens once
  exact ⟨coarsens, once, by decide +kernel, by decide +kernel,
    fun g mem => ⟨recombines.merges d g mem, recombines.mean rfl d g mem .throughput⟩⟩

end Aggregation

end SweepPlot
