import SweepPlot.Proofs.Aggregation.Coarsening
set_option autoImplicit false

namespace SweepPlot

/-- The group as it is of one record: its values are that record's. -/
def Group.alone {α : Type} (g : Group α) : Group α :=
  { g with
    records := 1
    metrics := .ofFn fun m => (g.metric m).map (⟨·, 1⟩) }

namespace Aggregation

variable {α : Type} {a : Aggregation}

section Values

theorem carried_singleton (m : Metric) (r : Record α) : carried m [r] = (r.metric m).toList := by
  unfold carried
  cases value : r.metric m <;> simp [value]

theorem toRecord_metric (g : Group α) (m : Metric) : g.toRecord.metric m = g.metric m :=
  PerMetric.get_ofFn g.metric m

theorem reduceValues_exact (reduction : Reduction) (v : ℚ) : reduceValues reduction [v] = v := by
  cases reduction with
  | mean =>
    change (0 + v) / ((1 : Nat) : ℚ) = v
    rw [Nat.cast_one, div_one, zero_add]
  | max => rfl

end Values

variable [Quantity α]

section Apart

theorem place_of_new {key : List KeyValue} (r : Record α) {gs : List (OpenGroup α)} (new : key ∉ gs.map (·.key)) :
    a.place key r gs = gs ++ [a.addRecord r (start key r)] := by
  induction gs with
  | nil => rfl
  | cons g gs ih =>
    rw [List.map_cons, List.mem_cons, not_or] at new
    rw [place, if_neg fun own => new.1 own.symm, ih new.2, List.cons_append]

theorem openGroups_of_apart {d : Dataset α} (apart : (d.map a.keyOf).Nodup) :
    a.openGroups d = d.map fun r => a.gather r [] := by
  -- New groups are opened behind the others, so the induction adds records at the end.
  induction d using List.reverseRecOn with
  | nil => rfl
  | append_singleton d r ih =>
    rw [List.map_append, List.map_singleton, List.nodup_append] at apart
    obtain ⟨before, -, new⟩ := apart
    have keys : (d.map fun s => a.gather s []).map (·.key) = d.map a.keyOf := by
      rw [List.map_map]
      exact List.map_congr_left fun s _ => gather_key s []
    have fresh : a.keyOf r ∉ (d.map fun s => a.gather s []).map (·.key) := by
      rw [keys]
      exact fun mem => new _ mem _ List.mem_cons_self rfl
    rw [openGroups_concat, ih before, place_of_new r fresh, List.map_append, List.map_singleton]
    rfl

theorem groups_of_apart {d : Dataset α} (apart : (d.map a.keyOf).Nodup) :
    a.groups d = d.map fun r => a.close (a.gather r []) := by
  rw [groups_eq, openGroups_of_apart apart, List.map_map]
  rfl

end Apart

section Alone

variable {d : Dataset α} {g : Group α}

theorem close_gather_toRecord (once : a.metrics.Nodup) (single : ∀ v : α, reduceValues a.reduction [v] = v)
    (mem : g ∈ a.groups d) : a.close (a.gather g.toRecord []) = g.alone := by
  have key : (a.gather g.toRecord []).key = g.key := (gather_key _ _).trans (keyOf_toRecord mem)
  have metrics : (a.close (a.gather g.toRecord [])).metrics = g.alone.metrics := by
    refine PerMetric.ext_get fun m => ?_
    have alone : g.alone.metrics.get m = (g.metric m).map (⟨·, 1⟩) := PerMetric.get_ofFn _ m
    rw [alone]
    by_cases listed : m ∈ a.metrics
    · have filled : a.Fills [g.toRecord] (a.gather g.toRecord []) := fills_start once _ _
      rw [filled.reduce listed, carried_singleton, toRecord_metric]
      cases value : g.metric m with
      | none => rfl
      | some v => simp [single v]
    · have absent := ((summarizes_of_mem_groups once mem).others m listed).1
      rw [absent]
      change (PerMetric.ofFn _).get m = _
      rw [PerMetric.get_ofFn, if_neg listed]
      rfl
  have copied : a.close (a.gather g.toRecord []) =
      { g with
        key := (a.gather g.toRecord []).key
        records := 1
        metrics := (a.close (a.gather g.toRecord [])).metrics } := rfl
  rw [copied, key, metrics]
  rfl

theorem groups_toRecord (once : a.metrics.Nodup) (single : ∀ v : α, reduceValues a.reduction [v] = v) (d : Dataset α) :
    a.groups ((a.groups d).map Group.toRecord) = (a.groups d).map Group.alone := by
  have keys : ((a.groups d).map Group.toRecord).map a.keyOf = (a.groups d).map (·.key) := by
    rw [List.map_map]
    exact List.map_congr_left fun g mem => keyOf_toRecord mem
  have apart : (((a.groups d).map Group.toRecord).map a.keyOf).Nodup := by
    rw [keys]
    exact a.nodup_keys d
  rw [groups_of_apart apart, List.map_map]
  exact List.map_congr_left fun g mem => close_gather_toRecord once single mem

end Alone

/-- Grouping again changes nothing but how many records and values stand behind a group: the records of the groups
have the same groups, with the same keys in the same order, the same tags and the same values, each of one record
and every value of one. This holds in exact arithmetic, and for largest values of numbers of any kind. -/
theorem groups_again (a : Aggregation) (once : a.metrics.Nodup) :
    (∀ d : Dataset ℚ, a.groups ((a.groups d).map Group.toRecord) = (a.groups d).map Group.alone) ∧
    (a.reduction = .max → ∀ {α : Type} [Quantity α] (d : Dataset α),
      a.groups ((a.groups d).map Group.toRecord) = (a.groups d).map Group.alone) := by
  refine ⟨groups_toRecord once (reduceValues_exact a.reduction), fun max α _ d => ?_⟩
  refine groups_toRecord once (fun v => ?_) d
  rw [max]
  rfl

theorem groups_again_trials :
    let a : Aggregation := { keys := [.queueType], metrics := [.throughput] }
    let timed : String → Int → Option ℚ → Record ℚ := fun queue threads y =>
      { queue := queue, counts := ⟨some threads, none, none⟩, metrics := ⟨y, none, none, none, none, none⟩ }
    let d : Dataset ℚ := [timed "bbq" 2 (some 1), timed "lcrq" 2 none, timed "bbq" 4 (some 4), timed "bbq" 4 none]
    a.metrics.Nodup ∧ (a.groups d).map (fun g => (g.records, g.metric .throughput, g.contributors .throughput)) =
        [(3, some (5 / 2), 2), (1, none, 0)] ∧
      (a.groups ((a.groups d).map Group.toRecord)).map
          (fun g => (g.records, g.metric .throughput, g.contributors .throughput)) =
        [(1, some (5 / 2), 1), (1, none, 0)] ∧
      a.groups ((a.groups d).map Group.toRecord) = (a.groups d).map Group.alone := by
  intro a timed d
  have once : a.metrics.Nodup := by decide
  exact ⟨once, by decide +kernel, by decide +kernel, (groups_again a once).1 d⟩

end Aggregation

end SweepPlot
