import Mathlib
import SweepPlot.Aggregation
set_option autoImplicit false

namespace SweepPlot.Aggregation

variable {α : Type}

def members (a : Aggregation) (d : Dataset α) (key : List KeyValue) : Dataset α :=
  d.filter fun r => a.keyOf r = key

/-- The values of a metric, as far as records carry it. -/
def carried (m : Metric) (d : Dataset α) : List α :=
  d.filterMap fun r => r.metric m

section Reference

variable [Quantity α]

def total (values : List α) : α :=
  values.foldl Quantity.add Quantity.zero

/-- The first value, giving way to each later one that exceeds what stands. -/
def peak : List α → α
  | [] => Quantity.zero
  | v :: values => values.foldl (fun top w => if Quantity.less top w then w else top) v

def reduceValues : Reduction → List α → α
  | .mean, values => Quantity.divCount (total values) values.length
  | .max, values => peak values

/-- A group is the summary of records: their number, what the first of them says, and of each metric in
question the number of values and what they reduce to. -/
structure Summarizes (a : Aggregation) (d : Dataset α) (g : Group α) : Prop where
  records : g.records = d.length
  first : ∃ r rest, d = r :: rest ∧ g.queue = r.queue ∧ g.subfolder = r.subfolder ∧
    g.variant = r.variant ∧ g.testId = r.testId ∧ g.counts = r.counts
  contributors : ∀ m ∈ a.metrics, g.contributors m = (d.filter fun r => r.has (.metric m)).length
  absent : ∀ m ∈ a.metrics, g.metric m = none ↔ g.contributors m = 0
  value : ∀ m ∈ a.metrics, ∀ v, g.metric m = some v → v = reduceValues a.reduction (carried m d)
  others : ∀ m, m ∉ a.metrics → g.metric m = none ∧ g.contributors m = 0

def tallied (values : List α) : Tally α :=
  ⟨total values, peak values, values.length⟩

/-- What an open group has of the records that it has taken in. -/
structure Fills (a : Aggregation) (d : Dataset α) (g : OpenGroup α) : Prop where
  records : g.records = d.length
  first : d.head? = some g.first
  tallies : ∀ m ∈ a.metrics, g.tallies.get m = tallied (carried m d)

end Reference

section Members

variable (a : Aggregation)

theorem members_concat (d : Dataset α) (r : Record α) (key : List KeyValue) :
    a.members (d ++ [r]) key = if a.keyOf r = key then a.members d key ++ [r] else a.members d key := by
  unfold members
  rw [List.filter_append]
  by_cases h : a.keyOf r = key <;> simp [h]

theorem members_cons_self {r : Record α} {key : List KeyValue} (own : a.keyOf r = key) (d : Dataset α) :
    a.members (r :: d) key = r :: a.members d key :=
  List.filter_cons_of_pos (decide_eq_true own)

theorem members_eq_nil (d : Dataset α) (key : List KeyValue) :
    a.members d key = [] ↔ key ∉ d.map a.keyOf := by
  simp only [members, List.filter_eq_nil_iff, decide_eq_true_eq, List.mem_map, not_exists, not_and]

theorem carried_concat (m : Metric) (d : Dataset α) (r : Record α) :
    carried m (d ++ [r]) = carried m d ++ (r.metric m).toList := by
  rw [carried, carried, List.filterMap_append]
  cases h : r.metric m <;> simp [h]

theorem members_perm {d d' : Dataset α} (perm : d.Perm d') (key : List KeyValue) :
    (a.members d key).Perm (a.members d' key) :=
  perm.filter _

theorem carried_perm {d d' : Dataset α} (perm : d.Perm d') (m : Metric) : (carried m d).Perm (carried m d') :=
  perm.filterMap _

theorem length_carried (m : Metric) (d : Dataset α) :
    (carried m d).length = (d.filter fun r => r.has (.metric m)).length := by
  induction d with
  | nil => rfl
  | cons r d ih =>
    have step := ih
    unfold carried at step ⊢
    cases h : r.metric m with
    | none => simp [Record.has, h] at step ⊢; exact step
    | some v => simp [Record.has, h] at step ⊢; exact step

end Members

theorem forChart_once (sweep : Sweep) (perTrial : Bool) : (forChart sweep perTrial).metrics.Nodup := by
  change Metric.all.Nodup
  decide

variable [Quantity α]

section Tally

theorem total_concat (values : List α) (v : α) :
    total (values ++ [v]) = Quantity.add (total values) v := by
  rw [total, total, List.foldl_append]
  rfl

theorem tallied_push (values : List α) (v : α) : (tallied values).push v = tallied (values ++ [v]) := by
  have sums : (tallied (values ++ [v])).sum = Quantity.add (total values) v := total_concat values v
  have tops : (tallied (values ++ [v])).largest = ((tallied values).push v).largest := by
    cases values with
    | nil => simp [tallied, Tally.push, peak]
    | cons w values => simp [tallied, Tally.push, peak, List.foldl_append]
  have counts : (tallied (values ++ [v])).count = values.length + 1 := by
    simp [tallied]
  calc
    (tallied values).push v = ⟨Quantity.add (total values) v, ((tallied values).push v).largest,
        values.length + 1⟩ := rfl
    _ = tallied (values ++ [v]) := by rw [← sums, ← tops, ← counts]

theorem tallyInto_self (r : Record α) (tallies : PerMetric (Tally α)) (m : Metric) :
    (tallyInto r tallies m).get m = (r.metric m).elim (tallies.get m) (tallies.get m).push := by
  cases h : r.metric m <;> simp [tallyInto, h]

theorem tallyInto_other (r : Record α) (tallies : PerMetric (Tally α)) {m k : Metric} (h : m ≠ k) :
    (tallyInto r tallies k).get m = tallies.get m := by
  cases hk : r.metric k <;> simp [tallyInto, hk, h]

theorem get_foldl_tallyInto (r : Record α) (metrics : List Metric) (once : metrics.Nodup)
    (tallies : PerMetric (Tally α)) {m : Metric} (hm : m ∈ metrics) :
    (metrics.foldl (tallyInto r) tallies).get m =
      (r.metric m).elim (tallies.get m) (tallies.get m).push := by
  have untouched : ∀ (ks : List Metric) (t : PerMetric (Tally α)), m ∉ ks →
      (ks.foldl (tallyInto r) t).get m = t.get m := by
    intro ks
    induction ks with
    | nil => exact fun _ _ => rfl
    | cons k ks ih =>
      intro t hk
      rw [List.mem_cons, not_or] at hk
      rw [List.foldl_cons, ih _ hk.2, tallyInto_other r t hk.1]
  induction metrics generalizing tallies with
  | nil => simp at hm
  | cons k metrics ih =>
    obtain ⟨fresh, rest⟩ := List.nodup_cons.mp once
    rw [List.foldl_cons]
    by_cases hk : m = k
    · subst hk
      rw [untouched metrics _ fresh, tallyInto_self]
    · have hr : m ∈ metrics := (List.mem_cons.mp hm).resolve_left hk
      rw [ih rest _ hr, tallyInto_other r tallies hk]

end Tally

section Fills

variable {a : Aggregation}

theorem Fills.addRecord (once : a.metrics.Nodup) {d : Dataset α} {g : OpenGroup α} (fills : a.Fills d g)
    (r : Record α) : a.Fills (d ++ [r]) (a.addRecord r g) where
  records := by
    rw [List.length_append, List.length_singleton, ← fills.records]
    rfl
  first := by
    rw [List.head?_append, fills.first]
    rfl
  tallies := by
    intro m hm
    change (a.metrics.foldl (tallyInto r) g.tallies).get m = _
    rw [get_foldl_tallyInto r a.metrics once g.tallies hm, fills.tallies m hm, carried_concat]
    cases h : r.metric m with
    | none => simp
    | some v => exact tallied_push (carried m d) v

theorem fills_start (once : a.metrics.Nodup) (key : List KeyValue) (r : Record α) :
    a.Fills [r] (a.addRecord r (start key r)) where
  records := rfl
  first := rfl
  tallies := by
    intro m hm
    change (a.metrics.foldl (tallyInto r) (start key r).tallies).get m = _
    rw [get_foldl_tallyInto r a.metrics once _ hm]
    have fresh : (start key r).tallies.get m = tallied [] := PerMetric.get_ofFn _ _
    rw [fresh]
    cases h : r.metric m with
    | none => simp [carried, h]
    | some v => simp [carried, h, tallied_push]

theorem Fills.reduce {d : Dataset α} {g : OpenGroup α} (fills : a.Fills d g) {m : Metric}
    (hm : m ∈ a.metrics) : (a.close g).metrics.get m =
      if carried m d = [] then none
      else some ⟨reduceValues a.reduction (carried m d), (carried m d).length⟩ := by
  change (PerMetric.ofFn _).get m = _
  rw [PerMetric.get_ofFn, if_pos hm, fills.tallies m hm]
  unfold Tally.reduce
  by_cases h : carried m d = []
  · simp [h, tallied]
  · have positive : (tallied (carried m d)).count ≠ 0 := by simpa [tallied] using h
    rw [if_neg positive, if_neg h]
    cases a.reduction <;> rfl

theorem Fills.summarizes {d : Dataset α} {g : OpenGroup α} (fills : a.Fills d g) :
    a.Summarizes d (a.close g) := by
  have counts : ∀ m ∈ a.metrics, (a.close g).contributors m = (carried m d).length := by
    intro m hm
    unfold Group.contributors
    rw [fills.reduce hm]
    by_cases h : carried m d = [] <;> simp [h]
  refine ⟨fills.records, ?_, ?_, ?_, ?_, ?_⟩
  · cases d with
    | nil => simpa using fills.first
    | cons r rest =>
      have same : r = g.first := by simpa using fills.first
      subst same
      exact ⟨g.first, rest, rfl, rfl, rfl, rfl, rfl, rfl⟩
  · intro m hm
    rw [counts m hm, length_carried]
  · intro m hm
    rw [counts m hm, Group.metric, fills.reduce hm]
    by_cases h : carried m d = [] <;> simp [h]
  · intro m hm v hv
    rw [Group.metric, fills.reduce hm] at hv
    by_cases h : carried m d = []
    · simp [h] at hv
    · simp only [h, if_false, Option.map_some, Option.some.injEq] at hv
      exact hv.symm
  · intro m hm
    have absent : (a.close g).metrics.get m = none := by
      change (PerMetric.ofFn _).get m = _
      rw [PerMetric.get_ofFn, if_neg hm]
    simp [Group.metric, Group.contributors, absent]

end Fills

section Place

variable {a : Aggregation}

theorem addRecord_key (r : Record α) (g : OpenGroup α) : (a.addRecord r g).key = g.key := rfl

theorem place_keys (key : List KeyValue) (r : Record α) (gs : List (OpenGroup α)) :
    (a.place key r gs).map (·.key) =
      if key ∈ gs.map (·.key) then gs.map (·.key) else gs.map (·.key) ++ [key] := by
  induction gs with
  | nil => rfl
  | cons g gs ih =>
    by_cases h : g.key = key
    · simp [place, h, addRecord_key]
    · have differ : ¬ key = g.key := fun he => h he.symm
      by_cases hk : key ∈ gs.map (·.key)
      · rw [if_pos hk] at ih
        simp only [place, h, if_false, List.map_cons, ih, List.mem_cons, hk, or_true, if_true]
      · rw [if_neg hk] at ih
        simp only [place, h, if_false, List.map_cons, ih, List.mem_cons, hk, differ, or_self,
          List.cons_append]

theorem mem_place {key : List KeyValue} {r : Record α} {gs : List (OpenGroup α)}
    (once : (gs.map (·.key)).Nodup) {g : OpenGroup α} (h : g ∈ a.place key r gs) :
    (g ∈ gs ∧ g.key ≠ key) ∨ (∃ old ∈ gs, old.key = key ∧ g = a.addRecord r old) ∨
      (key ∉ gs.map (·.key) ∧ g = a.addRecord r (start key r)) := by
  induction gs with
  | nil => exact Or.inr (Or.inr ⟨by simp, by simpa [place] using h⟩)
  | cons first gs ih =>
    rw [List.map_cons, List.nodup_cons] at once
    by_cases hk : first.key = key
    · simp only [place, hk, if_true, List.mem_cons] at h
      rcases h with rfl | h
      · exact Or.inr (Or.inl ⟨first, by simp, hk, rfl⟩)
      · refine Or.inl ⟨List.mem_cons_of_mem _ h, ?_⟩
        rintro rfl
        exact once.1 (hk ▸ List.mem_map_of_mem h)
    · simp only [place, hk, if_false, List.mem_cons] at h
      rcases h with rfl | h
      · exact Or.inl ⟨by simp, hk⟩
      · rcases ih once.2 h with ⟨hg, hn⟩ | ⟨old, ho, hs, rfl⟩ | ⟨hn, rfl⟩
        · exact Or.inl ⟨List.mem_cons_of_mem _ hg, hn⟩
        · exact Or.inr (Or.inl ⟨old, List.mem_cons_of_mem _ ho, hs, rfl⟩)
        · refine Or.inr (Or.inr ⟨?_, rfl⟩)
          simpa [hn] using fun he => hk he.symm

theorem place_records (key : List KeyValue) (r : Record α) (gs : List (OpenGroup α)) :
    ((a.place key r gs).map (·.records)).sum = (gs.map (·.records)).sum + 1 := by
  induction gs with
  | nil => rfl
  | cons g gs ih =>
    by_cases h : g.key = key
    · simp only [place, h, if_true, List.map_cons, List.sum_cons]
      change g.records + 1 + _ = _
      omega
    · simp only [place, h, if_false, List.map_cons, List.sum_cons, ih]
      omega

end Place

section Partition

variable {a : Aggregation}

/-- The open groups after some records: one for each key, filled by the records with that key. -/
structure Partitions (a : Aggregation) (d : Dataset α) (gs : List (OpenGroup α)) : Prop where
  keys : gs.map (·.key) = distinct (d.map a.keyOf)
  fills : ∀ g ∈ gs, a.Fills (a.members d g.key) g
  records : (gs.map (·.records)).sum = d.length

theorem Partitions.place (once : a.metrics.Nodup) {d : Dataset α} {gs : List (OpenGroup α)}
    (parts : a.Partitions d gs) (r : Record α) : a.Partitions (d ++ [r]) (a.place (a.keyOf r) r gs) where
  keys := by
    rw [place_keys, parts.keys, List.map_append, List.map_singleton, distinct_concat]
    simp only [mem_distinct]
    by_cases h : a.keyOf r ∈ d.map a.keyOf <;> simp only [h, if_true, if_false]
  fills := by
    have apart : (gs.map (·.key)).Nodup := by
      rw [parts.keys]
      exact nodup_distinct _
    intro g hg
    rcases mem_place apart hg with ⟨hm, hk⟩ | ⟨old, ho, hk, rfl⟩ | ⟨hn, rfl⟩
    · rw [members_concat, if_neg fun h => hk h.symm]
      exact parts.fills g hm
    · rw [addRecord_key, members_concat, if_pos hk.symm]
      exact (parts.fills old ho).addRecord once r
    · rw [parts.keys, mem_distinct] at hn
      have none_yet := (members_eq_nil a d (a.keyOf r)).mpr hn
      have key : (a.addRecord r (start (a.keyOf r) r)).key = a.keyOf r := rfl
      rw [key, members_concat, if_pos rfl, none_yet, List.nil_append]
      exact fills_start once (a.keyOf r) r
  records := by
    rw [place_records, parts.records, List.length_append, List.length_singleton]

theorem partitions_foldl (once : a.metrics.Nodup) (d : Dataset α) :
    a.Partitions d (d.foldl (fun gs r => a.place (a.keyOf r) r gs) []) := by
  induction d using List.reverseRecOn with
  | nil => exact ⟨rfl, by simp, rfl⟩
  | append_singleton d r ih =>
    rw [List.foldl_append]
    exact ih.place once r

theorem summarizes_of_mem_groups (once : a.metrics.Nodup) {d : Dataset α} {g : Group α}
    (hg : g ∈ a.groups d) : a.Summarizes (a.members d g.key) g := by
  obtain ⟨opened, ho, rfl⟩ := List.mem_map.mp hg
  exact ((partitions_foldl once d).fills opened ho).summarizes

theorem get_metrics_of_mem_groups (once : a.metrics.Nodup) {d : Dataset α} {g : Group α} (hg : g ∈ a.groups d)
    {m : Metric} (hm : m ∈ a.metrics) : g.metrics.get m =
      if carried m (a.members d g.key) = [] then none
      else some ⟨reduceValues a.reduction (carried m (a.members d g.key)), (carried m (a.members d g.key)).length⟩ := by
  obtain ⟨opened, ho, rfl⟩ := List.mem_map.mp hg
  exact ((partitions_foldl once d).fills opened ho).reduce hm

theorem groups_keys (d : Dataset α) : (a.groups d).map (·.key) = distinct (d.map a.keyOf) := by
  rw [groups, List.map_map]
  change (d.foldl (fun gs r => a.place (a.keyOf r) r gs) []).map (·.key) = _
  induction d using List.reverseRecOn with
  | nil => rfl
  | append_singleton d r ih =>
    rw [List.foldl_append, List.foldl_cons, List.foldl_nil, place_keys, ih, List.map_append, List.map_singleton,
      distinct_concat]
    simp only [mem_distinct]
    by_cases known : a.keyOf r ∈ d.map a.keyOf <;> simp only [known, if_true, if_false]

theorem nodup_keys (a : Aggregation) (d : Dataset α) : ((a.groups d).map (·.key)).Nodup := by
  rw [groups_keys]
  exact nodup_distinct _

theorem exists_group_of_mem (a : Aggregation) {d : Dataset α} {r : Record α} (mem : r ∈ d) :
    ∃ g ∈ a.groups d, g.key = a.keyOf r := by
  have known : a.keyOf r ∈ (a.groups d).map (·.key) := by
    rw [groups_keys, mem_distinct]
    exact List.mem_map_of_mem mem
  exact List.mem_map.mp known

theorem origin_of_mem_groups (once : a.metrics.Nodup) {d : Dataset α} {g : Group α} (hg : g ∈ a.groups d) :
    ∃ r ∈ d, g.key = a.keyOf r ∧ g.queue = r.queue ∧ g.subfolder = r.subfolder ∧ g.variant = r.variant ∧
      g.testId = r.testId ∧ g.counts = r.counts := by
  obtain ⟨r, rest, hd, queue, others⟩ := (summarizes_of_mem_groups once hg).first
  have member : r ∈ a.members d g.key := by
    rw [hd]
    exact List.mem_cons_self
  obtain ⟨present, key⟩ := List.mem_filter.mp member
  exact ⟨r, present, (of_decide_eq_true key).symm, queue, others⟩

theorem queue_of_mem_groups (once : a.metrics.Nodup) {d : Dataset α} {g : Group α}
    (hg : g ∈ a.groups d) : g.queue ∈ d.queueTypes := by
  obtain ⟨r, present, -, queue, -⟩ := origin_of_mem_groups once hg
  exact Dataset.mem_queueTypes.mpr ⟨r, present, queue.symm⟩

end Partition

/-- Grouping gives one group for each key that occurs, in the order of the first records with these keys,
and each group is the summary of all records with its key. -/
theorem groups_summarize (a : Aggregation) (once : a.metrics.Nodup) (d : Dataset α) :
    (∀ key, key ∈ (a.groups d).map (·.key) ↔ ∃ r ∈ d, a.keyOf r = key) ∧
    ((a.groups d).map (·.key)).Nodup ∧
    (a.groups d).Pairwise (fun g h =>
      d.findIdx (fun r => a.keyOf r = g.key) < d.findIdx (fun r => a.keyOf r = h.key)) ∧
    ((a.groups d).map (·.records)).sum = d.length ∧
    (∀ g ∈ a.groups d, 1 ≤ g.records ∧ a.Summarizes (a.members d g.key) g) := by
  have parts := partitions_foldl once d
  have keys : (a.groups d).map (·.key) = distinct (d.map a.keyOf) := by
    rw [← parts.keys, groups, List.map_map]
    rfl
  refine ⟨?_, ?_, ?_, ?_, ?_⟩
  · intro key
    rw [keys, mem_distinct, List.mem_map]
  · rw [keys]
    exact nodup_distinct _
  · have order := pairwise_distinct (d.map a.keyOf)
    rw [← keys, List.pairwise_map] at order
    refine order.imp ?_
    intro g h hlt
    simpa [List.idxOf, List.findIdx_map, Function.comp_def, Bool.beq_eq_decide_eq] using hlt
  · rw [groups, List.map_map]
    exact parts.records
  · intro g hg
    have summary := summarizes_of_mem_groups once hg
    obtain ⟨r, rest, hd, -⟩ := summary.first
    refine ⟨?_, summary⟩
    rw [summary.records, hd, List.length_cons]
    omega

theorem groups_summarize_peak :
    let d : Dataset Float :=
      [{ queue := "bbq", metrics := ⟨none, none, none, none, some 2.0, none⟩ }, { queue := "bbq" },
        { queue := "lcrq", metrics := ⟨none, none, none, none, some 1.0, none⟩ }]
    peakMemory.metrics.Nodup ∧ ((peakMemory.groups d).map (·.records)).sum = 3 ∧
      ∀ g ∈ peakMemory.groups d, 1 ≤ g.records ∧ peakMemory.Summarizes (peakMemory.members d g.key) g := by
  intro d
  have once : peakMemory.metrics.Nodup := by decide
  obtain ⟨-, -, -, sum, each⟩ := groups_summarize peakMemory once d
  exact ⟨once, sum, each⟩

end SweepPlot.Aggregation
