import SweepPlot.Proofs.Aggregation.Reference
import SweepPlot.Proofs.Merge.Variants
set_option autoImplicit false

namespace SweepPlot

/-- One record that says what the group says. -/
def Group.toRecord {α : Type} (g : Group α) : Record α where
  queue := g.queue
  counts := g.counts
  testId := g.testId
  metrics := .ofFn g.metric
  subfolder := g.subfolder
  variant := g.variant

namespace Aggregation

variable {α : Type} {a : Aggregation}

section Key

def component (keys : List KeyField) (key : List KeyValue) (field : KeyField) : KeyValue :=
  (key[keys.idxOf field]?).getD .missing

theorem component_keyOf {field : KeyField} (listed : field ∈ a.keys) (r : Record α) :
    component a.keys (a.keyOf r) field = field.valueOf r := by
  have inside := List.idxOf_lt_length_of_mem listed
  rw [component, keyOf, List.getElem?_map, List.getElem?_eq_getElem inside, List.getElem_idxOf]
  rfl

end Key

variable [Quantity α]

section Open

def openGroups (a : Aggregation) (d : Dataset α) : List (OpenGroup α) :=
  d.foldl (fun gs r => a.place (a.keyOf r) r gs) []

/-- The group that records of one key fill. -/
def gather (a : Aggregation) (r : Record α) (rest : Dataset α) : OpenGroup α :=
  rest.foldl (fun g s => a.addRecord s g) (a.addRecord r (start (a.keyOf r) r))

theorem groups_eq (d : Dataset α) : a.groups d = (a.openGroups d).map a.close := rfl

theorem openGroups_concat (d : Dataset α) (r : Record α) :
    a.openGroups (d ++ [r]) = a.place (a.keyOf r) r (a.openGroups d) := by
  rw [openGroups, List.foldl_append]
  rfl

/-- A record of a kept key goes to the same place among the groups that are kept. -/
theorem filter_place_of_kept {p : List KeyValue → Bool} {key : List KeyValue} (kept : p key = true) (r : Record α)
    (gs : List (OpenGroup α)) :
    (a.place key r gs).filter (fun g => p g.key) = a.place key r (gs.filter fun g => p g.key) := by
  induction gs with
  | nil => exact List.filter_cons_of_pos kept
  | cons g gs ih =>
    by_cases own : g.key = key
    · have stays : p g.key = true := own.symm ▸ kept
      have stays' : p (a.addRecord r g).key = true := stays
      rw [place, if_pos own, List.filter_cons, if_pos stays', List.filter_cons, if_pos stays, place, if_pos own]
    · rw [place, if_neg own, List.filter_cons, List.filter_cons]
      by_cases stays : p g.key = true
      · rw [if_pos stays, if_pos stays, place, if_neg own, ih]
      · rw [if_neg stays, if_neg stays, ih]

theorem filter_place_of_cut {p : List KeyValue → Bool} {key : List KeyValue} (cut : ¬ p key = true) (r : Record α)
    (gs : List (OpenGroup α)) :
    (a.place key r gs).filter (fun g => p g.key) = gs.filter fun g => p g.key := by
  induction gs with
  | nil => exact List.filter_cons_of_neg cut
  | cons g gs ih =>
    by_cases own : g.key = key
    · have leaves : ¬ p g.key = true := own.symm ▸ cut
      have leaves' : ¬ p (a.addRecord r g).key = true := leaves
      rw [place, if_pos own, List.filter_cons, if_neg leaves', List.filter_cons, if_neg leaves]
    · rw [place, if_neg own, List.filter_cons, List.filter_cons, ih]

theorem openGroups_filter (p : List KeyValue → Bool) (d : Dataset α) :
    a.openGroups (d.filter fun r => p (a.keyOf r)) = (a.openGroups d).filter fun g => p g.key := by
  induction d using List.reverseRecOn with
  | nil => rfl
  | append_singleton d r ih =>
    rw [List.filter_append, openGroups_concat, List.filter_singleton]
    by_cases kept : p (a.keyOf r) = true
    · rw [kept, cond_true, openGroups_concat, ih, filter_place_of_kept kept]
    · rw [eq_false_of_ne_true kept, cond_false, List.append_nil, ih, filter_place_of_cut kept]

theorem groups_filter (p : List KeyValue → Bool) (d : Dataset α) :
    a.groups (d.filter fun r => p (a.keyOf r)) = (a.groups d).filter fun g => p g.key := by
  rw [groups_eq, groups_eq, openGroups_filter, List.filter_map]
  rfl

theorem gather_concat (r : Record α) (rest : Dataset α) (s : Record α) :
    a.gather r (rest ++ [s]) = a.addRecord s (a.gather r rest) := by
  rw [gather, List.foldl_append]
  rfl

theorem gather_key (r : Record α) (rest : Dataset α) : (a.gather r rest).key = a.keyOf r := by
  induction rest using List.reverseRecOn with
  | nil => rfl
  | append_singleton rest s ih =>
    rw [gather_concat]
    exact ih

theorem gather_first (r : Record α) (rest : Dataset α) : (a.gather r rest).first = r := by
  induction rest using List.reverseRecOn with
  | nil => rfl
  | append_singleton rest s ih =>
    rw [gather_concat]
    exact ih

theorem openGroups_of_key {r : Record α} {rest : Dataset α} (same : ∀ s ∈ rest, a.keyOf s = a.keyOf r) :
    a.openGroups (r :: rest) = [a.gather r rest] := by
  induction rest using List.reverseRecOn with
  | nil => rfl
  | append_singleton rest s ih =>
    obtain ⟨before, last⟩ := List.forall_mem_append.mp same
    rw [← List.cons_append, openGroups_concat, ih before, place, gather_key, last s List.mem_cons_self, if_pos rfl,
      gather_concat]

end Open

section Own

variable {d : Dataset α} {g : Group α}

theorem gathered_of_mem_groups (mem : g ∈ a.groups d) :
    ∃ r rest, a.members d g.key = r :: rest ∧ a.keyOf r = g.key ∧ g = a.close (a.gather r rest) := by
  have own : a.groups (a.members d g.key) = (a.groups d).filter fun h => decide (h.key = g.key) :=
    groups_filter (fun key => decide (key = g.key)) d
  have listed : g ∈ a.groups (a.members d g.key) := by
    rw [own]
    exact List.mem_filter.mpr ⟨mem, decide_eq_true rfl⟩
  have keys : ∀ s ∈ a.members d g.key, a.keyOf s = g.key := fun s hs => of_decide_eq_true (List.mem_filter.mp hs).2
  cases members : a.members d g.key with
  | nil =>
    rw [members] at listed
    cases listed
  | cons r rest =>
    rw [members] at keys listed
    obtain ⟨first, others⟩ := List.forall_mem_cons.mp keys
    rw [groups_eq, openGroups_of_key fun s hs => (others s hs).trans first.symm] at listed
    exact ⟨r, rest, rfl, first, List.mem_singleton.mp listed⟩

theorem valueOf_toRecord (mem : g ∈ a.groups d) :
    ∃ r ∈ d, a.keyOf r = g.key ∧ ∀ field : KeyField, field.valueOf g.toRecord = field.valueOf r := by
  obtain ⟨r, rest, members, key, rfl⟩ := gathered_of_mem_groups mem
  have listed : r ∈ a.members d (a.close (a.gather r rest)).key := by
    rw [members]
    exact List.mem_cons_self
  refine ⟨r, (List.mem_filter.mp listed).1, key, fun field => ?_⟩
  have copied : field.valueOf (a.close (a.gather r rest)).toRecord = field.valueOf (a.gather r rest).first := by
    cases field <;> rfl
  rw [copied, gather_first]

theorem keyOf_toRecord (mem : g ∈ a.groups d) : a.keyOf g.toRecord = g.key := by
  obtain ⟨r, -, key, same⟩ := valueOf_toRecord mem
  rw [← key]
  exact List.map_congr_left fun field _ => same field

end Own

section Field

theorem component_key {field : KeyField} (listed : field ∈ a.keys) {d : Dataset α} {g : Group α}
    (mem : g ∈ a.groups d) : component a.keys g.key field = field.valueOf g.toRecord := by
  rw [← keyOf_toRecord mem, component_keyOf listed]

theorem groups_filter_field {field : KeyField} (listed : field ∈ a.keys) (value : KeyValue) (d : Dataset α) :
    a.groups (d.filter fun r => field.valueOf r = value) =
      (a.groups d).filter fun g => field.valueOf g.toRecord = value := by
  have whole := groups_filter (a := a) (fun key => decide (component a.keys key field = value)) d
  simp only [component_keyOf listed] at whole
  rw [whole]
  exact List.filter_congr fun g mem => by rw [component_key listed mem]

theorem ofText_eq_text_iff {tag : Option String} {label : String} : KeyValue.ofText tag = .text label ↔ tag = some label := by
  cases tag <;> simp [KeyValue.ofText]

theorem groups_part {field : KeyField} (listed : field ∈ a.keys) (tag : Record α → Option String)
    (reads : ∀ r, field.valueOf r = .ofText (tag r)) (stamp : Dataset α × String → Dataset α)
    (stamped : ∀ part, ∀ r ∈ stamp part, tag r = some part.2) {parts : List (Dataset α × String)}
    (apart : (parts.map Prod.snd).Nodup) {part : Dataset α × String} (mem : part ∈ parts) :
    a.groups (stamp part) = (a.groups (parts.flatMap stamp)).filter fun g => tag g.toRecord = some part.2 := by
  have whole := groups_filter_field listed (.text part.2) (parts.flatMap stamp)
  simp only [reads, ofText_eq_text_iff] at whole
  rw [← whole, Merger.filter_flatMap_of_tag stamped apart mem]

end Field

section Selection

/-- Grouping the records whose keys are selected gives the groups with these keys, unchanged and in order. So the
groups with one value of a key field are those of the records with it, and in data merged from parts, each with a
label of its own, the groups of a part are those that the part has by itself. -/
theorem groups_select (a : Aggregation) :
    (∀ (p : List KeyValue → Bool) (d : Dataset α),
      a.groups (d.filter fun r => p (a.keyOf r)) = (a.groups d).filter fun g => p g.key) ∧
    (∀ field ∈ a.keys, ∀ (value : KeyValue) (d : Dataset α),
      a.groups (d.filter fun r => field.valueOf r = value) =
        (a.groups d).filter fun g => field.valueOf g.toRecord = value) ∧
    ∀ parts : List (Dataset α × String), (parts.map Prod.snd).Nodup → ∀ part ∈ parts,
      (.variant ∈ a.keys → a.groups (part.1.stampVariant part.2) =
        (a.groups (parts.flatMap fun p => p.1.stampVariant p.2)).filter fun g => g.variant = some part.2) ∧
      (.subfolder ∈ a.keys → a.groups (part.1.stampSubfolder part.2) =
        (a.groups (parts.flatMap fun p => p.1.stampSubfolder p.2)).filter fun g => g.subfolder = some part.2) := by
  refine ⟨groups_filter, fun field listed => groups_filter_field listed, fun parts apart part mem => ⟨?_, ?_⟩⟩
  · intro listed
    refine groups_part listed Record.variant (fun _ => rfl) (fun p => p.1.stampVariant p.2) (fun part r stamped => ?_)
      apart mem
    obtain ⟨read, -, rfl⟩ := List.mem_map.mp stamped
    rfl
  · intro listed
    refine groups_part listed Record.subfolder (fun _ => rfl) (fun p => p.1.stampSubfolder p.2)
      (fun part r stamped => ?_) apart mem
    obtain ⟨read, -, rfl⟩ := List.mem_map.mp stamped
    rfl

theorem groups_select_twoRoots :
    let a := forChart .threads false
    let timed : Float → Record Float := fun y =>
      { queue := "bbq", counts := ⟨some 2, none, none⟩, metrics := ⟨some y, none, none, none, none, none⟩ }
    let parts : List (Dataset Float × String) := [([timed 1.0, timed 3.0], "50"), ([timed 8.0], "500")]
    .variant ∈ a.keys ∧ (parts.map Prod.snd).Nodup ∧
      ((a.groups (parts.flatMap fun p => p.1.stampVariant p.2)).map fun g => (g.variant, g.metric .throughput)) =
        [(some "50", some 2.0), (some "500", some 8.0)] ∧
      ∀ part ∈ parts, a.groups (part.1.stampVariant part.2) =
        (a.groups (parts.flatMap fun p => p.1.stampVariant p.2)).filter fun g => g.variant = some part.2 := by
  intro a timed parts
  have listed : .variant ∈ a.keys := by decide
  have apart : (parts.map Prod.snd).Nodup := by decide
  exact ⟨listed, apart, by decide +kernel, fun part mem => ((groups_select a).2.2 parts apart part mem).1 listed⟩

end Selection

end Aggregation

end SweepPlot
