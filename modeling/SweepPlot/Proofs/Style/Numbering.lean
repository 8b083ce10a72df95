import SweepPlot.Proofs.Sorting
import SweepPlot.Proofs.Style.Assignment
import SweepPlot.Proofs.Table.Text
set_option autoImplicit false

namespace SweepPlot.Registry

section Names

theorem sorted_sortedNames (queues : List String) : (sortedNames queues).Pairwise (· < ·) := by
  have rising : (sortedNames queues).Pairwise (· ≤ ·) := rising_mergeSort (fun name => name) (distinct queues)
  exact (rising.and (nodup_sortedNames queues)).imp fun ⟨le, differ⟩ => Std.lt_of_le_of_ne le differ

theorem sortedNames_congr {queues others : List String} (same : ∀ q, q ∈ queues ↔ q ∈ others) :
    sortedNames queues = sortedNames others := by
  have perm : (sortedNames queues).Perm (sortedNames others) := by
    refine (List.perm_ext_iff_of_nodup (nodup_sortedNames queues) (nodup_sortedNames others)).mpr fun q => ?_
    rw [mem_sortedNames, mem_sortedNames, same]
  refine perm.eq_of_pairwise (fun p q _ _ before after => ?_) (sorted_sortedNames queues) (sorted_sortedNames others)
  exact absurd (String.lt_trans before after) (String.lt_irrefl p)

/-- In a rising list the position of a name counts the names before it. -/
theorem position_eq {names : List String} (rising : names.Pairwise (· < ·)) {name : String} {first position : Nat}
    (mem : (name, position) ∈ names.zipIdx first) :
    position = first + names.countP fun other => decide (other < name) := by
  induction names generalizing first with
  | nil => cases mem
  | cons head names ih =>
    obtain ⟨least, rising⟩ := List.pairwise_cons.mp rising
    rw [List.zipIdx_cons] at mem
    obtain here | later := List.mem_cons.mp mem
    · cases here
      have none : (name :: names).countP (fun other => decide (other < name)) = 0 := by
        rw [List.countP_eq_zero]
        intro other listed before
        obtain rfl | after := List.mem_cons.mp listed
        · exact String.lt_irrefl _ (of_decide_eq_true before)
        · exact String.lt_irrefl _ (String.lt_trans (least other after) (of_decide_eq_true before))
      rw [none, Nat.add_zero]
    · have before : head < name := least name (List.fst_mem_of_mem_zipIdx later)
      have counted : (head :: names).countP (fun other => decide (other < name)) =
          names.countP (fun other => decide (other < name)) + 1 :=
        List.countP_cons_of_pos (by simpa using before)
      rw [ih rising later, counted]
      omega

end Names

section Answer

variable {r : Registry} {queues others : List String}

theorem freshSlots_congr (same : ∀ q, q ∈ queues ↔ q ∈ others) : r.freshSlots queues = r.freshSlots others := by
  unfold freshSlots newcomers fresh
  rw [sortedNames_congr same]

theorem assign_congr (same : ∀ q, q ∈ queues ↔ q ∈ others) : r.assign queues = r.assign others := by
  unfold assign newcomers fresh
  rw [freshSlots_congr same, sortedNames_congr same]

theorem answer_congr (same : ∀ q, q ∈ queues ↔ q ∈ others) : r.answer (.assign queues) = r.answer (.assign others) := by
  change (r.assign queues).stylesOf queues = (r.assign others).stylesOf others
  rw [assign_congr same, stylesOf, stylesOf, sortedNames_congr same]

theorem mem_answer {queue : String} {style : SeriesStyle} : (queue, style) ∈ r.answer (.assign queues) ↔
    queue ∈ queues ∧ (r.assign queues).style? queue = some style := by
  unfold answer stylesOf
  constructor
  · intro mem
    obtain ⟨q, listed, pair⟩ := List.mem_filterMap.mp mem
    obtain ⟨own, given, same⟩ := Option.map_eq_some_iff.mp pair
    cases same
    exact ⟨(mem_sortedNames queues).mp listed, given⟩
  · rintro ⟨listed, given⟩
    have pair : ((r.assign queues).style? queue).map (queue, ·) = some (queue, style) := by
      rw [given]
      rfl
    exact List.mem_filterMap.mpr ⟨queue, (mem_sortedNames queues).mpr listed, pair⟩

theorem exists_style_of_listed (r : Registry) {queue : String} (listed : queue ∈ queues) :
    ∃ style, (r.assign queues).style? queue = some style :=
  Option.isSome_iff_exists.mp (Keyed.lookup_isSome_iff_mem.mpr ((mem_assign_names r queues).mpr (.inr listed)))

theorem answer_names (r : Registry) (queues : List String) :
    (r.answer (.assign queues)).map Prod.fst = sortedNames queues := by
  have each : ∀ q ∈ sortedNames queues, (((r.assign queues).style? q).map (q, ·)).map Prod.fst = some q := by
    intro q mem
    obtain ⟨style, given⟩ := exists_style_of_listed r ((mem_sortedNames queues).mp mem)
    rw [given]
    rfl
  calc
    (r.answer (.assign queues)).map Prod.fst = ((r.assign queues).stylesOf queues).map Prod.fst := rfl
    _ = (sortedNames queues).filterMap some := by
      rw [stylesOf, List.map_filterMap]
      exact List.filterMap_congr each
    _ = sortedNames queues := List.filterMap_some

end Answer

section Slots

variable {r : Registry} {queues : List String} {queue : String}

theorem Sound.unknown_eq (sound : r.Sound) : r.unknown = r.names.countP isOther := by
  have size : r.otherSlots.length = r.unknown := by
    rw [sound.others, List.length_range']
  rw [← size, otherSlots, List.length_map, ← List.countP_eq_length_filter, names, List.countP_map]
  rfl

/-- How many types in a list that are new and not well known come before a type in the order of bytes. -/
def newcomersBefore (r : Registry) (queues : List String) (queue : String) : Nat :=
  (distinct queues).countP fun other =>
    isOther other && (r.style? other).isNone && decide (Bytes.ofText other < Bytes.ofText queue)

theorem countP_newcomers (r : Registry) (queues : List String) (queue : String) :
    (r.newcomers queues).countP (fun other => decide (other < queue)) = r.newcomersBefore queues queue := by
  unfold newcomers fresh newcomersBefore
  rw [List.countP_filter, List.countP_filter, sortedNames, (List.mergeSort_perm _ _).countP_eq]
  refine List.countP_congr fun other _ => ?_
  simp only [isOther, Bool.and_eq_true, decide_eq_true_eq, Bytes.ofText_lt_iff]
  tauto

theorem slot_of_newcomer {slot : Nat} (mem : (queue, slot) ∈ r.freshSlots queues)
    (other : Style.priority? queue = none) :
    slot = Style.knownCount + r.unknown + r.newcomersBefore queues queue := by
  have unlisted : (queue, slot) ∉ (r.fresh queues).filterMap fun q => (Style.priority? q).map (q, ·) := by
    intro listed
    obtain ⟨q, -, pair⟩ := List.mem_filterMap.mp listed
    obtain ⟨k, known, same⟩ := Option.map_eq_some_iff.mp pair
    cases same
    cases other.symm.trans known
  have position := (List.mem_append.mp mem).resolve_left unlisted
  have rising : (r.newcomers queues).Pairwise (· < ·) := ((sorted_sortedNames queues).filter _).filter _
  rw [position_eq rising position, countP_newcomers]

theorem Sound.slot_of_fresh (sound : r.Sound) (new : r.style? queue = none) {style : SeriesStyle}
    (given : (r.assign queues).style? queue = some style) :
    style.slot = (Style.priority? queue).getD (Style.knownCount + r.unknown + r.newcomersBefore queues queue) := by
  have mem := (sound.assign queues).style?_iff.mp given
  cases known : Style.priority? queue with
  | some k => exact (sound.assign queues).known _ mem k known
  | none =>
    obtain old | dressed := List.mem_append.mp mem
    · cases new.symm.trans (sound.style?_iff.mpr old)
    · obtain ⟨⟨name, slot⟩, placed, same⟩ := List.mem_map.mp dressed
      cases same
      exact slot_of_newcomer placed known

end Slots

/-- After every history, assigning depends on the set of listed types only. It answers with exactly these, in order;
a type that had a style keeps it, a new well-known type takes its priority as slot, and any other new type the slot
after the well-known types, the other ones assigned before and the new ones of the list before it. -/
theorem run_assign (calls : List Call) :
    let r := empty.run calls
    (∀ queues others, (∀ q, q ∈ queues ↔ q ∈ others) →
      r.assign queues = r.assign others ∧ r.answer (.assign queues) = r.answer (.assign others)) ∧
    ∀ queues,
      (∀ q, q ∈ (r.answer (.assign queues)).map Prod.fst ↔ q ∈ queues) ∧
      ((r.answer (.assign queues)).map Prod.fst).Nodup ∧
      ∀ q ∈ queues, ∃ style, (q, style) ∈ r.answer (.assign queues) ∧ (r.assign queues).style? q = some style ∧
        (∀ old, r.style? q = some old → style = old) ∧
        (r.style? q = none → ∀ k, Style.priority? q = some k → style.slot = k) ∧
        (r.style? q = none → Style.priority? q = none →
          style.slot = 31 + r.names.countP isOther + r.newcomersBefore queues q) := by
  intro r
  have sound : r.Sound := sound_empty.run calls
  refine ⟨fun queues others same => ⟨assign_congr same, answer_congr same⟩, fun queues => ⟨fun q => ?_, ?_, ?_⟩⟩
  · rw [answer_names, mem_sortedNames]
  · rw [answer_names]
    exact nodup_sortedNames queues
  · intro q listed
    obtain ⟨style, given⟩ := exists_style_of_listed r listed
    refine ⟨style, mem_answer.mpr ⟨listed, given⟩, given, fun old had => ?_, fun new k known => ?_, fun new other => ?_⟩
    · have kept := style?_after had (.assign queues)
      exact Option.some.inj (given.symm.trans kept)
    · have slot := sound.slot_of_fresh new given
      rwa [known] at slot
    · have slot := sound.slot_of_fresh new given
      rwa [other, sound.unknown_eq] at slot

end SweepPlot.Registry
