import SweepPlot.Proofs.Keyed
import SweepPlot.Style.Registry
set_option autoImplicit false

/-!
Styles along every history of a registry. `Registry.Sound` is kept by both calls: names are apart,
well-known types sit at their priorities, the other ones fill the slots after the known ones without a gap,
and each style is that of its slot in the pinned colour. Assigning and pinning commute, so only the order
of pins matters.
-/

namespace SweepPlot.Style

theorem priority?_lt {queue : String} {k : Nat} (h : priority? queue = some k) : k < knownCount := by
  obtain ⟨hk, -⟩ := List.findIdx?_eq_some_iff_getElem.mp h
  exact hk

theorem priority?_injective {p q : String} {k : Nat} (hp : priority? p = some k)
    (hq : priority? q = some k) : p = q := by
  obtain ⟨hk, ap, -⟩ := List.findIdx?_eq_some_iff_getElem.mp hp
  obtain ⟨_, aq, -⟩ := List.findIdx?_eq_some_iff_getElem.mp hq
  rw [beq_iff_eq] at ap aq
  exact ap.symm.trans aq

end SweepPlot.Style

namespace SweepPlot.Registry

inductive Call where
  | assign (queues : List String)
  | pin (queue : String) (color : Color)

def after (r : Registry) : Call → Registry
  | .assign queues => r.assign queues
  | .pin queue color => r.pin queue color

def run (r : Registry) (calls : List Call) : Registry :=
  calls.foldl after r

/-- Assigning answers with the styles of the listed types, pinning with nothing. -/
def answer (r : Registry) : Call → List (String × SeriesStyle)
  | .assign queues => (r.assign queues).stylesOf queues
  | .pin _ _ => []

def answers (r : Registry) : List Call → List (List (String × SeriesStyle))
  | [] => []
  | call :: calls => r.answer call :: (r.after call).answers calls

def Call.pinned? (queue : String) : Call → Option Color
  | .assign _ => none
  | .pin other color => if other = queue then some color else none

def lastPin? (calls : List Call) (queue : String) : Option Color :=
  calls.reverse.findSome? (Call.pinned? queue)

def isOther (queue : String) : Bool :=
  (Style.priority? queue).isNone

def names (r : Registry) : List String :=
  r.styles.map Prod.fst

def slots (r : Registry) : List Nat :=
  r.styles.map (·.2.slot)

def otherSlots (r : Registry) : List Nat :=
  (r.styles.filter fun entry => isOther entry.1).map (·.2.slot)

structure Sound (r : Registry) : Prop where
  apart : r.names.Nodup
  known : ∀ entry ∈ r.styles, ∀ k, Style.priority? entry.1 = some k → entry.2.slot = k
  others : r.otherSlots = List.range' Style.knownCount r.unknown
  dressed : ∀ entry ∈ r.styles, entry.2 = r.styleAt entry.1 entry.2.slot

section Lookup

variable {r : Registry}

theorem style?_eq_none_iff {queue : String} : r.style? queue = none ↔ queue ∉ r.names :=
  Keyed.lookup_eq_none_iff_not_mem

theorem Sound.style?_iff (sound : r.Sound) {queue : String} {style : SeriesStyle} :
    r.style? queue = some style ↔ (queue, style) ∈ r.styles :=
  Keyed.lookup_eq_some_iff_mem sound.apart

end Lookup

section Pin

variable (r : Registry) (queue : String) (color : Color)

theorem recolor_fst (entry : String × SeriesStyle) : (recolor queue color entry).1 = entry.1 := by
  unfold recolor
  split
  · next h => exact h.symm
  · rfl

theorem recolor_slot (entry : String × SeriesStyle) :
    (recolor queue color entry).2.slot = entry.2.slot := by
  unfold recolor
  split <;> rfl

/-- A pin does to a style what asking for the style after the pin would do. -/
theorem recolor_styleAt (name : String) (slot : Nat) :
    recolor queue color (name, r.styleAt name slot) = (name, (r.pin queue color).styleAt name slot) := by
  by_cases h : name = queue
  · subst h
    simp [recolor, styleAt, pin]
  · have hb : (name == queue) = false := by simpa using h
    simp [recolor, styleAt, pin, h, List.lookup_cons, hb]

theorem pin_names : (r.pin queue color).names = r.names := by
  simp only [names, pin, List.map_map]
  exact List.map_congr_left fun entry _ => recolor_fst queue color entry

theorem pin_otherSlots : (r.pin queue color).otherSlots = r.otherSlots := by
  have same : ((fun entry => isOther entry.1) ∘ recolor queue color) =
      fun entry : String × SeriesStyle => isOther entry.1 := by
    funext entry
    exact congrArg isOther (recolor_fst queue color entry)
  simp only [otherSlots, pin, List.filter_map, List.map_map, same]
  exact List.map_congr_left fun entry _ => recolor_slot queue color entry

theorem pin_fresh (queues : List String) : (r.pin queue color).fresh queues = r.fresh queues := by
  unfold fresh
  apply List.filter_congr
  intro name _
  rw [Bool.eq_iff_iff, Option.isNone_iff_eq_none, Option.isNone_iff_eq_none, style?_eq_none_iff,
    style?_eq_none_iff, pin_names]

theorem pin_newcomers (queues : List String) :
    (r.pin queue color).newcomers queues = r.newcomers queues := by
  rw [newcomers, newcomers, pin_fresh]

theorem pin_freshSlots (queues : List String) :
    (r.pin queue color).freshSlots queues = r.freshSlots queues := by
  rw [freshSlots, freshSlots, pin_fresh, pin_newcomers]
  rfl

theorem Sound.pin {r : Registry} (sound : r.Sound) : (r.pin queue color).Sound where
  apart := by
    rw [pin_names]
    exact sound.apart
  known := by
    intro entry he k hk
    obtain ⟨old, ho, rfl⟩ := List.mem_map.mp he
    rw [recolor_fst] at hk
    rw [recolor_slot]
    exact sound.known old ho k hk
  others := by
    rw [pin_otherSlots]
    exact sound.others
  dressed := by
    intro entry he
    obtain ⟨old, ho, rfl⟩ := List.mem_map.mp he
    have dress : old = (old.1, r.styleAt old.1 old.2.slot) := Prod.ext rfl (sound.dressed old ho)
    rw [recolor_fst, recolor_slot]
    conv_lhs => rw [dress, recolor_styleAt]

theorem assign_pin (queues : List String) :
    (r.pin queue color).assign queues = (r.assign queues).pin queue color := by
  have newer : (r.freshSlots queues).map (r.pin queue color).dress =
      ((r.freshSlots queues).map r.dress).map (recolor queue color) := by
    rw [List.map_map]
    exact List.map_congr_left fun entry _ => (recolor_styleAt r queue color entry.1 entry.2).symm
  simp only [assign, pin_freshSlots, pin_newcomers, newer]
  simp only [pin, List.map_append]

end Pin

section Assign

variable (r : Registry) (queues : List String)

theorem mem_sortedNames {queue : String} : queue ∈ sortedNames queues ↔ queue ∈ queues := by
  rw [sortedNames, List.mem_mergeSort, mem_distinct]

theorem nodup_sortedNames : (sortedNames queues).Nodup :=
  (List.mergeSort_perm _ _).nodup_iff.mpr (nodup_distinct queues)

theorem mem_fresh {queue : String} : queue ∈ r.fresh queues ↔ queue ∈ queues ∧ queue ∉ r.names := by
  rw [fresh, List.mem_filter, mem_sortedNames, Option.isNone_iff_eq_none, style?_eq_none_iff]

theorem nodup_fresh : (r.fresh queues).Nodup :=
  (nodup_sortedNames queues).filter _

theorem knownNames (names : List String) :
    (names.filterMap fun q => (Style.priority? q).map (q, ·)).map Prod.fst =
      names.filter fun q => !isOther q := by
  rw [List.map_filterMap, ← List.filterMap_eq_filter]
  apply List.filterMap_congr
  intro q _
  cases h : Style.priority? q <;> simp [isOther, h, Option.guard]

theorem freshSlots_names_perm : ((r.freshSlots queues).map Prod.fst).Perm (r.fresh queues) := by
  rw [freshSlots, List.map_append, knownNames, List.zipIdx_map_fst]
  exact List.perm_append_comm.trans (List.filter_append_perm _ _)

theorem assign_names :
    (r.assign queues).names = r.names ++ (r.freshSlots queues).map Prod.fst := by
  simp only [names, assign, List.map_append, List.map_map]
  rfl

theorem mem_assign_names {queue : String} :
    queue ∈ (r.assign queues).names ↔ queue ∈ r.names ∨ queue ∈ queues := by
  rw [assign_names, List.mem_append, (freshSlots_names_perm r queues).mem_iff, mem_fresh]
  tauto

theorem mem_freshSlots {queue : String} {slot : Nat} (h : (queue, slot) ∈ r.freshSlots queues) :
    Style.priority? queue = some slot ∨ isOther queue = true := by
  rcases List.mem_append.mp h with h | h
  · obtain ⟨q, -, hq⟩ := List.mem_filterMap.mp h
    obtain ⟨k, hk, hpair⟩ := Option.map_eq_some_iff.mp hq
    cases hpair
    exact Or.inl hk
  · have member : queue ∈ r.newcomers queues := List.fst_mem_of_mem_zipIdx h
    exact Or.inr (List.mem_filter.mp member).2

theorem freshSlots_others :
    (((r.freshSlots queues).filter fun entry => isOther entry.1).map Prod.snd) =
      List.range' (Style.knownCount + r.unknown) (r.newcomers queues).length := by
  have none_known : (((r.fresh queues).filterMap fun q => (Style.priority? q).map (q, ·)).filter
      fun entry => isOther entry.1) = [] := by
    rw [List.filter_eq_nil_iff]
    intro entry he
    obtain ⟨q, -, hq⟩ := List.mem_filterMap.mp he
    obtain ⟨k, hk, rfl⟩ := Option.map_eq_some_iff.mp hq
    simp [isOther, hk]
  have all_new : ((r.newcomers queues).zipIdx (Style.knownCount + r.unknown)).filter
      (fun entry => isOther entry.1) = (r.newcomers queues).zipIdx (Style.knownCount + r.unknown) := by
    rw [List.filter_eq_self]
    intro entry he
    exact (List.mem_filter.mp (List.fst_mem_of_mem_zipIdx he)).2
  rw [freshSlots, List.filter_append, none_known, all_new, List.nil_append, List.zipIdx_map_snd]

theorem assign_otherSlots :
    (r.assign queues).otherSlots =
      r.otherSlots ++ List.range' (Style.knownCount + r.unknown) (r.newcomers queues).length := by
  rw [← freshSlots_others]
  simp only [otherSlots, assign, List.filter_append, List.map_append, List.filter_map, List.map_map]
  rfl

theorem Sound.assign {r : Registry} (sound : r.Sound) : (r.assign queues).Sound where
  apart := by
    have new := (freshSlots_names_perm r queues)
    rw [assign_names, List.nodup_append]
    refine ⟨sound.apart, new.nodup_iff.mpr (nodup_fresh r queues), ?_⟩
    intro p hp q hq
    rintro rfl
    exact ((mem_fresh r queues).mp (new.mem_iff.mp hq)).2 hp
  known := by
    intro entry he k hk
    rcases List.mem_append.mp he with he | he
    · exact sound.known entry he k hk
    · obtain ⟨⟨queue, slot⟩, hs, rfl⟩ := List.mem_map.mp he
      have priority : Style.priority? queue = some k := hk
      rcases mem_freshSlots r queues hs with h | h
      · exact Option.some.inj (h.symm.trans priority)
      · simp [isOther, priority] at h
  others := by
    rw [assign_otherSlots, sound.others, List.range'_append_1]
    rfl
  dressed := by
    intro entry he
    rcases List.mem_append.mp he with he | he
    · exact sound.dressed entry he
    · obtain ⟨new, -, rfl⟩ := List.mem_map.mp he
      rfl

end Assign

section History

theorem sound_empty : empty.Sound where
  apart := List.nodup_nil
  known := by simp [empty]
  others := rfl
  dressed := by simp [empty]

theorem Sound.after {r : Registry} (sound : r.Sound) (call : Call) : (r.after call).Sound := by
  cases call with
  | assign queues => exact sound.assign queues
  | pin queue color => exact sound.pin queue color

theorem Sound.run {r : Registry} (sound : r.Sound) (calls : List Call) : (r.run calls).Sound := by
  induction calls generalizing r with
  | nil => exact sound
  | cons call calls ih => exact ih (sound.after call)

theorem run_append (r : Registry) (calls later : List Call) :
    r.run (calls ++ later) = (r.run calls).run later :=
  List.foldl_append

theorem lastPin?_cons (call : Call) (calls : List Call) (queue : String) :
    lastPin? (call :: calls) queue = (lastPin? calls queue).or (call.pinned? queue) := by
  simp [lastPin?, List.findSome?_append]

theorem lastPin?_eq_none {calls : List Call} {queue : String}
    (h : ∀ color, Call.pin queue color ∉ calls) : lastPin? calls queue = none := by
  simp only [lastPin?, List.findSome?_eq_none_iff, List.mem_reverse]
  intro call hc
  cases call with
  | assign queues => rfl
  | pin other color =>
    have differ : other ≠ queue := by
      rintro rfl
      exact h color hc
    simp [Call.pinned?, differ]

theorem pins_after (r : Registry) (call : Call) (queue : String) :
    (r.after call).pins.lookup queue = (call.pinned? queue).or (r.pins.lookup queue) := by
  cases call with
  | assign queues => rfl
  | pin other color =>
    by_cases h : other = queue
    · subst h
      simp [Registry.after, Registry.pin, Call.pinned?]
    · have hb : (queue == other) = false := by simpa using Ne.symm h
      simp [Registry.after, Registry.pin, Call.pinned?, h, List.lookup_cons, hb]

theorem pins_run (r : Registry) (calls : List Call) (queue : String) :
    (r.run calls).pins.lookup queue = (lastPin? calls queue).or (r.pins.lookup queue) := by
  induction calls generalizing r with
  | nil => rfl
  | cons call calls ih =>
    calc
      (r.run (call :: calls)).pins.lookup queue = ((r.after call).run calls).pins.lookup queue := rfl
      _ = (lastPin? calls queue).or ((r.after call).pins.lookup queue) := ih (r.after call)
      _ = (lastPin? (call :: calls) queue).or (r.pins.lookup queue) := by
        rw [pins_after, lastPin?_cons, Option.or_assoc]

/-- A call recolours a style that was given at most, and only if it pins the colour of that type. -/
theorem style?_after {r : Registry} {queue : String} {style : SeriesStyle}
    (h : r.style? queue = some style) (call : Call) :
    (r.after call).style? queue =
      some { style with color := (call.pinned? queue).getD style.color } := by
  cases call with
  | assign queues =>
    have found : r.styles.lookup queue = some style := h
    simp [Registry.after, Registry.assign, style?, List.lookup_append, found, Call.pinned?]
  | pin other color =>
    have step : ∀ styles : List (String × SeriesStyle), styles.lookup queue = some style →
        (styles.map (recolor other color)).lookup queue =
          some { style with color := ((Call.pin other color).pinned? queue).getD style.color } := by
      intro styles
      induction styles with
      | nil => simp
      | cons entry styles ih =>
        intro found
        rw [List.lookup_cons] at found
        rw [List.map_cons, List.lookup_cons, recolor_fst]
        by_cases same : queue = entry.1
        · subst same
          simp only [beq_self_eq_true] at found ⊢
          cases Option.some.inj found
          by_cases hit : entry.1 = other
          · simp [recolor, Call.pinned?, hit]
          · simp [recolor, Call.pinned?, hit, Ne.symm hit]
        · have hb : (queue == entry.1) = false := by simpa using same
          simp only [hb] at found ⊢
          exact ih found
    exact step r.styles h

theorem style?_run {r : Registry} {queue : String} {style : SeriesStyle}
    (h : r.style? queue = some style) (calls : List Call) :
    (r.run calls).style? queue =
      some { style with color := (lastPin? calls queue).getD style.color } := by
  induction calls generalizing r style with
  | nil => exact h
  | cons call calls ih =>
    have next := ih (style?_after h call)
    change ((r.after call).run calls).style? queue = _
    rw [lastPin?_cons]
    cases hl : lastPin? calls queue with
    | none => simpa [hl] using next
    | some color => simpa [hl] using next

theorem mem_names_run (r : Registry) (calls : List Call) (queue : String) :
    queue ∈ (r.run calls).names ↔ queue ∈ r.names ∨ ∃ queues, .assign queues ∈ calls ∧ queue ∈ queues := by
  induction calls generalizing r with
  | nil => simp [run]
  | cons call calls ih =>
    change queue ∈ ((r.after call).run calls).names ↔ _
    rw [ih]
    cases call with
    | assign queues =>
      rw [Registry.after, mem_assign_names]
      simp only [List.mem_cons, Call.assign.injEq]
      constructor
      · rintro ((h | h) | ⟨listed, hl, hq⟩)
        · exact Or.inl h
        · exact Or.inr ⟨queues, Or.inl rfl, h⟩
        · exact Or.inr ⟨listed, Or.inr hl, hq⟩
      · rintro (h | ⟨listed, rfl | hl, hq⟩)
        · exact Or.inl (Or.inl h)
        · exact Or.inl (Or.inr hq)
        · exact Or.inr ⟨listed, hl, hq⟩
    | pin other color =>
      rw [Registry.after, pin_names]
      simp

theorem run_pin_assign (r : Registry) (queue : String) (color : Color) (lists : List (List String)) :
    r.run (.pin queue color :: lists.map .assign) = r.run (lists.map .assign ++ [.pin queue color]) := by
  induction lists generalizing r with
  | nil => rfl
  | cons queues lists ih =>
    calc
      r.run (.pin queue color :: (queues :: lists).map .assign)
          = ((r.pin queue color).assign queues).run (lists.map .assign) := rfl
      _ = (r.assign queues).run (.pin queue color :: lists.map .assign) := by rw [assign_pin]; rfl
      _ = (r.assign queues).run (lists.map .assign ++ [.pin queue color]) := ih (r.assign queues)
      _ = r.run ((queues :: lists).map .assign ++ [.pin queue color]) := rfl

end History

section Slots

variable {r : Registry}

theorem Sound.slot_ge (sound : r.Sound) {entry : String × SeriesStyle} (he : entry ∈ r.styles)
    (other : isOther entry.1 = true) :
    Style.knownCount ≤ entry.2.slot ∧ entry.2.slot < Style.knownCount + r.unknown := by
  have member : entry.2.slot ∈ r.otherSlots :=
    List.mem_map.mpr ⟨entry, List.mem_filter.mpr ⟨he, other⟩, rfl⟩
  rw [sound.others, List.mem_range'_1] at member
  exact member

theorem Sound.mem_otherSlots (sound : r.Sound) {slot : Nat} (low : Style.knownCount ≤ slot)
    (high : slot < Style.knownCount + r.unknown) :
    ∃ entry ∈ r.styles, isOther entry.1 = true ∧ entry.2.slot = slot := by
  have member : slot ∈ r.otherSlots := by
    rw [sound.others, List.mem_range'_1]
    exact ⟨low, high⟩
  obtain ⟨entry, he, hs⟩ := List.mem_map.mp member
  obtain ⟨hm, ho⟩ := List.mem_filter.mp he
  exact ⟨entry, hm, ho, hs⟩

/-- Known slots lie below the other ones; each of the two kinds is injective by itself. -/
theorem Sound.slot_injective (sound : r.Sound) {a b : String × SeriesStyle} (ha : a ∈ r.styles)
    (hb : b ∈ r.styles) (h : a.2.slot = b.2.slot) : a = b := by
  cases ka : Style.priority? a.1 with
  | some i =>
    have sa := sound.known a ha i ka
    have la := Style.priority?_lt ka
    cases kb : Style.priority? b.1 with
    | some j =>
      have sb := sound.known b hb j kb
      have ij : i = j := by omega
      subst ij
      exact Keyed.eq_of_mem_of_fst sound.apart ha hb (Style.priority?_injective ka kb)
    | none =>
      have lb := sound.slot_ge hb (by simp [isOther, kb])
      omega
  | none =>
    have oa : isOther a.1 = true := by simp [isOther, ka]
    have la := sound.slot_ge ha oa
    cases kb : Style.priority? b.1 with
    | some j =>
      have sb := sound.known b hb j kb
      have lb := Style.priority?_lt kb
      omega
    | none =>
      have once : r.otherSlots.Nodup := by
        rw [sound.others]
        exact List.nodup_range'
      exact List.inj_on_of_nodup_map once (List.mem_filter.mpr ⟨ha, oa⟩)
        (List.mem_filter.mpr ⟨hb, by simp [isOther, kb]⟩) h

end Slots

/-- Along every history from the empty registry each listed type has a slot of its own, in the style of
that slot and its last pinned colour, and keeps it. -/
theorem run_styles (calls : List Call) :
    let r := empty.run calls
    (∀ q, (∃ s, r.style? q = some s) ↔ ∃ queues, .assign queues ∈ calls ∧ q ∈ queues) ∧
    (∀ p q s t, r.style? p = some s → r.style? q = some t → s.slot = t.slot → p = q) ∧
    (∀ q s k, r.style? q = some s → Style.priority? q = some k → s.slot = k) ∧
    (∀ slot, (∃ q s, r.style? q = some s ∧ Style.priority? q = none ∧ s.slot = slot) ↔
      31 ≤ slot ∧ slot ≤ 30 + r.unknown) ∧
    (∀ q s, r.style? q = some s →
      s.line = (SeriesStyle.ofSlot s.slot).line ∧ s.marker = (SeriesStyle.ofSlot s.slot).marker ∧
      s.color = (lastPin? calls q).getD (SeriesStyle.ofSlot s.slot).color) ∧
    (∀ later q s, r.style? q = some s → ∃ t, (r.run later).style? q = some t ∧
      t.slot = s.slot ∧ t.line = s.line ∧ t.marker = s.marker ∧
      ((∀ color, .pin q color ∉ later) → t.color = s.color)) ∧
    (∀ q color (lists : List (List String)) later,
      r.run (.pin q color :: lists.map .assign ++ later) =
        r.run (lists.map .assign ++ .pin q color :: later) ∧
      (r.run (.pin q color :: lists.map .assign)).answers later =
        (r.run (lists.map .assign ++ [.pin q color])).answers later) := by
  intro r
  have sound : r.Sound := sound_empty.run calls
  refine ⟨?_, ?_, ?_, ?_, ?_, ?_, ?_⟩
  · intro q
    have named := mem_names_run empty calls q
    rw [← Option.isSome_iff_exists, style?, Keyed.lookup_isSome_iff_mem]
    exact named.trans (or_iff_right (by simp [names, empty]))
  · intro p q s t hp hq h
    have pair := sound.slot_injective (sound.style?_iff.mp hp) (sound.style?_iff.mp hq) h
    exact congrArg Prod.fst pair
  · intro q s k hq hk
    exact sound.known (q, s) (sound.style?_iff.mp hq) k hk
  · intro slot
    have base : Style.knownCount = 31 := rfl
    constructor
    · rintro ⟨q, s, hq, hk, rfl⟩
      have range : Style.knownCount ≤ s.slot ∧ s.slot < Style.knownCount + r.unknown :=
        sound.slot_ge (sound.style?_iff.mp hq) (by simp [isOther, hk])
      omega
    · rintro ⟨low, high⟩
      have first : Style.knownCount ≤ slot := by omega
      have last : slot < Style.knownCount + r.unknown := by omega
      obtain ⟨⟨q, s⟩, he, ho, hs⟩ := sound.mem_otherSlots first last
      exact ⟨q, s, sound.style?_iff.mpr he, Option.isNone_iff_eq_none.mp ho, hs⟩
  · intro q s hq
    have dress : s = r.styleAt q s.slot := sound.dressed (q, s) (sound.style?_iff.mp hq)
    have line : s.line = (r.styleAt q s.slot).line := congrArg SeriesStyle.line dress
    have marker : s.marker = (r.styleAt q s.slot).marker := congrArg SeriesStyle.marker dress
    have color : s.color = (r.styleAt q s.slot).color := congrArg SeriesStyle.color dress
    have pins := pins_run empty calls q
    rw [show empty.pins.lookup q = none from rfl, Option.or_none] at pins
    refine ⟨line, marker, ?_⟩
    rw [← pins]
    exact color
  · intro later q s hq
    refine ⟨_, style?_run hq later, rfl, rfl, rfl, ?_⟩
    intro unpinned
    rw [lastPin?_eq_none unpinned]
    rfl
  · intro q color lists later
    have moved := run_pin_assign r q color lists
    constructor
    · have regroup : lists.map Call.assign ++ .pin q color :: later =
          lists.map .assign ++ [.pin q color] ++ later := by simp
      rw [regroup, run_append, run_append, moved]
    · rw [moved]

end SweepPlot.Registry
