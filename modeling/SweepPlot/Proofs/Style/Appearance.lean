import Mathlib.Data.Nat.ModEq
import SweepPlot.Proofs.Style.Numbering
set_option autoImplicit false

/-!
What tells queue types apart in a figure. Line and marker repeat together every 52 slots and the palette has ten
colours in two places, so the first two slots that look the same are 4 and 108: the slots of the well-known types and
of 77 other ones all look different. Pinned colours that differ from the palette and from each other keep it so.
-/

namespace SweepPlot

def SeriesStyle.look (style : SeriesStyle) : Color × LineStyle × Marker :=
  (style.color, style.line, style.marker)

section Slots

variable {s t : Nat}

theorem ofSlot_line_eq (same : (SeriesStyle.ofSlot s).line = (SeriesStyle.ofSlot t).line) : s % 4 = t % 4 := by
  have apart : ∀ a < 4, ∀ b < 4, LineStyle.all.getD a .solid = LineStyle.all.getD b .solid → a = b := by decide
  exact apart _ (Nat.mod_lt s (by decide)) _ (Nat.mod_lt t (by decide)) same

theorem ofSlot_marker_eq (same : (SeriesStyle.ofSlot s).marker = (SeriesStyle.ofSlot t).marker) : s % 13 = t % 13 := by
  have apart : ∀ a < 13, ∀ b < 13, Marker.all.getD a .circle = Marker.all.getD b .circle → a = b := by decide
  exact apart _ (Nat.mod_lt s (by decide)) _ (Nat.mod_lt t (by decide)) same

/-- The first ten colours of the palette stand in it once more, at every other place behind them. -/
theorem ofSlot_color_eq (same : (SeriesStyle.ofSlot s).color = (SeriesStyle.ofSlot t).color) :
    s % 30 = t % 30 ∨ (s % 30 < 10 ∧ t % 30 = 10 + 2 * (s % 30)) ∨ (t % 30 < 10 ∧ s % 30 = 10 + 2 * (t % 30)) := by
  have apart : ∀ a < 30, ∀ b < 30, Color.palette.getD a .gray = Color.palette.getD b .gray →
      a = b ∨ (a < 10 ∧ b = 10 + 2 * a) ∨ (b < 10 ∧ a = 10 + 2 * b) := by decide +kernel
  exact apart _ (Nat.mod_lt s (by decide)) _ (Nat.mod_lt t (by decide)) same

theorem ofSlot_strokes_eq (line : (SeriesStyle.ofSlot s).line = (SeriesStyle.ofSlot t).line)
    (marker : (SeriesStyle.ofSlot s).marker = (SeriesStyle.ofSlot t).marker) : s % 52 = t % 52 :=
  (Nat.modEq_and_modEq_iff_modEq_mul (by decide)).mp ⟨ofSlot_line_eq line, ofSlot_marker_eq marker⟩

theorem look_ofSlot_injective (hs : s < 108) (ht : t < 108)
    (same : (SeriesStyle.ofSlot s).look = (SeriesStyle.ofSlot t).look) : s = t := by
  obtain ⟨color, line, marker⟩ : _ ∧ _ ∧ _ := by simpa [SeriesStyle.look] using same
  have strokes := ofSlot_strokes_eq line marker
  have colors := ofSlot_color_eq color
  have distance : s = t ∨ s = t + 52 ∨ t = s + 52 ∨ s = t + 104 ∨ t = s + 104 := by omega
  -- Below 108 no two slots that are 52 or 104 apart have one colour.
  obtain equal | rfl | rfl | rfl | rfl := distance
  · exact equal
  all_goals omega

example : (SeriesStyle.ofSlot 108).look = (SeriesStyle.ofSlot 4).look := by decide

theorem ofSlot_color_mem (slot : Nat) : (SeriesStyle.ofSlot slot).color ∈ Color.palette := by
  have listed : ∀ a < 30, Color.palette.getD a .gray ∈ Color.palette := by decide +kernel
  exact listed _ (Nat.mod_lt slot (by decide))

end Slots

namespace Registry

/-- Pinned colours that are not in the palette, no two types in one colour. -/
structure Telling (pins : List (String × Color)) : Prop where
  own : ∀ pin ∈ pins, pin.2 ∉ Color.palette
  apart : ∀ a ∈ pins, ∀ b ∈ pins, a.2 = b.2 → a.1 = b.1

variable {r : Registry}

theorem Sound.slot_lt (sound : r.Sound) {entry : String × SeriesStyle} (mem : entry ∈ r.styles) :
    entry.2.slot < Style.knownCount + r.unknown := by
  cases known : Style.priority? entry.1 with
  | some k =>
    rw [sound.known entry mem k known]
    exact Nat.lt_add_right _ (Style.priority?_lt known)
  | none => exact (sound.slot_ge mem (by simp [isOther, known])).2

theorem Sound.strokes (sound : r.Sound) {entry : String × SeriesStyle} (mem : entry ∈ r.styles) :
    entry.2.line = (SeriesStyle.ofSlot entry.2.slot).line ∧
      entry.2.marker = (SeriesStyle.ofSlot entry.2.slot).marker := by
  have line : entry.2.line = (r.styleAt entry.1 entry.2.slot).line :=
    congrArg SeriesStyle.line (sound.dressed entry mem)
  have marker : entry.2.marker = (r.styleAt entry.1 entry.2.slot).marker :=
    congrArg SeriesStyle.marker (sound.dressed entry mem)
  exact ⟨line, marker⟩

theorem Sound.color_cases (sound : r.Sound) {entry : String × SeriesStyle} (mem : entry ∈ r.styles) :
    (entry.1, entry.2.color) ∈ r.pins ∨ entry.2.color = (SeriesStyle.ofSlot entry.2.slot).color := by
  have dressed : entry.2.color = (r.styleAt entry.1 entry.2.slot).color :=
    congrArg SeriesStyle.color (sound.dressed entry mem)
  rw [styleAt] at dressed
  cases pinned : r.pins.lookup entry.1 with
  | none =>
    rw [pinned] at dressed
    exact .inr dressed
  | some color =>
    rw [pinned, Option.getD_some] at dressed
    exact .inl (dressed ▸ Keyed.mem_of_lookup pinned)

/-- Pinned types differ from all others in colour, and all other types differ in the looks of their slots. -/
theorem Sound.eq_of_look (sound : r.Sound) (telling : Telling r.pins) (few : r.unknown ≤ 77)
    {a b : String × SeriesStyle} (ha : a ∈ r.styles) (hb : b ∈ r.styles) (same : a.2.look = b.2.look) : a.1 = b.1 := by
  obtain ⟨color, strokes⟩ := Prod.mk.inj same
  obtain ⟨line, marker⟩ := Prod.mk.inj strokes
  obtain pinA | plainA := sound.color_cases ha
  · obtain pinB | plainB := sound.color_cases hb
    · exact telling.apart _ pinA _ pinB color
    · exact absurd (color ▸ plainB ▸ ofSlot_color_mem _) (telling.own _ pinA)
  · obtain pinB | plainB := sound.color_cases hb
    · exact absurd (color ▸ plainA ▸ ofSlot_color_mem _) (telling.own _ pinB)
    · rw [plainA, plainB] at color
      rw [(sound.strokes ha).1, (sound.strokes hb).1] at line
      rw [(sound.strokes ha).2, (sound.strokes hb).2] at marker
      have looks : (SeriesStyle.ofSlot a.2.slot).look = (SeriesStyle.ofSlot b.2.slot).look :=
        Prod.ext color (Prod.ext line marker)
      have slotA : a.2.slot < 108 := Nat.lt_of_lt_of_le (sound.slot_lt ha) (Nat.add_le_add_left few 31)
      have slotB : b.2.slot < 108 := Nat.lt_of_lt_of_le (sound.slot_lt hb) (Nat.add_le_add_left few 31)
      exact congrArg Prod.fst (sound.slot_injective ha hb (look_ofSlot_injective slotA slotB looks))

section History

theorem run_assign_pins (r : Registry) (lists : List (List String)) : (r.run (lists.map .assign)).pins = r.pins := by
  induction lists generalizing r with
  | nil => rfl
  | cons queues lists ih => exact ih (r.assign queues)

theorem Sound.unknown_run (sound : r.Sound) (none : r.styles = []) (lists : List (List String)) :
    (r.run (lists.map .assign)).unknown = (distinct lists.flatten).countP isOther := by
  have later := sound.run (lists.map .assign)
  have perm : (r.run (lists.map .assign)).names.Perm (distinct lists.flatten) := by
    refine (List.perm_ext_iff_of_nodup later.apart (nodup_distinct _)).mpr fun q => ?_
    rw [mem_names_run, mem_distinct, List.mem_flatten, names, none]
    simp
  rw [later.unknown_eq, perm.countP_eq]

theorem sound_comparison : comparison.Sound :=
  sound_empty.run [.pin "lcrq_rust" .orange, .pin "lprq_rust" .pureRed, .pin "faaa_queue_rust" .pureBlue]

theorem telling_comparison : Telling comparison.pins :=
  ⟨by decide +kernel, by decide +kernel⟩

/-- Assigning types to an empty registry, or to that of a comparison of variants, gives no two of them the same colour,
line and marker, as long as at most 77 of them are not well known. -/
theorem run_looksApart (lists : List (List String)) (few : (distinct lists.flatten).countP isOther ≤ 77) :
    ∀ base ∈ [empty, comparison], ∀ p q s t, (base.run (lists.map .assign)).style? p = some s →
      (base.run (lists.map .assign)).style? q = some t → p ≠ q →
        s.color ≠ t.color ∨ s.line ≠ t.line ∨ s.marker ≠ t.marker := by
  intro base listed p q s t hp hq differ
  have start : base.Sound ∧ base.styles = [] ∧ Telling base.pins := by
    obtain rfl | rfl : base = empty ∨ base = comparison := by simpa using listed
    · exact ⟨sound_empty, rfl, by decide, by decide⟩
    · exact ⟨sound_comparison, rfl, telling_comparison⟩
  obtain ⟨sound, none, telling⟩ := start
  have later := sound.run (lists.map .assign)
  rw [← run_assign_pins base lists] at telling
  rw [← sound.unknown_run none lists] at few
  by_contra same
  simp only [not_or, not_not] at same
  obtain ⟨color, line, marker⟩ := same
  have looks : s.look = t.look := Prod.ext color (Prod.ext line marker)
  exact differ (later.eq_of_look telling few (later.style?_iff.mp hp) (later.style?_iff.mp hq) looks)

theorem run_looksApart_comparing :
    let lists := [["lcrq_rust", "bbq"], ["mystery_q", "bbq"]]
    (distinct lists.flatten).countP isOther ≤ 77 ∧
      ∀ p ∈ ["lcrq_rust", "bbq", "mystery_q"], ∀ q ∈ ["lcrq_rust", "bbq", "mystery_q"], p ≠ q →
        ∃ s t, (comparison.run (lists.map .assign)).style? p = some s ∧
          (comparison.run (lists.map .assign)).style? q = some t ∧
          (s.color ≠ t.color ∨ s.line ≠ t.line ∨ s.marker ≠ t.marker) := by
  intro lists
  have few : (distinct lists.flatten).countP isOther ≤ 77 := by decide +kernel
  have given : ∀ p ∈ ["lcrq_rust", "bbq", "mystery_q"],
      ∃ s, (comparison.run (lists.map .assign)).style? p = some s := by
    intro p listed
    have assigned : ∃ queues ∈ lists, p ∈ queues := by
      revert p
      decide
    obtain ⟨queues, step, own⟩ := assigned
    rw [← Option.isSome_iff_exists, style?, Keyed.lookup_isSome_iff_mem]
    exact (mem_names_run comparison (lists.map .assign) p).mpr (.inr ⟨queues, List.mem_map_of_mem step, own⟩)
  refine ⟨few, fun p hp q hq differ => ?_⟩
  obtain ⟨s, hs⟩ := given p hp
  obtain ⟨t, ht⟩ := given q hq
  exact ⟨s, t, hs, ht, run_looksApart lists few comparison (by simp) p q s t hs ht differ⟩

end History

end Registry

end SweepPlot
