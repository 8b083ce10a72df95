import Mathlib
import SweepPlot.Layout
set_option autoImplicit false

namespace SweepPlot.Layout

def Shares (p q : PanelSpec) : Prop :=
  p.row = q.row ∧ p.col = q.col

structure WellPlaced (layout : Layout) : Prop where
  panels : layout.panels ≠ []
  width : 200 ≤ layout.width
  height : 200 ≤ layout.height
  inside : ∀ p ∈ layout.panels, p.row < layout.rows ∧ p.col < layout.cols
  apart : layout.panels.Pairwise fun p q => ¬ Shares p q

theorem sharesCell_iff {p q : PanelSpec} : sharesCell p q = true ↔ Shares p q := by
  simp [sharesCell, Shares]

theorem Shares.symm {p q : PanelSpec} (h : Shares p q) : Shares q p :=
  ⟨h.1.symm, h.2.symm⟩

instance : Std.Symm fun p q => ¬ Shares p q :=
  ⟨fun _ _ apart shared => apart shared.symm⟩

theorem checkPanels_eq_ok_iff {layout : Layout} {earlier rest : List PanelSpec} :
    checkPanels layout earlier rest = .ok () ↔
      (∀ p ∈ rest, p.row < layout.rows ∧ p.col < layout.cols) ∧
        rest.Pairwise (fun p q => ¬ Shares p q) ∧ ∀ p ∈ rest, ∀ q ∈ earlier, ¬ Shares p q := by
  -- A shared cell is seen from its later panel, so the panels passed so far are part of the statement.
  induction rest generalizing earlier with
  | nil => simp [checkPanels]
  | cons p rest ih =>
    rw [checkPanels]
    by_cases outside : layout.rows ≤ p.row ∨ layout.cols ≤ p.col
    · rw [if_pos outside]
      refine iff_of_false (by simp) fun h => ?_
      have inside := h.1 p List.mem_cons_self
      omega
    · rw [if_neg outside]
      by_cases shared : earlier.any (sharesCell p) = true
      · rw [if_pos shared]
        obtain ⟨q, hq, hs⟩ := List.any_eq_true.mp shared
        exact iff_of_false (by simp) fun h => h.2.2 p List.mem_cons_self q hq (sharesCell_iff.mp hs)
      · rw [if_neg shared, ih]
        have alone : ∀ q ∈ earlier, ¬ Shares p q := fun q hq hs =>
          shared (List.any_eq_true.mpr ⟨q, hq, sharesCell_iff.mpr hs⟩)
        have inside : p.row < layout.rows ∧ p.col < layout.cols := by omega
        simp only [List.forall_mem_cons, List.pairwise_cons]
        constructor
        · rintro ⟨insides, apart, before⟩
          exact ⟨⟨inside, insides⟩, ⟨fun q hq hs => (before q hq).1 hs.symm, apart⟩, alone,
            fun q hq => (before q hq).2⟩
        · rintro ⟨⟨-, insides⟩, ⟨first, apart⟩, -, before⟩
          exact ⟨insides, apart, fun q hq => ⟨fun hs => first q hq hs.symm, before q hq⟩⟩

theorem validate_eq_ok_iff {layout : Layout} : layout.validate = .ok () ↔ layout.WellPlaced := by
  unfold validate
  constructor
  · intro h
    split at h
    · cases h
    · split at h
      · cases h
      next shown =>
        split at h
        · cases h
        next sized =>
          obtain ⟨inside, apart, -⟩ := checkPanels_eq_ok_iff.mp h
          exact ⟨by simpa using shown, by omega, by omega, inside, apart⟩
  · rintro ⟨panels, width, height, inside, apart⟩
    obtain ⟨p, hp⟩ := List.exists_mem_of_ne_nil _ panels
    have room := inside p hp
    rw [if_neg (by omega), if_neg (by simpa using panels), if_neg (by omega)]
    exact checkPanels_eq_ok_iff.mpr ⟨inside, apart, by simp⟩

section Placed

variable {layout : Layout}

theorem WellPlaced.grid (placed : layout.WellPlaced) : 0 < layout.rows ∧ 0 < layout.cols := by
  obtain ⟨p, hp⟩ := List.exists_mem_of_ne_nil _ placed.panels
  have inside := placed.inside p hp
  omega

theorem WellPlaced.eq_of_shares (placed : layout.WellPlaced) {p q : PanelSpec} (hp : p ∈ layout.panels)
    (hq : q ∈ layout.panels) (shared : Shares p q) : p = q := by
  by_contra different
  exact placed.apart.forall hp hq different shared

theorem WellPlaced.panelAt?_eq (placed : layout.WellPlaced) {p : PanelSpec} (hp : p ∈ layout.panels) :
    layout.panelAt? p.row p.col = some p := by
  cases found : layout.panelAt? p.row p.col with
  | none =>
    have missed := List.find?_eq_none.mp found p hp
    simp at missed
  | some q =>
    have here : sharesCell q p = true := List.find?_some (p := (sharesCell · p)) found
    exact congrArg some (placed.eq_of_shares (List.mem_of_find?_eq_some found) hp (sharesCell_iff.mp here))

end Placed

theorem rising_zipIdx {α : Type} (as : List α) : as.zipIdx.Pairwise fun a b => a.2 < b.2 := by
  have indices : (as.zipIdx.map Prod.snd).Pairwise (· < ·) := by
    rw [List.zipIdx_map_snd]
    exact List.pairwise_lt_range'
  exact List.pairwise_map.mp indices

theorem pixels_of_lt {n : Nat} (h : n < Number.wordCount) : pixels n = n :=
  Nat.mod_eq_of_lt h

theorem single_wellPlaced (metric : Metric) (title : Option String) :
    WellPlaced { single metric with title } :=
  validate_eq_ok_iff.mp rfl

theorem combined_wellPlaced : combined.WellPlaced :=
  validate_eq_ok_iff.mp rfl

theorem fourMetric_wellPlaced : fourMetric.WellPlaced :=
  validate_eq_ok_iff.mp rfl

theorem paired_wellPlaced (metric : Metric) (right : List String) : (paired metric right).WellPlaced :=
  validate_eq_ok_iff.mp rfl

theorem peakMemory_wellPlaced : peakMemory.WellPlaced :=
  validate_eq_ok_iff.mp rfl

theorem lt_length_of_mem_zipIdx {α : Type} {as : List α} {entry : α × Nat} (h : entry ∈ as.zipIdx) :
    entry.2 < as.length := by
  simpa using (List.mem_zipIdx h).2.1

/-- As long as the height of the rows can be counted, there is one row for each variant. -/
theorem sixPanel_wellPlaced (metric : Metric) {variants : List String} (right : List String)
    (given : variants ≠ []) (few : variants.length < 2 ^ 20) :
    (sixPanel metric variants right).WellPlaced where
  panels := by
    cases variants with
    | nil => exact absurd rfl given
    | cons variant rest => simp [sixPanel, List.zipIdx_cons]
  width := (by decide : 200 ≤ 1000)
  height := by
    have counted : 150 + 320 * max variants.length 1 < Number.wordCount := by
      unfold Number.wordCount
      omega
    change 200 ≤ pixels _
    rw [pixels_of_lt counted]
    omega
  inside := by
    intro p hp
    obtain ⟨⟨variant, row⟩, hv, hp⟩ := List.mem_flatMap.mp hp
    have below := lt_length_of_mem_zipIdx hv
    simp only [List.mem_cons, List.not_mem_nil, or_false] at hp
    obtain rfl | rfl := hp
    · exact ⟨below, Nat.zero_lt_two⟩
    · exact ⟨below, Nat.one_lt_two⟩
  apart := by
    refine List.pairwise_flatMap.mpr ⟨fun entry _ => ?_, (rising_zipIdx variants).imp ?_⟩
    · simp [Shares, leftPanel, rightPanel]
    · rintro ⟨_, row⟩ ⟨_, later⟩ hlt p hp q hq
      have rowP : p.row = row := by
        simp only [List.mem_cons, List.not_mem_nil, or_false] at hp
        obtain rfl | rfl := hp <;> rfl
      have rowQ : q.row = later := by
        simp only [List.mem_cons, List.not_mem_nil, or_false] at hq
        obtain rfl | rfl := hq <;> rfl
      rintro ⟨same, -⟩
      rw [rowP, rowQ] at same
      exact Nat.ne_of_lt hlt same

theorem taggedBars_row (tag : DatasetTag) (name : String) (col : Nat) :
    (taggedBars tag name col).row = 0 := by
  cases tag <;> rfl

theorem taggedBars_col (tag : DatasetTag) (name : String) (col : Nat) :
    (taggedBars tag name col).col = col := by
  cases tag <;> rfl

theorem bfs_wellPlaced (datasets : List String) (tag : DatasetTag) : (bfs datasets tag).WellPlaced := by
  cases datasets with
  | nil => exact validate_eq_ok_iff.mp (by cases tag <;> rfl)
  | cons name rest =>
    have panels : (bfs (name :: rest) tag).panels =
        (name :: rest).zipIdx.map fun entry => taggedBars tag entry.1 entry.2 := rfl
    refine ⟨by simp [panels, List.zipIdx_cons], ?_, (by decide : 200 ≤ 700), fun p hp => ?_, ?_⟩
    · change 200 ≤ max _ 900
      omega
    · rw [panels] at hp
      obtain ⟨entry, he, rfl⟩ := List.mem_map.mp hp
      have below := lt_length_of_mem_zipIdx he
      rw [taggedBars_row, taggedBars_col]
      exact ⟨Nat.one_pos, Nat.lt_of_lt_of_le below (Nat.le_max_left _ 1)⟩
    · rw [panels, List.pairwise_map]
      refine (rising_zipIdx (name :: rest)).imp fun {a b} hlt shared => ?_
      have same := shared.2
      rw [taggedBars_col, taggedBars_col] at same
      exact Nat.ne_of_lt hlt same

end SweepPlot.Layout
