import SweepPlot.Proofs.Figure.Lines
import SweepPlot.Proofs.Layout
set_option autoImplicit false

namespace SweepPlot

namespace View

variable {v : View} {spec : PanelSpec}

def Styled (v : View) (groups : List (Group Float)) : Prop :=
  ∀ g ∈ groups, ∀ emphasis, Yields (fun _ => True) (v.styleFor g.queue emphasis)

def Covers (v : View) (groups : List (Group Float)) (spec : PanelSpec) : Prop :=
  ∀ g ∈ groups, spec.Shows v g → ∀ emphasis, Yields (fun _ => True) (v.styleFor g.queue emphasis)

theorem Styled.covers {groups : List (Group Float)} (styled : v.Styled groups) (spec : PanelSpec) :
    v.Covers groups spec :=
  fun g mem _ => styled g mem

theorem yields_styleFor {queue : String} (assigned : (v.registry.style? queue).isSome = true) (emphasis : Emphasis) :
    Yields (fun _ => True) (v.styleFor queue emphasis) := by
  obtain ⟨style, found⟩ := Option.isSome_iff_exists.mp assigned
  unfold styleFor Registry.draw?
  rw [found]
  exact .ok trivial

theorem styled_of_style? {groups : List (Group Float)}
    (assigned : ∀ g ∈ groups, (v.registry.style? g.queue).isSome = true) : v.Styled groups :=
  fun g mem => yields_styleFor (assigned g mem)

theorem Covers.draftFault?_eq_none {groups : List (Group Float)} (covers : v.Covers groups spec) :
    v.draftFault? groups spec = none := by
  refine List.findSome?_eq_none_iff.mpr fun g mem => ?_
  obtain ⟨mem, selected⟩ := List.mem_filter.mp mem
  by_cases plots : spec.Plots v.sweep g
  · obtain ⟨style, found, -⟩ := covers g mem ⟨selected, plots⟩ .normal
    exact (if_pos plots).trans ((v.styleFor_settles g.queue .normal).of_eq_ok found).1
  · exact if_neg plots

section Empty

variable {groups : List (Group Float)}

theorem mark?_eq_none_iff (kind : spec.kind = .lines) {g : Group Float} :
    spec.mark? v.sweep g = none ↔ ¬ spec.Plots v.sweep g := by
  rw [PanelSpec.mark?, Group.mark?, PanelSpec.Plots]
  cases g.count v.sweep <;> cases g.metric spec.metric <;> simp [kind]

theorem isSome_shown?_iff (kind : spec.kind = .bars) {g : Group Float} :
    (spec.shown? g).isSome = true ↔ spec.Plots v.sweep g := by
  rw [PanelSpec.shown?, PanelSpec.Plots]
  cases g.metric spec.metric <;> simp [kind, Option.isSome_filter]

theorem forall_not_shows_iff : (∀ g ∈ groups, ¬ spec.Shows v g) ↔
    ∀ g ∈ groups.filter (spec.selects v.filter), ¬ spec.Plots v.sweep g := by
  simp only [List.mem_filter, PanelSpec.Shows]
  grind

theorem mergeSort_eq_nil_iff {α : Type} {as : List α} (le : α → α → Bool) : as.mergeSort le = [] ↔ as = [] := by
  rw [← List.length_eq_zero_iff, List.length_mergeSort, List.length_eq_zero_iff]

theorem linesOn_eq_nil_iff (kind : spec.kind = .lines) :
    v.linesOn spec groups = [] ↔ ∀ g ∈ groups, ¬ spec.Shows v g := by
  have some : ∀ lines : List Line, distinct lines = [] ↔ lines = [] := by
    intro lines
    cases lines <;> simp [distinct]
  rw [forall_not_shows_iff, linesOn, some, List.map_eq_nil_iff, marksOn, marks, List.filterMap_eq_nil_iff]
  exact forall₂_congr fun g _ => mark?_eq_none_iff kind

theorem shownOn_eq_nil_iff (kind : spec.kind = .bars) :
    v.shownOn spec groups = [] ↔ ∀ g ∈ groups, ¬ spec.Shows v g := by
  rw [forall_not_shows_iff, shownOn, List.filter_eq_nil_iff]
  exact forall₂_congr fun g _ => not_congr (isSome_shown?_iff kind)

theorem Drawn.isEmpty_iff {draft : DraftContent × Nat} (drawn : v.Drawn groups spec draft)
    (panels : List (List Draft)) :
    (finishContent panels draft.1).isEmpty = true ↔ ∀ g ∈ groups, ¬ spec.Shows v g := by
  cases drawn with
  | lines kind draws =>
    rw [← linesOn_eq_nil_iff kind, ← List.length_eq_zero_iff, draws.length_eq, List.length_eq_zero_iff, finishContent,
      PanelContent.isEmpty, List.isEmpty_iff, List.map_eq_nil_iff]
    exact mergeSort_eq_nil_iff _
  | bars kind stands =>
    rw [← shownOn_eq_nil_iff kind, ← List.length_eq_zero_iff, stands.length_eq, List.length_eq_zero_iff, finishContent,
      PanelContent.isEmpty, List.isEmpty_iff]
    exact mergeSort_eq_nil_iff _

end Empty

/-- In a layout that can be drawn, the panels settle the outcome one after the other. -/
theorem render_settles {layout : Layout} (valid : layout.validate = .ok ()) (groups : List (Group Float)) :
    Settles (fun figure => ∃ drafts, List.Forall₂ (v.Drawn groups) layout.panels drafts ∧
      figure = v.assemble layout drafts) (layout.panels.findSome? (v.draftFault? groups)) (v.render layout groups) := by
  rw [render_of_valid valid]
  exact (Settles.mapM fun spec _ => v.draftPanel_settles groups spec).map fun drafts drawn => ⟨drafts, drawn, rfl⟩

/-- A figure is rendered, and it is empty if no panel shows any of the groups. -/
theorem render_yields_of_covers {layout : Layout} (placed : layout.WellPlaced) {groups : List (Group Float)}
    (covers : ∀ spec ∈ layout.panels, v.Covers groups spec) :
    Yields (fun figure => figure.isEmpty = true ↔
      ∀ spec ∈ layout.panels, ∀ g ∈ groups, ¬ spec.Shows v g) (v.render layout groups) := by
  have sound : layout.panels.findSome? (v.draftFault? groups) = none :=
    List.findSome?_eq_none_iff.mpr fun spec mem => (covers spec mem).draftFault?_eq_none
  refine ((render_settles (Layout.validate_eq_ok_iff.mpr placed) groups).yields sound).mono ?_
  rintro _ ⟨drafts, drawn, rfl⟩
  have contents := content_assemble.trans (v.content_finishDrafts (draftsIn drafts) drawn.length_eq.ge)
  have shown := congrArg (·.all PanelContent.isEmpty) contents
  rw [List.all_map, List.all_map] at shown
  rw [Figure.isEmpty]
  refine (Bool.eq_iff_iff.mp shown).trans (List.all_eq_true.trans ?_)
  exact (forall_mem_iff_of_forall₂ drawn fun spec draft own => (own.isEmpty_iff _).symm).symm

theorem render_yields {layout : Layout} (placed : layout.WellPlaced) {groups : List (Group Float)}
    (styled : v.Styled groups) :
    Yields (fun figure => figure.isEmpty = true ↔
      ∀ spec ∈ layout.panels, ∀ g ∈ groups, ¬ spec.Shows v g) (v.render layout groups) :=
  render_yields_of_covers placed fun spec _ => styled.covers spec

theorem render_fails {groups : List (Group Float)} (styled : v.Styled groups) (layout : Layout) :
    FailsOnly (fun failure => ∃ fault, failure = .misconfigured (.layout fault)) (v.render layout groups) := by
  cases checked : layout.validate with
  | error fault =>
    rw [render_of_invalid checked]
    exact .error ⟨fault, rfl⟩
  | ok =>
    obtain ⟨figure, rendered, -⟩ := render_yields (Layout.validate_eq_ok_iff.mp checked) styled
    rw [rendered]
    exact .ok figure

end View

end SweepPlot
