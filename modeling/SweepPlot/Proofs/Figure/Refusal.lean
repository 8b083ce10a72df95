import SweepPlot.Proofs.Figure.Render
set_option autoImplicit false

namespace SweepPlot

namespace View

variable {v : View} {spec : PanelSpec} {groups : List (Group Float)}

/-- The panel shows the group, and its queue type has no style. -/
def Unstyled (v : View) (spec : PanelSpec) (g : Group Float) : Prop :=
  spec.Shows v g ∧ v.registry.style? g.queue = none

instance (v : View) (spec : PanelSpec) (g : Group Float) : Decidable (v.Unstyled spec g) :=
  inferInstanceAs (Decidable (_ ∧ _))

/-- The first group that the panel shows without a style, by its queue type. -/
def unstyledOn? (v : View) (groups : List (Group Float)) (spec : PanelSpec) : Option String :=
  (groups.find? fun g => v.Unstyled spec g).map (·.queue)

def unstyled? (v : View) (layout : Layout) (groups : List (Group Float)) : Option String :=
  layout.panels.findSome? (v.unstyledOn? groups)

theorem draftFault?_eq (groups : List (Group Float)) (spec : PanelSpec) :
    v.draftFault? groups spec = (v.unstyledOn? groups spec).map noStyle := by
  unfold draftFault? unstyledOn?
  induction groups with
  | nil => rfl
  | cons g groups ih =>
    have same : v.Unstyled spec g ↔
        spec.selects v.filter g = true ∧ spec.Plots v.sweep g ∧ v.registry.style? g.queue = none := and_assoc
    rw [List.find?_cons, List.filter_cons]
    by_cases selected : spec.selects v.filter g = true
    · rw [if_pos selected, findSome?_cons_eq_or, plotFault?, missing?]
      by_cases plots : spec.Plots v.sweep g
      · by_cases absent : v.registry.style? g.queue = none
        · simp [same, selected, plots, absent]
        · simpa [same, selected, plots, absent] using ih
      · simpa [same, selected, plots] using ih
    · rw [if_neg selected]
      simpa [same, selected] using ih

theorem findSome?_draftFault? (layout : Layout) (groups : List (Group Float)) :
    layout.panels.findSome? (v.draftFault? groups) = (v.unstyled? layout groups).map noStyle := by
  rw [unstyled?, List.map_findSome?]
  exact findSome?_congr fun spec _ => v.draftFault?_eq groups spec

theorem exists_of_unstyled? {layout : Layout} {queue : String} (found : v.unstyled? layout groups = some queue) :
    ∃ spec ∈ layout.panels, ∃ g ∈ groups, v.Unstyled spec g := by
  obtain ⟨spec, mem, found⟩ := List.exists_of_findSome?_eq_some found
  obtain ⟨g, first, -⟩ := Option.map_eq_some_iff.mp found
  exact ⟨spec, mem, g, List.mem_of_find?_eq_some first, by simpa using List.find?_some first⟩

theorem exists_unstyled? {layout : Layout} (mem : spec ∈ layout.panels) {g : Group Float} (present : g ∈ groups)
    (unstyled : v.Unstyled spec g) : ∃ queue, v.unstyled? layout groups = some queue := by
  rw [← Option.ne_none_iff_exists', unstyled?, Ne, List.findSome?_eq_none_iff]
  intro none
  have absent := Option.map_eq_none_iff.mp (none spec mem)
  exact List.find?_eq_none.mp absent g present (decide_eq_true unstyled)

theorem unstyled?_filter_shown (layout : Layout) (groups : List (Group Float)) :
    v.unstyled? layout (groups.filter fun g => layout.panels.any fun spec => decide (spec.Shows v g)) =
      v.unstyled? layout groups := by
  unfold unstyled?
  refine findSome?_congr fun spec mem => ?_
  unfold unstyledOn?
  rw [List.find?_filter]
  congr 1
  refine List.find?_congr fun g _ => decide_eq_decide.mpr ⟨fun both => of_decide_eq_true both.2, fun unstyled => ?_⟩
  exact ⟨List.any_eq_true.mpr ⟨spec, mem, decide_eq_true unstyled.1⟩, decide_eq_true unstyled⟩

/-- Whether and how a figure is refused is up to its layout and, if that can be drawn, to the queue type named. -/
theorem render_eq_error_iff {layout : Layout} {failure : Failure} : v.render layout groups = .error failure ↔
    (∃ fault, layout.validate = .error fault ∧ failure = .misconfigured (.layout fault)) ∨
      layout.validate = .ok () ∧ ∃ queue, v.unstyled? layout groups = some queue ∧ failure = noStyle queue := by
  cases checked : layout.validate with
  | error fault =>
    simp [v.render_of_invalid checked, eq_comm]
  | ok =>
    rw [(render_settles checked groups).eq_error_iff, findSome?_draftFault?, Option.map_eq_some_iff]
    simp [eq_comm]

/-- A figure is refused if and only if its layout cannot be drawn or some panel shows a group without a style. The fault
of the layout comes first; otherwise the first such group of the first such panel is named. What no panel shows may be
left out. -/
theorem render_refuses (v : View) (layout : Layout) (groups : List (Group Float)) :
    ((∃ failure, v.render layout groups = .error failure) ↔
      (∃ fault, layout.validate = .error fault) ∨
        ∃ spec ∈ layout.panels, ∃ g ∈ groups, spec.Shows v g ∧ v.registry.style? g.queue = none) ∧
    (∀ failure, v.render layout groups = .error failure ↔
      (∃ fault, layout.validate = .error fault ∧ failure = .misconfigured (.layout fault) ∧
        failure.message = "configuration error: " ++ fault.message) ∨
      layout.validate = .ok () ∧ ∃ queue, v.unstyled? layout groups = some queue ∧
        failure = .misconfigured (.unstyled queue) ∧
        failure.message = "configuration error: queue type '" ++ queue ++ "' has no style assignment") ∧
    ∀ failure, v.render layout (groups.filter fun g => layout.panels.any fun spec => decide (spec.Shows v g)) =
      .error failure ↔ v.render layout groups = .error failure := by
  refine ⟨?_, fun failure => ?_, fun failure => ?_⟩
  · simp only [render_eq_error_iff]
    constructor
    · rintro ⟨failure, ⟨fault, checked, -⟩ | ⟨-, queue, found, -⟩⟩
      · exact .inl ⟨fault, checked⟩
      · exact .inr (exists_of_unstyled? found)
    · rintro (⟨fault, checked⟩ | ⟨spec, mem, g, present, unstyled⟩)
      · exact ⟨_, .inl ⟨fault, checked, rfl⟩⟩
      · cases checked : layout.validate with
        | error fault => exact ⟨_, .inl ⟨fault, rfl, rfl⟩⟩
        | ok =>
          obtain ⟨queue, found⟩ := exists_unstyled? mem present unstyled
          exact ⟨_, .inr ⟨rfl, queue, found, rfl⟩⟩
  · rw [render_eq_error_iff]
    constructor
    · rintro (⟨fault, checked, rfl⟩ | ⟨valid, queue, found, rfl⟩)
      · exact .inl ⟨fault, checked, rfl, rfl⟩
      · exact .inr ⟨valid, queue, found, rfl, rfl⟩
    · rintro (⟨fault, checked, rfl, -⟩ | ⟨valid, queue, found, rfl, -⟩)
      · exact .inl ⟨fault, checked, rfl⟩
      · exact .inr ⟨valid, queue, found, rfl⟩
  · rw [render_eq_error_iff, render_eq_error_iff, unstyled?_filter_shown]

end View

end SweepPlot
