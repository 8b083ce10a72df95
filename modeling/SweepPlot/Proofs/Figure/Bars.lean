import SweepPlot.Proofs.Figure.Assembly
set_option autoImplicit false

namespace SweepPlot

namespace PanelSpec

/-- The group has a value that the panel can show, and on a panel of lines a place for it. -/
def Plots (spec : PanelSpec) (sweep : Sweep) (g : Group Float) : Prop :=
  (∃ y, g.metric spec.metric = some y ∧ spec.scale.accepts y = true) ∧
    (spec.kind = .lines → ∃ x, g.count sweep = some x)

def Shows (spec : PanelSpec) (v : View) (g : Group Float) : Prop :=
  spec.selects v.filter g = true ∧ spec.Plots v.sweep g

instance (spec : PanelSpec) (sweep : Sweep) (g : Group Float) : Decidable (spec.Plots sweep g) :=
  decidable_of_iff ((g.metric spec.metric).any spec.scale.accepts = true ∧
      (spec.kind = .lines → (g.count sweep).isSome = true)) <| by
    rw [Option.any_eq_true, Option.isSome_iff_exists]
    rfl

instance (spec : PanelSpec) (v : View) (g : Group Float) : Decidable (spec.Shows v g) :=
  inferInstanceAs (Decidable (_ ∧ _))

/-- The value that the group would have on the panel, if the panel can show it. -/
def shown? (spec : PanelSpec) (g : Group Float) : Option Float :=
  (g.metric spec.metric).filter spec.scale.accepts

def drops (spec : PanelSpec) (g : Group Float) : Bool :=
  (g.metric spec.metric).any fun value => !spec.scale.accepts value

end PanelSpec

def Bar.reading (bar : Bar) : String × Float :=
  (bar.queue, bar.value)

namespace View

variable {v : View} {spec : PanelSpec}

section Styles

def noStyle (queue : String) : Failure :=
  .misconfigured (.unstyled queue)

def missing? (v : View) (queue : String) : Option Failure :=
  if v.registry.style? queue = none then some (noStyle queue) else none

theorem styleFor_settles (v : View) (queue : String) (emphasis : Emphasis) :
    Settles (fun style => v.styleFor queue emphasis = .ok style) (v.missing? queue) (v.styleFor queue emphasis) := by
  unfold styleFor Registry.draw? missing?
  cases v.registry.style? queue with
  | none => exact .error (noStyle queue)
  | some style => exact .ok rfl

/-- A style is missed only for a group with a place and a value that the panel can show. -/
def plotFault? (v : View) (spec : PanelSpec) (g : Group Float) : Option Failure :=
  if spec.Plots v.sweep g then v.missing? g.queue else none

def draftFault? (v : View) (groups : List (Group Float)) (spec : PanelSpec) : Option Failure :=
  (groups.filter (spec.selects v.filter)).findSome? (v.plotFault? spec)

end Styles

def readings (spec : PanelSpec) (groups : List (Group Float)) : List (String × Float) :=
  groups.filterMap fun g => (spec.shown? g).map fun value => (g.queue, value)

theorem readings_append (first rest : List (Group Float)) :
    readings spec (first ++ rest) = readings spec first ++ readings spec rest :=
  List.filterMap_append

/-- Every value is either shown or counted as dropped. -/
theorem length_readings_add_drops (groups : List (Group Float)) :
    (readings spec groups).length + groups.countP spec.drops =
      groups.countP fun g => (g.metric spec.metric).isSome := by
  induction groups with
  | nil => rfl
  | cons g groups ih =>
    rw [show g :: groups = [g] ++ groups from rfl, readings_append, List.length_append, List.countP_append,
      List.countP_append, ← ih]
    have one : (readings spec [g]).length + [g].countP spec.drops =
        [g].countP fun g => (g.metric spec.metric).isSome := by
      cases value : g.metric spec.metric with
      | none => simp [readings, PanelSpec.shown?, PanelSpec.drops, value]
      | some y =>
        by_cases accepted : spec.scale.accepts y = true <;>
          simp [readings, PanelSpec.shown?, PanelSpec.drops, value, accepted]
    omega

theorem readings_queues_sublist (groups : List (Group Float)) :
    ((readings spec groups).map Prod.fst).Sublist (groups.map (·.queue)) := by
  induction groups with
  | nil => exact .slnil
  | cons g groups ih =>
    unfold readings at ih ⊢
    cases shown : spec.shown? g with
    | none => simpa [shown] using ih.cons g.queue
    | some value => simpa [shown] using ih.cons_cons g.queue

def level (v : View) (spec : PanelSpec) (g : Group Float) : Emphasis :=
  v.filter.emphasis g.queue spec.highlight

/-- The bar stands for the group, labelled and drawn as prominently as its queue type is on the panel. -/
structure Stands (v : View) (spec : PanelSpec) (g : Group Float) (bar : Bar) : Prop where
  queue : bar.queue = g.queue
  value : g.metric spec.metric = some bar.value
  label : bar.label = Registry.label g.queue (v.level spec g)
  style : v.styleFor g.queue (v.level spec g) = .ok bar.style

theorem readings_of_stands {groups : List (Group Float)} {bars : List Bar}
    (stands : List.Forall₂ (v.Stands spec) (groups.filter fun g => (spec.shown? g).isSome) bars) :
    bars.map Bar.reading = readings spec groups := by
  induction groups generalizing bars with
  | nil =>
    cases stands
    rfl
  | cons g groups ih =>
    unfold readings at ih ⊢
    cases shown : spec.shown? g with
    | none =>
      rw [List.filter_cons_of_neg (by simp [shown])] at stands
      rw [List.filterMap_cons_none (by simp [shown])]
      exact ih stands
    | some value =>
      rw [List.filter_cons_of_pos (by simp [shown])] at stands
      simp only [List.filterMap_cons, shown, Option.map_some]
      cases stands with
      | cons first rest =>
        obtain ⟨kept, -⟩ := Option.filter_eq_some_iff.mp shown
        obtain rfl : value = _ := Option.some.inj (kept.symm.trans first.value)
        rw [List.map_cons, ih rest, Bar.reading, first.queue]

theorem addToBars_settles (kind : spec.kind = .bars) (state : List Bar × Nat) (g : Group Float) :
    Settles (fun next => ∃ own, List.Forall₂ (v.Stands spec) ([g].filter fun g => (spec.shown? g).isSome) own ∧
      next = (state.1 ++ own, state.2 + [g].countP spec.drops)) (v.plotFault? spec g) (v.addToBars spec state g) := by
  unfold addToBars plotFault?
  cases value : g.metric spec.metric with
  | none =>
    rw [if_neg fun plots => by simpa [value] using plots.1]
    exact .ok ⟨[], by simp [PanelSpec.shown?, value], by simp [PanelSpec.drops, value]⟩
  | some y =>
    dsimp only
    by_cases accepted : spec.scale.accepts y = true
    · rw [if_pos accepted, if_pos ⟨⟨y, value, accepted⟩, fun lines => by simp [kind] at lines⟩]
      refine (v.styleFor_settles g.queue (v.level spec g)).map fun style given => ?_
      refine ⟨[⟨g.queue, Registry.label g.queue (v.level spec g), y, style⟩], ?_, ?_⟩
      · have stands : v.Stands spec g ⟨g.queue, Registry.label g.queue (v.level spec g), y, style⟩ :=
          ⟨rfl, value, rfl, given⟩
        simpa [PanelSpec.shown?, value, accepted] using stands
      · simp [PanelSpec.drops, value, accepted, level]
    · rw [if_neg accepted, if_neg fun plots => by simpa [value, accepted] using plots.1]
      exact .ok ⟨[], by simp [PanelSpec.shown?, value, accepted], by simp [PanelSpec.drops, value, accepted]⟩

/-- One bar is added for each group with a value that can be shown, in the order of the groups. -/
theorem foldlM_addToBars_settles (kind : spec.kind = .bars) (groups : List (Group Float)) (state : List Bar × Nat) :
    Settles (fun last => ∃ own, List.Forall₂ (v.Stands spec) (groups.filter fun g => (spec.shown? g).isSome) own ∧
      last = (state.1 ++ own, state.2 + groups.countP spec.drops)) (groups.findSome? (v.plotFault? spec))
      (groups.foldlM (v.addToBars spec) state) := by
  induction groups generalizing state with
  | nil => exact .ok ⟨[], .nil, by simp⟩
  | cons g groups ih =>
    rw [List.foldlM_cons, findSome?_cons_eq_or]
    refine (addToBars_settles kind state g).bind ?_
    rintro _ ⟨own, stands, rfl⟩
    refine (ih _).mono ?_
    rintro _ ⟨more, others, rfl⟩
    refine ⟨own ++ more, ?_, ?_⟩
    · rw [show g :: groups = [g] ++ groups from rfl, List.filter_append]
      exact List.rel_append stands others
    · rw [show g :: groups = [g] ++ groups from rfl, List.countP_append, List.append_assoc, Nat.add_assoc]

def shownOn (v : View) (spec : PanelSpec) (groups : List (Group Float)) : List (Group Float) :=
  (groups.filter (spec.selects v.filter)).filter fun g => (spec.shown? g).isSome

theorem panelBars_settles (kind : spec.kind = .bars) (groups : List (Group Float)) :
    Settles (fun state => ∃ own, List.Forall₂ (v.Stands spec) (v.shownOn spec groups) own ∧
      state = (own.mergeSort Bar.precedes, (groups.filter (spec.selects v.filter)).countP spec.drops))
      (v.draftFault? groups spec) (v.panelBars spec groups) := by
  refine (foldlM_addToBars_settles kind _ ([], 0)).map ?_
  rintro _ ⟨own, stands, rfl⟩
  exact ⟨own, stands, congrArg (_, ·) (Nat.zero_add _)⟩

theorem panelBars_fills (kind : spec.kind = .bars) (groups : List (Group Float)) :
    ReturnsOnly (fun state => (state.1.map Bar.reading).Perm (readings spec (groups.filter (spec.selects v.filter))) ∧
      state.2 = (groups.filter (spec.selects v.filter)).countP spec.drops) (v.panelBars spec groups) := by
  intro state done
  obtain ⟨own, stands, rfl⟩ := (panelBars_settles kind groups).returnsOnly state done
  exact ⟨((List.mergeSort_perm own Bar.precedes).map _).trans (.of_eq (readings_of_stands stands)), rfl⟩

structure HoldsBars (v : View) (groups : List (Group Float)) (spec : PanelSpec) (panel : Panel) : Prop where
  title : panel.title = spec.title
  scale : panel.scale = spec.scale
  kind : ∃ bars, panel.content = .bars bars
  bars : (panel.content.barList.map Bar.reading).Perm (readings spec (groups.filter (spec.selects v.filter)))
  dropped : panel.dropped = (groups.filter (spec.selects v.filter)).countP spec.drops

theorem draftPanel_holdsBars {groups : List (Group Float)} (kind : spec.kind = .bars)
    (tagged : List (List Draft)) : ReturnsOnly
      (fun draft => v.HoldsBars groups spec (v.finishPanel spec (finishContent tagged draft.1) draft.2))
      (v.draftPanel groups spec) := by
  have bars := @panelBars_fills v spec kind groups
  unfold draftPanel
  rw [kind]
  exact bars.map fun state ⟨bars, dropped⟩ => ⟨rfl, rfl, ⟨state.1, rfl⟩, bars, dropped⟩

theorem titles_of_holdsBars {groups : List (Group Float)} {specs : List PanelSpec} {panels : List Panel}
    (holds : List.Forall₂ (v.HoldsBars groups) specs panels) : panels.map (·.title) = specs.map (·.title) := by
  induction holds with
  | nil => rfl
  | cons first _ ih => rw [List.map_cons, List.map_cons, first.title, ih]

theorem render_holdsBars {layout : Layout} {groups : List (Group Float)} {figure : Figure}
    (apart : layout.shareY = false) (kinds : ∀ spec ∈ layout.panels, spec.kind = .bars)
    (rendered : v.render layout groups = .ok figure) :
    List.Forall₂ (v.HoldsBars groups) layout.panels figure.panels := by
  obtain ⟨drafts, -, finished⟩ := render_finishes rendered
  refine ((List.forall₂_and_left _ _).mpr ⟨kinds, finished⟩).imp ?_
  rintro spec panel ⟨kind, draft, done, finished⟩
  rw [finished.apart apart]
  exact draftPanel_holdsBars kind _ draft done

end View

end SweepPlot
