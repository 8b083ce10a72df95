import SweepPlot.Proofs.Figure.Ranges
import SweepPlot.Proofs.Sorting
set_option autoImplicit false

namespace SweepPlot

namespace Bar

/-- The value comes first and downwards, in the total order of doubles, then the label upwards. -/
def rank (bar : Bar) : ℤᵒᵈ ×ₗ String :=
  toLex (OrderDual.toDual (Number.orderKey bar.value), bar.label)

theorem rank_le_iff {a b : Bar} : a.rank ≤ b.rank ↔
    Number.orderKey b.value < Number.orderKey a.value ∨ a.value = b.value ∧ a.label ≤ b.label := by
  rw [rank, rank, Prod.Lex.toLex_le_toLex, OrderDual.toDual_lt_toDual, OrderDual.toDual_inj]
  exact or_congr_right (and_congr_left' ⟨Number.orderKey_injective, congrArg Number.orderKey⟩)

theorem rank_eq_iff {a b : Bar} : a.rank = b.rank ↔ a.value = b.value ∧ a.label = b.label := by
  rw [rank, rank, toLex_inj, Prod.mk.injEq, OrderDual.toDual_inj]
  exact and_congr_left' ⟨Number.orderKey_injective, congrArg Number.orderKey⟩

theorem precedes_eq (a b : Bar) : a.precedes b = decide (a.rank ≤ b.rank) := by
  rw [Bool.eq_iff_iff, decide_eq_true_eq, rank_le_iff]
  simp only [precedes, Bool.or_eq_true, Bool.and_eq_true, decide_eq_true_eq, beq_iff_eq]
  exact or_congr_right (and_congr_left' ⟨Number.orderKey_injective, congrArg Number.orderKey⟩)

theorem stablySorted_precedes (bars : List Bar) : StablySorted rank bars (bars.mergeSort precedes) := by
  have same : precedes = fun a b => decide (a.rank ≤ b.rank) := funext fun a => funext fun b => precedes_eq a b
  rw [same]
  exact stablySorted_mergeSort rank bars

end Bar

namespace View

variable {v : View} {spec : PanelSpec} {groups : List (Group Float)}

/-- One bar for each group that is shown, in stable order of their ranks. -/
def Ranked (v : View) (spec : PanelSpec) (groups : List (Group Float)) (bars : List Bar) : Prop :=
  ∃ own, List.Forall₂ (v.Stands spec) (v.shownOn spec groups) own ∧ StablySorted Bar.rank own bars

/-- No two groups that are shown have both the same value and the same label. -/
def Apart (v : View) (spec : PanelSpec) (groups : List (Group Float)) : Prop :=
  (v.shownOn spec groups).Pairwise fun g h => g.metric spec.metric = h.metric spec.metric →
    Registry.label g.queue (v.level spec g) ≠ Registry.label h.queue (v.level spec h)

theorem Stands.unique {g : Group Float} {a b : Bar} (ha : v.Stands spec g a) (hb : v.Stands spec g b) : a = b := by
  obtain ⟨queue, label, value, style⟩ := a
  obtain ⟨queue', label', value', style'⟩ := b
  obtain ⟨rfl, hv, rfl, hs⟩ := ha
  obtain ⟨rfl, hv', rfl, hs'⟩ := hb
  obtain rfl : value = value' := Option.some.inj (hv.symm.trans hv')
  obtain rfl : style = style' := Except.ok.inj (hs.symm.trans hs')
  rfl

theorem panelBars_ranked (kind : spec.kind = .bars) (covers : v.Covers groups spec) :
    Yields (fun state => v.Ranked spec groups state.1 ∧
      state.2 = (groups.filter (spec.selects v.filter)).countP spec.drops) (v.panelBars spec groups) := by
  refine ((panelBars_settles kind groups).yields covers.draftFault?_eq_none).mono ?_
  rintro _ ⟨own, stands, rfl⟩
  exact ⟨⟨own, stands, Bar.stablySorted_precedes own⟩, rfl⟩

section Order

theorem shownOn_perm {others : List (Group Float)} (same : others.Perm groups) :
    (v.shownOn spec others).Perm (v.shownOn spec groups) :=
  (same.filter _).filter _

theorem pairwise_of_forall₂ {α β : Type} {R : α → β → Prop} {P : α → α → Prop} {Q : β → β → Prop} {as : List α}
    {bs : List β} (related : List.Forall₂ R as bs) (pairs : as.Pairwise P)
    (h : ∀ {a a' b b'}, P a a' → R a b → R a' b' → Q b b') : bs.Pairwise Q := by
  induction related with
  | nil => exact .nil
  | @cons a b as bs first rest ih =>
    obtain ⟨own, others⟩ := List.pairwise_cons.mp pairs
    refine List.pairwise_cons.mpr ⟨fun b' mem => ?_, ih others⟩
    obtain ⟨a', mem', first'⟩ := exists_mem_of_forall₂ rest mem
    exact h (own a' mem') first first'

theorem Apart.nodup_rank (apart : v.Apart spec groups) {own : List Bar}
    (stands : List.Forall₂ (v.Stands spec) (v.shownOn spec groups) own) : (own.map Bar.rank).Nodup := by
  refine List.pairwise_map.mpr (pairwise_of_forall₂ stands apart fun {g h a b} differ ha hb same => ?_)
  obtain ⟨value, label⟩ := Bar.rank_eq_iff.mp same
  refine differ ?_ ?_
  · rw [ha.value, hb.value, value]
  · rw [← ha.label, ← hb.label, label]

theorem Ranked.eq_of_perm {others : List (Group Float)} {bars bars' : List Bar} (ranked : v.Ranked spec groups bars)
    (ranked' : v.Ranked spec others bars') (same : others.Perm groups) (apart : v.Apart spec groups) : bars' = bars := by
  obtain ⟨own, stands, sorted⟩ := ranked
  obtain ⟨own', stands', sorted'⟩ := ranked'
  obtain ⟨moved, stands'', perm⟩ := List.perm_comp_forall₂ (shownOn_perm same) stands
  obtain rfl : own' = moved := List.right_unique_forall₂' (fun _ _ _ ha hb => ha.unique hb) stands' stands''
  exact (sorted.eq_of_perm sorted' perm.symm (apart.nodup_rank stands)).symm

end Order

theorem Ranked.ordered {bars : List Bar} (ranked : v.Ranked spec groups bars) :
    bars.Pairwise fun a b => Number.orderKey b.value < Number.orderKey a.value ∨
      a.value = b.value ∧ a.label ≤ b.label := by
  obtain ⟨_, -, sorted⟩ := ranked
  exact sorted.rising.imp Bar.rank_le_iff.mp

theorem Ranked.accepted {bars : List Bar} (ranked : v.Ranked spec groups bars) {bar : Bar} (mem : bar ∈ bars) :
    spec.scale.accepts bar.value = true := by
  obtain ⟨own, stands, sorted⟩ := ranked
  obtain ⟨g, shown, own⟩ := exists_mem_of_forall₂ stands (sorted.perm.subset mem)
  obtain ⟨y, kept⟩ := Option.isSome_iff_exists.mp (List.mem_filter.mp shown).2
  obtain ⟨value, accepted⟩ := Option.filter_eq_some_iff.mp kept
  rw [own.value] at value
  cases value
  exact accepted

/-- The bars fall as numbers do, whatever the signs of zeros. -/
theorem Ranked.falling {bars : List Bar} (ranked : v.Ranked spec groups bars) :
    bars.Pairwise fun a b => Number.atMost b.value a.value = true := by
  have number : ∀ bar ∈ bars, Number.isNumber bar.value = true := fun bar mem =>
    Number.isNumber_of_isFinite (Scale.isFinite_of_accepts (ranked.accepted mem))
  refine ranked.ordered.imp_of_mem fun {a b} ha hb first => ?_
  refine Number.atMost_of_orderKey_le (number b hb) (number a ha) ?_
  obtain below | ⟨same, -⟩ := first
  · exact Int.le_of_lt below
  · rw [same]

section Figures

theorem exists_panel_of_render {layout : Layout} {figure : Figure} (rendered : v.render layout groups = .ok figure)
    (mem : spec ∈ layout.panels) : ∃ draft tagged, v.draftPanel groups spec = .ok draft ∧
      ∃ panel ∈ figure.panels, v.Finished layout tagged spec draft panel := by
  obtain ⟨drafts, -, finished⟩ := render_finishes rendered
  obtain ⟨panel, present, draft, done, own⟩ := exists_mem_of_forall₂ finished.flip mem
  exact ⟨draft, draftsIn drafts, done, panel, present, own⟩

/-- A panel of bars has one bar for each group that it selects and whose value its scale accepts, with falling values,
equal ones by rising label and the rest in the order of the groups; what its scale refuses is counted. If no two of
these groups agree in value and label the order of the groups does not matter. In a figure the panel holds these bars. -/
theorem panelBars_ranks (kind : spec.kind = .bars) (covers : v.Covers groups spec) :
    ∃ bars dropped, v.panelBars spec groups = .ok (bars, dropped) ∧
      v.Ranked spec groups bars ∧
      bars.Pairwise (fun a b => Number.orderKey b.value < Number.orderKey a.value ∨
        a.value = b.value ∧ a.label ≤ b.label) ∧
      (bars.Pairwise fun a b => Number.atMost b.value a.value = true) ∧
      dropped = (groups.filter (spec.selects v.filter)).countP spec.drops ∧
      (v.Apart spec groups → ∀ others, others.Perm groups → v.panelBars spec others = .ok (bars, dropped)) ∧
      ∀ layout figure, spec ∈ layout.panels → v.render layout groups = .ok figure → ∃ panel ∈ figure.panels,
        panel = { v.finishPanel spec (.bars bars) dropped with range := panel.range } ∧
        (layout.shareY = false → panel.range = (PanelContent.bars bars).range) := by
  obtain ⟨⟨bars, dropped⟩, drawn, ranked, counted⟩ := panelBars_ranked kind covers
  refine ⟨bars, dropped, drawn, ranked, ranked.ordered, ranked.falling, counted, ?_, ?_⟩
  · intro apart others same
    have covers' : v.Covers others spec := fun g mem => covers g (same.subset mem)
    obtain ⟨⟨bars', dropped'⟩, drawn', ranked', counted'⟩ := panelBars_ranked kind covers'
    obtain rfl : bars' = bars := ranked.eq_of_perm ranked' same apart
    obtain rfl : dropped' = dropped := counted'.trans (((same.filter _).countP_eq _).trans counted.symm)
    exact drawn'
  · intro layout figure mem rendered
    obtain ⟨draft, tagged, drafted, panel, present, finished⟩ := exists_panel_of_render rendered mem
    have content : v.draftPanel groups spec = .ok (.bars bars, dropped) := by
      unfold draftPanel
      rw [kind, drawn]
      rfl
    obtain rfl := Except.ok.inj (content.symm.trans drafted)
    exact ⟨panel, present, finished.same, fun apart => congrArg Panel.range (finished.apart apart)⟩

end Figures

theorem Ranked.values_perm {bars : List Bar} (ranked : v.Ranked spec groups bars) :
    (bars.map fun bar => some bar.value).Perm ((v.shownOn spec groups).map fun g => g.metric spec.metric) := by
  obtain ⟨own, stands, sorted⟩ := ranked
  have values : (v.shownOn spec groups).map (fun g => g.metric spec.metric) = own.map fun bar => some bar.value := by
    rw [← List.forall₂_eq_eq_eq, List.forall₂_map_left_iff, List.forall₂_map_right_iff]
    exact stands.imp fun g bar own => own.value
  rw [values]
  exact sorted.perm.map _

def fairnessBars : PanelSpec where
  metric := .fairness
  row := 0
  col := 0
  kind := .bars

def namesakes : View :=
  ⟨{ styles := [("bbq", .ofSlot 29), ("BBQ", .ofSlot 31), ("lcrq", .ofSlot 32)] }, {}, .threads, [2]⟩

def fair (queue : String) (fairness : Float) : Group Float :=
  { rated 1.0 fairness with queue := queue }

/-- Zeros of both signs under one label, and a value that has no place on the panel. -/
def balanced : List (Group Float) :=
  [fair "BBQ" (-0.0), fair "lcrq" 2.5, fair "lcrq" (1.0 / 0.0), fair "bbq" 0.0]

theorem panelBars_ranks_zeros :
    ∃ bars, namesakes.panelBars fairnessBars balanced = .ok (bars, 1) ∧ bars.map (·.value) = [2.5, 0.0, -0.0] ∧
      namesakes.panelBars fairnessBars balanced.reverse = .ok (bars, 1) := by
  have styled : namesakes.Styled balanced := styled_of_style? (by decide +kernel)
  obtain ⟨bars, dropped, drawn, ranked, ordered, -, counted, moved, -⟩ :=
    @panelBars_ranks namesakes fairnessBars balanced rfl (styled.covers _)
  have apart : namesakes.Apart fairnessBars balanced := by
    unfold Apart
    decide +kernel
  obtain rfl : dropped = 1 := counted.trans (by decide +kernel)
  refine ⟨bars, drawn, ?_, moved apart _ (List.reverse_perm _)⟩
  have values : (bars.map (·.value)).Perm [2.5, 0.0, -0.0] := by
    have shown : ((namesakes.shownOn fairnessBars balanced).map fun g => g.metric fairnessBars.metric).Perm
        ([2.5, 0.0, -0.0].map some) := by decide +kernel
    refine (List.map_perm_map_iff (Option.some_injective Float)).mp ?_
    rw [List.map_map]
    exact ranked.values_perm.trans shown
  have descending : (bars.map (·.value)).Pairwise fun a b => Number.orderKey b ≤ Number.orderKey a := by
    refine List.pairwise_map.mpr (ordered.imp fun {a b} first => ?_)
    obtain below | ⟨same, -⟩ := first
    · exact Int.le_of_lt below
    · rw [same]
  exact values.eq_of_pairwise (fun a b _ _ ab ba => Number.orderKey_injective (Int.le_antisymm ba ab)) descending
    (by decide +kernel)

end View

end SweepPlot
