import SweepPlot.Proofs.Figure.Lines
import SweepPlot.Proofs.Figure.Render
import SweepPlot.Proofs.Number.Order
set_option autoImplicit false

namespace SweepPlot

/-- The range from the least to the greatest of the values, which are both among them. -/
structure Range.Spans (range : Range) (values : List Float) : Prop where
  low_mem : range.low ∈ values
  high_mem : range.high ∈ values
  low_atMost : ∀ y ∈ values, Number.atMost range.low y = true
  atMost_high : ∀ y ∈ values, Number.atMost y range.high = true

/-- Each value has a place on the scale, and only without content are there none. -/
structure PanelContent.Fits (content : PanelContent) (scale : Scale) : Prop where
  accepted : ∀ y ∈ content.values, scale.accepts y = true
  isEmpty_iff : content.isEmpty = true ↔ content.values = []

structure Panel.Plain (panel : Panel) : Prop where
  range : panel.range = panel.content.range
  fits : panel.content.Fits panel.scale

def Figure.values (figure : Figure) : List Float :=
  figure.panels.flatMap (·.content.values)

namespace Scale

theorem isFinite_of_accepts {scale : Scale} {y : Float} (accepted : scale.accepts y = true) :
    Number.isFinite y = true := by
  cases scale with
  | linear => exact accepted
  | log => exact (Bool.and_eq_true_iff.mp accepted).1

theorem positive_of_accepts {y : Float} (accepted : Scale.log.accepts y = true) : Number.below 0.0 y = true :=
  (Bool.and_eq_true_iff.mp accepted).2

end Scale

namespace Range

theorem spans_single {y : Float} (number : Number.isNumber y = true) : (single y).Spans [y] where
  low_mem := List.mem_singleton_self y
  high_mem := List.mem_singleton_self y
  low_atMost := by
    intro z mem
    rw [List.mem_singleton.mp mem]
    exact Number.atMost_refl number
  atMost_high := by
    intro z mem
    rw [List.mem_singleton.mp mem]
    exact Number.atMost_refl number

theorem Spans.union {a b : Range} {as bs : List Float} (ha : a.Spans as) (hb : b.Spans bs) :
    (a.union b).Spans (as ++ bs) := by
  have low : (a.union b).low = a.low ∨ (a.union b).low = b.low := Number.least_cases a.low b.low
  have high : (a.union b).high = a.high ∨ (a.union b).high = b.high := Number.greatest_cases a.high b.high
  have lows := Number.least_atMost (Number.atMost_iff.mp (ha.low_atMost _ ha.low_mem)).1
    (Number.atMost_iff.mp (hb.low_atMost _ hb.low_mem)).1
  have highs := Number.atMost_greatest (Number.atMost_iff.mp (ha.atMost_high _ ha.high_mem)).1
    (Number.atMost_iff.mp (hb.atMost_high _ hb.high_mem)).1
  refine ⟨?_, ?_, fun y mem => ?_, fun y mem => ?_⟩
  · obtain same | same := low
    · exact List.mem_append_left bs (same ▸ ha.low_mem)
    · exact List.mem_append_right as (same ▸ hb.low_mem)
  · obtain same | same := high
    · exact List.mem_append_left bs (same ▸ ha.high_mem)
    · exact List.mem_append_right as (same ▸ hb.high_mem)
  · obtain mem | mem := List.mem_append.mp mem
    · exact Number.atMost_trans lows.1 (ha.low_atMost y mem)
    · exact Number.atMost_trans lows.2 (hb.low_atMost y mem)
  · obtain mem | mem := List.mem_append.mp mem
    · exact Number.atMost_trans (ha.atMost_high y mem) highs.1
    · exact Number.atMost_trans (hb.atMost_high y mem) highs.2

theorem foldl_union_spans {ranges : List Range} {parts : List (List Float)} (spans : List.Forall₂ Spans ranges parts)
    {first : Range} {values : List Float} (start : first.Spans values) :
    (ranges.foldl union first).Spans (values ++ parts.flatten) := by
  induction spans generalizing first values with
  | nil => simpa using start
  | cons next _ ih =>
    rw [List.foldl_cons, List.flatten_cons, ← List.append_assoc]
    exact ih (start.union next)

theorem hull_spans {ranges : List Range} {parts : List (List Float)} (spans : List.Forall₂ Spans ranges parts)
    {range : Range} (found : hull ranges = some range) : range.Spans parts.flatten := by
  cases spans with
  | nil => cases found
  | cons first rest =>
    cases found
    exact foldl_union_spans rest first

theorem hull_eq_none_iff {ranges : List Range} : hull ranges = none ↔ ranges = [] := by
  cases ranges <;> simp [hull]

end Range

namespace PanelContent.Fits

variable {content : PanelContent} {scale : Scale}

theorem range_eq_none_iff (fits : content.Fits scale) : content.range = none ↔ content.isEmpty = true := by
  rw [fits.isEmpty_iff, PanelContent.range, Range.hull_eq_none_iff, List.map_eq_nil_iff]

theorem range_spans (fits : content.Fits scale) {range : Range} (found : content.range = some range) :
    range.Spans content.values := by
  have each : List.Forall₂ Range.Spans (content.values.map Range.single) (content.values.map ([·])) := by
    rw [List.forall₂_map_left_iff, List.forall₂_map_right_iff, List.forall₂_same]
    intro y mem
    exact Range.spans_single (Number.isNumber_of_isFinite (Scale.isFinite_of_accepts (fits.accepted y mem)))
  have spans := Range.hull_spans each found
  rwa [← List.flatMap_def, List.flatMap_singleton'] at spans

end PanelContent.Fits

namespace Panel.Plain

variable {panel : Panel}

theorem range_eq_none_iff (plain : panel.Plain) : panel.range = none ↔ panel.content.isEmpty = true := by
  rw [plain.range]
  exact plain.fits.range_eq_none_iff

theorem range_spans (plain : panel.Plain) {range : Range} (found : panel.range = some range) :
    range.Spans panel.content.values :=
  plain.fits.range_spans (plain.range.symm.trans found)

end Panel.Plain

namespace View

variable {v : View} {spec : PanelSpec} {groups : List (Group Float)}

section Shared

variable {plain : List Panel}

def sharedRange (plain : List Panel) : Option Range :=
  Range.hull (plain.filterMap (·.range))

/-- The parts are the values of the panels that are not empty; the others add nothing. -/
theorem parts_of_plain (own : ∀ panel ∈ plain, panel.Plain) :
    ∃ parts, List.Forall₂ Range.Spans (plain.filterMap (·.range)) parts ∧
      parts.flatten = plain.flatMap (·.content.values) := by
  induction plain with
  | nil => exact ⟨[], .nil, rfl⟩
  | cons panel plain ih =>
    obtain ⟨first, rest⟩ := List.forall_mem_cons.mp own
    obtain ⟨parts, spans, flat⟩ := ih rest
    cases range : panel.range with
    | none =>
      have none : panel.content.values = [] := first.fits.isEmpty_iff.mp (first.range_eq_none_iff.mp range)
      refine ⟨parts, by simpa [range] using spans, ?_⟩
      rw [flat, List.flatMap_cons, none, List.nil_append]
    | some own =>
      refine ⟨panel.content.values :: parts, ?_, ?_⟩
      · rw [List.filterMap_cons_some range]
        exact .cons (first.range_spans range) spans
      · rw [List.flatten_cons, flat, List.flatMap_cons]

theorem sharedRange_spans (own : ∀ panel ∈ plain, panel.Plain) {shared : Range}
    (found : sharedRange plain = some shared) : shared.Spans (plain.flatMap (·.content.values)) := by
  obtain ⟨parts, spans, flat⟩ := parts_of_plain own
  rw [← flat]
  exact Range.hull_spans spans found

theorem range_eq_none_of_sharedRange (none : sharedRange plain = none) {panel : Panel} (mem : panel ∈ plain) :
    panel.range = .none := by
  rw [sharedRange, Range.hull_eq_none_iff, List.filterMap_eq_nil_iff] at none
  exact none panel mem

theorem mem_shareRange {panel : Panel} (mem : panel ∈ shareRange plain) :
    ∃ own ∈ plain, panel.content = own.content ∧ panel.scale = own.scale ∧
      panel.range = if own.range.isSome then sharedRange plain else own.range := by
  obtain ⟨own, present, rfl⟩ := List.mem_map.mp mem
  refine ⟨own, present, ?_⟩
  cases had : own.range with
  | none => simp [had]
  | some _ => simp [sharedRange]

theorem range_eq_none_iff_of_shareRange (own : ∀ panel ∈ plain, panel.Plain) {panel : Panel}
    (mem : panel ∈ shareRange plain) : panel.range = none ↔ panel.content.isEmpty = true := by
  obtain ⟨before, present, content, -, range⟩ := mem_shareRange mem
  rw [content, ← (own before present).range_eq_none_iff, range]
  cases had : before.range with
  | none => simp
  | some _ =>
    refine iff_of_false (fun none => ?_) (by simp)
    have gone := range_eq_none_of_sharedRange (by simpa using none) present
    rw [had] at gone
    cases gone

theorem sharedRange_of_shareRange {panel : Panel} (mem : panel ∈ shareRange plain) {range : Range}
    (found : panel.range = some range) : sharedRange plain = some range := by
  obtain ⟨before, -, -, -, shared⟩ := mem_shareRange mem
  rw [shared] at found
  cases had : before.range with
  | none => simp [had] at found
  | some _ => simpa [had] using found

theorem values_shareRange : (shareRange plain).flatMap (·.content.values) = plain.flatMap (·.content.values) := by
  have same := congrArg (List.flatMap PanelContent.values) (content_shareRange plain)
  simpa only [List.flatMap_map] using same

end Shared

section Drawn

theorem Drafted.fits {drafts : List Draft} (drafted : v.Drafted groups spec drafts) (kind : spec.kind = .lines)
    (tagged : List (List Draft)) : (PanelContent.lines (drafts.map (Draft.finish tagged))).Fits spec.scale := by
  have each : ∀ d ∈ drafts, d.points ≠ [] ∧ ∀ p ∈ d.points, spec.scale.accepts p.y = true := by
    intro d mem
    obtain ⟨line, listed, drawn⟩ := drafted.exists_draws kind mem
    refine ⟨drawn.points_ne_nil listed, fun p point => ?_⟩
    rw [drawn.points, sortedByCount, List.mem_mergeSort] at point
    exact accepts_of_mark (mem_pointsOn.mp point)
  constructor
  · intro y mem
    obtain ⟨s, series, mem⟩ := List.mem_flatMap.mp mem
    obtain ⟨d, draft, rfl⟩ := List.mem_map.mp series
    obtain ⟨p, point, rfl⟩ := List.mem_map.mp mem
    exact (each d draft).2 p point
  · cases drafts with
    | nil => exact iff_of_true rfl rfl
    | cons d rest =>
      refine iff_of_false (by simp [PanelContent.isEmpty]) fun none => ?_
      have first : d.points ≠ [] := (each d List.mem_cons_self).1
      rw [PanelContent.values, List.map_cons, List.flatMap_cons, List.append_eq_nil_iff, List.map_eq_nil_iff] at none
      exact first none.1

theorem HoldsBars.fits {panel : Panel} (holds : v.HoldsBars groups spec panel) : panel.content.Fits spec.scale := by
  obtain ⟨bars, content⟩ := holds.kind
  have readings := holds.bars
  rw [content] at readings ⊢
  constructor
  · intro y mem
    obtain ⟨bar, listed, rfl⟩ := List.mem_map.mp mem
    obtain ⟨g, -, shown⟩ := List.mem_filterMap.mp (readings.mem_iff.mp (List.mem_map_of_mem listed))
    obtain ⟨value, kept, same⟩ := Option.map_eq_some_iff.mp shown
    have same : value = bar.value := congrArg Prod.snd same
    rw [← same]
    exact (Option.filter_eq_some_iff.mp kept).2
  · rw [PanelContent.values, List.map_eq_nil_iff]
    exact List.isEmpty_iff

theorem draftPanel_plain : ReturnsOnly
    (fun draft => ∀ tagged, (v.finishPanel spec (finishContent tagged draft.1) draft.2).Plain)
    (v.draftPanel groups spec) := by
  intro draft done tagged
  refine ⟨rfl, ?_⟩
  cases kind : spec.kind with
  | lines =>
    obtain ⟨-, holds⟩ := draftPanel_holdsLines draft done
    obtain ⟨drafts, drafted, content⟩ := (holds tagged).content kind
    rw [content]
    exact drafted.fits kind tagged
  | bars => exact (draftPanel_holdsBars kind tagged draft done).fits

theorem render_plain {layout : Layout} {figure : Figure} (rendered : v.render layout groups = .ok figure) :
    ∃ plain : List Panel, (∀ panel ∈ plain, panel.Plain) ∧
      figure.panels = if layout.shareY then shareRange plain else plain := by
  obtain ⟨-, drafts, drafted, rfl⟩ := render_eq_ok_iff.mp rendered
  refine ⟨_, fun panel mem => ?_, rfl⟩
  obtain ⟨⟨spec, draft⟩, pair, rfl⟩ := List.mem_map.mp mem
  exact draftPanel_plain draft (List.forall₂_zip (mapM_eq_ok drafted) pair) _

end Drawn

section Figures

theorem mem_spanned {figure : Figure} {panel : Panel} (mem : panel ∈ figure.panels) {y : Float}
    (value : y ∈ panel.content.values) (share : Bool) :
    y ∈ if share then figure.values else panel.content.values := by
  split
  · exact List.mem_flatMap.mpr ⟨panel, mem, value⟩
  · exact value

variable {layout : Layout} {figure : Figure} (rendered : v.render layout groups = .ok figure)
include rendered

theorem fits_of_render {panel : Panel} (mem : panel ∈ figure.panels) : panel.content.Fits panel.scale := by
  obtain ⟨plain, own, panels⟩ := render_plain rendered
  rw [panels] at mem
  split at mem
  · obtain ⟨before, present, content, scale, -⟩ := mem_shareRange mem
    rw [content, scale]
    exact (own before present).fits
  · exact (own panel mem).fits

theorem range_eq_none_iff_of_render {panel : Panel} (mem : panel ∈ figure.panels) :
    panel.range = none ↔ panel.content.isEmpty = true := by
  obtain ⟨plain, own, panels⟩ := render_plain rendered
  rw [panels] at mem
  split at mem
  · exact range_eq_none_iff_of_shareRange own mem
  · exact (own panel mem).range_eq_none_iff

theorem spans_of_render {panel : Panel} (mem : panel ∈ figure.panels) {range : Range}
    (found : panel.range = some range) :
    range.Spans (if layout.shareY then figure.values else panel.content.values) := by
  obtain ⟨plain, own, panels⟩ := render_plain rendered
  unfold Figure.values
  rw [panels] at mem ⊢
  split at mem
  · next shares =>
    rw [if_pos shares, if_pos shares, values_shareRange]
    exact sharedRange_spans own (sharedRange_of_shareRange mem found)
  · next apart =>
    rw [if_neg apart]
    exact (own panel mem).range_spans found

theorem range_eq_of_render (shares : layout.shareY = true) {panel other : Panel} (mem : panel ∈ figure.panels)
    (mem' : other ∈ figure.panels) {range range' : Range} (found : panel.range = some range)
    (found' : other.range = some range') : range' = range := by
  obtain ⟨plain, -, panels⟩ := render_plain rendered
  rw [panels, if_pos shares] at mem mem'
  have one := (sharedRange_of_shareRange mem' found').symm.trans (sharedRange_of_shareRange mem found)
  exact Option.some.inj one

end Figures

def mixedScales : Layout where
  rows := 1
  cols := 3
  width := 1200
  height := 400
  shareY := true
  panels :=
    [{ metric := .throughput, row := 0, col := 0 }, { metric := .fairness, row := 0, col := 1 },
     { metric := .enqueues, row := 0, col := 2 }]

def oneQueue : View := ⟨Registry.empty.assign ["bbq"], {}, .threads, [2]⟩

def rated (throughput fairness : Float) : Group Float where
  key := []
  queue := "bbq"
  subfolder := none
  variant := none
  testId := none
  counts := ⟨some 2, none, none⟩
  records := 1
  metrics := ⟨some ⟨throughput, 1⟩, some ⟨fairness, 1⟩, none, none, none, none⟩

/-- Exactly the empty panels of a figure have no range. The range of any other panel runs from the least to the
greatest of its values or, if the layout shares it, of all values of the figure, and then every panel that is not
empty has it; in any case the values of the panel lie in it. -/
theorem render_ranges {layout : Layout} {figure : Figure} (rendered : v.render layout groups = .ok figure) :
    (∀ panel ∈ figure.panels, panel.range = none ↔ panel.content.isEmpty = true) ∧
    ∀ panel ∈ figure.panels, ∀ range, panel.range = some range →
      range.Spans (if layout.shareY then figure.values else panel.content.values) ∧
      (∀ y ∈ panel.content.values, Number.atMost range.low y = true ∧ Number.atMost y range.high = true) ∧
      (layout.shareY = true → ∀ other ∈ figure.panels, other.content.isEmpty = false → other.range = some range) := by
  refine ⟨fun panel mem => range_eq_none_iff_of_render rendered mem, fun panel mem range found => ?_⟩
  have spans := spans_of_render rendered mem found
  refine ⟨spans, fun y value => ?_, fun shares other mem' filled => ?_⟩
  · have among := mem_spanned mem value layout.shareY
    exact ⟨spans.low_atMost y among, spans.atMost_high y among⟩
  · cases found' : other.range with
    | none =>
      rw [range_eq_none_iff_of_render rendered mem', filled] at found'
      cases found'
    | some range' => rw [range_eq_of_render rendered shares mem mem' found found']

theorem render_ranges_sharing :
    ∃ figure, oneQueue.render mixedScales [rated 1000.0 0.5] = .ok figure ∧
      figure.panels.map (·.content.isEmpty) = [false, false, true] ∧
      (∀ panel ∈ figure.panels, panel.range = none ↔ panel.content.isEmpty = true) ∧
      ∀ panel ∈ figure.panels, ∀ range, panel.range = some range → range.Spans figure.values ∧
        ∀ other ∈ figure.panels, other.content.isEmpty = false → other.range = some range := by
  obtain ⟨figure, rendered⟩ := exists_eq_ok
    (show (oneQueue.render mixedScales [rated 1000.0 0.5]).isOk = true by decide +kernel)
  have shown : ((oneQueue.render mixedScales [rated 1000.0 0.5]).toOption.map fun figure =>
      figure.panels.map (·.content.isEmpty)) = some [false, false, true] := by decide +kernel
  rw [rendered] at shown
  obtain ⟨empty, ranged⟩ := render_ranges rendered
  refine ⟨figure, rendered, Option.some.inj shown, empty, fun panel mem range found => ?_⟩
  obtain ⟨spans, -, shared⟩ := ranged panel mem range found
  exact ⟨spans, shared rfl⟩

/-- The values of a log panel are positive, and so is the upper end of its range. The lower end is positive unless the
layout shares the range and some value of the figure, then on a linear panel, is not. -/
theorem render_logRange {layout : Layout} {figure : Figure} (rendered : v.render layout groups = .ok figure) :
    ∀ panel ∈ figure.panels, panel.scale = .log →
    (∀ y ∈ panel.content.values, Number.isFinite y = true ∧ Number.below 0.0 y = true) ∧
    ∀ range, panel.range = some range →
      Number.isFinite range.low = true ∧ Number.isFinite range.high = true ∧ Number.below 0.0 range.high = true ∧
      (Number.below 0.0 range.low = true ↔
        layout.shareY = false ∨ ∀ y ∈ figure.values, Number.below 0.0 y = true) := by
  intro panel mem log
  have fits := fits_of_render rendered mem
  have positive : ∀ y ∈ panel.content.values, Number.below 0.0 y = true := by
    intro y value
    have accepted := fits.accepted y value
    rw [log] at accepted
    exact Scale.positive_of_accepts accepted
  refine ⟨fun y value => ⟨Scale.isFinite_of_accepts (fits.accepted y value), positive y value⟩, fun range found => ?_⟩
  have spans := spans_of_render rendered mem found
  have finite : ∀ y ∈ if layout.shareY then figure.values else panel.content.values, Number.isFinite y = true := by
    intro y value
    split at value
    · obtain ⟨other, mem', value⟩ := List.mem_flatMap.mp value
      exact Scale.isFinite_of_accepts ((fits_of_render rendered mem').accepted y value)
    · exact Scale.isFinite_of_accepts (fits.accepted y value)
  refine ⟨finite _ spans.low_mem, finite _ spans.high_mem, ?_, ?_⟩
  · have filled : panel.content.values ≠ [] := fun none => by
      have gone := (range_eq_none_iff_of_render rendered mem).mpr (fits.isEmpty_iff.mpr none)
      rw [found] at gone
      cases gone
    obtain ⟨y, value⟩ := List.exists_mem_of_ne_nil _ filled
    have among := mem_spanned mem value layout.shareY
    exact Number.below_of_below_of_atMost (positive y value) (spans.atMost_high y among)
  · cases shares : layout.shareY with
    | false =>
      rw [shares] at spans
      exact iff_of_true (positive _ spans.low_mem) (Or.inl rfl)
    | true =>
      rw [shares] at spans
      refine ⟨fun low => Or.inr fun y value => ?_, fun all => ?_⟩
      · exact Number.below_of_below_of_atMost low (spans.low_atMost y value)
      · exact all.resolve_left (by simp) _ spans.low_mem

/-- Where the linear panel has a positive value only, the shared range is positive on the log panel too. -/
theorem render_logRange_positive :
    ∃ figure, oneQueue.render mixedScales [rated 1000.0 0.5] = .ok figure ∧
      ∀ panel ∈ figure.panels, panel.scale = .log → ∀ range, panel.range = some range →
        Number.isFinite range.low = true ∧ Number.below 0.0 range.low = true ∧ Number.below 0.0 range.high = true := by
  obtain ⟨figure, rendered⟩ := exists_eq_ok
    (show (oneQueue.render mixedScales [rated 1000.0 0.5]).isOk = true by decide +kernel)
  have positive : ((oneQueue.render mixedScales [rated 1000.0 0.5]).toOption.map fun figure =>
      figure.values.all (Number.below 0.0)) = some true := by decide +kernel
  rw [rendered] at positive
  have all := List.all_eq_true.mp (Option.some.inj positive)
  refine ⟨figure, rendered, fun panel mem log range found => ?_⟩
  obtain ⟨finite, -, high, low⟩ := (render_logRange rendered panel mem log).2 range found
  exact ⟨finite, low.mpr (Or.inr all), high⟩

/-- A negative value on the linear panel makes the range of the log panel begin below zero. -/
theorem render_logRange_negative :
    mixedScales.validate = .ok () ∧ ∃ figure, oneQueue.render mixedScales [rated 1000.0 (-0.5)] = .ok figure ∧
      ∃ panel ∈ figure.panels, panel.scale = .log ∧
        ∃ range, panel.range = some range ∧ Number.below range.low 0.0 = true := by
  refine ⟨by decide, ?_⟩
  obtain ⟨figure, rendered⟩ := exists_eq_ok
    (show (oneQueue.render mixedScales [rated 1000.0 (-0.5)]).isOk = true by decide +kernel)
  have seen : ((oneQueue.render mixedScales [rated 1000.0 (-0.5)]).toOption.map fun figure =>
      figure.panels.any fun panel => decide (panel.scale = .log) &&
        panel.range.any fun range => Number.below range.low 0.0) = some true := by decide +kernel
  rw [rendered] at seen
  obtain ⟨panel, mem, shown⟩ := List.any_eq_true.mp (Option.some.inj seen)
  obtain ⟨log, ranged⟩ := Bool.and_eq_true_iff.mp shown
  obtain ⟨range, found, low⟩ := (Option.any_eq_true _ _).mp ranged
  exact ⟨figure, rendered, panel, mem, of_decide_eq_true log, range, found, low⟩

end View

end SweepPlot
