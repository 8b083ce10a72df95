import SweepPlot.Proofs.Figure.Lines
import SweepPlot.Proofs.Figure.Render
import SweepPlot.Proofs.Sorting
set_option autoImplicit false

namespace SweepPlot

/-- Two series of one line that differ in emphasis at most. -/
structure Series.Alike (s t : Series) : Prop where
  line : s.line = t.line
  points : s.points = t.points
  stroke : s.style.line = t.style.line
  marker : s.style.marker = t.style.marker
  label : ∃ base, s.label = base ++ s.style.emphasis.mark ∧ t.label = base ++ t.style.emphasis.mark

def Panel.seriesOf (panel : Panel) (queue : String) : List Series :=
  panel.content.series.filter fun s => s.queue == queue

section Lists

variable {α β γ : Type}

theorem forall₂_meet {R : α → β → Prop} {S : α → γ → Prop} {as : List α} {bs : List β} {cs : List γ}
    (left : List.Forall₂ R as bs) (right : List.Forall₂ S as cs) :
    List.Forall₂ (fun b c => ∃ a ∈ as, R a b ∧ S a c) bs cs := by
  induction left generalizing cs with
  | nil =>
    cases right
    exact .nil
  | cons first _ ih =>
    cases right with
    | cons first' rest' =>
      refine .cons ⟨_, List.mem_cons_self, first, first'⟩ ((ih rest').imp fun b c ⟨a, mem, both⟩ => ?_)
      exact ⟨a, List.mem_cons_of_mem _ mem, both⟩

theorem any_eq_of_forall₂ {p : α → Bool} {q : β → Bool} {as : List α} {bs : List β}
    (same : List.Forall₂ (fun a b => p a = q b) as bs) : as.any p = bs.any q := by
  induction same with
  | nil => rfl
  | cons first _ ih => rw [List.any_cons, List.any_cons, first, ih]

theorem rel_of_getElem? {R : α → β → Prop} {as : List α} {bs : List β} (related : List.Forall₂ R as bs) {i : Nat}
    {a : α} {b : β} (left : as[i]? = some a) (right : bs[i]? = some b) : R a b := by
  have paired : (as.zip bs)[i]? = some (a, b) := List.getElem?_zip_eq_some.mpr ⟨left, right⟩
  exact List.forall₂_zip related (List.mem_of_getElem? paired)

end Lists

namespace View

variable {v w : View} {spec : PanelSpec} {queue : String} {groups others : List (Group Float)}

/-- Two views of two lists of groups that agree on a queue type: its groups, its style and that it is shown. -/
structure AgreeOn (v w : View) (groups others : List (Group Float)) (queue : String) : Prop where
  sweep : v.sweep = w.sweep
  groups : groups.filter (fun g => g.queue == queue) = others.filter fun g => g.queue == queue
  admitted : v.filter.admits queue = true
  admitted' : w.filter.admits queue = true
  style : v.registry.style? queue = w.registry.style? queue

section Marks

theorem marks_filter_queue (sweep : Sweep) : (marks spec sweep groups).filter (fun mark => mark.1.queue == queue) =
    marks spec sweep (groups.filter fun g => g.queue == queue) := by
  unfold marks
  rw [List.filter_filterMap, List.filterMap_filter]
  apply List.filterMap_congr
  intro g _
  cases made : spec.mark? sweep g with
  | none => simp
  | some mark =>
    have same : mark.1.queue = g.queue := by rw [PanelSpec.mark?_line made]; rfl
    by_cases own : g.queue = queue <;> simp [same, own]

theorem selects_of_admitted (admitted : v.filter.admits queue = true) (admitted' : w.filter.admits queue = true)
    {g : Group Float} (own : g.queue = queue) : spec.selects v.filter g = spec.selects w.filter g := by
  unfold PanelSpec.selects
  rw [own, admitted, admitted']

theorem marksOn_filter_queue (v : View) (spec : PanelSpec) (groups : List (Group Float)) :
    (v.marksOn spec groups).filter (fun mark => mark.1.queue == queue) =
      v.marksOn spec (groups.filter fun g => g.queue == queue) := by
  unfold marksOn
  rw [marks_filter_queue, List.filter_filter, List.filter_filter]
  congr 1
  apply List.filter_congr
  intro g _
  rw [Bool.and_comm]

theorem AgreeOn.marksOn (agree : v.AgreeOn w groups others queue) (spec : PanelSpec) :
    (v.marksOn spec groups).filter (fun mark => mark.1.queue == queue) =
      (w.marksOn spec others).filter fun mark => mark.1.queue == queue := by
  rw [marksOn_filter_queue, marksOn_filter_queue, agree.groups]
  unfold View.marksOn
  rw [agree.sweep]
  congr 1
  apply List.filter_congr
  intro g mem
  have own : g.queue = queue := by simpa using (List.mem_filter.mp mem).2
  exact selects_of_admitted agree.admitted agree.admitted' own

theorem linesOn_filter_queue (v : View) (spec : PanelSpec) (groups : List (Group Float)) :
    (v.linesOn spec groups).filter (fun line => line.queue == queue) =
      distinct (((v.marksOn spec groups).filter fun mark => mark.1.queue == queue).map Prod.fst) := by
  unfold linesOn
  rw [← distinct_filter, List.filter_map]
  rfl

end Marks

section Drafts

variable {drafts drafts' : List Draft}

/-- The drafts of a queue type on a panel are all on one layer, so they keep the order of their lines. -/
theorem Drafted.of_queue (drafted : v.Drafted groups spec drafts) (kind : spec.kind = .lines) (queue : String) :
    List.Forall₂ (v.Draws spec (v.marksOn spec groups))
      ((v.linesOn spec groups).filter fun line => line.queue == queue)
      (drafts.filter fun d => d.queue == queue) := by
  obtain ⟨drawn, draws, rfl⟩ := drafted.of_lines kind
  have level : ∀ d ∈ drawn, d.queue = queue → d.emphasis = v.filter.emphasis queue spec.highlight := by
    intro d mem own
    obtain ⟨line, -, drawn⟩ := exists_mem_of_forall₂ draws mem
    have same : line.queue = queue := by
      rw [← drawn.own]
      exact own
    rw [drawn.emphasis, same]
  have tied : ∀ a ∈ drawn, ∀ b ∈ drawn, (a.queue == queue) = true → (b.queue == queue) = true →
      a.emphasis.layer = b.emphasis.layer := by
    intro a ha b hb own own'
    rw [level a ha (beq_iff_eq.mp own), level b hb (beq_iff_eq.mp own')]
  have unmoved : (Draft.sortLayers drawn).filter (fun d => d.queue == queue) =
      drawn.filter fun d => d.queue == queue := filter_mergeSort tied
  rw [unmoved]
  refine List.rel_filter (fun line d drawn => ?_) draws
  have same : d.queue = line.queue := congrArg Line.queue drawn.own
  dsimp only
  rw [same]

/-- Two drafts of one line, in two renderings that agree on its queue type. -/
structure Matches (v w : View) (spec : PanelSpec) (queue : String) (d e : Draft) : Prop where
  own : d.queue = queue
  line : d.line = e.line
  points : d.points = e.points
  emphasis : d.emphasis = v.filter.emphasis queue spec.highlight
  emphasis' : e.emphasis = w.filter.emphasis queue spec.highlight
  style : v.styleFor queue d.emphasis = .ok d.style
  style' : w.styleFor queue e.emphasis = .ok e.style

theorem AgreeOn.matching (agree : v.AgreeOn w groups others queue) (kind : spec.kind = .lines)
    (drafted : v.Drafted groups spec drafts) (drafted' : w.Drafted others spec drafts') :
    List.Forall₂ (Matches v w spec queue) (drafts.filter fun d => d.queue == queue)
      (drafts'.filter fun d => d.queue == queue) := by
  have marks := agree.marksOn spec
  have own := drafted.of_queue kind queue
  have own' := drafted'.of_queue kind queue
  rw [linesOn_filter_queue, ← marks, ← linesOn_filter_queue] at own'
  refine (forall₂_meet own own').imp fun d e ⟨line, mem, draws, draws'⟩ => ?_
  have queueLine : line.queue = queue := by simpa using (List.mem_filter.mp mem).2
  have points : ∀ marks : List Mark,
      pointsOn line (marks.filter fun mark => mark.1.queue == queue) = pointsOn line marks := by
    intro marks
    apply pointsOn_filter
    intro mark _ own
    rw [own]
    simpa using queueLine
  have emphasis := draws.emphasis
  have emphasis' := draws'.emphasis
  have style := draws.style
  have style' := draws'.style
  rw [queueLine] at emphasis emphasis' style style'
  refine ⟨?_, draws.own.trans draws'.own.symm, ?_, emphasis, emphasis', style, style'⟩
  · exact (congrArg Line.queue draws.own).trans queueLine
  · rw [draws.points, draws'.points, ← points (v.marksOn spec groups), marks, points]

theorem AgreeOn.lines (agree : v.AgreeOn w groups others queue) (drafted : v.Drafted groups spec drafts)
    (drafted' : w.Drafted others spec drafts') :
    List.Forall₂ (fun d e => d.line = e.line) (drafts.filter fun d => d.queue == queue)
      (drafts'.filter fun d => d.queue == queue) := by
  cases kind : spec.kind with
  | lines => exact (agree.matching kind drafted drafted').imp fun _ _ both => both.line
  | bars =>
    rw [drafted.of_bars kind, drafted'.of_bars kind]
    exact .nil

end Drafts

section Labels

theorem tag_of_line {d e : Draft} (same : d.line = e.line) :
    d.queue = e.queue ∧ d.subfolder = e.subfolder ∧ d.variant = e.variant := by
  simpa [Draft.line] using same

theorem isAmbiguous_eq {tag : TagOf} (onLine : ∀ d e : Draft, d.line = e.line → tag d = tag e)
    {tagged tagged' : List (List Draft)}
    (alike : List.Forall₂ (fun drafts drafts' : List Draft =>
      List.Forall₂ (fun d e => d.line = e.line) (drafts.filter fun d => d.queue == queue)
        (drafts'.filter fun d => d.queue == queue)) tagged tagged') :
    Draft.isAmbiguous tag tagged queue = Draft.isAmbiguous tag tagged' queue := by
  unfold Draft.isAmbiguous
  refine any_eq_of_forall₂ (alike.imp fun drafts drafts' lines => ?_)
  have tags : (drafts.filter fun d => d.queue == queue).map tag =
      (drafts'.filter fun d => d.queue == queue).map tag := by
    rw [← List.forall₂_eq_eq_eq, List.forall₂_map_left_iff, List.forall₂_map_right_iff]
    exact lines.imp onLine
  rw [tags]

theorem styleFor_eq (style : v.registry.style? queue = w.registry.style? queue) (emphasis : Emphasis) :
    v.styleFor queue emphasis = w.styleFor queue emphasis := by
  unfold styleFor Registry.draw?
  rw [style]

variable {tagged tagged' : List (List Draft)} {d e : Draft}

def plainLabel (tagged : List (List Draft)) (d : Draft) : String :=
  Style.displayName d.queue ++
    if (Draft.tags tagged d).isEmpty then ""
    else " [" ++ String.intercalate ", " (Draft.tags tagged d) ++ "]"

theorem label_eq (tagged : List (List Draft)) (d : Draft) :
    Draft.label tagged d = plainLabel tagged d ++ d.emphasis.mark := rfl

theorem Matches.plainLabel_eq (same : v.Matches w spec queue d e)
    (ambiguous : ∀ tag : TagOf, (∀ d e : Draft, d.line = e.line → tag d = tag e) →
      Draft.isAmbiguous tag tagged queue = Draft.isAmbiguous tag tagged' queue) :
    plainLabel tagged d = plainLabel tagged' e := by
  obtain ⟨queues, subfolders, variants⟩ := tag_of_line same.line
  have tags : Draft.tags tagged d = Draft.tags tagged' e := by
    unfold Draft.tags
    rw [← queues, same.own, subfolders, variants, ambiguous _ fun _ _ one => (tag_of_line one).2.1,
      ambiguous _ fun _ _ one => (tag_of_line one).2.2]
  unfold plainLabel
  rw [tags, queues]

theorem Matches.alike (same : v.Matches w spec queue d e) (style : v.registry.style? queue = w.registry.style? queue)
    (plain : plainLabel tagged d = plainLabel tagged' e) :
    (Draft.finish tagged d).Alike (Draft.finish tagged' e) := by
  obtain ⟨emphasis, own, found, line, marker⟩ := styleFor_ok same.style
  obtain ⟨emphasis', own', found', line', marker'⟩ := styleFor_ok same.style'
  have one : own = own' := by
    rw [style, found'] at found
    exact (Option.some.inj found).symm
  subst one
  refine ⟨same.line, same.points, line.trans line'.symm, marker.trans marker'.symm, plainLabel tagged d, ?_, ?_⟩
  · change Draft.label tagged d = plainLabel tagged d ++ d.style.emphasis.mark
    rw [label_eq, emphasis]
  · change Draft.label tagged' e = plainLabel tagged d ++ e.style.emphasis.mark
    rw [label_eq, emphasis', plain]

theorem Matches.finish_eq (same : v.Matches w spec queue d e)
    (style : v.registry.style? queue = w.registry.style? queue) (plain : plainLabel tagged d = plainLabel tagged' e)
    (level : v.filter.emphasis queue spec.highlight = w.filter.emphasis queue spec.highlight) :
    Draft.finish tagged d = Draft.finish tagged' e := by
  obtain ⟨queues, subfolders, variants⟩ := tag_of_line same.line
  have emphasis : d.emphasis = e.emphasis := by rw [same.emphasis, same.emphasis', level]
  have styles : d.style = e.style := by
    have styled := same.style
    rw [styleFor_eq style, emphasis, same.style'] at styled
    exact (Except.ok.inj styled).symm
  have labels : Draft.label tagged d = Draft.label tagged' e := by
    rw [label_eq, label_eq, plain, emphasis]
  unfold Draft.finish
  rw [queues, subfolders, variants, styles, labels, same.points]

end Labels

theorem HoldsLines.seriesOf {tagged : List (List Draft)} {panel : Panel}
    (holds : v.HoldsLines groups tagged spec panel) (kind : spec.kind = .lines) (queue : String) :
    ∃ drafts, v.Drafted groups spec drafts ∧
      panel.seriesOf queue = (drafts.filter fun d => d.queue == queue).map (Draft.finish tagged) := by
  obtain ⟨drafts, drafted, content⟩ := holds.content kind
  refine ⟨drafts, drafted, ?_⟩
  unfold Panel.seriesOf
  rw [content, PanelContent.series, List.filter_map]
  rfl

/-- Two renderings of a layout that agree on the groups and the style of a queue type, which both filters admit,
draw the same lines of it on every panel. Where they agree on its emphasis too, nothing of them differs. -/
theorem series_independent {layout : Layout} {figure figure' : Figure} (agree : v.AgreeOn w groups others queue)
    (rendered : v.render layout groups = .ok figure) (rendered' : w.render layout others = .ok figure') :
    figure.panels.length = layout.panels.length ∧ figure'.panels.length = layout.panels.length ∧
    ∀ (i : Nat) (spec : PanelSpec) (panel panel' : Panel), layout.panels[i]? = some spec → spec.kind = .lines →
      figure.panels[i]? = some panel → figure'.panels[i]? = some panel' →
        List.Forall₂ Series.Alike (panel.seriesOf queue) (panel'.seriesOf queue) ∧
        (v.filter.emphasis queue spec.highlight = w.filter.emphasis queue spec.highlight →
          panel.seriesOf queue = panel'.seriesOf queue) := by
  obtain ⟨tagged, drafted, held⟩ := render_holdsLines rendered
  obtain ⟨tagged', drafted', held'⟩ := render_holdsLines rendered'
  refine ⟨held.length_eq.symm, held'.length_eq.symm, fun i spec panel panel' specAt kind panelAt panelAt' => ?_⟩
  obtain ⟨drafts, drawn, series⟩ := (rel_of_getElem? held specAt panelAt).seriesOf kind queue
  obtain ⟨drafts', drawn', series'⟩ := (rel_of_getElem? held' specAt panelAt').seriesOf kind queue
  have matching := agree.matching kind drawn drawn'
  have lines := (forall₂_meet drafted drafted').imp fun _ _ ⟨_, _, drawn, drawn'⟩ => agree.lines drawn drawn'
  have plain : ∀ d e, v.Matches w spec queue d e → plainLabel tagged d = plainLabel tagged' e :=
    fun _ _ both => both.plainLabel_eq fun _ onLine => isAmbiguous_eq onLine lines
  rw [series, series']
  constructor
  · rw [List.forall₂_map_left_iff, List.forall₂_map_right_iff]
    exact matching.imp fun d e both => both.alike agree.style (plain d e both)
  · intro level
    rw [← List.forall₂_eq_eq_eq, List.forall₂_map_left_iff, List.forall₂_map_right_iff]
    exact matching.imp fun d e both => both.finish_eq agree.style (plain d e both) level

def measured (queue variant : String) (throughput : Float) : Group Float where
  key := []
  queue := queue
  subfolder := none
  variant := some variant
  testId := none
  counts := ⟨some 2, none, none⟩
  records := 1
  metrics := ⟨some ⟨throughput, 1⟩, none, none, none, none, none⟩

/-- The second view highlights a queue type that the first does not even have. -/
theorem series_independent_highlighting :
    let v : View := ⟨(Registry.empty.assign ["A"]).assign ["B"], {}, .threads, [2]⟩
    let w : View := ⟨(Registry.empty.assign ["A"]).assign ["C"], { highlight := ["C"] }, .threads, [2]⟩
    let groups := [measured "A" "50" 3.0, measured "B" "50" 1.0, measured "A" "500" 4.0]
    let others := [measured "C" "50" 7.0, measured "A" "50" 3.0, measured "A" "500" 4.0]
    v.AgreeOn w groups others "A" ∧ ∃ figure figure', v.render (.paired .throughput ["C"]) groups = .ok figure ∧
      w.render (.paired .throughput ["C"]) others = .ok figure' ∧ ∀ (i : Nat) (panel panel' : Panel), i < 2 →
        figure.panels[i]? = some panel → figure'.panels[i]? = some panel' →
          List.Forall₂ Series.Alike (panel.seriesOf "A") (panel'.seriesOf "A") := by
  intro v w groups others
  have agree : v.AgreeOn w groups others "A" :=
    ⟨rfl, by decide +kernel, by decide +kernel, by decide +kernel, by decide +kernel⟩
  have styled : v.Styled groups := styled_of_style? (by decide +kernel)
  have styled' : w.Styled others := styled_of_style? (by decide +kernel)
  obtain ⟨figure, rendered, -⟩ := render_yields (Layout.paired_wellPlaced .throughput ["C"]) styled
  obtain ⟨figure', rendered', -⟩ := render_yields (Layout.paired_wellPlaced .throughput ["C"]) styled'
  refine ⟨agree, figure, figure', rendered, rendered', fun i panel panel' below panelAt panelAt' => ?_⟩
  obtain ⟨-, -, alike⟩ := series_independent agree rendered rendered'
  have kinds : ∀ spec ∈ (Layout.paired .throughput ["C"]).panels, spec.kind = .lines := by decide
  have inside : i < (Layout.paired .throughput ["C"]).panels.length := below
  exact (alike i _ panel panel' (List.getElem?_eq_getElem inside) (kinds _ (List.getElem_mem inside)) panelAt
    panelAt').1

end View

end SweepPlot
