import Mathlib.Data.List.Induction
import Mathlib.Data.List.Perm.Basic
import SweepPlot.Proofs.Figure.Bars
import SweepPlot.Proofs.Sorting
set_option autoImplicit false

namespace SweepPlot

/-- What keeps the lines of a panel apart. -/
structure Line where
  queue : String
  subfolder : Option String
  variant : Option String
  deriving DecidableEq

abbrev Mark := Line × Point

def Group.line (g : Group Float) : Line := ⟨g.queue, g.subfolder, g.variant⟩

def Draft.line (d : Draft) : Line := ⟨d.queue, d.subfolder, d.variant⟩

def Series.line (s : Series) : Line := ⟨s.queue, s.subfolder, s.variant⟩

/-- The mark of a group for its count and the value of a metric, if the scale accepts that. -/
def Group.mark? (g : Group Float) (sweep : Sweep) (metric : Metric) (scale : Scale) : Option Mark :=
  match g.count sweep, g.metric metric with
  | some x, some y => if scale.accepts y then some (g.line, ⟨Number.nearestWhole x, y⟩) else none
  | _, _ => none

/-- What of a series comes from groups. -/
def Series.outline (s : Series) : Line × List Point := (s.line, s.points)

def Panel.marks (panel : Panel) : List Mark :=
  panel.content.series.flatMap fun s => s.points.map (s.line, ·)

def pointsOn (line : Line) (marks : List Mark) : List Point :=
  (marks.filter fun mark => mark.1 = line).map Prod.snd

def sortedByCount (points : List Point) : List Point :=
  points.mergeSort fun p q => decide (p.x ≤ q.x)

namespace PanelSpec

def mark? (spec : PanelSpec) (sweep : Sweep) (g : Group Float) : Option Mark :=
  g.mark? sweep spec.metric spec.scale

/-- The group has a place on the panel, but its value does not. -/
def refuses (spec : PanelSpec) (sweep : Sweep) (g : Group Float) : Bool :=
  (g.count sweep).isSome && (g.metric spec.metric).any fun value => !spec.scale.accepts value

theorem mark?_line {spec : PanelSpec} {sweep : Sweep} {g : Group Float} {mark : Mark}
    (made : spec.mark? sweep g = some mark) : mark.1 = g.line := by
  unfold mark? Group.mark? at made
  split at made
  · split at made
    · cases made
      rfl
    · cases made
  · cases made

end PanelSpec

section Marks

variable {marks : List Mark} {line : Line}

theorem pointsOn_concat (mark : Mark) : pointsOn line (marks ++ [mark]) =
    if mark.1 = line then pointsOn line marks ++ [mark.2] else pointsOn line marks := by
  unfold pointsOn
  by_cases same : mark.1 = line <;> simp [same]

theorem pointsOn_eq_nil (absent : line ∉ marks.map Prod.fst) : pointsOn line marks = [] := by
  unfold pointsOn
  rw [List.map_eq_nil_iff, List.filter_eq_nil_iff]
  intro mark mem same
  exact absent (List.mem_map.mpr ⟨mark, mem, of_decide_eq_true same⟩)

theorem map_pointsOn (line : Line) (marks : List Mark) :
    (pointsOn line marks).map (line, ·) = marks.filter fun mark => mark.1 = line := by
  unfold pointsOn
  rw [List.map_map]
  conv_rhs => rw [← List.map_id (marks.filter fun mark => mark.1 = line)]
  apply List.map_congr_left
  intro mark mem
  have same : mark.1 = line := by simpa using (List.mem_filter.mp mem).2
  rw [← same]
  rfl

theorem mem_pointsOn {line : Line} {marks : List Mark} {p : Point} : p ∈ pointsOn line marks ↔ (line, p) ∈ marks := by
  unfold pointsOn
  constructor
  · intro mem
    obtain ⟨⟨other, q⟩, kept, rfl⟩ := List.mem_map.mp mem
    obtain ⟨kept, same⟩ := List.mem_filter.mp kept
    have same : other = line := of_decide_eq_true same
    exact same ▸ kept
  · intro mem
    exact List.mem_map.mpr ⟨(line, p), List.mem_filter.mpr ⟨mem, decide_eq_true rfl⟩, rfl⟩

theorem pointsOn_filter {p : Mark → Bool} (kept : ∀ mark ∈ marks, mark.1 = line → p mark = true) :
    pointsOn line (marks.filter p) = pointsOn line marks := by
  unfold pointsOn
  rw [List.filter_filter]
  congr 1
  apply List.filter_congr
  intro mark mem
  by_cases same : mark.1 = line
  · simp [same, kept mark mem same]
  · simp [same]

theorem marks_perm_of_lines {lines : List Line} (once : lines.Nodup) (known : ∀ mark ∈ marks, mark.1 ∈ lines) :
    (lines.flatMap fun line => (pointsOn line marks).map (line, ·)).Perm marks := by
  simp only [map_pointsOn]
  exact perm_flatMap_filter once known

end Marks

namespace View

variable {v : View} {spec : PanelSpec} {groups : List (Group Float)}

def marks (spec : PanelSpec) (sweep : Sweep) (groups : List (Group Float)) : List Mark :=
  groups.filterMap (spec.mark? sweep)

def marksOn (v : View) (spec : PanelSpec) (groups : List (Group Float)) : List Mark :=
  marks spec v.sweep (groups.filter (spec.selects v.filter))

theorem accepts_of_mark {sweep : Sweep} {mark : Mark} (mem : mark ∈ marks spec sweep groups) :
    spec.scale.accepts mark.2.y = true := by
  obtain ⟨g, -, made⟩ := List.mem_filterMap.mp mem
  unfold PanelSpec.mark? Group.mark? at made
  split at made
  · split at made
    · next accepted =>
      cases made
      exact accepted
    · cases made
  · cases made

/-- The draft is that of the line, with all marks on it and the style of its queue type. -/
structure Gathers (v : View) (spec : PanelSpec) (marks : List Mark) (line : Line) (d : Draft) : Prop where
  own : d.line = line
  emphasis : d.emphasis = v.filter.emphasis line.queue spec.highlight
  style : v.styleFor line.queue d.emphasis = .ok d.style
  points : d.points = pointsOn line marks

theorem Gathers.of_points {marks more : List Mark} {line : Line} {d : Draft} (gathers : v.Gathers spec marks line d)
    (same : pointsOn line more = pointsOn line marks) : v.Gathers spec more line d :=
  ⟨gathers.own, gathers.emphasis, gathers.style, gathers.points.trans same.symm⟩

theorem isOf_iff {d : Draft} {g : Group Float} : d.isOf g = true ↔ d.line = g.line := by
  simp [Draft.isOf, Draft.line, Group.line, and_assoc]

theorem Gathers.missing?_eq_none {marks : List Mark} {line : Line} {d : Draft}
    (gathers : v.Gathers spec marks line d) : v.missing? line.queue = none :=
  ((v.styleFor_settles line.queue d.emphasis).of_eq_ok gathers.style).1

theorem addPoint_settles {marks : List Mark} {lines : List Line} {drafts : List Draft} {g : Group Float}
    (gathered : List.Forall₂ (v.Gathers spec marks) lines drafts) (once : lines.Nodup)
    (fresh : g.line ∉ lines → pointsOn g.line marks = []) (p : Point) :
    Settles (List.Forall₂ (v.Gathers spec (marks ++ [(g.line, p)]))
      (if g.line ∈ lines then lines else lines ++ [g.line])) (v.missing? g.queue) (v.addPoint spec g p drafts) := by
  have others : ∀ {line d}, line ≠ g.line → v.Gathers spec marks line d →
      v.Gathers spec (marks ++ [(g.line, p)]) line d := by
    intro line d differ gathers
    apply gathers.of_points
    rw [pointsOn_concat, if_neg differ.symm]
  induction gathered with
  | nil =>
    rw [addPoint, if_neg List.not_mem_nil]
    refine (v.styleFor_settles g.queue _).map fun style styled => .cons ⟨rfl, rfl, styled, ?_⟩ .nil
    rw [pointsOn_concat, if_pos rfl, fresh List.not_mem_nil]
    rfl
  | @cons line d lines drafts first rest ih =>
    obtain ⟨apart, once⟩ := List.nodup_cons.mp once
    rw [addPoint]
    by_cases own : d.isOf g = true
    · have same : line = g.line := first.own.symm.trans (isOf_iff.mp own)
      subst same
      rw [if_pos own, if_pos List.mem_cons_self, show v.missing? g.queue = none from first.missing?_eq_none]
      refine .ok (.cons ⟨first.own, first.emphasis, first.style, ?_⟩ ?_)
      · rw [pointsOn_concat, if_pos rfl, ← first.points]
      · have later : ∀ other ∈ lines, other ≠ g.line := fun other mem same => apart (same ▸ mem)
        exact ((List.forall₂_and_left _ _).mpr ⟨later, rest⟩).imp fun _ _ ⟨differ, gathers⟩ => others differ gathers
    · have differ : line ≠ g.line := fun same => own (isOf_iff.mpr (first.own.trans same))
      rw [if_neg own]
      refine (ih once fun absent => fresh ?_).map fun next done => ?_
      · simpa [differ.symm] using absent
      · have added := List.Forall₂.cons (others differ first) done
        by_cases known : g.line ∈ lines
        · rw [if_pos known] at added
          rw [if_pos (List.mem_cons_of_mem line known)]
          exact added
        · rw [if_neg known] at added
          rw [if_neg (by simpa [differ.symm] using known)]
          exact added

theorem addToLines_settles (kind : spec.kind = .lines) {marks : List Mark} {state : List Draft × Nat}
    (gathered : List.Forall₂ (v.Gathers spec marks) (distinct (marks.map Prod.fst)) state.1) (g : Group Float) :
    Settles (fun next => List.Forall₂ (v.Gathers spec (marks ++ (spec.mark? v.sweep g).toList))
        (distinct ((marks ++ (spec.mark? v.sweep g).toList).map Prod.fst)) next.1 ∧
      next.2 = state.2 + [g].countP (spec.refuses v.sweep)) (v.plotFault? spec g) (v.addToLines spec state g) := by
  unfold addToLines plotFault?
  cases count : g.count v.sweep with
  | none =>
    rw [if_neg fun plots => by simpa [count] using plots.2 kind]
    exact .ok (by simpa [PanelSpec.mark?, Group.mark?, PanelSpec.refuses, count] using gathered)
  | some x =>
    cases value : g.metric spec.metric with
    | none =>
      rw [if_neg fun plots => by simpa [value] using plots.1]
      exact .ok (by simpa [PanelSpec.mark?, Group.mark?, PanelSpec.refuses, count, value] using gathered)
    | some y =>
      dsimp only
      by_cases accepted : spec.scale.accepts y = true
      · have made : spec.mark? v.sweep g = some (g.line, ⟨Number.nearestWhole x, y⟩) := by
          simp [PanelSpec.mark?, Group.mark?, count, value, accepted]
        have kept : spec.refuses v.sweep g = false := by
          simp [PanelSpec.refuses, value, accepted]
        have fresh : g.line ∉ distinct (marks.map Prod.fst) → pointsOn g.line marks = [] := by
          rw [mem_distinct]
          exact pointsOn_eq_nil
        rw [if_pos accepted, if_pos ⟨⟨y, value, accepted⟩, fun _ => ⟨x, count⟩⟩]
        refine (addPoint_settles gathered (nodup_distinct _) fresh _).map fun drafts added => ?_
        rw [made, Option.toList_some, List.map_append, List.map_singleton, distinct_concat]
        simp only [mem_distinct] at added
        exact ⟨added, by simp [kept]⟩
      · rw [if_neg accepted, if_neg fun plots => by simpa [value, accepted] using plots.1]
        refine .ok ⟨?_, by simp [PanelSpec.refuses, count, value, accepted]⟩
        simpa [PanelSpec.mark?, Group.mark?, count, value, accepted] using gathered

theorem foldlM_addToLines_settles (kind : spec.kind = .lines) (groups : List (Group Float)) :
    Settles (fun state => List.Forall₂ (v.Gathers spec (marks spec v.sweep groups))
        (distinct ((marks spec v.sweep groups).map Prod.fst)) state.1 ∧
      state.2 = groups.countP (spec.refuses v.sweep)) (groups.findSome? (v.plotFault? spec))
      (groups.foldlM (v.addToLines spec) ([], 0)) := by
  -- The state after some groups is about these groups, so the induction adds groups at the end.
  induction groups using List.reverseRecOn with
  | nil => exact .ok ⟨.nil, rfl⟩
  | append_singleton groups g ih =>
    rw [List.foldlM_append, List.findSome?_append, List.findSome?_singleton]
    refine ih.bind fun state ⟨gathered, refused⟩ => ?_
    simp only [List.foldlM_cons, List.foldlM_nil, bind_pure]
    refine (addToLines_settles kind gathered g).mono fun next ⟨gathered, more⟩ => ⟨?_, ?_⟩
    · have grown : marks spec v.sweep (groups ++ [g]) =
          marks spec v.sweep groups ++ (spec.mark? v.sweep g).toList := by
        unfold marks
        rw [List.filterMap_append]
        cases made : spec.mark? v.sweep g <;> simp [made]
      rw [grown]
      exact gathered
    · rw [more, refused, List.countP_append]

section Panels

theorem styleFor_ok {queue : String} {emphasis : Emphasis} {style : DrawStyle}
    (styled : v.styleFor queue emphasis = .ok style) :
    style.emphasis = emphasis ∧ ∃ own, v.registry.style? queue = some own ∧ style.line = own.line ∧
      style.marker = own.marker := by
  unfold styleFor Registry.draw? at styled
  cases found : v.registry.style? queue with
  | none =>
    rw [found] at styled
    cases styled
  | some own =>
    rw [found] at styled
    cases styled
    exact ⟨rfl, own, rfl, rfl, rfl⟩

/-- The line is drawn with all marks on it, in order of the count, in the style of its queue type. -/
structure Draws (v : View) (spec : PanelSpec) (marks : List Mark) (line : Line) (d : Draft) : Prop where
  own : d.line = line
  emphasis : d.emphasis = v.filter.emphasis line.queue spec.highlight
  style : v.styleFor line.queue d.emphasis = .ok d.style
  points : d.points = sortedByCount (pointsOn line marks)

theorem Gathers.sortPoints {marks : List Mark} {line : Line} {d : Draft} (gathers : v.Gathers spec marks line d) :
    v.Draws spec marks line d.sortPoints :=
  ⟨gathers.own, gathers.emphasis, gathers.style, congrArg sortedByCount gathers.points⟩

def linesOn (v : View) (spec : PanelSpec) (groups : List (Group Float)) : List Line :=
  distinct ((v.marksOn spec groups).map Prod.fst)

theorem Draws.points_ne_nil {line : Line} {d : Draft} (draws : v.Draws spec (v.marksOn spec groups) line d)
    (listed : line ∈ v.linesOn spec groups) : d.points ≠ [] := by
  obtain ⟨⟨_, p⟩, mem, rfl⟩ := List.mem_map.mp (mem_distinct.mp listed)
  have drawn : p ∈ d.points := by
    rw [draws.points, sortedByCount, List.mem_mergeSort]
    exact mem_pointsOn.mpr mem
  exact List.ne_nil_of_mem drawn

/-- A panel of lines draws all lines with marks on it, layer by layer; a panel of bars has none. -/
inductive Drafted (v : View) (groups : List (Group Float)) (spec : PanelSpec) : List Draft → Prop
  | lines {drawn : List Draft} (kind : spec.kind = .lines)
      (draws : List.Forall₂ (v.Draws spec (v.marksOn spec groups)) (v.linesOn spec groups) drawn) :
      Drafted v groups spec (Draft.sortLayers drawn)
  | bars (kind : spec.kind = .bars) : Drafted v groups spec []

theorem Drafted.of_lines {drafts : List Draft} (drafted : v.Drafted groups spec drafts) (kind : spec.kind = .lines) :
    ∃ drawn, List.Forall₂ (v.Draws spec (v.marksOn spec groups)) (v.linesOn spec groups) drawn ∧
      drafts = Draft.sortLayers drawn := by
  cases drafted with
  | lines _ draws => exact ⟨_, draws, rfl⟩
  | bars bars => cases kind.symm.trans bars

theorem Drafted.of_bars {drafts : List Draft} (drafted : v.Drafted groups spec drafts) (kind : spec.kind = .bars) :
    drafts = [] := by
  cases drafted with
  | lines lines _ => cases kind.symm.trans lines
  | bars _ => rfl

theorem Drafted.exists_draws {drafts : List Draft} (drafted : v.Drafted groups spec drafts) (kind : spec.kind = .lines)
    {d : Draft} (mem : d ∈ drafts) :
    ∃ line ∈ v.linesOn spec groups, v.Draws spec (v.marksOn spec groups) line d := by
  obtain ⟨drawn, draws, rfl⟩ := drafted.of_lines kind
  exact exists_mem_of_forall₂ draws ((List.mergeSort_perm drawn _).mem_iff.mp mem)

/-- The panel is the one of the layout and, if it is one of lines, shows its drafts. Their labels take the drafts
of all panels into account. -/
structure HoldsLines (v : View) (groups : List (Group Float)) (tagged : List (List Draft)) (spec : PanelSpec)
    (panel : Panel) : Prop where
  row : panel.row = spec.row
  col : panel.col = spec.col
  scale : panel.scale = spec.scale
  content : spec.kind = .lines → ∃ drafts, v.Drafted groups spec drafts ∧
    panel.content = .lines (drafts.map (Draft.finish tagged))
  dropped : spec.kind = .lines →
    panel.dropped = (groups.filter (spec.selects v.filter)).countP (spec.refuses v.sweep)

/-- What a panel is drafted as: all its lines layer by layer, or all its bars in order, and what it dropped. -/
inductive Drawn (v : View) (groups : List (Group Float)) (spec : PanelSpec) : DraftContent × Nat → Prop
  | lines {drawn : List Draft} (kind : spec.kind = .lines)
      (draws : List.Forall₂ (v.Draws spec (v.marksOn spec groups)) (v.linesOn spec groups) drawn) :
      Drawn v groups spec
        (.lines (Draft.sortLayers drawn), (groups.filter (spec.selects v.filter)).countP (spec.refuses v.sweep))
  | bars {own : List Bar} (kind : spec.kind = .bars)
      (stands : List.Forall₂ (v.Stands spec) (v.shownOn spec groups) own) :
      Drawn v groups spec
        (.bars (own.mergeSort Bar.precedes), (groups.filter (spec.selects v.filter)).countP spec.drops)

theorem draftPanel_settles (groups : List (Group Float)) (spec : PanelSpec) :
    Settles (v.Drawn groups spec) (v.draftFault? groups spec) (v.draftPanel groups spec) := by
  unfold draftPanel
  cases kind : spec.kind with
  | lines =>
    have lines : Settles (fun state => ∃ drawn, List.Forall₂ (v.Draws spec (v.marksOn spec groups))
          (v.linesOn spec groups) drawn ∧ state = (Draft.sortLayers drawn,
            (groups.filter (spec.selects v.filter)).countP (spec.refuses v.sweep)))
        (v.draftFault? groups spec) (v.panelLines spec groups) := by
      refine (foldlM_addToLines_settles kind _).map fun state ⟨gathers, refused⟩ => ⟨_, ?_, congrArg (_, ·) refused⟩
      exact List.forall₂_map_right_iff.mpr (gathers.imp fun _ _ => Gathers.sortPoints)
    refine lines.map ?_
    rintro _ ⟨drawn, draws, rfl⟩
    exact .lines kind draws
  | bars =>
    refine (panelBars_settles kind groups).map ?_
    rintro _ ⟨own, stands, rfl⟩
    exact .bars kind stands

theorem draftPanel_holdsLines : ReturnsOnly (fun draft => v.Drafted groups spec (draftsOf draft.1) ∧
    ∀ tagged, v.HoldsLines groups tagged spec (v.finishPanel spec (finishContent tagged draft.1) draft.2))
    (v.draftPanel groups spec) := by
  intro draft done
  cases (draftPanel_settles groups spec).returnsOnly draft done with
  | lines kind draws =>
    exact ⟨.lines kind draws, fun tagged => ⟨rfl, rfl, rfl, fun _ => ⟨_, .lines kind draws, rfl⟩, fun _ => rfl⟩⟩
  | bars kind =>
    have none : spec.kind ≠ .lines := by simp [kind]
    exact ⟨.bars kind, fun tagged => ⟨rfl, rfl, rfl, fun lines => absurd lines none, fun lines => absurd lines none⟩⟩

theorem Drafted.outlines {drafts : List Draft} (drafted : v.Drafted groups spec drafts) (kind : spec.kind = .lines) :
    (drafts.map fun d => (d.line, d.points)).Perm
      ((v.linesOn spec groups).map fun line => (line, sortedByCount (pointsOn line (v.marksOn spec groups)))) := by
  obtain ⟨drawn, draws, rfl⟩ := drafted.of_lines kind
  have outlines : (v.linesOn spec groups).map (fun line =>
      (line, sortedByCount (pointsOn line (v.marksOn spec groups)))) = drawn.map fun d => (d.line, d.points) := by
    rw [← List.forall₂_eq_eq_eq, List.forall₂_map_left_iff, List.forall₂_map_right_iff]
    exact draws.imp fun line d drawn => by rw [drawn.own, drawn.points]
  rw [outlines]
  exact (List.mergeSort_perm drawn _).map _

theorem Drafted.nodup_lines {drafts : List Draft} (drafted : v.Drafted groups spec drafts) :
    (drafts.map Draft.line).Nodup := by
  cases kind : spec.kind with
  | lines =>
    have lines : (drafts.map Draft.line).Perm (v.linesOn spec groups) := by
      simpa [Function.comp_def] using (drafted.outlines kind).map Prod.fst
    exact lines.nodup_iff.mpr (nodup_distinct _)
  | bars =>
    rw [drafted.of_bars kind]
    exact List.nodup_nil

theorem Drafted.of_mem {drafts : List Draft} (drafted : v.Drafted groups spec drafts) {d : Draft} (mem : d ∈ drafts) :
    (∃ g ∈ groups, d.line = g.line) ∧ d.emphasis = v.filter.emphasis d.queue spec.highlight ∧
      d.style.emphasis = d.emphasis := by
  cases kind : spec.kind with
  | lines =>
    obtain ⟨line, listed, draws⟩ := drafted.exists_draws kind mem
    obtain ⟨mark, made, rfl⟩ := List.mem_map.mp (mem_distinct.mp listed)
    obtain ⟨g, selected, made⟩ := List.mem_filterMap.mp made
    refine ⟨⟨g, (List.mem_filter.mp selected).1, ?_⟩, ?_, (styleFor_ok draws.style).1⟩
    · rw [draws.own, PanelSpec.mark?_line made]
    · rw [draws.emphasis, ← draws.own]
      rfl
  | bars =>
    rw [drafted.of_bars kind] at mem
    cases mem

theorem HoldsLines.outlines {tagged : List (List Draft)} {panel : Panel}
    (holds : v.HoldsLines groups tagged spec panel) (kind : spec.kind = .lines) :
    (panel.content.series.map Series.outline).Perm
      ((v.linesOn spec groups).map fun line => (line, sortedByCount (pointsOn line (v.marksOn spec groups)))) := by
  obtain ⟨drafts, drafted, content⟩ := holds.content kind
  rw [content, PanelContent.series, List.map_map]
  exact drafted.outlines kind

theorem HoldsLines.marks {tagged : List (List Draft)} {panel : Panel}
    (holds : v.HoldsLines groups tagged spec panel) (kind : spec.kind = .lines) :
    panel.marks.Perm (v.marksOn spec groups) := by
  have drawn : panel.marks =
      (panel.content.series.map Series.outline).flatMap fun outline => outline.2.map (outline.1, ·) := by
    rw [List.flatMap_map]
    rfl
  have known : ∀ mark ∈ v.marksOn spec groups, mark.1 ∈ v.linesOn spec groups := by
    intro mark mem
    exact mem_distinct.mpr (List.mem_map_of_mem mem)
  have unsorted : ((v.linesOn spec groups).flatMap fun line =>
        (sortedByCount (pointsOn line (v.marksOn spec groups))).map (line, ·)).Perm
      ((v.linesOn spec groups).flatMap fun line => (pointsOn line (v.marksOn spec groups)).map (line, ·)) :=
    List.Perm.flatMap_left _ fun line _ => (List.mergeSort_perm _ _).map _
  rw [drawn]
  refine ((holds.outlines kind).flatMap_right _).trans ?_
  rw [List.flatMap_map]
  exact unsorted.trans (marks_perm_of_lines (nodup_distinct _) known)

theorem HoldsLines.emphasis {tagged : List (List Draft)} {panel : Panel}
    (holds : v.HoldsLines groups tagged spec panel) (kind : spec.kind = .lines) :
    ∀ s ∈ panel.content.series, s.style.emphasis = v.filter.emphasis s.queue spec.highlight := by
  obtain ⟨drafts, drafted, content⟩ := holds.content kind
  rw [content]
  intro s mem
  obtain ⟨d, draft, rfl⟩ := List.mem_map.mp mem
  obtain ⟨-, emphasis, style⟩ := drafted.of_mem draft
  exact style.trans emphasis

theorem cells_of_holds {tagged : List (List Draft)} {specs : List PanelSpec} {panels : List Panel}
    (holds : List.Forall₂ (v.HoldsLines groups tagged) specs panels) :
    panels.map (fun panel => (panel.row, panel.col)) = specs.map fun spec => (spec.row, spec.col) := by
  rw [← List.forall₂_eq_eq_eq, List.forall₂_map_left_iff, List.forall₂_map_right_iff]
  refine List.Forall₂.flip (holds.imp fun spec panel held => ?_)
  exact congrArg₂ Prod.mk held.row held.col

theorem render_grid {layout : Layout} {figure : Figure} (rendered : v.render layout groups = .ok figure) :
    figure.rows = layout.rows ∧ figure.cols = layout.cols := by
  obtain ⟨-, _, -, rfl⟩ := render_eq_ok_iff.mp rendered
  exact ⟨rfl, rfl⟩

theorem render_holdsLines {layout : Layout} {figure : Figure} (rendered : v.render layout groups = .ok figure) :
    ∃ tagged, List.Forall₂ (v.Drafted groups) layout.panels tagged ∧
      List.Forall₂ (v.HoldsLines groups tagged) layout.panels figure.panels := by
  obtain ⟨drafts, drafted, finished⟩ := render_finishes rendered
  refine ⟨draftsIn drafts, ?_, finished.imp ?_⟩
  · refine List.forall₂_map_right_iff.mpr ((mapM_eq_ok drafted).imp fun spec draft done => ?_)
    exact (draftPanel_holdsLines draft done).1
  · rintro spec panel ⟨draft, done, finished⟩
    have holds := (draftPanel_holdsLines draft done).2 (draftsIn drafts)
    rw [finished.same]
    exact ⟨holds.row, holds.col, holds.scale, holds.content, holds.dropped⟩

end Panels

end View

end SweepPlot
