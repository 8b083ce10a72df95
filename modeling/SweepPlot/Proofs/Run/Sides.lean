import Mathlib
import SweepPlot.Proofs.Figure.Lines
import SweepPlot.Proofs.Merge.Tags
import SweepPlot.Proofs.Run.Answer
set_option autoImplicit false

namespace SweepPlot.Request

variable {r : Request} {d : Dataset} {figure : Figure}

section Statement

/-- The group belongs in that row: in the one of its own variant, where rows are variants. -/
def isOwnRow (r : Request) (row : Nat) (g : Group Float) : Bool :=
  match r.layout with
  | .sixPanel => r.variants[row]? == g.variant
  | _ => row == 0

/-- What the panel of that cell has to show: the admitted groups of the row, on the left those outside the right
list. -/
def belongs (r : Request) (row col : Nat) (g : Group Float) : Bool :=
  r.filter.admits g.queue && r.isOwnRow row g && (col == 1 || !r.right.contains g.queue)

/-- Every row has a left and a right panel and every group one row. A panel has one point for each group that
belongs on it and has a count and a value that the scale accepts; the left panel of a row has the lines of the
right one outside the right list, and they are drawn with normal emphasis. -/
structure DrawsSides (r : Request) (groups : List (Group Float)) (figure : Figure) : Prop where
  cells : figure.panels.map (fun panel => (panel.row, panel.col)) =
    (List.range figure.rows).flatMap fun row => [(row, 0), (row, 1)]
  kinds : ∀ panel ∈ figure.panels, ∃ series, panel.content = .lines series
  own : ∀ g ∈ groups, ∀ col < 2,
    figure.panels.countP (fun panel => panel.col == col && r.isOwnRow panel.row g) = 1
  marks : ∀ panel ∈ figure.panels, panel.marks.Perm
    ((groups.filter (r.belongs panel.row panel.col)).filterMap fun g => g.mark? r.sweep r.metric panel.scale)
  sides : ∀ left ∈ figure.panels, ∀ right ∈ figure.panels, left.row = right.row → left.col = 0 → right.col = 1 →
    (left.content.series.map Series.outline).Perm
      ((right.content.series.filter fun s => !r.right.contains s.queue).map Series.outline)
  normal : ∀ left ∈ figure.panels, left.col = 0 → ∀ s ∈ left.content.series, s.style.emphasis = .normal

end Statement

section Layout

/-- The panel shows lines of the metric for the groups of its row: those outside the right list in full colour on
the left, all of them on the right. -/
structure SideSpec (r : Request) (spec : PanelSpec) : Prop where
  kind : spec.kind = .lines
  metric : spec.metric = r.metric
  scale : spec.scale = r.metric.scale
  subfolder : spec.subfolder = none
  own : ∀ g : Group Float, PanelSpec.allows spec.variant g.variant = r.isOwnRow spec.row g
  side : (spec.col = 0 ∧ spec.selection = .excluding r.right ∧ spec.highlight = false) ∨
    (spec.col = 1 ∧ spec.selection = .all)

structure TwoSided (r : Request) (d : Dataset) : Prop where
  cells : (r.figureLayout d).panels.map (fun spec => (spec.row, spec.col)) =
    (List.range (r.figureLayout d).rows).flatMap fun row => [(row, 0), (row, 1)]
  specs : ∀ spec ∈ (r.figureLayout d).panels, r.SideSpec spec
  rows : ∀ g ∈ r.aggregation.groups d, (List.range (r.figureLayout d).rows).countP (r.isOwnRow · g) = 1

theorem SideSpec.selects {spec : PanelSpec} (side : r.SideSpec spec) (g : Group Float) :
    spec.selects r.filter g = r.belongs spec.row spec.col g := by
  unfold PanelSpec.selects belongs
  rw [side.own, side.subfolder]
  obtain ⟨left, selection, -⟩ | ⟨right, selection⟩ := side.side
  · rw [selection, left]
    cases r.filter.admits g.queue <;> cases r.isOwnRow spec.row g <;> simp [Selection.admits, PanelSpec.allows]
  · rw [selection, right]
    simp [Selection.admits, PanelSpec.allows]

theorem SideSpec.normal {spec : PanelSpec} (side : r.SideSpec spec) (left : spec.col = 0) (queue : String) :
    r.filter.emphasis queue spec.highlight = .normal := by
  obtain ⟨-, -, plain⟩ | ⟨right, -⟩ := side.side
  · rw [plain]
    rfl
  · omega

theorem sides_of_row {row : Nat} {variant leftTitle rightTitle label : Option String}
    (own : ∀ g : Group Float, PanelSpec.allows variant g.variant = r.isOwnRow row g) :
    ∀ spec ∈ [{ Layout.leftPanel r.metric row r.right with variant, title := leftTitle },
      { Layout.rightPanel r.metric row with variant, title := rightTitle, sideLabel := label }], r.SideSpec spec := by
  intro spec mem
  simp only [List.mem_cons, List.not_mem_nil, or_false] at mem
  obtain rfl | rfl := mem
  · exact ⟨rfl, rfl, rfl, rfl, own, .inl ⟨rfl, rfl, rfl⟩⟩
  · exact ⟨rfl, rfl, rfl, rfl, own, .inr ⟨rfl, rfl⟩⟩

theorem twoSided_paired (layout : r.layout = .paired) (d : Dataset) : r.TwoSided d := by
  have own : ∀ (row : Nat) (g : Group Float), r.isOwnRow row g = (row == 0) := by
    intro row g
    simp only [isOwnRow, layout]
  have drawn : r.figureLayout d = .paired r.metric r.right := by
    simp only [figureLayout, layout]
  refine ⟨?_, ?_, fun g _ => ?_⟩
  · rw [drawn]
    rfl
  · rw [drawn]
    refine sides_of_row fun g => ?_
    rw [own]
    rfl
  · rw [drawn]
    simp only [own]
    rfl

theorem countP_getElem? {names : List String} (once : names.Nodup) {name : String} (mem : name ∈ names) :
    (List.range names.length).countP (fun i => names[i]? == some name) = 1 := by
  have listed : (List.range names.length).map (fun i => names[i]?) = names.map some := by
    apply List.ext_getElem
    · simp
    · intro i inside inside'
      simp
  have counted := List.count_eq_one_of_mem once mem
  rw [← List.count_map_of_injective names some (Option.some_injective String), ← listed, List.count,
    List.countP_map] at counted
  exact counted

theorem twoSided_sixPanel (sound : r.Sound) (tagged : r.Tagged d) (layout : r.layout = .sixPanel) :
    r.TwoSided d := by
  have mode := sound.variant_of_sixPanel layout
  have own : ∀ (row : Nat) (g : Group Float), r.isOwnRow row g = (r.variants[row]? == g.variant) := by
    intro row g
    simp only [isOwnRow, layout]
  have drawn : r.figureLayout d = .sixPanel r.metric r.variants r.right := by
    simp only [figureLayout, layout]
  refine ⟨?_, ?_, fun g mem => ?_⟩
  · rw [drawn]
    change ((r.variants.zipIdx.flatMap _).map _) = (List.range r.variants.length).flatMap _
    rw [List.map_flatMap, List.range_eq_range', ← List.zipIdx_map_snd 0 r.variants, List.flatMap_map]
    rfl
  · rw [drawn]
    intro spec mem
    obtain ⟨⟨variant, row⟩, entry, mem⟩ := List.mem_flatMap.mp mem
    refine sides_of_row (fun g => ?_) spec mem
    have at_ : r.variants[row]? = some variant := List.mk_mem_zipIdx_iff_getElem?.mp entry
    rw [own, at_]
    simp [PanelSpec.allows, BEq.comm]
  · rw [drawn]
    obtain ⟨record, present, -, -, -, variant, -⟩ := Aggregation.origin_of_mem_groups r.aggregation_once mem
    obtain ⟨label, listed, same⟩ := tagged.variant mode record present
    simp only [own, variant, same]
    exact countP_getElem? (sound.labels mode).2 listed

end Layout

section Panels

theorem countP_cells (rows : List Nat) (p : Nat → Bool) {col : Nat} (side : col < 2) :
    (rows.flatMap fun row => [(row, 0), (row, 1)]).countP (fun cell => cell.2 == col && p cell.1) =
      rows.countP p := by
  induction rows with
  | nil => rfl
  | cons row rows ih =>
    rw [List.flatMap_cons, List.countP_append, ih, List.countP_cons, Nat.add_comm]
    obtain rfl | rfl : col = 0 ∨ col = 1 := by omega
    · simp [List.countP_cons]
    · simp [List.countP_cons]

variable {v : View} {groups : List (Group Float)} {left right : PanelSpec}

theorem marksOn_left (look : v.filter = r.filter) (onLeft : r.SideSpec left) (onRight : r.SideSpec right)
    (row : left.row = right.row) (leftCol : left.col = 0) (rightCol : right.col = 1) :
    v.marksOn left groups =
      (v.marksOn right groups).filter fun mark => !r.right.contains mark.1.queue := by
  have marks : ∀ g : Group Float, left.mark? v.sweep g = right.mark? v.sweep g := by
    intro g
    unfold PanelSpec.mark?
    rw [onLeft.metric, onLeft.scale, onRight.metric, onRight.scale]
  have selects : ∀ g, left.selects v.filter g = (right.selects v.filter g && !r.right.contains g.queue) := by
    intro g
    rw [look, onLeft.selects, onRight.selects, belongs, belongs, row, leftCol, rightCol]
    simp
  unfold View.marksOn View.marks
  rw [List.filter_filterMap, List.filterMap_filter, List.filterMap_filter]
  apply List.filterMap_congr
  intro g _
  rw [selects, marks]
  cases made : right.mark? v.sweep g with
  | none => simp
  | some mark =>
    have queue : mark.1.queue = g.queue := congrArg Line.queue (PanelSpec.mark?_line made)
    rw [Option.filter_some, queue]
    cases right.selects v.filter g <;> cases r.right.contains g.queue <;> rfl

theorem linesOn_left (look : v.filter = r.filter) (onLeft : r.SideSpec left) (onRight : r.SideSpec right)
    (row : left.row = right.row) (leftCol : left.col = 0) (rightCol : right.col = 1) :
    v.linesOn left groups = (v.linesOn right groups).filter fun line => !r.right.contains line.queue := by
  unfold View.linesOn
  rw [marksOn_left look onLeft onRight row leftCol rightCol, ← distinct_filter, List.filter_map]
  rfl

theorem outlines_left (look : v.filter = r.filter) (onLeft : r.SideSpec left) (onRight : r.SideSpec right)
    (row : left.row = right.row) (leftCol : left.col = 0) (rightCol : right.col = 1)
    {tagged : List (List Draft)} {leftPanel rightPanel : Panel}
    (held : v.HoldsLines groups tagged left leftPanel) (held' : v.HoldsLines groups tagged right rightPanel) :
    (leftPanel.content.series.map Series.outline).Perm
      ((rightPanel.content.series.filter fun s => !r.right.contains s.queue).map Series.outline) := by
  have points : ∀ line ∈ v.linesOn left groups,
      pointsOn line (v.marksOn left groups) = pointsOn line (v.marksOn right groups) := by
    intro line mem
    rw [linesOn_left look onLeft onRight row leftCol rightCol] at mem
    rw [marksOn_left look onLeft onRight row leftCol rightCol]
    apply pointsOn_filter
    intro mark _ own
    rw [own]
    exact (List.mem_filter.mp mem).2
  have kept := (held'.outlines onRight.kind).filter fun outline => !r.right.contains outline.1.queue
  rw [List.filter_map, List.filter_map] at kept
  refine ((held.outlines onLeft.kind).trans (.of_eq ?_)).trans kept.symm
  rw [List.map_congr_left fun line mem => by rw [points line mem],
    linesOn_left look onLeft onRight row leftCol rightCol]
  rfl

end Panels

theorem TwoSided.drawsSides (sided : r.TwoSided d) {tagged : List (List Draft)}
    (grid : figure.rows = (r.figureLayout d).rows)
    (holds : List.Forall₂ ((r.view d).HoldsLines (r.aggregation.groups d) tagged) (r.figureLayout d).panels
      figure.panels) : r.DrawsSides (r.aggregation.groups d) figure := by
  have cells := (View.cells_of_holds holds).trans sided.cells
  have each : ∀ panel ∈ figure.panels, ∃ spec, r.SideSpec spec ∧
      (r.view d).HoldsLines (r.aggregation.groups d) tagged spec panel := by
    intro panel mem
    obtain ⟨spec, present, held⟩ := exists_mem_of_forall₂ holds mem
    exact ⟨spec, sided.specs spec present, held⟩
  refine ⟨by rw [grid]; exact cells, fun panel mem => ?_, fun g mem col side => ?_, fun panel mem => ?_,
    fun left memL right memR row leftCol rightCol => ?_, fun left mem leftCol s drawn => ?_⟩
  · obtain ⟨spec, side, held⟩ := each panel mem
    obtain ⟨drafts, -, content⟩ := held.content side.kind
    exact ⟨_, content⟩
  · have counted := countP_cells (List.range (r.figureLayout d).rows) (r.isOwnRow · g) side
    rw [← cells, List.countP_map, sided.rows g mem] at counted
    exact counted
  · obtain ⟨spec, side, held⟩ := each panel mem
    have selected : (r.aggregation.groups d).filter (spec.selects (r.view d).filter) =
        (r.aggregation.groups d).filter (r.belongs spec.row spec.col) :=
      List.filter_congr fun g _ => side.selects g
    have marks := held.marks side.kind
    unfold View.marksOn View.marks PanelSpec.mark? at marks
    rw [selected, ← held.row, ← held.col, side.metric, ← held.scale] at marks
    exact marks
  · obtain ⟨leftSpec, onLeft, held⟩ := each left memL
    obtain ⟨rightSpec, onRight, held'⟩ := each right memR
    rw [held.row, held'.row] at row
    rw [held.col] at leftCol
    rw [held'.col] at rightCol
    exact outlines_left rfl onLeft onRight row leftCol rightCol held held'
  · obtain ⟨spec, side, held⟩ := each left mem
    rw [held.col] at leftCol
    rw [held.emphasis side.kind s drawn]
    exact side.normal leftCol s.queue

/-- In a paired or six-panel figure from loaded results every group has one row. It has a point on the right of it
if it is admitted and has a count and a value that the scale accepts, and also one on the left unless its queue
type is in the right list; what is on the left is drawn as on the right, with normal emphasis. -/
theorem figure_drawsSides (r : Request) (fs : FileSystem) (report : MergeReport) (figure : Figure)
    (groups : List (Group Float)) (accepted : r.accept = .ok ())
    (layout : r.layout = .sixPanel ∨ r.layout = .paired) (loaded : r.loadResults fs = .ok report)
    (drawn : r.figure report.records = .ok (figure, groups)) :
    groups = r.aggregation.groups report.records ∧ r.DrawsSides groups figure := by
  have sided : r.TwoSided report.records := by
    obtain layout | layout := layout
    · exact twoSided_sixPanel (sound_of_accept accepted) (loadResults_tagged loaded) layout
    · exact twoSided_paired layout _
  unfold Request.figure at drawn
  obtain ⟨_, -, drawn⟩ := bind_eq_ok.mp drawn
  obtain ⟨rendered, renders, checked⟩ := bind_eq_ok.mp drawn
  split at checked
  · cases checked
  cases checked
  obtain ⟨tagged, -, holds⟩ := View.render_holdsLines renders
  exact ⟨rfl, sided.drawsSides (View.render_grid renders).1 holds⟩

def compared : FileSystem where
  root := .dir
    [("base", .dir [("road", .dir
       [("a.csv", .file (Bytes.ofText "Queuetype,Thread Count,Throughput\nmq,2,4\n"))])]),
     ("tuned", .dir [("road", .dir
       [("a.csv", .file (Bytes.ofText "Queuetype,Thread Count,Throughput\nlcrq_rust,2,2.5\nmq,2,3\n"))])])]

def comparedResults : Dataset :=
  let on (queue dir variant : String) (throughput : Float) : Record Float :=
    { queue := queue, counts := ⟨some 2, none, none⟩, metrics := ⟨some throughput, none, none, none, none, none⟩
      subfolder := some "road", variant := some variant, source := some (dir ++ "/road/a.csv") }
  [on "mq" "base" "50" 4.0, on "lcrq_rust" "tuned" "500" 2.5, on "mq" "tuned" "500" 3.0]

theorem figure_drawsSides_comparing : ∃ report figure groups, comparing.accept = .ok () ∧
    comparing.loadResults compared = .ok report ∧ comparing.figure report.records = .ok (figure, groups) ∧
    comparing.DrawsSides groups figure := by
  have accepted : comparing.accept = .ok () := by rfl
  have records : (comparing.loadResults compared).toOption.map (·.records) = some comparedResults := by
    decide +kernel
  cases loaded : comparing.loadResults compared with
  | error failure =>
    rw [loaded] at records
    cases records
  | ok report =>
    rw [loaded] at records
    have known : report.records = comparedResults := Option.some.inj records
    have placed := (sound_of_accept accepted).figureLayout_wellPlaced (by decide) report.records
    have named : ¬ comparing.NamesAbsent report.records := by
      rw [namesAbsent_iff, known]
      decide
    have shows : comparing.ShowsSomething report.records := by
      rw [known]
      refine ⟨{ Layout.leftPanel .throughput 0 ["lcrq_rust"] with variant := some "50" }, by decide, _,
        List.mem_cons_self, by rfl, ?_⟩
      exact ⟨⟨_, by rfl, by decide +kernel⟩, fun _ => ⟨_, by rfl⟩⟩
    obtain ⟨blank, -⟩ | ⟨-, ⟨figure, groups⟩, drawn⟩ := figure_of_named placed named
    · exact absurd shows blank
    · obtain ⟨-, sides⟩ :=
        figure_drawsSides comparing compared report figure groups accepted (.inl rfl) loaded drawn
      exact ⟨report, figure, groups, accepted, rfl, drawn, sides⟩

end SweepPlot.Request
