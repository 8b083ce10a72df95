import SweepPlot.Proofs.Figure.Lines
import SweepPlot.Proofs.Figure.Render
import SweepPlot.Proofs.Sorting
set_option autoImplicit false

namespace SweepPlot

namespace Emphasis

def rising : List Emphasis := [muted, normal, highlighted]

theorem mem_rising (e : Emphasis) : e ∈ rising := by
  cases e <;> decide

theorem layer_injective {e f : Emphasis} (same : e.layer = f.layer) : e = f := by
  cases e <;> cases f <;> first | rfl | cases same

theorem highlighted_of_layer_le {e f : Emphasis} (below : e.layer ≤ f.layer) (high : e = highlighted) :
    f = highlighted := by
  subst high
  cases f <;> first | rfl | exact absurd below (by decide)

end Emphasis

theorem sortLayers_eq_flatMap (drafts : List Draft) :
    Draft.sortLayers drafts = Emphasis.rising.flatMap fun e => drafts.filter fun d => d.emphasis = e := by
  have climb : (Emphasis.rising.map Emphasis.layer).Pairwise (· < ·) := by decide
  have known : ∀ d ∈ drafts, d.emphasis.layer ∈ Emphasis.rising.map Emphasis.layer :=
    fun d _ => List.mem_map_of_mem (Emphasis.mem_rising d.emphasis)
  rw [Draft.sortLayers, mergeSort_eq_flatMap climb known, List.flatMap_map]
  refine List.flatMap_congr fun e _ => List.filter_congr fun d _ => ?_
  exact decide_eq_decide.mpr ⟨Emphasis.layer_injective, congrArg Emphasis.layer⟩

namespace PanelSpec

/-- The group has no place on the panel, or no value for it. -/
def lacks (spec : PanelSpec) (sweep : Sweep) (g : Group Float) : Bool :=
  (g.count sweep).isNone || (g.metric spec.metric).isNone

end PanelSpec

namespace View

variable {v : View} {spec : PanelSpec} {groups : List (Group Float)}

theorem length_marks_add (groups : List (Group Float)) :
    (marks spec v.sweep groups).length + groups.countP (spec.refuses v.sweep) + groups.countP (spec.lacks v.sweep) =
      groups.length := by
  unfold marks
  induction groups with
  | nil => rfl
  | cons g groups ih =>
    have one : (spec.mark? v.sweep g).toList.length + [g].countP (spec.refuses v.sweep) +
        [g].countP (spec.lacks v.sweep) = 1 := by
      cases count : g.count v.sweep with
      | none => simp [PanelSpec.mark?, Group.mark?, PanelSpec.refuses, PanelSpec.lacks, count]
      | some x =>
        cases value : g.metric spec.metric with
        | none => simp [PanelSpec.mark?, Group.mark?, PanelSpec.refuses, PanelSpec.lacks, count, value]
        | some y =>
          by_cases accepted : spec.scale.accepts y = true <;>
            simp [PanelSpec.mark?, Group.mark?, PanelSpec.refuses, PanelSpec.lacks, count, value, accepted]
    have first : ((g :: groups).filterMap (spec.mark? v.sweep)).length =
        (spec.mark? v.sweep g).toList.length + (groups.filterMap (spec.mark? v.sweep)).length := by
      cases made : spec.mark? v.sweep g with
      | none => simp [made]
      | some mark => simp [made, Nat.add_comm]
    rw [first, show g :: groups = [g] ++ groups from rfl, List.countP_append, List.countP_append, List.length_append,
      List.length_singleton]
    omega

/-- The lines of a panel from the bottom layer to the top one, on each in the order of their first marks. -/
def layeredLines (v : View) (spec : PanelSpec) (groups : List (Group Float)) : List Line :=
  Emphasis.rising.flatMap fun e =>
    (v.linesOn spec groups).filter fun line => v.filter.emphasis line.queue spec.highlight = e

/-- The series joins the marks of the line in a stable order of the count, in the style of its queue type. -/
structure Traces (v : View) (spec : PanelSpec) (marks : List Mark) (line : Line) (s : Series) : Prop where
  own : s.line = line
  nonempty : s.points ≠ []
  points : StablySorted Point.x (pointsOn line marks) s.points
  style : v.styleFor line.queue (v.filter.emphasis line.queue spec.highlight) = .ok s.style

/-- The panel traces the lines of the marks on it, each once, and accounts for every group that it selects. -/
structure ShowsLines (v : View) (groups : List (Group Float)) (spec : PanelSpec) (panel : Panel) : Prop where
  content : panel.content = .lines panel.content.series
  traces : List.Forall₂ (v.Traces spec (v.marksOn spec groups)) (v.layeredLines spec groups) panel.content.series
  once : (panel.content.series.map Series.line).Nodup
  onTop : panel.content.series.Pairwise fun s t =>
    s.style.emphasis = .highlighted → t.style.emphasis = .highlighted
  dropped : panel.dropped = (groups.filter (spec.selects v.filter)).countP (spec.refuses v.sweep)
  marks : panel.marks.Perm (v.marksOn spec groups)
  total : (panel.content.series.map (·.points.length)).sum + panel.dropped +
    (groups.filter (spec.selects v.filter)).countP (spec.lacks v.sweep) = (groups.filter (spec.selects v.filter)).length

section Series

variable {drafts : List Draft}

theorem Drafted.layered (drafted : v.Drafted groups spec drafts) (kind : spec.kind = .lines) :
    List.Forall₂ (v.Draws spec (v.marksOn spec groups)) (v.layeredLines spec groups) drafts := by
  obtain ⟨drawn, draws, rfl⟩ := drafted.of_lines kind
  rw [sortLayers_eq_flatMap]
  refine List.rel_flatMap (List.forall₂_same.mpr fun _ _ => rfl) ?_
  rintro e _ rfl
  refine List.rel_filter (fun line d drawn => ?_) draws
  dsimp only
  rw [drawn.emphasis]

theorem mem_linesOn_of_layered {line : Line} (mem : line ∈ v.layeredLines spec groups) :
    line ∈ v.linesOn spec groups := by
  obtain ⟨e, -, kept⟩ := List.mem_flatMap.mp mem
  exact (List.mem_filter.mp kept).1

theorem Draws.traces {line : Line} {d : Draft} (draws : v.Draws spec (v.marksOn spec groups) line d)
    (listed : line ∈ v.linesOn spec groups) (tagged : List (List Draft)) :
    v.Traces spec (v.marksOn spec groups) line (Draft.finish tagged d) where
  own := draws.own
  nonempty := draws.points_ne_nil listed
  points := by
    change StablySorted Point.x _ d.points
    rw [draws.points]
    exact stablySorted_mergeSort Point.x _
  style := by
    rw [← draws.emphasis]
    exact draws.style

theorem Drafted.layers (drafted : v.Drafted groups spec drafts) :
    drafts.Pairwise fun d e => d.style.emphasis.layer ≤ e.style.emphasis.layer := by
  have styled : ∀ d ∈ drafts, d.style.emphasis = d.emphasis := fun d mem => (drafted.of_mem mem).2.2
  have layers : drafts.Pairwise fun d e => d.emphasis.layer ≤ e.emphasis.layer := by
    cases drafted with
    | lines => exact rising_mergeSort (fun d : Draft => d.emphasis.layer) _
    | bars => exact .nil
  refine layers.imp_of_mem fun hd he below => ?_
  rwa [styled _ hd, styled _ he]

theorem Drafted.onTop (drafted : v.Drafted groups spec drafts) :
    drafts.Pairwise fun d e => d.style.emphasis = .highlighted → e.style.emphasis = .highlighted :=
  drafted.layers.imp Emphasis.highlighted_of_layer_le

theorem length_marks (panel : Panel) :
    panel.marks.length = (panel.content.series.map (·.points.length)).sum := by
  rw [Panel.marks, List.length_flatMap]
  congr 1
  exact List.map_congr_left fun s _ => List.length_map _

theorem HoldsLines.showsLines {tagged : List (List Draft)} {panel : Panel}
    (holds : v.HoldsLines groups tagged spec panel) (kind : spec.kind = .lines) : v.ShowsLines groups spec panel := by
  obtain ⟨drafts, drafted, content⟩ := holds.content kind
  have series : panel.content.series = drafts.map (Draft.finish tagged) := by
    rw [content]
    rfl
  refine ⟨?_, ?_, ?_, ?_, holds.dropped kind, holds.marks kind, ?_⟩
  · rw [series, content]
  · rw [series, List.forall₂_map_right_iff]
    have listed := (List.forall₂_and_left _ _).mpr ⟨fun _ => mem_linesOn_of_layered, drafted.layered kind⟩
    exact listed.imp fun line d ⟨mem, draws⟩ => draws.traces mem tagged
  · rw [series, List.map_map]
    exact drafted.nodup_lines
  · rw [series]
    exact List.pairwise_map.mpr drafted.onTop
  · rw [← length_marks, (holds.marks kind).length_eq, holds.dropped kind]
    exact length_marks_add _

theorem ShowsLines.lines {panel : Panel} (shows : v.ShowsLines groups spec panel) :
    panel.content.series.map Series.line = v.layeredLines spec groups := by
  rw [← List.forall₂_eq_eq_eq, List.forall₂_map_left_iff]
  exact shows.traces.flip.imp fun s line traced => traced.own

/-- With a style for every queue type that is plotted a layout is rendered, and each of its panels of lines shows
exactly the lines of the groups that it selects. -/
theorem render_showsLines {layout : Layout} (valid : layout.validate = .ok ()) {groups : List (Group Float)}
    (covers : ∀ spec ∈ layout.panels, v.Covers groups spec) :
    ∃ figure, v.render layout groups = .ok figure ∧
      List.Forall₂ (fun spec panel => spec.kind = .lines → v.ShowsLines groups spec panel)
        layout.panels figure.panels := by
  obtain ⟨figure, rendered, -⟩ := render_yields_of_covers (Layout.validate_eq_ok_iff.mp valid) covers
  obtain ⟨_, -, holds⟩ := render_holdsLines rendered
  exact ⟨figure, rendered, holds.imp fun spec panel held => held.showsLines⟩

end Series

def spotlight : View :=
  ⟨{ styles := [("bbq", .ofSlot 0), ("lcrq", .ofSlot 1)] }, { highlight := ["bbq"] }, .threads, [2, 4]⟩

def timed (queue : String) (threads : Int) (throughput : Option Float) : Group Float where
  key := []
  queue := queue
  subfolder := none
  variant := none
  testId := none
  counts := ⟨some threads, none, none⟩
  records := 1
  metrics := ⟨throughput.map (⟨·, 1⟩), none, none, none, none, none⟩

/-- The highlighted queue type is met first, the other one has a zero, and there is a group without a value. -/
def spotlit : List (Group Float) :=
  [timed "bbq" 4 (some 3.5), timed "lcrq" 2 (some 0.0), timed "lcrq" 4 (some 1.5), timed "bbq" 2 (some 2.5),
    timed "lcrq" 8 none]

theorem render_showsLines_spotlight :
    ∃ figure panel, spotlight.render (Layout.single .throughput) spotlit = .ok figure ∧ figure.panels = [panel] ∧
      panel.content.series.map Series.line = [⟨"lcrq", none, none⟩, ⟨"bbq", none, none⟩] ∧ panel.dropped = 1 ∧
      (panel.content.series.map (·.points.length)).sum = 3 := by
  have styled : spotlight.Styled spotlit := styled_of_style? (by decide +kernel)
  obtain ⟨figure, rendered, shown⟩ := render_showsLines
    (show (Layout.single .throughput).validate = .ok () by decide) fun spec _ => styled.covers spec
  obtain ⟨panel, _, shows, others, panels⟩ := List.forall₂_cons_left_iff.mp shown
  obtain rfl := List.forall₂_nil_left_iff.mp others
  have shows := shows rfl
  refine ⟨figure, panel, rendered, panels, shows.lines.trans ?_, shows.dropped.trans ?_, ?_⟩
  · decide +kernel
  · decide +kernel
  · rw [← length_marks, shows.marks.length_eq]
    decide +kernel

end View

end SweepPlot
