import SweepPlot.Proofs.Aggregation.Selection
import SweepPlot.Proofs.Figure.Series
import SweepPlot.Proofs.Number.Nearest
set_option autoImplicit false

namespace SweepPlot

def mean? (values : List Float) : Option Float :=
  if values = [] then none else some (Aggregation.reduceValues .mean values)

def Record.line (r : Record Float) : Line := ⟨r.queue, r.subfolder, r.variant⟩

def Dataset.recordsAt (d : Dataset) (sweep : Sweep) (line : Line) (x : Int) : Dataset :=
  d.filter fun r => decide (r.line = line ∧ r.count sweep = some x)

/-- The counts are small enough for doubles to tell them apart. -/
def Dataset.ExactCounts (d : Dataset) (sweep : Sweep) : Prop :=
  ∀ r ∈ d, ∀ x, r.count sweep = some x → x.natAbs ≤ 2 ^ 53

namespace PanelSpec

def takes (spec : PanelSpec) (filter : Filter) (line : Line) : Bool :=
  filter.admits line.queue && spec.selection.admits line.queue &&
    allows spec.variant line.variant && allows spec.subfolder line.subfolder

/-- What the panel has to show of a line at a count: the mean of the records there, if its scale accepts it. -/
def value? (spec : PanelSpec) (d : Dataset) (sweep : Sweep) (line : Line) (x : Int) : Option Float :=
  (mean? (Aggregation.carried spec.metric (d.recordsAt sweep line x))).filter spec.scale.accepts

end PanelSpec

namespace View

/-- The panel has the lines that it takes and has anything to show of, each once. A line has one point at each count
with something to show, in strictly rising order. -/
structure ShowsSweep (v : View) (d : Dataset) (spec : PanelSpec) (panel : Panel) : Prop where
  climbs : ∀ s ∈ panel.content.series, s.points.Pairwise fun p q => p.x < q.x
  points : ∀ s ∈ panel.content.series, ∀ x y,
    ⟨x, y⟩ ∈ s.points ↔ spec.value? d v.sweep s.line x = some y
  lines : ∀ line, line ∈ panel.content.series.map Series.line ↔
    spec.takes v.filter line = true ∧ ∃ x y, spec.value? d v.sweep line x = some y
  once : (panel.content.series.map Series.line).Nodup

end View

section Key

theorem KeyValue.ofText_inj {s t : Option String} : KeyValue.ofText s = .ofText t ↔ s = t := by
  cases s <;> cases t <;> simp [ofText]

variable {sweep : Sweep} {r s : Record Float}

theorem KeyField.valueOf_count_eq_iff :
    (KeyField.count sweep).valueOf r = (KeyField.count sweep).valueOf s ↔ r.count sweep = s.count sweep := by
  cases hr : r.count sweep <;> cases hs : s.count sweep <;> simp [valueOf, hr, hs]

theorem Aggregation.keyOf_forChart_eq_iff : (forChart sweep false).keyOf r = (forChart sweep false).keyOf s ↔
    r.count sweep = s.count sweep ∧ r.line = s.line := by
  have fields : (forChart sweep false).keyOf r = (forChart sweep false).keyOf s ↔
      (KeyField.count sweep).valueOf r = (KeyField.count sweep).valueOf s ∧ KeyValue.text r.queue = .text s.queue ∧
        KeyValue.ofText r.subfolder = .ofText s.subfolder ∧ KeyValue.ofText r.variant = .ofText s.variant := by
    simp [keyOf, forChart, KeyField.valueOf]
  rw [fields, KeyField.valueOf_count_eq_iff, KeyValue.ofText_inj, KeyValue.ofText_inj, KeyValue.text.injEq, Record.line,
    Record.line, Line.mk.injEq]

end Key

namespace Aggregation

variable {sweep : Sweep} {d : Dataset} {g h : Group Float} {line : Line} {x : Int}

theorem members_forChart (mem : g ∈ (forChart sweep false).groups d) (count : g.count sweep = some x) :
    (forChart sweep false).members d g.key = d.recordsAt sweep g.line x := by
  refine List.filter_congr fun r _ => decide_eq_decide.mpr ?_
  rw [← keyOf_toRecord mem, keyOf_forChart_eq_iff, and_comm, ← count]
  rfl

theorem key_eq_of_line_of_count (hg : g ∈ (forChart sweep false).groups d) (hh : h ∈ (forChart sweep false).groups d)
    (line : g.line = h.line) (count : g.count sweep = h.count sweep) : g.key = h.key := by
  rw [← keyOf_toRecord hg, ← keyOf_toRecord hh, keyOf_forChart_eq_iff]
  exact ⟨count, line⟩

theorem exists_group_of_recordsAt (given : d.recordsAt sweep line x ≠ []) :
    ∃ g ∈ (forChart sweep false).groups d, g.line = line ∧ g.count sweep = some x := by
  obtain ⟨r, here⟩ := List.exists_mem_of_ne_nil _ given
  obtain ⟨mem, placed⟩ := List.mem_filter.mp here
  obtain ⟨own, count⟩ := of_decide_eq_true placed
  obtain ⟨g, hg, key⟩ := exists_group_of_mem (forChart sweep false) mem
  rw [← keyOf_toRecord hg, keyOf_forChart_eq_iff] at key
  exact ⟨g, hg, key.2.trans own, key.1.trans count⟩

theorem metric_forChart (mem : g ∈ (forChart sweep false).groups d) (m : Metric) :
    g.metric m = mean? (carried m ((forChart sweep false).members d g.key)) := by
  have entry := get_metrics_of_mem_groups (forChart_once sweep false) mem (Metric.mem_all m)
  rw [Group.metric, entry, mean?]
  split <;> rfl

/-- The group on a line with a count has the mean of the records there. -/
theorem exists_group_iff {m : Metric} {y : Float} :
    (∃ g ∈ (forChart sweep false).groups d, g.line = line ∧ g.count sweep = some x ∧ g.metric m = some y) ↔
      mean? (carried m (d.recordsAt sweep line x)) = some y := by
  constructor
  · rintro ⟨g, mem, rfl, count, value⟩
    rw [← members_forChart mem count, ← metric_forChart mem, value]
  · intro value
    have given : d.recordsAt sweep line x ≠ [] := by
      intro none
      rw [none] at value
      cases value
    obtain ⟨g, mem, rfl, count⟩ := exists_group_of_recordsAt given
    rw [← members_forChart mem count, ← metric_forChart mem] at value
    exact ⟨g, mem, rfl, count, value⟩

theorem exists_record_of_count (mem : g ∈ (forChart sweep false).groups d) (count : g.count sweep = some x) :
    ∃ r ∈ d, r.count sweep = some x := by
  obtain ⟨r, here, -, -, -, -, -, counts⟩ := origin_of_mem_groups (forChart_once sweep false) mem
  refine ⟨r, here, ?_⟩
  rw [Record.count, ← counts]
  exact count

end Aggregation

theorem PanelSpec.mark?_eq_some_iff {spec : PanelSpec} {sweep : Sweep} {g : Group Float} {line : Line} {x : Int}
    {y : Float} : spec.mark? sweep g = some (line, ⟨x, y⟩) ↔ g.line = line ∧
      (∃ n, g.count sweep = some n ∧ Number.nearestWhole n = x) ∧ g.metric spec.metric = some y ∧
        spec.scale.accepts y = true := by
  unfold mark? Group.mark?
  cases count : g.count sweep with
  | none => simp
  | some n =>
    cases value : g.metric spec.metric with
    | none => simp
    | some w =>
      by_cases accepted : spec.scale.accepts w = true
      · simp only [accepted, if_true, Option.some.injEq, Prod.mk.injEq, Point.mk.injEq]
        constructor
        · rintro ⟨own, place, rfl⟩
          exact ⟨own, ⟨n, rfl, place⟩, rfl, accepted⟩
        · rintro ⟨own, ⟨_, rfl, place⟩, rfl, -⟩
          exact ⟨own, place, rfl⟩
      · simp only [accepted]
        constructor
        · intro made
          cases made
        · rintro ⟨-, -, same, yes⟩
          cases same
          exact absurd yes accepted

namespace View

variable {v : View} {spec : PanelSpec} {d : Dataset} {line : Line} {x : Int} {y : Float}

section Marks

theorem nearestWhole_count (small : d.ExactCounts v.sweep) {g : Group Float}
    (mem : g ∈ (Aggregation.forChart v.sweep false).groups d) (count : g.count v.sweep = some x) :
    Number.nearestWhole x = x := by
  obtain ⟨r, here, own⟩ := Aggregation.exists_record_of_count mem count
  exact Number.nearestWhole_of_natAbs_le (small r here x own)

theorem mem_marksOn_iff (small : d.ExactCounts v.sweep) :
    (line, ⟨x, y⟩) ∈ v.marksOn spec ((Aggregation.forChart v.sweep false).groups d) ↔
      spec.takes v.filter line = true ∧ spec.value? d v.sweep line x = some y := by
  rw [PanelSpec.value?, Option.filter_eq_some_iff, ← Aggregation.exists_group_iff]
  constructor
  · intro marked
    obtain ⟨g, selected, made⟩ := List.mem_filterMap.mp marked
    obtain ⟨mem, taken⟩ := List.mem_filter.mp selected
    obtain ⟨rfl, ⟨n, count, rfl⟩, value, accepted⟩ := PanelSpec.mark?_eq_some_iff.mp made
    rw [nearestWhole_count small mem count]
    exact ⟨taken, ⟨g, mem, rfl, count, value⟩, accepted⟩
  · rintro ⟨taken, ⟨g, mem, rfl, count, value⟩, accepted⟩
    refine List.mem_filterMap.mpr ⟨g, List.mem_filter.mpr ⟨mem, taken⟩, PanelSpec.mark?_eq_some_iff.mpr ?_⟩
    exact ⟨rfl, ⟨x, count, nearestWhole_count small mem count⟩, value, accepted⟩

theorem marksOn_apart (small : d.ExactCounts v.sweep) :
    (v.marksOn spec ((Aggregation.forChart v.sweep false).groups d)).Pairwise fun m n =>
      m.1 = n.1 → m.2.x ≠ n.2.x := by
  have keys := (Aggregation.forChart v.sweep false).nodup_keys d
  rw [marksOn, marks, List.pairwise_filterMap]
  refine ((List.pairwise_map.mp keys).filter _).imp_of_mem ?_
  rintro g h hg hh apart ⟨_, ⟨x, y⟩⟩ made ⟨_, ⟨x', y'⟩⟩ made' same tied
  obtain ⟨own, ⟨n, count, rfl⟩, -⟩ := PanelSpec.mark?_eq_some_iff.mp made
  obtain ⟨own', ⟨n', count', rfl⟩, -⟩ := PanelSpec.mark?_eq_some_iff.mp made'
  have hg := (List.mem_filter.mp hg).1
  have hh := (List.mem_filter.mp hh).1
  have counts : n = n' := by
    rw [← nearestWhole_count small hg count, ← nearestWhole_count small hh count']
    exact tied
  refine apart (Aggregation.key_eq_of_line_of_count hg hh ?_ ?_)
  · rw [own, own']
    exact same
  · rw [count, count', counts]

theorem pointsOn_apart (small : d.ExactCounts v.sweep) (line : Line) :
    (pointsOn line (v.marksOn spec ((Aggregation.forChart v.sweep false).groups d))).Pairwise fun p q => p.x ≠ q.x := by
  rw [pointsOn, List.pairwise_map]
  refine ((marksOn_apart small).filter _).imp_of_mem fun {m n} hm hn apart => apart ?_
  have own : m.1 = line := by simpa using (List.mem_filter.mp hm).2
  have own' : n.1 = line := by simpa using (List.mem_filter.mp hn).2
  exact own.trans own'.symm

end Marks

section Panels

theorem mem_layeredLines {groups : List (Group Float)} :
    line ∈ v.layeredLines spec groups ↔ line ∈ v.linesOn spec groups := by
  refine ⟨mem_linesOn_of_layered, fun mem => List.mem_flatMap.mpr ?_⟩
  exact ⟨_, Emphasis.mem_rising _, List.mem_filter.mpr ⟨mem, decide_eq_true rfl⟩⟩

theorem mem_linesOn_iff (small : d.ExactCounts v.sweep) :
    line ∈ v.linesOn spec ((Aggregation.forChart v.sweep false).groups d) ↔
      spec.takes v.filter line = true ∧ ∃ x y, spec.value? d v.sweep line x = some y := by
  rw [linesOn, mem_distinct, List.mem_map]
  constructor
  · rintro ⟨⟨_, ⟨x, y⟩⟩, marked, rfl⟩
    obtain ⟨taken, value⟩ := (mem_marksOn_iff small).mp marked
    exact ⟨taken, x, y, value⟩
  · rintro ⟨taken, x, y, value⟩
    exact ⟨_, (mem_marksOn_iff small).mpr ⟨taken, value⟩, rfl⟩

theorem ShowsLines.showsSweep {panel : Panel} (small : d.ExactCounts v.sweep)
    (shows : v.ShowsLines ((Aggregation.forChart v.sweep false).groups d) spec panel) :
    v.ShowsSweep d spec panel := by
  have traced : ∀ s ∈ panel.content.series,
      s.line ∈ v.layeredLines spec ((Aggregation.forChart v.sweep false).groups d) ∧
        v.Traces spec (v.marksOn spec ((Aggregation.forChart v.sweep false).groups d)) s.line s := by
    intro s mem
    obtain ⟨line, listed, traces⟩ := exists_mem_of_forall₂ shows.traces mem
    rw [traces.own]
    exact ⟨listed, traces⟩
  refine ⟨fun s mem => ?_, fun s mem x y => ?_, fun line => ?_, shows.once⟩
  · obtain ⟨-, traces⟩ := traced s mem
    have apart := (traces.points.perm.pairwise_iff fun differ => differ.symm).mpr (pointsOn_apart small s.line)
    exact traces.points.rising.imp₂ (fun p q below differ => lt_of_le_of_ne below differ) apart
  · obtain ⟨listed, traces⟩ := traced s mem
    have taken := ((mem_linesOn_iff small).mp (mem_linesOn_of_layered listed)).1
    rw [traces.points.perm.mem_iff, mem_pointsOn, mem_marksOn_iff small, and_iff_right taken]
  · rw [shows.lines, mem_layeredLines, mem_linesOn_iff small]

end Panels

/-- Rendering the groups of a chart gives lines that rise strictly in the count. A layout that can be drawn is rendered
if every queue type that is plotted has a style; a panel of lines then has, of each line that it takes, one point at
every count where the mean of the records there can be shown, and no other points. -/
theorem render_showsSweep (small : d.ExactCounts v.sweep) (layout : Layout)
    (covers : ∀ spec ∈ layout.panels, v.Covers ((Aggregation.forChart v.sweep false).groups d) spec) :
    (∀ fault, layout.validate = .error fault →
      v.render layout ((Aggregation.forChart v.sweep false).groups d) = .error (.misconfigured (.layout fault))) ∧
    (layout.validate = .ok () →
      ∃ figure, v.render layout ((Aggregation.forChart v.sweep false).groups d) = .ok figure ∧
        List.Forall₂ (fun spec panel => spec.kind = .lines → v.ShowsSweep d spec panel)
          layout.panels figure.panels) := by
  constructor
  · exact fun fault invalid => render_of_invalid invalid
  · intro valid
    obtain ⟨figure, rendered, -⟩ := render_yields_of_covers (Layout.validate_eq_ok_iff.mp valid) covers
    obtain ⟨_, -, holds⟩ := render_holdsLines rendered
    exact ⟨figure, rendered, holds.imp fun spec panel held kind => (held.showsLines kind).showsSweep small⟩

/-- Two trials at the higher count, which is met first, one at the lower count and one without a count. -/
def trials : Dataset :=
  let timed : Option Int → Float → Record Float := fun threads throughput =>
    { queue := "bbq", counts := ⟨threads, none, none⟩, metrics := ⟨some throughput, none, none, none, none, none⟩ }
  [timed (some 4) 1.0, timed (some 2) 3.0, timed (some 4) 2.0, timed none 9.0]

theorem render_showsSweep_trials :
    ∃ figure panel, spotlight.render (Layout.single .throughput) ((Aggregation.forChart .threads false).groups trials) =
        .ok figure ∧ figure.panels = [panel] ∧ ⟨"bbq", none, none⟩ ∈ panel.content.series.map Series.line ∧
      ∀ s ∈ panel.content.series, s.line = ⟨"bbq", none, none⟩ →
        (s.points.Pairwise fun p q => p.x < q.x) ∧ ⟨2, 3.0⟩ ∈ s.points ∧ ⟨4, 1.5⟩ ∈ s.points := by
  have small : trials.ExactCounts .threads := by
    intro r mem x count
    simp only [trials, List.mem_cons, List.not_mem_nil, or_false] at mem
    obtain rfl | rfl | rfl | rfl := mem <;> cases count <;> decide
  have styled : spotlight.Styled ((Aggregation.forChart .threads false).groups trials) :=
    styled_of_style? (by decide +kernel)
  have placed : (Layout.single .throughput).validate = .ok () := by decide
  obtain ⟨figure, rendered, shown⟩ := (render_showsSweep (v := spotlight) small (Layout.single .throughput)
    fun spec _ => styled.covers spec).2 placed
  obtain ⟨panel, _, shows, others, panels⟩ := List.forall₂_cons_left_iff.mp shown
  obtain rfl := List.forall₂_nil_left_iff.mp others
  have shows := shows rfl
  refine ⟨figure, panel, rendered, panels, (shows.lines _).mpr ⟨by decide, 2, 3.0, by decide +kernel⟩,
    fun s mem own => ⟨shows.climbs s mem, (shows.points s mem 2 3.0).mpr ?_, (shows.points s mem 4 1.5).mpr ?_⟩⟩
  · rw [own]
    decide +kernel
  · rw [own]
    decide +kernel

end View

end SweepPlot
