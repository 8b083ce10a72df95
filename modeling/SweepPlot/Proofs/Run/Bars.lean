import Mathlib
import SweepPlot.Proofs.Figure.Bars
import SweepPlot.Proofs.Merge.Tags
import SweepPlot.Proofs.Run.Answer
set_option autoImplicit false

namespace SweepPlot

section Counting

variable {α β : Type}

theorem sum_map_ite_eq_countP (p : α → Bool) (as : List α) :
    (as.map fun a => if p a then 1 else 0).sum = as.countP p := by
  induction as with
  | nil => rfl
  | cons a as ih =>
    rw [List.map_cons, List.sum_cons, ih, List.countP_cons, Nat.add_comm]

/-- Things that are each owned once are counted once by their owners together. -/
theorem sum_countP_of_owned {owners : List α} {things : List β} {owns : α → β → Bool}
    (once : ∀ thing ∈ things, owners.countP (owns · thing) = 1) (p : β → Bool) :
    (owners.map fun owner => things.countP fun thing => p thing && owns owner thing).sum = things.countP p := by
  induction things with
  | nil => simp
  | cons thing things ih =>
    obtain ⟨own, others⟩ := List.forall_mem_cons.mp once
    have head : (owners.map fun owner => if (p thing && owns owner thing) = true then 1 else 0).sum =
        if p thing then 1 else 0 := by
      rw [sum_map_ite_eq_countP]
      cases p thing with
      | false => simp
      | true => simpa using own
    simp only [List.countP_cons, List.sum_map_add]
    rw [ih others, head]

end Counting

namespace DatasetTag

def ofGroup (tag : DatasetTag) (g : Group Float) : Option String :=
  match tag with
  | subfolder => g.subfolder
  | variant => g.variant

def keyField : DatasetTag → KeyField
  | subfolder => .subfolder
  | variant => .variant

end DatasetTag

namespace Request

variable {r : Request} {fs : FileSystem} {d : Dataset} {groups : List (Group Float)} {figure : Figure}

section Statement

def barMetric (r : Request) : Metric :=
  match r.layout with
  | .peakMemory => .memory
  | _ => .milliseconds

/-- The panel of that title is the one of the group's own subfolder or variant, where these have panels. -/
def isOwnPanel (r : Request) (title : Option String) (g : Group Float) : Bool :=
  match r.layout, r.mode with
  | .bfs, .subfolder => title == g.subfolder
  | .bfs, .variant => title == g.variant
  | _, _ => true

def isAdmitted (r : Request) (g : Group Float) : Bool :=
  r.filter.admits g.queue

/-- Every group has one panel, and each panel has one bar for each of its groups that are admitted and have a
value that its scale accepts. -/
structure DrawsOnce (r : Request) (groups : List (Group Float)) (figure : Figure) : Prop where
  kinds : ∀ panel ∈ figure.panels, ∃ bars, panel.content = .bars bars
  own : ∀ g ∈ groups, figure.panels.countP (fun panel => r.isOwnPanel panel.title g) = 1
  bars : ∀ panel ∈ figure.panels, (panel.content.barList.map Bar.reading).Perm
    ((groups.filter fun g => r.isAdmitted g && r.isOwnPanel panel.title g).filterMap fun g =>
      ((g.metric r.barMetric).filter panel.scale.accepts).map fun value => (g.queue, value))
  queues : ∀ panel ∈ figure.panels, (panel.content.barList.map (·.queue)).Nodup
  total : (figure.panels.map fun panel => panel.content.barList.length + panel.dropped).sum =
    groups.countP fun g => r.isAdmitted g && (g.metric r.barMetric).isSome

end Statement

section Panels

structure BarSpec (r : Request) (spec : PanelSpec) : Prop where
  kind : spec.kind = .bars
  metric : spec.metric = r.barMetric
  selects : ∀ g, spec.selects r.filter g = (r.isAdmitted g && r.isOwnPanel spec.title g)

/-- One panel for all groups, which have a key for each queue type. -/
structure Undivided (r : Request) (d : Dataset) : Prop where
  unshared : (r.figureLayout d).shareY = false
  panel : ∃ spec, (r.figureLayout d).panels = [spec] ∧ r.BarSpec spec
  own : ∀ title g, r.isOwnPanel title g = true
  key : ∀ g ∈ r.aggregation.groups d, ∀ h ∈ r.aggregation.groups d, g.queue = h.queue → g.key = h.key

/-- One panel for each tag, and groups which have a key for each tag and queue type. -/
structure Divided (r : Request) (d : Dataset) (tag : DatasetTag) (names : List String) : Prop where
  layout : r.figureLayout d = .bfs names tag
  given : names ≠ []
  once : names.Nodup
  metric : r.barMetric = .milliseconds
  own : ∀ title g, r.isOwnPanel title g = (title == tag.ofGroup g)
  known : ∀ g ∈ r.aggregation.groups d, ∃ name ∈ names, tag.ofGroup g = some name
  key : ∀ g ∈ r.aggregation.groups d, ∀ h ∈ r.aggregation.groups d,
    tag.ofGroup g = tag.ofGroup h → g.queue = h.queue → g.key = h.key

theorem Divided.panels {tag : DatasetTag} {names : List String} (divided : r.Divided d tag names) :
    (r.figureLayout d).panels = names.zipIdx.map fun entry => Layout.taggedBars tag entry.1 entry.2 := by
  rw [divided.layout]
  have given : names.isEmpty = false := by simpa using divided.given
  simp only [Layout.bfs, given]
  rfl

theorem Divided.barSpec {tag : DatasetTag} {names : List String} (divided : r.Divided d tag names) :
    ∀ spec ∈ (r.figureLayout d).panels, r.BarSpec spec := by
  intro spec mem
  rw [divided.panels] at mem
  obtain ⟨⟨name, col⟩, -, rfl⟩ := List.mem_map.mp mem
  cases tag with
  | subfolder | variant =>
    refine ⟨rfl, divided.metric.symm, fun g => ?_⟩
    rw [divided.own, isAdmitted, PanelSpec.selects]
    simp [Layout.taggedBars, Layout.timeBars, Selection.admits, PanelSpec.allows, DatasetTag.ofGroup, BEq.comm]

theorem Divided.countP_own {tag : DatasetTag} {names : List String} (divided : r.Divided d tag names)
    {g : Group Float} (hg : g ∈ r.aggregation.groups d) :
    ((r.figureLayout d).panels.map (·.title)).countP (r.isOwnPanel · g) = 1 := by
  obtain ⟨name, mem, same⟩ := divided.known g hg
  have titles : (r.figureLayout d).panels.map (·.title) = names.map some := by
    rw [divided.panels, List.map_map]
    conv_rhs => rw [← List.zipIdx_map_fst 0 names, List.map_map]
    refine List.map_congr_left fun entry _ => ?_
    cases tag <;> rfl
  rw [titles, show (r.isOwnPanel · g) = (· == some name) from funext fun title => by rw [divided.own, same]]
  exact List.count_eq_one_of_mem (divided.once.map (Option.some_injective String)) (List.mem_map_of_mem mem)

theorem key_of_queue (keys : r.aggregation.keys = [.queueType]) :
    ∀ g ∈ r.aggregation.groups d, ∀ h ∈ r.aggregation.groups d, g.queue = h.queue → g.key = h.key := by
  intro g hg h hh same
  obtain ⟨a, -, keyG, queueG, -⟩ := Aggregation.origin_of_mem_groups r.aggregation_once hg
  obtain ⟨b, -, keyH, queueH, -⟩ := Aggregation.origin_of_mem_groups r.aggregation_once hh
  rw [keyG, keyH, Aggregation.keyOf, Aggregation.keyOf, keys]
  simp [KeyField.valueOf, ← queueG, ← queueH, same]

theorem key_of_tag {tag : DatasetTag} (keys : r.aggregation.keys = [tag.keyField, .queueType]) :
    ∀ g ∈ r.aggregation.groups d, ∀ h ∈ r.aggregation.groups d,
      tag.ofGroup g = tag.ofGroup h → g.queue = h.queue → g.key = h.key := by
  intro g hg h hh sameTag sameQueue
  obtain ⟨a, -, keyG, queueG, subfolderG, variantG, -⟩ := Aggregation.origin_of_mem_groups r.aggregation_once hg
  obtain ⟨b, -, keyH, queueH, subfolderH, variantH, -⟩ := Aggregation.origin_of_mem_groups r.aggregation_once hh
  rw [keyG, keyH, Aggregation.keyOf, Aggregation.keyOf, keys]
  cases tag with
  | subfolder => simp_all [KeyField.valueOf, DatasetTag.keyField, DatasetTag.ofGroup]
  | variant => simp_all [KeyField.valueOf, DatasetTag.keyField, DatasetTag.ofGroup]

theorem subfolders_of_tagged (tagged : r.Tagged d) (mode : r.mode = .subfolder) : d.subfolders ≠ [] ∧
    ∀ record ∈ d, ∃ name ∈ d.subfolders, record.subfolder = some name := by
  have listed : ∀ record ∈ d, ∃ name ∈ d.subfolders, record.subfolder = some name := by
    intro record mem
    obtain ⟨name, same⟩ := tagged.subfolder mode record mem
    exact ⟨name, mem_distinct.mpr (List.mem_filterMap.mpr ⟨record, mem, same⟩), same⟩
  obtain ⟨record, mem⟩ := List.exists_mem_of_ne_nil d tagged.given
  obtain ⟨name, present, -⟩ := listed record mem
  exact ⟨List.ne_nil_of_mem present, listed⟩

theorem undivided_of_flat (layout : r.layout = .bfs) (mode : r.mode = .flat) : r.Undivided d := by
  refine ⟨?_, ⟨Layout.timeBars 0, ?_, rfl, ?_, fun g => ?_⟩, fun title g => ?_, key_of_queue ?_⟩
  · simp only [figureLayout, layout, mode]
    rfl
  · simp only [figureLayout, layout, mode]
    rfl
  · simp only [barMetric, layout]
    rfl
  · simp [PanelSpec.selects, Layout.timeBars, Selection.admits, PanelSpec.allows, isAdmitted, isOwnPanel,
      layout, mode]
  · simp only [isOwnPanel, layout, mode]
  · simp only [aggregation, layout, mode]
    rfl

theorem undivided_of_peakMemory (layout : r.layout = .peakMemory) : r.Undivided d := by
  refine ⟨?_, ⟨{ metric := .memory, row := 0, col := 0, kind := .bars }, ?_, rfl, ?_, fun g => ?_⟩,
    fun title g => ?_, key_of_queue ?_⟩
  · simp only [figureLayout, layout]
    rfl
  · simp only [figureLayout, layout]
    rfl
  · simp only [barMetric, layout]
  · simp [PanelSpec.selects, Selection.admits, PanelSpec.allows, isAdmitted, isOwnPanel, layout]
  · simp only [isOwnPanel, layout]
  · simp only [aggregation, layout]
    rfl

theorem divided_by_subfolder (tagged : r.Tagged d) (layout : r.layout = .bfs) (mode : r.mode = .subfolder) :
    r.Divided d .subfolder d.subfolders := by
  obtain ⟨given, listed⟩ := subfolders_of_tagged tagged mode
  refine ⟨?_, given, nodup_distinct _, ?_, fun title g => ?_, fun g hg => ?_, key_of_tag ?_⟩
  · simp only [figureLayout, layout, mode]
  · simp only [barMetric, layout]
  · simp only [isOwnPanel, layout, mode, DatasetTag.ofGroup]
  · obtain ⟨record, mem, -, -, subfolder, -⟩ := Aggregation.origin_of_mem_groups r.aggregation_once hg
    obtain ⟨name, present, same⟩ := listed record mem
    exact ⟨name, present, subfolder.trans same⟩
  · simp only [aggregation, layout, mode]
    rfl

theorem divided_by_variant (sound : r.Sound) (tagged : r.Tagged d) (layout : r.layout = .bfs)
    (mode : r.mode = .variant) : r.Divided d .variant r.variants := by
  obtain ⟨record, mem⟩ := List.exists_mem_of_ne_nil d tagged.given
  obtain ⟨label, present, -⟩ := tagged.variant mode record mem
  refine ⟨?_, List.ne_nil_of_mem present, (sound.labels mode).2, ?_, fun title g => ?_, fun g hg => ?_,
    key_of_tag ?_⟩
  · simp only [figureLayout, layout, mode]
  · simp only [barMetric, layout]
  · simp only [isOwnPanel, layout, mode, DatasetTag.ofGroup]
  · obtain ⟨record, mem, -, -, -, variant, -⟩ := Aggregation.origin_of_mem_groups r.aggregation_once hg
    obtain ⟨name, present, same⟩ := tagged.variant mode record mem
    exact ⟨name, present, variant.trans same⟩
  · simp only [aggregation, layout, mode]
    rfl

theorem divided_or_undivided (sound : r.Sound) (tagged : r.Tagged d)
    (layout : r.layout = .bfs ∨ r.layout = .peakMemory) :
    (∃ tag names, r.Divided d tag names) ∨ r.Undivided d := by
  obtain layout | layout := layout
  · cases mode : r.mode with
    | flat => exact .inr (undivided_of_flat layout mode)
    | subfolder => exact .inl ⟨_, _, divided_by_subfolder tagged layout mode⟩
    | variant => exact .inl ⟨_, _, divided_by_variant sound tagged layout mode⟩
  · exact .inr (undivided_of_peakMemory layout)

/-- Panels of bars, of which each group has one, on which no other group has its queue type. -/
structure Fits (r : Request) (d : Dataset) : Prop where
  unshared : (r.figureLayout d).shareY = false
  specs : ∀ spec ∈ (r.figureLayout d).panels, r.BarSpec spec
  own : ∀ g ∈ r.aggregation.groups d, ((r.figureLayout d).panels.map (·.title)).countP (r.isOwnPanel · g) = 1
  alone : ∀ g ∈ r.aggregation.groups d, ∀ h ∈ r.aggregation.groups d, ∀ title,
    r.isOwnPanel title g = true → r.isOwnPanel title h = true → g.queue = h.queue → g = h

theorem eq_of_key {g h : Group Float} (hg : g ∈ r.aggregation.groups d) (hh : h ∈ r.aggregation.groups d)
    (same : g.key = h.key) : g = h :=
  List.inj_on_of_nodup_map (r.aggregation.nodup_keys d) hg hh same

theorem fits_of_tagged (sound : r.Sound) (tagged : r.Tagged d) (layout : r.layout = .bfs ∨ r.layout = .peakMemory) :
    r.Fits d := by
  obtain ⟨tag, names, divided⟩ | undivided := divided_or_undivided sound tagged layout
  · refine ⟨by rw [divided.layout]; rfl, divided.barSpec, fun g hg => divided.countP_own hg, ?_⟩
    intro g hg h hh title ownG ownH queue
    rw [divided.own, beq_iff_eq] at ownG ownH
    exact eq_of_key hg hh (divided.key g hg h hh (ownG.symm.trans ownH) queue)
  · obtain ⟨spec, panels, bars⟩ := undivided.panel
    refine ⟨undivided.unshared, ?_, fun g _ => ?_, ?_⟩
    · rw [panels]
      simpa using bars
    · rw [panels]
      simp [undivided.own]
    · exact fun g hg h hh _ _ _ queue => eq_of_key hg hh (undivided.key g hg h hh queue)

end Panels

theorem Fits.drawsOnce (fits : r.Fits d)
    (holds : List.Forall₂ ((r.view d).HoldsBars (r.aggregation.groups d)) (r.figureLayout d).panels figure.panels) :
    r.DrawsOnce (r.aggregation.groups d) figure := by
  have each : ∀ panel ∈ figure.panels, ∃ spec, r.BarSpec spec ∧
      (r.view d).HoldsBars (r.aggregation.groups d) spec panel := by
    intro panel mem
    obtain ⟨spec, present, held⟩ := exists_mem_of_forall₂ holds mem
    exact ⟨spec, fits.specs spec present, held⟩
  have own : ∀ g ∈ r.aggregation.groups d, figure.panels.countP (fun panel => r.isOwnPanel panel.title g) = 1 := by
    intro g hg
    have once := fits.own g hg
    rw [← View.titles_of_holdsBars holds, List.countP_map] at once
    exact once
  have selected : ∀ {spec panel}, r.BarSpec spec → (r.view d).HoldsBars (r.aggregation.groups d) spec panel →
      (r.aggregation.groups d).filter (spec.selects (r.view d).filter) =
        (r.aggregation.groups d).filter fun g => r.isAdmitted g && r.isOwnPanel panel.title g := by
    intro spec panel bars held
    rw [held.title]
    exact List.filter_congr fun g _ => bars.selects g
  refine ⟨fun panel mem => ?_, own, fun panel mem => ?_, fun panel mem => ?_, ?_⟩
  · obtain ⟨spec, bars, held⟩ := each panel mem
    exact held.kind
  · obtain ⟨spec, bars, held⟩ := each panel mem
    have drawn := held.bars
    rw [selected bars held, View.readings] at drawn
    simp only [PanelSpec.shown?, bars.metric, ← held.scale] at drawn
    exact drawn
  · obtain ⟨spec, bars, held⟩ := each panel mem
    have queues := held.bars.map Prod.fst
    rw [List.map_map, selected bars held] at queues
    refine queues.nodup_iff.mpr (List.Sublist.nodup (View.readings_queues_sublist _) ?_)
    refine List.Nodup.map_on (fun g hg h hh same => ?_) ((r.aggregation.nodup_keys d).of_map.filter _)
    obtain ⟨hg, ownG⟩ := List.mem_filter.mp hg
    obtain ⟨hh, ownH⟩ := List.mem_filter.mp hh
    rw [Bool.and_eq_true] at ownG ownH
    exact fits.alone g hg h hh panel.title ownG.2 ownH.2 same
  · rw [← sum_countP_of_owned own]
    refine congrArg List.sum (List.map_congr_left fun panel mem => ?_)
    obtain ⟨spec, bars, held⟩ := each panel mem
    have drawn := held.bars.length_eq
    rw [List.length_map, selected bars held] at drawn
    rw [drawn, held.dropped, selected bars held, View.length_readings_add_drops, bars.metric, List.countP_filter]
    refine List.countP_congr fun g _ => ?_
    simp only [Bool.and_eq_true]
    tauto

/-- In a bar figure from loaded results every group has one panel, that of its own subfolder or variant. There
it has one bar if it is admitted and the scale of the panel accepts its value, and is counted as dropped if only
the scale refuses it. -/
theorem figure_drawsOnce (r : Request) (fs : FileSystem) (report : MergeReport) (figure : Figure)
    (groups : List (Group Float)) (accepted : r.accept = .ok ())
    (layout : r.layout = .bfs ∨ r.layout = .peakMemory) (loaded : r.loadResults fs = .ok report)
    (drawn : r.figure report.records = .ok (figure, groups)) :
    groups = r.aggregation.groups report.records ∧ r.DrawsOnce groups figure := by
  have fits := fits_of_tagged (sound_of_accept accepted) (loadResults_tagged loaded) layout
  unfold Request.figure at drawn
  obtain ⟨_, -, drawn⟩ := bind_eq_ok.mp drawn
  obtain ⟨rendered, renders, checked⟩ := bind_eq_ok.mp drawn
  split at checked
  · cases checked
  cases checked
  have kinds : ∀ spec ∈ (r.figureLayout report.records).panels, spec.kind = .bars :=
    fun spec mem => (fits.specs spec mem).kind
  exact ⟨rfl, fits.drawsOnce (View.render_holdsBars fits.unshared kinds renders)⟩

def timing : Request where
  roots := ["base", "tuned"]
  variants := ["50", "500"]
  layout := .bfs
  mode := .variant

def timings : FileSystem where
  root := .dir
    [("base", .dir [("road", .dir [("a.csv", .file (Bytes.ofText "Queuetype,Milliseconds\nA,4\n"))])]),
     ("tuned", .dir [("road", .dir [("a.csv", .file (Bytes.ofText "Queuetype,Milliseconds\nA,2.5\n"))])])]

theorem figure_drawsOnce_timing : ∃ report figure groups, timing.accept = .ok () ∧
    timing.loadResults timings = .ok report ∧ timing.figure report.records = .ok (figure, groups) ∧
    timing.DrawsOnce groups figure := by
  have accepted : timing.accept = .ok () := by rfl
  have answers : ((timing.loadResults timings).bind fun report => timing.figure report.records).toOption.isSome =
      true := by
    decide +kernel
  cases loaded : timing.loadResults timings with
  | error failure =>
    rw [loaded] at answers
    cases answers
  | ok report =>
    rw [loaded] at answers
    change (timing.figure report.records).toOption.isSome = true at answers
    cases drawn : timing.figure report.records with
    | error failure =>
      rw [drawn] at answers
      cases answers
    | ok pair =>
      obtain ⟨-, once⟩ := figure_drawsOnce timing timings report pair.1 pair.2 accepted (.inl rfl) loaded drawn
      exact ⟨report, pair.1, pair.2, accepted, rfl, drawn, once⟩

end Request

end SweepPlot
