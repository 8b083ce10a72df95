import SweepPlot.Proofs.Aggregation.Reference
import SweepPlot.Proofs.Figure.Render
import SweepPlot.Proofs.Merge.Failing
import SweepPlot.Proofs.Style.Assignment
import SweepPlot.Run
set_option autoImplicit false

namespace SweepPlot.Request

section Accepted

variable {r : Request}

/-- What acceptance says about roots, labels and layout. -/
structure Sound (r : Request) : Prop where
  roots : r.roots ≠ []
  mode : r.checkMode = .ok ()
  layout : r.checkLayout = .ok ()

theorem sound_of_accept (accepted : r.accept = .ok ()) : r.Sound := by
  have valid : r.validate = .ok () := mapError_eq_ok.mp accepted
  unfold validate at valid
  by_cases roots : r.roots = []
  · rw [if_pos roots] at valid
    cases valid
  · rw [if_neg roots] at valid
    obtain ⟨_, mode, valid⟩ := bind_eq_ok.mp valid
    obtain ⟨_, layout, -⟩ := bind_eq_ok.mp valid
    exact ⟨roots, mode, layout⟩

theorem Sound.only_root (sound : r.Sound) (mode : r.mode = .subfolder) : ∃ root, r.roots = [root] := by
  have checked := sound.mode
  unfold checkMode at checked
  rw [mode] at checked
  by_cases one : r.roots.length = 1
  · exact List.length_eq_one_iff.mp one
  · simp [one] at checked

theorem Sound.labels (sound : r.Sound) (mode : r.mode = .variant) :
    r.roots.length = r.variants.length ∧ r.variants.Nodup := by
  have checked := sound.mode
  unfold checkMode at checked
  rw [mode] at checked
  dsimp only at checked
  split at checked
  · cases checked
  next sizes =>
    split at checked
    · cases checked
    · split at checked
      · cases checked
      next once =>
        have apart := firstRepeat?_eq_none.mp once
        exact ⟨by omega, apart.of_map⟩

theorem Sound.variant_of_sixPanel (sound : r.Sound) (layout : r.layout = .sixPanel) :
    r.mode = .variant := by
  have checked := sound.layout
  unfold checkLayout at checked
  split at checked
  · cases checked
  · split at checked
    · cases checked
    next free =>
      by_contra differ
      exact free ⟨layout, differ⟩

theorem Sound.variants_ne_nil (sound : r.Sound) (layout : r.layout = .sixPanel) : r.variants ≠ [] := by
  have sizes := (sound.labels (sound.variant_of_sixPanel layout)).1
  intro none
  rw [none] at sizes
  exact sound.roots (List.length_eq_zero_iff.mp sizes)

theorem Sound.figureLayout_wellPlaced (sound : r.Sound) (few : r.variants.length < 2 ^ 20)
    (d : Dataset) : (r.figureLayout d).WellPlaced := by
  unfold figureLayout
  cases layout : r.layout with
  | single => exact Layout.single_wellPlaced _ _
  | combined => exact Layout.combined_wellPlaced
  | fourMetric => exact Layout.fourMetric_wellPlaced
  | paired => exact Layout.paired_wellPlaced _ _
  | sixPanel => exact Layout.sixPanel_wellPlaced _ _ (sound.variants_ne_nil layout) few
  | peakMemory => exact Layout.peakMemory_wellPlaced
  | bfs => cases r.mode <;> exact Layout.bfs_wellPlaced _ _

end Accepted

section Load

variable {r : Request} {fs : FileSystem}

def LoadFailure (failure : Failure) : Prop :=
  failure.Local ∨ ∃ cause, failure = .noData cause

theorem report_fails (outcome : MergeOutcome) : FailsOnly LoadFailure outcome.report := by
  cases outcome with
  | loaded report => exact .ok report
  | empty reason => exact .error (.inr ⟨_, rfl⟩)

theorem loadFlat_fails : FailsOnly LoadFailure (r.loadFlat fs) := by
  have files : ∀ paths, FailsOnly LoadFailure (r.merger.mergeFiles fs paths) := fun paths =>
    (Merger.mergeFiles_fails_locally paths).mono fun _ => .inl
  have directories : ∀ report root, FailsOnly LoadFailure (r.mergeDirectories fs report root) := by
    intro report root
    have fails : FailsOnly Failure.Local (r.merger.mergeDirectory fs root r.recursive) :=
      Merger.mergeDirectory_fails_locally root r.recursive
    unfold mergeDirectories
    split
    next failure h => exact .error (.inl (fails failure h))
    next => exact .ok _
    next => exact .ok _
  unfold loadFlat
  refine (files _).bind fun outcome => ?_
  -- The directories add to what the files gave, whether that is something or nothing.
  cases outcome with
  | loaded | empty =>
    refine (FailsOnly.foldlM directories _ _).bind fun found => ?_
    cases found with
    | some report => exact .ok report
    | none => exact .error (.inr ⟨_, rfl⟩)

theorem Sound.loadMode_fails (sound : r.Sound) : FailsOnly LoadFailure (r.loadMode fs) := by
  unfold loadMode
  cases mode : r.mode with
  | flat => exact loadFlat_fails
  | subfolder =>
    have fails : FailsOnly LoadFailure (r.merger.mergeSubfolders fs (r.rootPaths.headD [])) :=
      (Merger.mergeSubfolders_fails_locally _).mono fun _ => .inl
    exact fails.bind report_fails
  | variant =>
    obtain ⟨sizes, apart⟩ := sound.labels mode
    have sizes : r.rootPaths.length = r.variants.length := (List.length_map ..).trans sizes
    have fails : FailsOnly LoadFailure (r.merger.mergeVariants fs r.rootPaths r.variants) :=
      (Merger.mergeVariants_fails_locally sizes apart).mono fun _ => .inl
    exact fails.bind report_fails

theorem Sound.loadResults_fails (sound : r.Sound) : FailsOnly LoadFailure (r.loadResults fs) := by
  unfold loadResults
  refine sound.loadMode_fails.bind fun report => ?_
  split
  · exact .error (.inr ⟨_, rfl⟩)
  · exact .ok report

end Load

section Figure

variable {r : Request} {d : Dataset}

/-- A queue type is asked for by name that no record has. -/
def NamesAbsent (r : Request) (d : Dataset) : Prop :=
  ∃ queue ∈ r.filter.allow ++ r.filter.highlight ++ r.right, ∀ record ∈ d, record.queue ≠ queue

def ShowsSomething (r : Request) (d : Dataset) : Prop :=
  ∃ spec ∈ (r.figureLayout d).panels, ∃ g ∈ r.aggregation.groups d, spec.Shows (r.view d) g

theorem checkList_cases (d : Dataset) (name : String) (queues : List String) :
    ((∀ queue ∈ queues, queue ∈ d.queueTypes) ∧ checkList d name queues = .ok ()) ∨
      ((∃ queue ∈ queues, queue ∉ d.queueTypes) ∧
        ∃ cause, checkList d name queues = .error (.misconfigured cause)) := by
  have absent : absentFrom d queues = [] ↔ ∀ queue ∈ queues, queue ∈ d.queueTypes := by
    simp [absentFrom, List.filter_eq_nil_iff, ← Dataset.containsQueue_iff]
  unfold checkList
  by_cases none : absentFrom d queues = []
  · exact .inl ⟨absent.mp none, by simp [none]⟩
  · refine .inr ⟨?_, _, by simp [none]; rfl⟩
    simpa using absent.not.mp none

theorem namesAbsent_iff : r.NamesAbsent d ↔
    ∃ queue ∈ r.filter.allow ++ r.filter.highlight ++ r.right, queue ∉ d.queueTypes := by
  simp [NamesAbsent, Dataset.mem_queueTypes]

theorem checkQueues_cases (r : Request) (d : Dataset) :
    (¬ r.NamesAbsent d ∧ r.checkQueues d = .ok ()) ∨
      (r.NamesAbsent d ∧ ∃ cause, r.checkQueues d = .error (.misconfigured cause)) := by
  rw [namesAbsent_iff]
  unfold checkQueues
  obtain ⟨allowed, ha⟩ | ⟨⟨q, hq, absent⟩, cause, ha⟩ := checkList_cases d "allow" r.filter.allow
  · obtain ⟨highlighted, hh⟩ | ⟨⟨q, hq, absent⟩, cause, hh⟩ :=
      checkList_cases d "highlight" r.filter.highlight
    · obtain ⟨right, hr⟩ | ⟨⟨q, hq, absent⟩, cause, hr⟩ := checkList_cases d "right" r.right
      · refine .inl ⟨?_, by rw [ha, hh, hr]; rfl⟩
        grind
      · exact .inr ⟨⟨q, by simp [hq], absent⟩, cause, by rw [ha, hh, hr]; rfl⟩
    · exact .inr ⟨⟨q, by simp [hq], absent⟩, cause, by rw [ha, hh]; rfl⟩
  · exact .inr ⟨⟨q, by simp [hq], absent⟩, cause, by rw [ha]; rfl⟩

theorem aggregation_once (r : Request) : r.aggregation.metrics.Nodup := by
  unfold aggregation
  split
  · decide
  · exact (by decide : [Metric.milliseconds].Nodup)
  · exact (by decide : Metric.all.Nodup)

theorem view_styled (r : Request) (d : Dataset) : (r.view d).Styled (r.aggregation.groups d) := by
  refine View.styled_of_style? fun g hg => ?_
  have named : g.queue ∈ (r.registry d).names := by
    have present := Aggregation.queue_of_mem_groups r.aggregation_once hg
    unfold registry
    exact (Registry.mem_assign_names _ _).mpr (.inr present)
  exact Keyed.lookup_isSome_iff_mem.mpr named

theorem figure_of_named (placed : (r.figureLayout d).WellPlaced) (named : ¬ r.NamesAbsent d) :
    (¬ r.ShowsSomething d ∧ r.figure d = .error (.noData .nothingToPlot)) ∨
      (r.ShowsSomething d ∧ ∃ figure, r.figure d = .ok figure) := by
  obtain ⟨figure, rendered, empty⟩ := View.render_yields placed (r.view_styled d)
  have checked : r.checkQueues d = .ok () := by
    obtain ⟨-, checked⟩ | ⟨absent, -⟩ := r.checkQueues_cases d
    · exact checked
    · exact absurd absent named
  -- What is thrown is decided by the figure alone, and the figure by the groups that its panels show.
  have shown : figure.isEmpty = true ↔ ¬ r.ShowsSomething d := by
    rw [empty]
    simp [ShowsSomething]
  have answer : r.figure d = if figure.isEmpty then .error (.noData .nothingToPlot)
      else .ok (figure, r.aggregation.groups d) := by
    unfold Request.figure
    rw [checked]
    change (View.render _ _ _ >>= _) = _
    rw [rendered]
    rfl
  by_cases none : figure.isEmpty = true
  · exact .inl ⟨shown.mp none, by rw [answer, if_pos none]⟩
  · exact .inr ⟨by_contra fun blank => none (shown.mpr blank), _, by rw [answer, if_neg none]⟩

theorem figure_of_absent (absent : r.NamesAbsent d) :
    ∃ cause, r.figure d = .error (.misconfigured cause) := by
  obtain ⟨named, -⟩ | ⟨-, cause, checked⟩ := r.checkQueues_cases d
  · exact absurd absent named
  · refine ⟨cause, ?_⟩
    unfold Request.figure
    rw [checked]
    rfl

end Figure

/-- What an accepted request can fail with: in loading nothing that concerns the request, and in a figure
queue types that are asked for and absent, or else groups of which no panel shows one. -/
theorem accepted_answers (r : Request) (accepted : r.accept = .ok ()) (few : r.variants.length < 2 ^ 20) :
    (r.mode = .subfolder → ∃ root, r.roots = [root]) ∧
    (r.mode = .variant → r.roots.length = r.variants.length ∧ firstRepeat? r.variants = none) ∧
    (∀ fs cause, r.loadResults fs ≠ .error (.misconfigured cause)) ∧
    ∀ d : Dataset,
      (r.figureLayout d).validate = .ok () ∧
      (∀ g ∈ r.aggregation.groups d, ∀ emphasis,
        ∃ style, (r.view d).styleFor g.queue emphasis = .ok style) ∧
      ((∃ cause, r.figure d = .error (.misconfigured cause)) ↔ r.NamesAbsent d) ∧
      (¬ r.NamesAbsent d → ((∃ cause, r.figure d = .error (.noData cause)) ↔ ¬ r.ShowsSomething d)) ∧
      (¬ r.NamesAbsent d → r.ShowsSomething d → ∃ figure, r.figure d = .ok figure) := by
  have sound := sound_of_accept accepted
  refine ⟨sound.only_root, fun mode => ?_, fun fs cause failed => ?_, fun d => ?_⟩
  · obtain ⟨sizes, apart⟩ := sound.labels mode
    exact ⟨sizes, firstRepeat?_eq_none.mpr apart⟩
  · obtain ofFile | ⟨_, other⟩ := sound.loadResults_fails _ failed
    · cases ofFile
    · cases other
  · have placed := sound.figureLayout_wellPlaced few d
    refine ⟨Layout.validate_eq_ok_iff.mpr placed, fun g hg emphasis => ?_, ?_, fun named => ?_,
      fun named shows => ?_⟩
    · obtain ⟨style, hs, -⟩ := r.view_styled d g hg emphasis
      exact ⟨style, hs⟩
    · refine ⟨fun ⟨cause, refused⟩ => by_contra fun named => ?_, figure_of_absent⟩
      obtain ⟨-, answer⟩ | ⟨-, figure, answer⟩ := figure_of_named placed named <;>
        cases refused.symm.trans answer
    · obtain ⟨blank, answer⟩ | ⟨shows, figure, answer⟩ := figure_of_named placed named
      · exact iff_of_true ⟨_, answer⟩ blank
      · refine iff_of_false ?_ (not_not.mpr shows)
        rintro ⟨cause, refused⟩
        cases refused.symm.trans answer
    · obtain ⟨blank, -⟩ | ⟨-, drawn⟩ := figure_of_named placed named
      · exact absurd shows blank
      · exact drawn

def comparing : Request where
  roots := ["base", "tuned"]
  variants := ["50", "500"]
  layout := .sixPanel
  mode := .variant
  right := ["lcrq_rust"]

theorem accepted_answers_comparing :
    let d : Dataset := [{ queue := "lcrq_rust", counts := ⟨some 2, none, none⟩,
                          metrics := ⟨some 3.0, none, none, none, none, none⟩, variant := some "500" }]
    comparing.accept = .ok () ∧ comparing.variants.length < 2 ^ 20 ∧
      (∃ cause, comparing.figure [] = .error (.misconfigured cause)) ∧
      ∃ figure, comparing.figure d = .ok figure := by
  intro d
  have accepted : comparing.accept = .ok () := by rfl
  have few : comparing.variants.length < 2 ^ 20 := by decide
  obtain ⟨-, -, -, answers⟩ := accepted_answers comparing accepted few
  obtain ⟨-, -, refused, -, -⟩ := answers []
  obtain ⟨-, -, -, -, drawn⟩ := answers d
  have absent : comparing.NamesAbsent [] := ⟨"lcrq_rust", by decide, by simp⟩
  have named : ¬ comparing.NamesAbsent d := by
    rw [namesAbsent_iff]
    decide
  have shows : comparing.ShowsSomething d := by
    refine ⟨{ Layout.rightPanel .throughput 1 with
      variant := some "500", sideLabel := some "τ = 500" }, by decide, _, List.mem_cons_self, by rfl, ?_⟩
    exact ⟨⟨_, by rfl, by decide +kernel⟩, fun _ => ⟨_, by rfl⟩⟩
  exact ⟨accepted, few, refused.mpr absent, drawn named shows⟩

end SweepPlot.Request
