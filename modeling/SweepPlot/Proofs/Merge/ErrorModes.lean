import SweepPlot.Merge
import SweepPlot.Proofs.Outcome
set_option autoImplicit false

namespace SweepPlot

/-- The second computation has the same result if nothing is noted in it, and else fails with what is
noted first; and it fails where the first one does. -/
structure StopsEarly {α : Type} (noted : α → List FileFailure) (collected stopped : Except Failure α) :
    Prop where
  clean : ∀ a, collected = .ok a → noted a = [] → stopped = .ok a
  first : ∀ a found rest, collected = .ok a → noted a = found :: rest → stopped = .error found.failure
  failed : ∀ failure, collected = .error failure → ∃ other, stopped = .error other

/-- Two steps from the same state: from one in which nothing is noted the second stops early, and the
first one never loses what was noted first. -/
structure InStep {σ τ : Type} (before : σ → List FileFailure) (after : τ → List FileFailure)
    (collected stopped : σ → Except Failure τ) : Prop where
  clean : ∀ s, before s = [] → StopsEarly after (collected s) (stopped s)
  keeps : ∀ s found, (before s).head? = some found →
    ReturnsOnly (fun t => (after t).head? = some found) (collected s)

section Composition

variable {α σ τ υ : Type} {before : σ → List FileFailure} {between : τ → List FileFailure}
  {after : υ → List FileFailure}

theorem StopsEarly.ok {noted : α → List FileFailure} {a : α} (h : noted a = []) :
    StopsEarly noted (.ok a) (.ok a) := by
  refine ⟨?_, ?_, ?_⟩
  · rintro _ ⟨⟩ -
    rfl
  · rintro _ found rest ⟨⟩ some
    cases h.symm.trans some
  · rintro _ ⟨⟩

theorem StopsEarly.error {noted : α → List FileFailure} (failure : Failure) :
    StopsEarly noted (.error failure) (.error failure) := by
  refine ⟨?_, ?_, fun _ _ => ⟨failure, rfl⟩⟩
  · rintro _ ⟨⟩
  · rintro _ _ _ ⟨⟩

theorem StopsEarly.bind {noted : τ → List FileFailure} {collected stopped : Except Failure τ}
    (h : StopsEarly noted collected stopped) {next next' : τ → Except Failure υ}
    (steps : InStep noted after next next') : StopsEarly after (collected >>= next) (stopped >>= next') := by
  cases collected with
  | error failure =>
    obtain ⟨other, rfl⟩ := h.failed failure rfl
    exact ⟨by rintro _ ⟨⟩, by rintro _ _ _ ⟨⟩, fun _ _ => ⟨other, rfl⟩⟩
  | ok t =>
    cases ht : noted t with
    | nil =>
      cases h.clean t rfl ht
      exact steps.clean t ht
    | cons found rest =>
      -- What was noted first stays first, so whatever follows, failing fast has ended with it.
      cases h.first t found rest rfl ht
      have kept := steps.keeps t found (by rw [ht, List.head?_cons])
      refine ⟨fun u hu none => ?_, fun u other others hu noted => ?_, fun _ _ => ⟨found.failure, rfl⟩⟩
      · have stays : (after u).head? = some found := kept u hu
        rw [none] at stays
        cases stays
      · have stays : (after u).head? = some found := kept u hu
        rw [noted] at stays
        cases stays
        rfl

theorem InStep.of_eq {step : σ → υ} (h : ∀ s, after (step s) = before s) :
    InStep before after (fun s => .ok (step s)) (fun s => .ok (step s)) where
  clean s none := .ok ((h s).trans none)
  keeps s found first := .ok (by rw [h]; exact first)

theorem InStep.bind {first first' : σ → Except Failure τ} {next next' : τ → Except Failure υ}
    (h : InStep before between first first') (k : InStep between after next next') :
    InStep before after (fun s => first s >>= next) (fun s => first' s >>= next') where
  clean s none := (h.clean s none).bind k
  keeps s found noted := (h.keeps s found noted).bind fun t ht => k.keeps t found ht

theorem InStep.map {first first' : σ → Except Failure τ} (h : InStep before between first first')
    {f : τ → υ} (same : ∀ t, after (f t) = between t) :
    InStep before after (fun s => (first s).map f) (fun s => (first' s).map f) := by
  have mapped : ∀ x : Except Failure τ, x.map f = x >>= fun t => .ok (f t) := fun x => by cases x <;> rfl
  simp only [mapped]
  exact h.bind (.of_eq same)

theorem InStep.foldlM {step step' : σ → α → Except Failure σ}
    (h : ∀ a, InStep before before (step · a) (step' · a)) (as : List α) :
    InStep before before (as.foldlM step ·) (as.foldlM step' ·) := by
  induction as with
  | nil => exact .of_eq fun _ => rfl
  | cons a as ih =>
    simp only [List.foldlM_cons]
    exact (h a).bind ih

/-- What does not depend on the error mode comes before a step from a clean state. -/
theorem StopsEarly.after_same {x : Except Failure τ} {next next' : τ → Except Failure υ}
    (h : ∀ t, x = .ok t → StopsEarly after (next t) (next' t)) :
    StopsEarly after (x >>= next) (x >>= next') := by
  cases x with
  | error failure => exact .error failure
  | ok t => exact h t rfl

end Composition

namespace MergeOutcome

def errors : MergeOutcome → List FileFailure
  | loaded report => report.errors
  | empty _ => []

end MergeOutcome

namespace Merger

variable {m : Merger} {fs : FileSystem}

def collecting (m : Merger) : Merger :=
  { m with errorMode := .collectErrors }

def failingFast (m : Merger) : Merger :=
  { m with errorMode := .failFast }

@[simp]
theorem required_collecting : m.collecting.required = m.required := rfl

@[simp]
theorem required_failingFast : m.failingFast.required = m.required := rfl

theorem note_inStep (path : Bytes) (failure : Failure) :
    InStep MergeReport.errors MergeReport.errors (m.collecting.note · path failure)
      (m.failingFast.note · path failure) where
  clean report none := by
    refine ⟨?_, ?_, ?_⟩
    · rintro _ ⟨⟩ nothing
      simp at nothing
    · rintro _ found rest ⟨⟩ some
      dsimp only at some
      rw [none, List.nil_append, List.cons.injEq] at some
      rw [← some.1]
      rfl
    · rintro _ ⟨⟩
  keeps report found first := .ok (by rw [List.head?_append, first, Option.some_or])

theorem loadFile_inStep (subfolder : Option String) (path : Bytes) :
    InStep MergeReport.errors MergeReport.errors (m.collecting.loadFile fs subfolder · path)
      (m.failingFast.loadFile fs subfolder · path) := by
  unfold loadFile
  simp only [required_collecting, required_failingFast]
  cases ResultFile.load fs path m.required with
  | error failure => exact note_inStep path failure
  | ok d => exact .of_eq fun _ => rfl

theorem loadFiles_inStep (subfolder : Option String) (paths : List Bytes) :
    InStep MergeReport.errors MergeReport.errors (m.collecting.loadFiles fs subfolder · paths)
      (m.failingFast.loadFiles fs subfolder · paths) :=
  InStep.foldlM (loadFile_inStep subfolder) paths

theorem noteFault_inStep (dir : Bytes) (found : Finding) :
    InStep MergeReport.errors MergeReport.errors (m.collecting.noteFault dir · found)
      (m.failingFast.noteFault dir · found) := by
  unfold noteFault
  cases found.fault with
  | none => exact .of_eq fun _ => rfl
  | some cause => exact note_inStep _ _

theorem collect_inStep (dir : Bytes) (deep : Bool) :
    InStep MergeReport.errors (fun collected => collected.2.errors) (m.collecting.collect fs dir deep)
      (m.failingFast.collect fs dir deep) := by
  unfold Merger.collect
  cases fs.findings deep dir with
  | error cause => exact (note_inStep dir _).map fun _ => rfl
  | ok findings => exact (InStep.foldlM (noteFault_inStep dir) findings).map fun _ => rfl

theorem mergeSubfolder_inStep (sub : Subfolder) :
    InStep MergeReport.errors MergeReport.errors (m.collecting.mergeSubfolder fs · sub)
      (m.failingFast.mergeSubfolder fs · sub) := by
  unfold mergeSubfolder
  refine (collect_inStep sub.path true).bind ⟨?_, ?_⟩
  · rintro ⟨files, report⟩ none
    dsimp only
    split
    · exact .ok none
    · exact (loadFiles_inStep (some sub.name) files).clean report none
  · rintro ⟨files, report⟩ found first
    dsimp only
    split
    · exact .ok first
    · exact (loadFiles_inStep (some sub.name) files).keeps report found first

theorem loaded_inStep (subfolder : Option String) (paths : List Bytes) :
    InStep MergeReport.errors MergeOutcome.errors
      (fun report => (m.collecting.loadFiles fs subfolder report paths).map .loaded)
      (fun report => (m.failingFast.loadFiles fs subfolder report paths).map .loaded) :=
  (loadFiles_inStep subfolder paths).map fun _ => rfl

theorem mergeFiles_stopsEarly (paths : List Bytes) :
    StopsEarly MergeOutcome.errors (m.collecting.mergeFiles fs paths) (m.failingFast.mergeFiles fs paths) := by
  unfold mergeFiles
  split
  · exact .ok rfl
  · exact (loaded_inStep none paths).clean {} rfl

theorem mergeDirectory_stopsEarly (root : Bytes) (deep : Bool) :
    StopsEarly MergeOutcome.errors (m.collecting.mergeDirectory fs root deep)
      (m.failingFast.mergeDirectory fs root deep) := by
  unfold mergeDirectory
  refine .after_same fun _ _ => ((collect_inStep root deep).clean {} rfl).bind ⟨?_, ?_⟩
  · rintro ⟨files, report⟩ clean
    dsimp only
    split
    · exact .ok rfl
    · exact (loaded_inStep none files).clean report clean
  · rintro ⟨files, report⟩ found first
    dsimp only
    split
    next nothing =>
      rw [nothing.2] at first
      cases first
    next => exact (loaded_inStep none files).keeps report found first

theorem mergeSubfolders_stopsEarly (root : Bytes) :
    StopsEarly MergeOutcome.errors (m.collecting.mergeSubfolders fs root)
      (m.failingFast.mergeSubfolders fs root) := by
  unfold mergeSubfolders
  refine .after_same fun _ _ => .after_same fun subs _ => ?_
  split
  · exact .ok rfl
  · refine ((InStep.foldlM mergeSubfolder_inStep subs).clean {} rfl).bind ⟨?_, ?_⟩
    · intro report clean
      split
      · exact .ok rfl
      · exact .ok clean
    · intro report found first
      split
      next nothing =>
        rw [nothing.2] at first
        cases first
      next => exact .ok first

theorem mergeLabelled_inStep (pairs : List (Bytes × String)) (reason : Option EmptyReason) :
    InStep (fun merged => (merged.getD {}).errors) MergeOutcome.errors
      (m.collecting.mergeLabelled fs pairs · reason) (m.failingFast.mergeLabelled fs pairs · reason) := by
  induction pairs generalizing reason with
  | nil =>
    refine .of_eq fun merged => ?_
    cases merged <;> rfl
  | cons pair rest ih =>
    obtain ⟨root, label⟩ := pair
    -- A root's own report comes after what was merged before it, so the earlier failures stay in front.
    constructor
    · intro merged clean
      refine (mergeSubfolders_stopsEarly root).bind ⟨?_, ?_⟩
      · rintro (report | why) none
        · exact (ih reason).clean _ (List.append_eq_nil_iff.mpr ⟨clean, none⟩)
        · exact (ih _).clean merged clean
      · rintro (report | why) found first
        · refine (ih reason).keeps _ found ?_
          change ((merged.getD {}).errors ++ report.errors).head? = some found
          rw [clean, List.nil_append]
          exact first
        · cases first
    · intro merged found first
      have any : ReturnsOnly (fun _ => True) (m.collecting.mergeSubfolders fs root) := fun _ _ => trivial
      refine any.bind ?_
      rintro (report | why) -
      · refine (ih reason).keeps _ found ?_
        change ((merged.getD {}).errors ++ report.errors).head? = some found
        rw [List.head?_append, first, Option.some_or]
      · exact (ih _).keeps merged found first

theorem mergeVariants_stopsEarly (roots : List Bytes) (labels : List String) :
    StopsEarly MergeOutcome.errors (m.collecting.mergeVariants fs roots labels)
      (m.failingFast.mergeVariants fs roots labels) := by
  unfold mergeVariants
  split
  · exact .error _
  · split
    · exact .error _
    · exact (mergeLabelled_inStep (roots.zip labels) none).clean none rfl

/-- Whatever is merged, failing fast has the same outcome as collecting if no failure is collected, fails
with the first one if there is any, and fails if collecting does. -/
theorem errorModes_agree (m : Merger) (fs : FileSystem) :
    (∀ paths, StopsEarly MergeOutcome.errors
      (m.collecting.mergeFiles fs paths) (m.failingFast.mergeFiles fs paths)) ∧
    (∀ root deep, StopsEarly MergeOutcome.errors
      (m.collecting.mergeDirectory fs root deep) (m.failingFast.mergeDirectory fs root deep)) ∧
    (∀ root, StopsEarly MergeOutcome.errors
      (m.collecting.mergeSubfolders fs root) (m.failingFast.mergeSubfolders fs root)) ∧
    ∀ roots labels, StopsEarly MergeOutcome.errors
      (m.collecting.mergeVariants fs roots labels) (m.failingFast.mergeVariants fs roots labels) :=
  ⟨mergeFiles_stopsEarly, mergeDirectory_stopsEarly, mergeSubfolders_stopsEarly, mergeVariants_stopsEarly⟩

end Merger

end SweepPlot
