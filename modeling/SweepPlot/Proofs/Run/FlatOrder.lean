import SweepPlot.Proofs.Merge.Collecting
import SweepPlot.Proofs.Outcome
import SweepPlot.Run
set_option autoImplicit false

namespace SweepPlot

namespace MergeOutcome

def report? : MergeOutcome → Option MergeReport
  | loaded report => some report
  | empty _ => none

end MergeOutcome

namespace Merger

open MergeReport

variable {m : Merger} {fs : FileSystem}

/-- What one root gives to a flat load: a directory what its walk notes and its chosen files, anything else
itself as a file. -/
def share (m : Merger) (fs : FileSystem) (deep : Bool) (root : Bytes) : MergeReport :=
  if fs.isDir root then m.directoryReport fs deep root else m.fileReport fs none root

theorem mergeFiles_collects (collect : m.errorMode = .collectErrors) (paths : List Bytes) :
    m.mergeFiles fs paths = .ok (if paths = [] then .empty .noFiles
      else .loaded (concat (paths.map (m.fileReport fs none)))) := by
  unfold mergeFiles
  rw [loadFiles_collects collect, empty_absorb]
  split <;> rfl

end Merger

namespace Request

open MergeReport

variable {r : Request} {fs : FileSystem}

def loadOrder (r : Request) (fs : FileSystem) : List Bytes :=
  (r.rootPaths.filter fun root => !fs.isDir root) ++ r.rootPaths.filter fs.isDir

/-- The files that a root stands for: in a directory the chosen ones, else the root itself. -/
def sources (r : Request) (fs : FileSystem) (root : Bytes) : List Bytes :=
  if fs.isDir root then (r.merger.chosen fs r.recursive root).map (Path.joinAll root) else [root]

/-- What cannot be listed below a root. -/
def unlisted (r : Request) (fs : FileSystem) (root : Bytes) : List FileFailure :=
  if fs.isDir root then Merger.walkFailures fs r.recursive root else []

/-- The report holds what the files of the roots give, root by root. -/
structure GathersFlat (r : Request) (fs : FileSystem) (order : List Bytes) (report : MergeReport) : Prop where
  records : report.records = order.flatMap fun root =>
    (r.sources fs root).flatMap fun path => (r.merger.fileReport fs none path).records
  errors : report.errors = order.flatMap fun root =>
    r.unlisted fs root ++ (r.sources fs root).flatMap fun path => (r.merger.fileReport fs none path).errors

theorem share_eq (r : Request) (fs : FileSystem) (root : Bytes) :
    r.merger.share fs r.recursive root = absorb { errors := r.unlisted fs root }
      (concat ((r.sources fs root).map (r.merger.fileReport fs none))) := by
  unfold Merger.share Merger.directoryReport unlisted sources
  split
  · rw [List.map_map]
    rfl
  · simp [concat, absorb]

theorem gathersFlat_concat (r : Request) (fs : FileSystem) (order : List Bytes) :
    r.GathersFlat fs order (concat (order.map (r.merger.share fs r.recursive))) := by
  have shares := funext (r.share_eq fs)
  constructor
  · rw [shares, concat_eq, List.flatMap_map]
    simp [absorb, concat_eq, List.flatMap_map]
  · rw [shares, concat_eq, List.flatMap_map]
    simp [absorb, concat_eq, List.flatMap_map]

theorem mergeDirectories_collects (collect : r.errorMode = .collectErrors) {root : Bytes}
    (isDir : fs.isDir root = true) (report : Option MergeReport) :
    ∃ merged, r.mergeDirectories fs report root = .ok merged ∧
      merged.getD {} = (report.getD {}).absorb (r.merger.share fs r.recursive root) := by
  unfold mergeDirectories Merger.share
  rw [if_pos isDir, Merger.mergeDirectory_eq collect (Merger.requireDir_of_isDir isDir)]
  split
  next failure failed => cases failed
  next reason empty =>
    split at empty
    next silent =>
      refine ⟨report, rfl, ?_⟩
      rw [Merger.directoryReport, silent.1, silent.2]
      exact (absorb_empty _).symm
    next => cases empty
  next more loaded =>
    split at loaded
    next => cases loaded
    next =>
      cases loaded
      exact ⟨_, rfl, rfl⟩

theorem foldlM_mergeDirectories (collect : r.errorMode = .collectErrors) (roots : List Bytes)
    (areDirs : ∀ root ∈ roots, fs.isDir root = true) (report : Option MergeReport) :
    ∃ merged, roots.foldlM (r.mergeDirectories fs) report = .ok merged ∧
      merged.getD {} = (report.getD {}).absorb (concat (roots.map (r.merger.share fs r.recursive))) := by
  induction roots generalizing report with
  | nil => exact ⟨report, rfl, (absorb_empty _).symm⟩
  | cons root roots ih =>
    obtain ⟨isDir, others⟩ := List.forall_mem_cons.mp areDirs
    obtain ⟨next, first, added⟩ := mergeDirectories_collects collect isDir report
    obtain ⟨merged, rest, gathered⟩ := ih others next
    refine ⟨merged, ?_, ?_⟩
    · rw [List.foldlM_cons, first]
      exact rest
    · rw [gathered, added, absorb_assoc, List.map_cons, concat_cons]

/-- A flat load merges the files among the roots and lets the directories add to that, whether there are files
or not. -/
theorem loadFlat_eq (r : Request) (fs : FileSystem) :
    r.loadFlat fs = r.merger.mergeFiles fs (r.rootPaths.filter fun root => !fs.isDir root) >>= fun outcome =>
      (r.rootPaths.filter fs.isDir).foldlM (r.mergeDirectories fs) outcome.report? >>= fun found =>
        match found with
        | some report => .ok report
        | none => .error (.noData .nothingFound) := by
  unfold loadFlat
  refine bind_congr fun outcome => ?_
  cases outcome <;> rfl

theorem loadFlat_gathers (collect : r.errorMode = .collectErrors) {report : MergeReport}
    (loaded : r.loadFlat fs = .ok report) : r.GathersFlat fs (r.loadOrder fs) report := by
  rw [loadFlat_eq] at loaded
  obtain ⟨outcome, merged, rest⟩ := bind_eq_ok.mp loaded
  obtain ⟨found, folded, last⟩ := bind_eq_ok.mp rest
  have files : outcome.report?.getD {} =
      concat ((r.rootPaths.filter fun root => !fs.isDir root).map (r.merger.share fs r.recursive)) := by
    have noDir : ∀ root ∈ r.rootPaths.filter fun root => !fs.isDir root,
        r.merger.fileReport fs none root = r.merger.share fs r.recursive root := by
      intro root mem
      rw [Merger.share, if_neg (by simpa using (List.mem_filter.mp mem).2)]
    rw [Merger.mergeFiles_collects (m := r.merger) collect, List.map_congr_left noDir] at merged
    cases merged
    split
    next none => rw [none]; rfl
    next => rfl
  obtain ⟨_, folded', gathered⟩ := foldlM_mergeDirectories collect (r.rootPaths.filter fs.isDir)
    (fun root mem => (List.mem_filter.mp mem).2) outcome.report?
  cases folded.symm.trans folded'
  have whole : report = concat ((r.loadOrder fs).map (r.merger.share fs r.recursive)) := by
    rw [loadOrder, List.map_append, concat_append, ← files, ← gathered]
    cases found with
    | none => cases last
    | some found => exact (Except.ok.inj last).symm
  rw [whole]
  exact r.gathersFlat_concat fs (r.loadOrder fs)

theorem loadOrder_eq (filesFirst : r.rootPaths.Pairwise fun a b => fs.isDir a = true → fs.isDir b = true) :
    r.loadOrder fs = r.rootPaths := by
  unfold loadOrder
  generalize r.rootPaths = roots at filesFirst
  induction filesFirst with
  | nil => rfl
  | @cons root roots own _ ih =>
    cases isDir : fs.isDir root with
    | false => simp [isDir, ih]
    | true =>
      have noFiles : (roots.filter fun root => !fs.isDir root) = [] :=
        List.filter_eq_nil_iff.mpr fun other mem => by simp [own other mem isDir]
      have all : roots.filter fs.isDir = roots := List.filter_eq_self.mpr fun other mem => own other mem isDir
      simp [isDir, noFiles, all]

theorem loadResults_inOrder (r : Request) (fs : FileSystem) (report : MergeReport) (flat : r.mode = .flat)
    (collect : r.errorMode = .collectErrors) (tidy : fs.root.Tidy) (loaded : r.loadResults fs = .ok report) :
    (∀ root ∈ r.rootPaths, r.merger.ListsChosen fs r.recursive root (r.merger.chosen fs r.recursive root)) ∧
    r.GathersFlat fs (r.loadOrder fs) report ∧
    ((r.rootPaths.Pairwise fun a b => fs.isDir a = true → fs.isDir b = true) → r.GathersFlat fs r.rootPaths report) := by
  have gathers : r.GathersFlat fs (r.loadOrder fs) report := by
    unfold loadResults at loaded
    obtain ⟨merged, mode, checked⟩ := bind_eq_ok.mp loaded
    unfold loadMode at mode
    rw [flat] at mode
    split at checked
    · cases checked
    · cases checked
      exact loadFlat_gathers collect mode
  exact ⟨fun root _ => Merger.chosen_lists tidy r.recursive root, gathers,
    fun filesFirst => loadOrder_eq filesFirst ▸ gathers⟩

def directoryFirst : Request where
  roots := ["runs", "late.csv"]

def mixed : FileSystem where
  root := .dir [("late.csv", .file (Bytes.ofText "Queuetype,Thread Count\nlate,2\n")),
    ("runs", .dir [("early.csv", .file (Bytes.ofText "Queuetype,Thread Count\nearly,2\n"))])]

theorem mixed_tidy : mixed.root.Tidy := by
  have apart : Bytes.ofText "late.csv" ≠ Bytes.ofText "runs" := by decide
  simp [mixed, apart]

theorem loadResults_inOrder_mixed :
    directoryFirst.mode = .flat ∧ directoryFirst.errorMode = .collectErrors ∧ mixed.root.Tidy ∧
      ∃ report, directoryFirst.loadResults mixed = .ok report ∧
        directoryFirst.GathersFlat mixed [Bytes.ofText "late.csv", Bytes.ofText "runs"] report := by
  obtain ⟨report, loaded⟩ := exists_eq_ok (x := directoryFirst.loadResults mixed) (by decide +kernel)
  obtain ⟨-, gathers, -⟩ := loadResults_inOrder directoryFirst mixed report rfl rfl mixed_tidy loaded
  have order : directoryFirst.loadOrder mixed = [Bytes.ofText "late.csv", Bytes.ofText "runs"] := by decide +kernel
  exact ⟨rfl, rfl, mixed_tidy, report, loaded, order ▸ gathers⟩

/-- The directory is given first, and its records come last. -/
theorem loadResults_outOfOrder :
    directoryFirst.mode = .flat ∧ directoryFirst.errorMode = .collectErrors ∧
      ∃ report, directoryFirst.loadResults mixed = .ok report ∧
        report.records.map (·.queue) = ["late", "early"] ∧
        ¬ directoryFirst.GathersFlat mixed [Bytes.ofText "runs", Bytes.ofText "late.csv"] report := by
  obtain ⟨report, loaded⟩ := exists_eq_ok (x := directoryFirst.loadResults mixed) (by decide +kernel)
  have queues : report.records.map (·.queue) = ["late", "early"] := by
    have known : (directoryFirst.loadResults mixed).toOption.map (fun report => report.records.map (·.queue)) =
        some ["late", "early"] := by decide +kernel
    rw [loaded] at known
    exact Option.some.inj known
  refine ⟨rfl, rfl, report, loaded, queues, fun gathers => ?_⟩
  have given : (([Bytes.ofText "runs", Bytes.ofText "late.csv"].flatMap fun root =>
      (directoryFirst.sources mixed root).flatMap fun path =>
        (directoryFirst.merger.fileReport mixed none path).records).map (·.queue)) = ["early", "late"] := by
    decide +kernel
  rw [← gathers.records, queues] at given
  exact absurd given (by decide)

end Request

end SweepPlot
