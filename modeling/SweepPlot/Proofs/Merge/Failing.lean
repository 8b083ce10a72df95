import SweepPlot.Merge
import SweepPlot.Proofs.Table.Records
set_option autoImplicit false

namespace SweepPlot

namespace Failure

def Local (failure : Failure) : Prop :=
  failure.isLocal = true

end Failure

namespace ResultFile

theorem ofReader_fails_locally (path : Bytes) (required : List Field) (read : Except RowFault Sheet) :
    FailsOnly Failure.Local (ofReader path required read) := by
  cases read with
  | error fault => cases fault <;> exact .error rfl
  | ok sheet =>
    intro failure failed
    have fault := (ofSheet_settles path required sheet).eq_error_iff.mp failed
    obtain ⟨_, rfl⟩ | ⟨_, -, rfl⟩ | ⟨_, rfl, -⟩ := of_fault?_eq_some fault <;> rfl

theorem load_fails_locally (fs : FileSystem) (path : Bytes) (required : List Field) :
    FailsOnly Failure.Local (load fs path required) := by
  unfold load
  split
  · exact .error rfl
  next read _ =>
    refine FailsOnly.map ?_ _
    cases read with
    | error cause => exact .error rfl
    | ok bytes => exact ofReader_fails_locally path required _

end ResultFile

namespace Merger

variable {m : Merger} {fs : FileSystem}

theorem note_fails_locally (report : MergeReport) (path : Bytes) {failure : Failure}
    (h : failure.isLocal = true) : FailsOnly Failure.Local (m.note report path failure) := by
  unfold note
  split
  · exact .error h
  · exact .ok _

theorem loadFiles_fails_locally (subfolder : Option String) (report : MergeReport) (paths : List Bytes) :
    FailsOnly Failure.Local (m.loadFiles fs subfolder report paths) := by
  refine FailsOnly.foldlM (fun report path => ?_) paths report
  unfold loadFile
  split
  next failure h => exact note_fails_locally report path (ResultFile.load_fails_locally fs path _ failure h)
  next => exact .ok _

theorem collect_fails_locally (dir : Bytes) (deep : Bool) (report : MergeReport) :
    FailsOnly Failure.Local (m.collect fs dir deep report) := by
  unfold Merger.collect
  split
  · exact FailsOnly.map (note_fails_locally report dir rfl) _
  · refine FailsOnly.map (FailsOnly.foldlM (fun report found => ?_) _ report) _
    unfold noteFault
    split
    · exact .ok _
    · exact note_fails_locally report _ rfl

theorem requireDir_fails_locally (root : Bytes) : FailsOnly Failure.Local (requireDir fs root) := by
  unfold requireDir
  split
  · exact .error rfl
  · split
    · exact .ok _
    · exact .error rfl

theorem mergeFiles_fails_locally (paths : List Bytes) :
    FailsOnly Failure.Local (m.mergeFiles fs paths) := by
  unfold mergeFiles
  split
  · exact .ok _
  · exact FailsOnly.map (loadFiles_fails_locally none {} paths) _

theorem mergeDirectory_fails_locally (root : Bytes) (deep : Bool) :
    FailsOnly Failure.Local (m.mergeDirectory fs root deep) := by
  unfold mergeDirectory
  refine (requireDir_fails_locally root).bind fun _ => ?_
  refine (collect_fails_locally root deep {}).bind fun collected => ?_
  obtain ⟨files, report⟩ := collected
  dsimp only
  split
  · exact .ok _
  · exact (loadFiles_fails_locally none report files).bind fun report => .ok _

theorem mergeSubfolder_fails_locally (report : MergeReport) (sub : Subfolder) :
    FailsOnly Failure.Local (m.mergeSubfolder fs report sub) := by
  unfold mergeSubfolder
  refine (collect_fails_locally _ true report).bind fun collected => ?_
  obtain ⟨files, report⟩ := collected
  dsimp only
  split
  · exact .ok _
  · exact loadFiles_fails_locally (some sub.name) report files

theorem mergeSubfolders_fails_locally (root : Bytes) :
    FailsOnly Failure.Local (m.mergeSubfolders fs root) := by
  unfold mergeSubfolders
  refine (requireDir_fails_locally root).bind fun _ => ?_
  have listing : FailsOnly Failure.Local ((fs.subfolders root).mapError (.io root)) :=
    FailsOnly.mapError fun _ => rfl
  refine listing.bind fun subs => ?_
  split
  · exact .ok _
  · refine (FailsOnly.foldlM mergeSubfolder_fails_locally subs {}).bind fun report => ?_
    split <;> exact .ok _

theorem mergeLabelled_fails_locally (pairs : List (Bytes × String)) (merged : Option MergeReport)
    (reason : Option EmptyReason) : FailsOnly Failure.Local (m.mergeLabelled fs pairs merged reason) := by
  induction pairs generalizing merged reason with
  | nil => exact .ok _
  | cons pair rest ih =>
    rw [mergeLabelled]
    refine (mergeSubfolders_fails_locally pair.1).bind fun outcome => ?_
    cases outcome with
    | loaded report => exact ih _ _
    | empty why => exact ih _ _

theorem mergeVariants_fails_locally {roots : List Bytes} {labels : List String} (sizes : roots.length = labels.length)
    (apart : labels.Nodup) : FailsOnly Failure.Local (m.mergeVariants fs roots labels) := by
  unfold mergeVariants
  rw [if_neg (fun differ => differ sizes), firstRepeat?_eq_none.mpr apart]
  exact mergeLabelled_fails_locally _ none none

end Merger

end SweepPlot
