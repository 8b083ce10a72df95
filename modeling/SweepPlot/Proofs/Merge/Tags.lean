import SweepPlot.Proofs.Outcome
import SweepPlot.Run
set_option autoImplicit false

namespace SweepPlot

def MergeReport.All (P : Record Float → Prop) (report : MergeReport) : Prop :=
  ∀ record ∈ report.records, P record

def MergeOutcome.All (P : Record Float → Prop) (outcome : MergeOutcome) : Prop :=
  ∀ report, outcome = .loaded report → report.All P

theorem MergeReport.All.absorb {P : Record Float → Prop} {a b : MergeReport} (ha : a.All P) (hb : b.All P) :
    (a.absorb b).All P := by
  intro record mem
  exact (List.mem_append.mp mem).elim (ha record) (hb record)

theorem MergeOutcome.report_all {P : Record Float → Prop} {outcome : MergeOutcome} (all : outcome.All P) :
    ReturnsOnly (MergeReport.All P) outcome.report := by
  cases outcome with
  | loaded report => exact .ok (all report rfl)
  | empty reason => exact .error _

namespace Merger

variable {m : Merger} {fs : FileSystem} {P : Record Float → Prop} {report : MergeReport}

theorem note_all (all : report.All P) (path : Bytes) (failure : Failure) :
    ReturnsOnly (MergeReport.All P) (m.note report path failure) := by
  unfold note
  cases m.errorMode with
  | failFast => exact .error failure
  | collectErrors => exact .ok all

theorem loadFiles_all {subfolder : Option String} (stamps : ∀ d, ∀ record ∈ stamped subfolder d, P record)
    (all : report.All P) (paths : List Bytes) :
    ReturnsOnly (MergeReport.All P) (m.loadFiles fs subfolder report paths) := by
  refine ReturnsOnly.foldlM (fun report path all => ?_) paths all
  unfold loadFile
  split
  next failure _ => exact note_all all path failure
  next d _ =>
    refine .ok fun record mem => ?_
    exact (List.mem_append.mp mem).elim (all record) (stamps d record)

theorem collect_all (all : report.All P) (dir : Bytes) (deep : Bool) :
    ReturnsOnly (fun found => found.2.All P) (m.collect fs dir deep report) := by
  unfold collect
  split
  · exact (note_all all dir _).map fun _ => id
  · refine (ReturnsOnly.foldlM (fun report found all => ?_) _ all).map fun _ => id
    unfold noteFault
    split
    · exact .ok all
    · exact note_all all _ _

def InSubfolder (record : Record Float) : Prop :=
  ∃ name, record.subfolder = some name

theorem stamped_inSubfolder (name : String) (d : Dataset) : ∀ record ∈ stamped (some name) d, InSubfolder record := by
  intro record mem
  obtain ⟨read, -, rfl⟩ := List.mem_map.mp mem
  exact ⟨name, rfl⟩

theorem mergeSubfolder_tagged (sub : Subfolder) (all : report.All InSubfolder) :
    ReturnsOnly (MergeReport.All InSubfolder) (m.mergeSubfolder fs report sub) := by
  refine (collect_all all _ true).bind fun found all => ?_
  dsimp only
  split
  · exact .ok all
  · exact loadFiles_all (stamped_inSubfolder sub.name) all _

theorem mergeSubfolders_tagged (root : Bytes) :
    ReturnsOnly (MergeOutcome.All InSubfolder) (m.mergeSubfolders fs root) := by
  refine ReturnsOnly.bind (fun _ _ => trivial) fun _ _ => ?_
  refine ReturnsOnly.bind (fun _ _ => trivial) fun subs _ => ?_
  split
  · rintro _ ⟨⟩ _ ⟨⟩
  · have start : MergeReport.All InSubfolder {} := by
      rintro _ ⟨⟩
    refine (ReturnsOnly.foldlM (fun report sub => mergeSubfolder_tagged sub) subs start).bind fun report all => ?_
    split
    · rintro _ ⟨⟩ _ ⟨⟩
    · rintro _ ⟨⟩ _ ⟨⟩
      exact all

def Labelled (labels : List String) (record : Record Float) : Prop :=
  ∃ label ∈ labels, record.variant = some label

theorem mergeLabelled_tagged {labels : List String} (pairs : List (Bytes × String))
    (known : ∀ pair ∈ pairs, pair.2 ∈ labels) {merged : Option MergeReport}
    (all : ∀ report, merged = some report → report.All (Labelled labels)) (reason : Option EmptyReason) :
    ReturnsOnly (MergeOutcome.All (Labelled labels)) (m.mergeLabelled fs pairs merged reason) := by
  induction pairs generalizing merged reason with
  | nil =>
    cases merged with
    | none => rintro _ ⟨⟩ _ ⟨⟩
    | some report =>
      rintro _ ⟨⟩ _ ⟨⟩
      exact all report rfl
  | cons pair rest ih =>
    obtain ⟨own, others⟩ := List.forall_mem_cons.mp known
    refine ReturnsOnly.bind (fun _ _ => trivial) fun outcome _ => ?_
    cases outcome with
    | empty why => exact ih others all _
    | loaded report =>
      refine ih others ?_ reason
      rintro _ ⟨⟩
      refine MergeReport.All.absorb ?_ fun record mem => ?_
      · cases merged with
        | none => rintro _ ⟨⟩
        | some before => exact all before rfl
      · obtain ⟨read, -, rfl⟩ := List.mem_map.mp mem
        exact ⟨pair.2, own, rfl⟩

theorem mergeVariants_tagged (roots : List Bytes) (labels : List String) :
    ReturnsOnly (MergeOutcome.All (Labelled labels)) (m.mergeVariants fs roots labels) := by
  unfold mergeVariants
  split
  · exact .error _
  · split
    · exact .error _
    · refine mergeLabelled_tagged _ (fun pair mem => ?_) (by rintro _ ⟨⟩) none
      exact (List.of_mem_zip mem).2

end Merger

namespace Request

variable {r : Request} {fs : FileSystem}

/-- Records of some kind, with the tags of the mode. -/
structure Tagged (r : Request) (d : Dataset) : Prop where
  given : d ≠ []
  subfolder : r.mode = .subfolder → ∀ record ∈ d, Merger.InSubfolder record
  variant : r.mode = .variant → ∀ record ∈ d, Merger.Labelled r.variants record

theorem loadResults_tagged {report : MergeReport} (loaded : r.loadResults fs = .ok report) :
    r.Tagged report.records := by
  unfold loadResults at loaded
  obtain ⟨merged, mode, checked⟩ := bind_eq_ok.mp loaded
  split at checked
  · cases checked
  next given =>
    cases checked
    refine ⟨by simpa using given, fun subfolder => ?_, fun variant => ?_⟩
    · unfold loadMode at mode
      rw [subfolder] at mode
      exact ((Merger.mergeSubfolders_tagged _).bind fun _ => MergeOutcome.report_all) _ mode
    · unfold loadMode at mode
      rw [variant] at mode
      exact ((Merger.mergeVariants_tagged _ _).bind fun _ => MergeOutcome.report_all) _ mode

end Request

end SweepPlot
