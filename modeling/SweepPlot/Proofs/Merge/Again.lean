import SweepPlot.Proofs.Files.Grown
import SweepPlot.Proofs.Merge.Discovery
import SweepPlot.Proofs.Outcome
set_option autoImplicit false

namespace SweepPlot

namespace Node

theorem Grown.item_eq {old new : Node} (grown : old.Grown new) : new.item = old.item := by
  obtain same | ⟨none, -⟩ := grown []
  · exact Option.some.inj same
  · cases none

theorem Grown.isDirectory_eq {old new : Node} (grown : old.Grown new) : new.isDirectory = old.isDirectory := by
  rw [← new.isDirectory_item, grown.item_eq, old.isDirectory_item]

end Node

namespace FileSystem

variable {before after : FileSystem} {path : Bytes} {deep : Bool}

/-- The path leads nowhere in both trees, or in both to one place, below which directories may be new. -/
inductive Stays (before after : FileSystem) (path : Bytes) : Prop where
  | lost {cause cause' : IoCause} (none : before.lookup path = .error cause)
      (none' : after.lookup path = .error cause') : Stays before after path
  | found {location : Location} {old new : Node} (leads : before.LeadsTo path location)
      (leads' : after.LeadsTo path location) (there : before.root.at? location = some old)
      (there' : after.root.at? location = some new) (grown : old.Grown new) : Stays before after path

/-- The path reads the same in both trees, or in neither. -/
def ReadsAlike (before after : FileSystem) (path : Bytes) : Prop :=
  (after.readFile path).toOption = (before.readFile path).toOption

/-- What is new below the place that a path leads to can be listed, as far as a walk gets to it. -/
def ListsNew (before after : FileSystem) (path : Bytes) : Prop :=
  ∀ location, after.LeadsTo path location → ∀ steps, before.itemAt? (location ++ steps) = none →
    after.itemAt? (location ++ steps) ≠ none → (∀ step ∈ steps, Path.isVisible step = true) →
      (Path.joinAll path steps.dropLast).length < pathLimit → (Path.joinAll path steps).length < pathLimit

theorem itemAt?_append {fs : FileSystem} {location : Location} {node : Node} (there : fs.root.at? location = some node)
    (steps : Location) : fs.itemAt? (location ++ steps) = node.itemAt? steps := by
  rw [itemAt?, Node.itemAt?, Node.at?_append, there]
  rfl

theorem Stays.lookup_cases (stays : Stays before after path) :
    (∃ cause cause', before.lookup path = .error cause ∧ after.lookup path = .error cause') ∨
      ∃ old new, before.lookup path = .ok old ∧ after.lookup path = .ok new ∧ old.Grown new := by
  cases stays with
  | lost none none' => exact .inl ⟨_, _, none, none'⟩
  | found leads leads' there there' grown =>
    exact .inr ⟨_, _, lookup_eq_ok_iff.mpr ⟨_, leads, there⟩, lookup_eq_ok_iff.mpr ⟨_, leads', there'⟩, grown⟩

theorem Stays.isDir_eq (stays : Stays before after path) : after.isDir path = before.isDir path := by
  unfold isDir
  obtain ⟨cause, cause', none, none'⟩ | ⟨old, new, found, found', grown⟩ := stays.lookup_cases
  · rw [none, none']
  · rw [found, found']
    exact grown.isDirectory_eq

theorem Stays.readsAlike (stays : Stays before after path) : ReadsAlike before after path := by
  unfold ReadsAlike readFile openFile
  obtain ⟨cause, cause', none, none'⟩ | ⟨old, new, found, found', grown⟩ := stays.lookup_cases
  · rw [none, none']
    rfl
  · rw [found, found']
    have same := grown.item_eq
    cases old <;> cases new <;> cases same <;> rfl

theorem Stays.findings_eq (stays : Stays before after path) (tidy : before.root.Tidy) (tidy' : after.root.Tidy)
    (listsNew : deep = true → ListsNew before after path) :
    (after.findings deep path).toOption = (before.findings deep path).toOption := by
  unfold findings
  cases stays with
  | lost none none' =>
    rw [none, none']
    rfl
  | @found location old new leads leads' there there' grown =>
    have found := lookup_eq_ok_iff.mpr ⟨location, leads, there⟩
    have found' := lookup_eq_ok_iff.mpr ⟨location, leads', there'⟩
    rw [found, found']
    refine congrArg some (grown.findings_eq (lookup_tidy tidy found) (lookup_tidy tidy' found') fun isDeep => ?_)
    intro steps absent made
    rw [← itemAt?_append there] at absent
    rw [← itemAt?_append there'] at made
    exact listsNew isDeep location leads' steps absent made

theorem Stays.readsAlike_below (stays : Stays before after path) (tidy : before.root.Tidy)
    (spelled : before.root.Spelled) {findings : List Finding} (listed : before.findings deep path = .ok findings)
    {steps : Location} (mem : ⟨steps, none⟩ ∈ findings) :
    ReadsAlike before after (Path.joinAll path steps) := by
  cases stays with
  | lost none =>
    unfold FileSystem.findings at listed
    rw [none] at listed
    cases listed
  | @found location old new leads leads' there there' grown =>
    have found := lookup_eq_ok_iff.mpr ⟨location, leads, there⟩
    unfold FileSystem.findings at listed
    rw [found] at listed
    cases listed
    obtain ⟨⟨-, leaf, ⟨-, below⟩, file⟩, -⟩ := (Node.mem_findings_file (lookup_tidy tidy found)).mp mem
    have proper : ∀ step ∈ steps, Path.Proper step := by
      intro step mem
      refine spelled (location ++ steps) leaf ?_ step (List.mem_append_right location mem)
      rw [Node.at?_append, there]
      exact below
    unfold ReadsAlike
    rw [readFile_below grown leads leads' there there' below proper]
    · cases leaf with
      | dir | link => cases file
      | file | locked => exact Item.noConfusion
    · cases leaf with
      | link => cases file
      | file | locked | dir => rfl

end FileSystem

/-- The reports have the same records and count as many files and failures. -/
structure MergeReport.Agrees (report other : MergeReport) : Prop where
  records : other.records = report.records
  loaded : other.loaded = report.loaded
  failed : other.errors.length = report.errors.length

inductive MergeOutcome.Agrees : MergeOutcome → MergeOutcome → Prop where
  | loaded {report other : MergeReport} (agrees : report.Agrees other) : Agrees (.loaded report) (.loaded other)
  | empty (reason reason' : EmptyReason) : Agrees (.empty reason) (.empty reason')

namespace MergeReport

variable {report other more more' : MergeReport}

theorem Agrees.refl (report : MergeReport) : report.Agrees report :=
  ⟨rfl, rfl, rfl⟩

theorem Agrees.absorb (agrees : report.Agrees other) (agrees' : more.Agrees more') :
    (report.absorb more).Agrees (other.absorb more') where
  records := by rw [MergeReport.absorb, MergeReport.absorb, agrees.records, agrees'.records]
  loaded := by rw [MergeReport.absorb, MergeReport.absorb, agrees.loaded, agrees'.loaded]
  failed := by
    simp only [MergeReport.absorb, List.length_append]
    rw [agrees.failed, agrees'.failed]

theorem Agrees.labelled (agrees : report.Agrees other) (label : String) :
    (report.labelled label).Agrees (other.labelled label) :=
  ⟨congrArg (fun d : Dataset Float => d.stampVariant label) agrees.records, agrees.loaded, agrees.failed⟩

theorem Agrees.errors_iff (agrees : report.Agrees other) : other.errors = [] ↔ report.errors = [] := by
  rw [← List.length_eq_zero_iff, ← List.length_eq_zero_iff, agrees.failed]

end MergeReport

namespace Merger

open FileSystem (Stays ReadsAlike ListsNew)
open MergeReport (Agrees)

variable {m : Merger} {before after : FileSystem} {report other : MergeReport} {path : Bytes}

theorem note_repeats (agrees : report.Agrees other) (path : Bytes) (failure failure' : Failure) :
    Repeats Agrees (m.note report path failure) (m.note other path failure') := by
  unfold note
  split
  · exact .error _ _
  · refine .ok ⟨agrees.records, agrees.loaded, ?_⟩
    rw [List.length_append, List.length_append, agrees.failed]
    rfl

theorem load_toOption (fs : FileSystem) (path : Bytes) (required : List Field) :
    (ResultFile.load fs path required).toOption = (fs.readFile path).toOption.bind fun bytes =>
      ((ResultFile.ofBytes path required bytes).map (Dataset.stampSource path)).toOption := by
  unfold ResultFile.load FileSystem.readFile
  cases fs.openFile path with
  | error cause => rfl
  | ok read => cases read <;> rfl

theorem load_alike (alike : ReadsAlike before after path) (required : List Field) :
    (ResultFile.load after path required).toOption = (ResultFile.load before path required).toOption := by
  unfold ReadsAlike at alike
  rw [load_toOption, load_toOption, alike]

theorem loadFile_repeats (subfolder : Option String) (agrees : report.Agrees other)
    (alike : ReadsAlike before after path) :
    Repeats Agrees (m.loadFile before subfolder report path) (m.loadFile after subfolder other path) := by
  have same := load_alike alike m.required
  unfold loadFile
  cases loaded : ResultFile.load before path m.required <;> cases loaded' : ResultFile.load after path m.required <;>
    rw [loaded, loaded'] at same
  · exact note_repeats agrees path _ _
  · cases same
  · cases same
  · cases same
    refine .ok ⟨?_, ?_, agrees.failed⟩
    · rw [agrees.records]
    · rw [agrees.loaded]

theorem loadFiles_repeats (subfolder : Option String) (agrees : report.Agrees other) {paths : List Bytes}
    (alike : ∀ path ∈ paths, ReadsAlike before after path) :
    Repeats Agrees (m.loadFiles before subfolder report paths) (m.loadFiles after subfolder other paths) := by
  refine Repeats.foldlM (fun path mem report other agrees => ?_) agrees
  exact loadFile_repeats subfolder agrees (alike path mem)

theorem noteFault_repeats (dir : Bytes) (findings : List Finding) (agrees : report.Agrees other) :
    Repeats Agrees (findings.foldlM (m.noteFault dir) report) (findings.foldlM (m.noteFault dir) other) := by
  refine .foldlM (fun found _ report other agrees => ?_) agrees
  unfold noteFault
  split
  · exact .ok agrees
  · exact note_repeats agrees _ _ _

theorem mem_choose {dir : Bytes} {findings : List Finding} (chosen : path ∈ m.choose dir findings) :
    ∃ steps, ⟨steps, none⟩ ∈ findings ∧ path = Path.joinAll dir steps := by
  rw [choose_eq] at chosen
  obtain ⟨steps, mem, rfl⟩ := List.mem_map.mp chosen
  exact ⟨steps, mem_files_iff.mp (List.mem_filter.mp mem).1, rfl⟩

theorem collect_repeats (tidy : before.root.Tidy) (tidy' : after.root.Tidy) (spelled : before.root.Spelled)
    {dir : Bytes} (stays : Stays before after dir) {deep : Bool} (listsNew : deep = true → ListsNew before after dir)
    (agrees : report.Agrees other) :
    Repeats (fun found found' => found'.1 = found.1 ∧ found.2.Agrees found'.2 ∧
        ∀ path ∈ found.1, ReadsAlike before after path)
      (m.collect before dir deep report) (m.collect after dir deep other) := by
  have same := stays.findings_eq tidy tidy' listsNew
  unfold Merger.collect
  cases listed : before.findings deep dir <;> cases listed' : after.findings deep dir <;> rw [listed, listed'] at same
  · exact (note_repeats agrees dir _ _).map fun _ _ agrees => ⟨rfl, agrees, fun path none => by cases none⟩
  · cases same
  · cases same
  · cases same
    refine (noteFault_repeats dir _ agrees).map fun _ _ agrees => ⟨rfl, agrees, fun path chosen => ?_⟩
    obtain ⟨steps, mem, rfl⟩ := mem_choose chosen
    exact stays.readsAlike_below tidy spelled listed mem

theorem requireDir_repeats {root : Bytes} (stays : Stays before after root) :
    Repeats Eq (requireDir before root) (requireDir after root) := by
  unfold requireDir
  obtain ⟨cause, cause', none, none'⟩ | ⟨old, new, found, found', grown⟩ := stays.lookup_cases
  · rw [none]
    exact .error _ _
  · rw [found, found']
    dsimp only
    rw [grown.isDirectory_eq]
    split
    · exact .ok rfl
    · exact .error _ _

theorem mergeFiles_repeats {paths : List Bytes} (stays : ∀ path ∈ paths, Stays before after path) :
    Repeats MergeOutcome.Agrees (m.mergeFiles before paths) (m.mergeFiles after paths) := by
  unfold mergeFiles
  split
  · exact .ok (.empty _ _)
  · refine (loadFiles_repeats none (.refl {}) fun path mem => (stays path mem).readsAlike).map fun _ _ agrees => ?_
    exact .loaded agrees

theorem mergeDirectory_repeats (tidy : before.root.Tidy) (tidy' : after.root.Tidy) (spelled : before.root.Spelled)
    {root : Bytes} (stays : Stays before after root) {deep : Bool}
    (listsNew : deep = true → ListsNew before after root) :
    Repeats MergeOutcome.Agrees (m.mergeDirectory before root deep) (m.mergeDirectory after root deep) := by
  unfold mergeDirectory
  refine (requireDir_repeats stays).bind fun _ _ _ => ?_
  refine (collect_repeats tidy tidy' spelled stays listsNew (.refl {})).bind ?_
  rintro ⟨files, report⟩ ⟨_, other⟩ ⟨rfl, agrees, alike⟩
  refine .ite (and_congr_right fun _ => agrees.errors_iff) (fun _ => .ok (.empty _ _)) fun _ => ?_
  exact (loadFiles_repeats none agrees alike).bind fun _ _ agrees => .ok (.loaded agrees)

theorem mergeSubfolder_repeats (tidy : before.root.Tidy) (tidy' : after.root.Tidy) (spelled : before.root.Spelled)
    {sub : Subfolder} (stays : Stays before after sub.path) (listsNew : ListsNew before after sub.path)
    (agrees : report.Agrees other) :
    Repeats Agrees (m.mergeSubfolder before report sub) (m.mergeSubfolder after other sub) := by
  unfold mergeSubfolder
  refine (collect_repeats tidy tidy' spelled stays (fun _ => listsNew) agrees).bind ?_
  rintro ⟨files, report⟩ ⟨_, other⟩ ⟨rfl, agrees, alike⟩
  dsimp only
  split
  · exact .ok ⟨agrees.records, agrees.loaded, agrees.failed⟩
  · exact loadFiles_repeats (some sub.name) agrees alike

/-- A subfolder in which there is nothing to find is passed over. -/
theorem mergeSubfolder_silent {sub : Subfolder} (silent : after.findings true sub.path = .ok [])
    (agrees : report.Agrees other) : Yields report.Agrees (m.mergeSubfolder after other sub) := by
  unfold mergeSubfolder Merger.collect
  dsimp only
  rw [silent]
  exact .ok ⟨agrees.records, agrees.loaded, agrees.failed⟩

/-- A root that stays, as do its subfolders; in those that are new there is nothing to find. -/
structure StaysBelow (before after : FileSystem) (root : Bytes) : Prop where
  stays : Stays before after root
  subfolders : ∀ subs, before.subfolders root = .ok subs → ∃ subs', after.subfolders root = .ok subs' ∧
    subs.Sublist subs' ∧ subs'.Nodup ∧
    (∀ sub ∈ subs, Stays before after sub.path ∧ ListsNew before after sub.path) ∧
    ∀ sub ∈ subs', sub ∉ subs → after.findings true sub.path = .ok []

theorem mergeSubfolders_repeats (tidy : before.root.Tidy) (tidy' : after.root.Tidy) (spelled : before.root.Spelled)
    {root : Bytes} (below : StaysBelow before after root) :
    Repeats MergeOutcome.Agrees (m.mergeSubfolders before root) (m.mergeSubfolders after root) := by
  unfold mergeSubfolders
  refine (requireDir_repeats below.stays).bind fun _ _ _ => ?_
  cases listed : before.subfolders root with
  | error cause => exact .error _ _
  | ok subs =>
  obtain ⟨subs', listed', sub, once, each, silent⟩ := below.subfolders subs listed
  rw [listed']
  let outcome (report : MergeReport) : Except Failure MergeOutcome :=
    if report.loaded = 0 ∧ report.errors = [] then .ok (.empty (.noUsableFiles root)) else .ok (.loaded report)
  have outcomes : ∀ report other, report.Agrees other →
      Repeats MergeOutcome.Agrees (outcome report) (outcome other) := fun report other agrees =>
    .ite (and_congr (by rw [agrees.loaded]) agrees.errors_iff) (fun _ => .ok (.empty _ _))
      fun _ => .ok (.loaded agrees)
  change Repeats _ (if subs = [] then .ok (.empty (.noSubfolders root)) else _ >>= outcome)
    (if subs' = [] then .ok (.empty (.noSubfolders root)) else _ >>= outcome)
  have folded : Repeats Agrees (subs.foldlM (m.mergeSubfolder before) {})
      (subs'.foldlM (m.mergeSubfolder after) {}) := by
    refine Repeats.foldlM_sublist sub once (fun sub mem report other agrees => ?_)
      (fun sub mem new report other agrees => ?_) (.refl {})
    · obtain ⟨stays, listsNew⟩ := each sub mem
      exact mergeSubfolder_repeats tidy tidy' spelled stays listsNew agrees
    · exact mergeSubfolder_silent (silent sub mem new) agrees
  by_cases none' : subs' = []
  · have none : subs = [] := List.sublist_nil.mp (none' ▸ sub)
    rw [if_pos none, if_pos none']
    exact .ok (.empty _ _)
  rw [if_neg none']
  by_cases none : subs = []
  · -- All subdirectories are new, and a merge of these is empty for another reason.
    rw [if_pos none]
    rw [none] at folded
    obtain ⟨other, merged, agrees⟩ := folded {} rfl
    rw [merged]
    rintro _ ⟨⟩
    obtain ⟨last, ended, empty⟩ := outcomes {} other agrees _ rfl
    cases empty
    exact ⟨_, ended, .empty _ _⟩
  · rw [if_neg none]
    exact folded.bind outcomes

inductive AgreesSoFar : Option MergeReport → Option MergeReport → Prop where
  | none : AgreesSoFar none none
  | some {report other : MergeReport} (agrees : report.Agrees other) : AgreesSoFar (some report) (some other)

theorem AgreesSoFar.getD {merged merged' : Option MergeReport} (agrees : AgreesSoFar merged merged') :
    (merged.getD {}).Agrees (merged'.getD {}) := by
  cases agrees with
  | none => exact .refl {}
  | some agrees => exact agrees

theorem mergeLabelled_repeats (tidy : before.root.Tidy) (tidy' : after.root.Tidy) (spelled : before.root.Spelled)
    (pairs : List (Bytes × String)) (below : ∀ pair ∈ pairs, StaysBelow before after pair.1)
    {merged merged' : Option MergeReport} (agrees : AgreesSoFar merged merged') (reason reason' : Option EmptyReason) :
    Repeats MergeOutcome.Agrees (m.mergeLabelled before pairs merged reason)
      (m.mergeLabelled after pairs merged' reason') := by
  induction pairs generalizing merged merged' reason reason' with
  | nil =>
    cases agrees with
    | none => exact .ok (.empty _ _)
    | some agrees => exact .ok (.loaded agrees)
  | cons pair pairs ih =>
    obtain ⟨own, others⟩ := List.forall_mem_cons.mp below
    rw [mergeLabelled, mergeLabelled]
    refine (mergeSubfolders_repeats tidy tidy' spelled own).bind fun outcome outcome' next => ?_
    cases next with
    | loaded next => exact ih others (.some (agrees.getD.absorb (next.labelled pair.2))) reason reason'
    | empty => exact ih others agrees _ _

theorem mergeVariants_repeats (tidy : before.root.Tidy) (tidy' : after.root.Tidy) (spelled : before.root.Spelled)
    {roots : List Bytes} (below : ∀ root ∈ roots, StaysBelow before after root) (labels : List String) :
    Repeats MergeOutcome.Agrees (m.mergeVariants before roots labels) (m.mergeVariants after roots labels) := by
  unfold mergeVariants
  split
  · exact .error _ _
  · split
    · exact .error _ _
    · refine mergeLabelled_repeats tidy tidy' spelled _ (fun pair mem => ?_) .none none none
      exact below pair.1 (List.of_mem_zip mem).1

end Merger

end SweepPlot
