import Mathlib
import SweepPlot.Merge
import SweepPlot.Proofs.Files.Listing
set_option autoImplicit false

namespace SweepPlot

namespace ResultFile

/-- The records of one file before they are told where they came from. -/
def parse (fs : FileSystem) (required : List Field) (path : Bytes) : Except Failure Dataset :=
  match fs.openFile path with
  | .error cause => .error (.io path cause)
  | .ok read => ofInput path required read

theorem load_eq_parse (fs : FileSystem) (path : Bytes) (required : List Field) :
    load fs path required = (parse fs required path).map (Dataset.stampSource path) := by
  unfold load parse
  cases fs.openFile path <;> rfl

end ResultFile

namespace MergeReport

theorem absorb_assoc (a b c : MergeReport) : (a.absorb b).absorb c = a.absorb (b.absorb c) := by
  simp [absorb, Nat.add_assoc]

theorem absorb_empty (a : MergeReport) : a.absorb {} = a := by
  simp [absorb]

theorem empty_absorb (a : MergeReport) : absorb {} a = a := by
  simp [absorb]

def concat (parts : List MergeReport) : MergeReport :=
  parts.foldr absorb {}

theorem concat_cons (part : MergeReport) (parts : List MergeReport) :
    concat (part :: parts) = part.absorb (concat parts) := rfl

theorem concat_eq (parts : List MergeReport) :
    concat parts =
      { records := parts.flatMap (·.records)
        errors := parts.flatMap (·.errors)
        loaded := (parts.map (·.loaded)).sum
        emptySubfolders := parts.flatMap (·.emptySubfolders) } := by
  induction parts with
  | nil => rfl
  | cons part parts ih =>
    rw [concat_cons, ih, absorb]
    simp

theorem concat_append (parts more : List MergeReport) :
    concat (parts ++ more) = (concat parts).absorb (concat more) := by
  induction parts with
  | nil => exact (empty_absorb _).symm
  | cons part parts ih => rw [List.cons_append, concat_cons, concat_cons, ih, absorb_assoc]

theorem concat_filterMap {α : Type} (part? : α → Option MergeReport) (as : List α) :
    concat (as.filterMap part?) = concat (as.map fun a => (part? a).getD {}) := by
  induction as with
  | nil => rfl
  | cons a as ih =>
    rw [List.map_cons, concat_cons, ← ih]
    cases h : part? a with
    | none => rw [List.filterMap_cons_none h, Option.getD_none, empty_absorb]
    | some part => rw [List.filterMap_cons_some h, Option.getD_some, concat_cons]

def labelled (label : String) (report : MergeReport) : MergeReport :=
  { report with records := report.records.stampVariant label }

theorem labelled_concat (label : String) (parts : List MergeReport) :
    (concat parts).labelled label = concat (parts.map (labelled label)) := by
  induction parts with
  | nil => rfl
  | cons part parts ih =>
    rw [List.map_cons, concat_cons, concat_cons, ← ih]
    simp [labelled, absorb, Dataset.stampVariant]

theorem foldlM_absorb {α : Type} {step : MergeReport → α → Except Failure MergeReport}
    {part : α → MergeReport} (h : ∀ report a, step report a = .ok (report.absorb (part a)))
    (as : List α) (report : MergeReport) :
    as.foldlM step report = .ok (report.absorb (concat (as.map part))) := by
  induction as generalizing report with
  | nil => exact congrArg Except.ok report.absorb_empty.symm
  | cons a as ih =>
    rw [List.foldlM_cons, h, List.map_cons, concat_cons, ← absorb_assoc]
    exact ih _

end MergeReport

namespace Merger

open MergeReport

variable {m : Merger} {fs : FileSystem}

def fileReport (m : Merger) (fs : FileSystem) (subfolder : Option String) (path : Bytes) : MergeReport :=
  match ResultFile.load fs path m.required with
  | .error failure => { errors := [⟨path, failure⟩] }
  | .ok d => { records := stamped subfolder d, loaded := 1 }

theorem note_collects (collect : m.errorMode = .collectErrors) (report : MergeReport) (path : Bytes)
    (failure : Failure) :
    m.note report path failure = .ok (report.absorb { errors := [⟨path, failure⟩] }) := by
  simp [note, collect, absorb]

theorem loadFiles_collects (collect : m.errorMode = .collectErrors) (subfolder : Option String)
    (report : MergeReport) (paths : List Bytes) :
    m.loadFiles fs subfolder report paths =
      .ok (report.absorb (concat (paths.map (m.fileReport fs subfolder)))) := by
  refine foldlM_absorb (fun report path => ?_) paths report
  unfold loadFile fileReport
  cases ResultFile.load fs path m.required with
  | error failure => exact note_collects collect report path failure
  | ok d => simp [absorb]

def walkFailure? (dir : Bytes) (found : Finding) : Option FileFailure :=
  found.fault.map fun cause =>
    let path := Path.joinAll dir found.steps
    ⟨path, .io path cause⟩

def walkFailures (fs : FileSystem) (deep : Bool) (dir : Bytes) : List FileFailure :=
  match fs.findings deep dir with
  | .error cause => [⟨dir, .io dir cause⟩]
  | .ok findings => findings.filterMap (walkFailure? dir)

/-- The chosen files below a directory by the names that lead to them. -/
def chosen (m : Merger) (fs : FileSystem) (deep : Bool) (dir : Bytes) : List Location :=
  match fs.findings deep dir with
  | .error _ => []
  | .ok findings => ((findings.filter fun found => found.fault.isNone).map (·.steps)).filter fun steps =>
      m.choice.accepts (Path.joinAll dir steps)

/-- The locations are those of the chosen files below a directory to which listable directories lead, each once and
in path order. -/
structure ListsChosen (m : Merger) (fs : FileSystem) (deep : Bool) (dir : Bytes)
    (found : List Location) : Prop where
  rising : found.Pairwise (· < ·)
  mem_iff : ∀ steps, steps ∈ found ↔ m.choice.accepts (Path.joinAll dir steps) = true ∧
    ∃ node, fs.lookup dir = .ok node ∧ node.HasFile steps ∧ (deep = true ∨ steps.length = 1) ∧
      (Path.joinAll dir steps.dropLast).length < FileSystem.pathLimit

theorem mem_files_iff {findings : List Finding} {steps : Location} :
    steps ∈ (findings.filter fun found => found.fault.isNone).map (·.steps) ↔ ⟨steps, none⟩ ∈ findings := by
  constructor
  · intro hs
    obtain ⟨⟨_, fault⟩, hf, rfl⟩ := List.mem_map.mp hs
    cases fault with
    | none => exact (List.mem_filter.mp hf).1
    | some cause => simp at hf
  · intro hs
    exact List.mem_map.mpr ⟨⟨steps, none⟩, List.mem_filter.mpr ⟨hs, rfl⟩, rfl⟩

theorem chosen_lists (tidy : fs.root.Tidy) (deep : Bool) (dir : Bytes) :
    m.ListsChosen fs deep dir (m.chosen fs deep dir) := by
  unfold chosen FileSystem.findings
  cases h : fs.lookup dir with
  | error cause => exact ⟨List.Pairwise.nil, by simp [h, Except.map]⟩
  | ok node =>
    have nodeTidy := FileSystem.lookup_tidy tidy h
    constructor
    · have rising := (node.rising_findings nodeTidy deep dir).filter fun found => found.fault.isNone
      exact (List.pairwise_map.mpr rising).filter _
    · intro steps
      simp only [h, Except.map, List.mem_filter, mem_files_iff, Node.mem_findings_file nodeTidy,
        Except.ok.injEq, exists_eq_left']
      exact and_comm

theorem mem_chosen_of_openTo (tidy : fs.root.Tidy) {deep : Bool} {dir : Bytes} {node : Node}
    (found : fs.lookup dir = .ok node) (free : node.OpenTo deep dir) {steps : Location} :
    steps ∈ m.chosen fs deep dir ↔ m.choice.accepts (Path.joinAll dir steps) = true ∧ node.HasFile steps ∧
      (deep = true ∨ steps.length = 1) := by
  have nodeTidy := FileSystem.lookup_tidy tidy found
  rw [(chosen_lists tidy deep dir).mem_iff]
  simp only [found, Except.ok.injEq, exists_eq_left', ← Node.mem_findings_file nodeTidy, free.mem_findings nodeTidy]

theorem choose_eq (m : Merger) (dir : Bytes) (findings : List Finding) :
    m.choose dir findings = (((findings.filter fun found => found.fault.isNone).map (·.steps)).filter
      fun steps => m.choice.accepts (Path.joinAll dir steps)).map (Path.joinAll dir) := by
  unfold choose
  induction findings.filter fun found => found.fault.isNone with
  | nil => rfl
  | cons found rest ih =>
    by_cases accepted : m.choice.accepts (Path.joinAll dir found.steps) = true <;> simp [accepted, ih]

theorem noteFault_collects (collect : m.errorMode = .collectErrors) (dir : Bytes)
    (findings : List Finding) (report : MergeReport) :
    findings.foldlM (m.noteFault dir) report =
      .ok (report.absorb { errors := findings.filterMap (walkFailure? dir) }) := by
  have noted : ∀ report found, m.noteFault dir report found =
      .ok (report.absorb { errors := (walkFailure? dir found).toList }) := by
    intro report found
    unfold noteFault walkFailure?
    cases found.fault with
    | none => exact congrArg Except.ok report.absorb_empty.symm
    | some cause => exact note_collects collect report _ _
  rw [foldlM_absorb noted]
  congr 2
  induction findings with
  | nil => rfl
  | cons found rest ih =>
    rw [List.map_cons, concat_cons, ih]
    cases h : walkFailure? dir found <;> simp [absorb, h]

theorem collect_collects (collect : m.errorMode = .collectErrors) (dir : Bytes) (deep : Bool)
    (report : MergeReport) :
    m.collect fs dir deep report = .ok ((m.chosen fs deep dir).map (Path.joinAll dir),
      report.absorb { errors := walkFailures fs deep dir }) := by
  unfold Merger.collect chosen walkFailures
  cases fs.findings deep dir with
  | error cause =>
    simp only [note_collects collect]
    rfl
  | ok findings =>
    simp only [noteFault_collects collect, choose_eq]
    rfl

theorem requireDir_of_isDir {root : Bytes} (isDir : fs.isDir root = true) : requireDir fs root = .ok () := by
  obtain ⟨node, found, directory⟩ := FileSystem.isDir_iff.mp isDir
  unfold requireDir
  rw [found]
  exact if_pos directory

/-- What a directory gives: what its walk notes, and then its chosen files. -/
def directoryReport (m : Merger) (fs : FileSystem) (deep : Bool) (root : Bytes) : MergeReport :=
  absorb { errors := walkFailures fs deep root }
    (concat ((m.chosen fs deep root).map fun steps => m.fileReport fs none (Path.joinAll root steps)))

theorem mergeDirectory_eq (collect : m.errorMode = .collectErrors) {root : Bytes}
    (isDir : requireDir fs root = .ok ()) {deep : Bool} : m.mergeDirectory fs root deep =
      .ok (if m.chosen fs deep root = [] ∧ walkFailures fs deep root = [] then .empty .noFiles
        else .loaded (m.directoryReport fs deep root)) := by
  unfold mergeDirectory directoryReport
  simp only [isDir, collect_collects collect, loadFiles_collects collect, empty_absorb]
  by_cases silent : m.chosen fs deep root = [] ∧ walkFailures fs deep root = []
  · simp [silent, bind, Except.bind, pure, Except.pure]
  · simp [silent, bind, Except.bind, pure, Except.pure, Function.comp_def]

def below (m : Merger) (fs : FileSystem) (sub : Subfolder) : List Location :=
  m.chosen fs true sub.path

def subfolderReport (m : Merger) (fs : FileSystem) (sub : Subfolder) : MergeReport :=
  absorb { errors := walkFailures fs true sub.path } <|
    if m.below fs sub = [] then { emptySubfolders := [sub.path] }
    else concat ((m.below fs sub).map fun steps =>
      m.fileReport fs (some sub.name) (Path.joinAll sub.path steps))

theorem mergeSubfolder_collects (collect : m.errorMode = .collectErrors) (report : MergeReport) (sub : Subfolder) :
    m.mergeSubfolder fs report sub = .ok (report.absorb (m.subfolderReport fs sub)) := by
  unfold mergeSubfolder subfolderReport below
  simp only [collect_collects collect, loadFiles_collects collect, ← absorb_assoc]
  by_cases none : m.chosen fs true sub.path = []
  · simp [none, absorb, bind, Except.bind, pure, Except.pure]
  · simp [none, bind, Except.bind, Function.comp_def]

def outcomeBelow (m : Merger) (fs : FileSystem) (root : Bytes) (subs : List Subfolder) : MergeOutcome :=
  let report := concat (subs.map (m.subfolderReport fs))
  if subs = [] then .empty (.noSubfolders root)
  else if report.loaded = 0 ∧ report.errors = [] then .empty (.noUsableFiles root)
  else .loaded report

theorem mergeSubfolders_collects (collect : m.errorMode = .collectErrors) {root : Bytes}
    {subs : List Subfolder} (isDir : requireDir fs root = .ok ())
    (listed : fs.subfolders root = .ok subs) :
    m.mergeSubfolders fs root = .ok (m.outcomeBelow fs root subs) := by
  unfold mergeSubfolders outcomeBelow
  simp only [isDir, listed, foldlM_absorb (mergeSubfolder_collects collect), empty_absorb]
  by_cases none : subs = []
  · simp [none, bind, Except.bind, Except.mapError, pure, Except.pure]
  · simp only [none, bind, Except.bind, Except.mapError, if_false]
    split <;> rfl

end Merger

end SweepPlot
