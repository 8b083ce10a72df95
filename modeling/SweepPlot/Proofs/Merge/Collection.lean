import SweepPlot.Proofs.Merge.Discovery
set_option autoImplicit false

/-!
The files that a directory gives to a merge, and their order. What the walk lists and the rule accepts is told from the
tree below the directory alone. The files stand in the order of their paths name by name, in which the content of a
directory stands at the directory's own place; this is not the order of the paths as texts.
-/

namespace SweepPlot

namespace Path

/-- Paths are compared step by step, and steps by their bytes. -/
def Before (p q : Bytes) : Prop :=
  steps p < steps q

theorem steps_joinAll_of_closed {path : Bytes} {names : Location} (given : path ≠ [])
    (closed : path.getLast? ≠ some slash) (proper : ∀ name ∈ names, Proper name) :
    steps (joinAll path names) = steps path ++ names := by
  induction names generalizing path with
  | nil => exact (List.append_nil _).symm
  | cons name names ih =>
    obtain ⟨own, others⟩ := List.forall_mem_cons.mp proper
    obtain ⟨given', closed'⟩ := join_closed path own
    have joined : steps (join path name) = steps path ++ [name] := by
      unfold join
      rw [if_neg (not_or.mpr ⟨given, closed⟩), steps_append, steps_of_not_mem own.plain]
    refine (ih given' closed' others).trans ?_
    rw [joined, List.append_assoc, List.singleton_append]

theorem exists_steps_joinAll (dir : Bytes) : ∃ front, ∀ names : Location, names ≠ [] →
    (∀ name ∈ names, Proper name) → steps (joinAll dir names) = front ++ names := by
  obtain ⟨front, -, own⟩ := steps_join dir
  refine ⟨front, fun names below proper => ?_⟩
  cases names with
  | nil => exact absurd rfl below
  | cons name names =>
    obtain ⟨first, others⟩ := List.forall_mem_cons.mp proper
    obtain ⟨given, closed⟩ := join_closed dir first
    refine (steps_joinAll_of_closed given closed others).trans ?_
    rw [own name first.plain, List.append_assoc, List.singleton_append]

theorem fileName?_joinAll (dir : Bytes) {names : Location} {last : Bytes} (ends : names.getLast? = some last)
    (proper : ∀ name ∈ names, Proper name) : fileName? (joinAll dir names) = some last := by
  have below : names ≠ [] := fun none => by
    rw [none] at ends
    cases ends
  obtain ⟨front, steps_⟩ := exists_steps_joinAll dir
  have kept : names.filter (fun step => step != [] && step != here) = names := by
    refine List.filter_eq_self.mpr fun name mem => ?_
    have word := (proper name mem).names.1
    rw [isName, Bool.and_eq_true] at word
    exact word.1
  rw [fileName?, steps_ names below proper, List.filter_append, kept, List.getLast?_append, ends]
  exact if_pos (proper last (List.mem_of_getLast? ends)).names.1

end Path

theorem FileChoice.accepts_joinAll (choice : FileChoice) (dir : Bytes) {names : Location} (below : names ≠ [])
    (proper : ∀ name ∈ names, Path.Proper name) : choice.accepts (Path.joinAll dir names) =
      (names.getLast?.bind Bytes.text?).any choice.acceptsName := by
  obtain ⟨last, ends⟩ := Option.ne_none_iff_exists'.mp (mt List.getLast?_eq_none_iff.mp below)
  rw [accepts, Path.fileName?_joinAll dir ends proper, ends, Option.bind_some]
  cases Bytes.text? last <;> rfl

namespace Node

/-- The locations are those of the files that the rule accepts and to which names lead that are text without a dot at the
start, each once and in order. -/
structure ListsFiles (node : Node) (choice : FileChoice) (deep : Bool) (found : List Location) : Prop where
  rising : found.Pairwise (· < ·)
  mem_iff : ∀ steps, steps ∈ found ↔ (∃ leaf, node.at? steps = some leaf ∧ leaf.isFile = true) ∧
    (∀ step ∈ steps, ∃ name : String, step = name ∧ Path.isHidden name = false) ∧
    (deep = true ∨ steps.length = 1) ∧
    ∃ name : String, steps.getLast? = some (Bytes.ofText name) ∧ choice.acceptsName name = true

theorem hasFile_iff {node : Node} {steps : Location} : node.HasFile steps ↔ steps ≠ [] ∧
    (∃ leaf, node.at? steps = some leaf ∧ leaf.isFile = true) ∧
      ∀ step ∈ steps, ∃ name : String, step = name ∧ Path.isHidden name = false := by
  have visible : ∀ step : Bytes, Path.isVisible step = true ↔
      ∃ name : String, step = name ∧ Path.isHidden name = false := by
    intro step
    rw [Path.isVisible]
    cases read : step.text? with
    | none =>
      refine iff_of_false (by simp) ?_
      rintro ⟨name, rfl, -⟩
      cases read.symm.trans (Bytes.text?_ofText name)
    | some text =>
      rw [Bytes.text?_eq_some_iff.mp read]
      simp
  simp only [HasFile, Leads, visible]
  grind

theorem ListsFiles.unique {node : Node} {choice : FileChoice} {deep : Bool} {found others : List Location}
    (first : node.ListsFiles choice deep found) (second : node.ListsFiles choice deep others) : found = others := by
  have perm : found.Perm others := (List.perm_ext_iff_of_nodup (first.rising.imp Std.ne_of_lt)
    (second.rising.imp Std.ne_of_lt)).mpr fun steps => (first.mem_iff steps).trans (second.mem_iff steps).symm
  have never : ∀ p q : Location, p < q → q < p → p = q :=
    fun _ _ below above => absurd (Std.lt_trans below above) Std.lt_irrefl
  exact perm.eq_of_pairwise (fun p q _ _ => never p q) first.rising second.rising

end Node

namespace Merger

variable {m : Merger} {fs : FileSystem} {node : Node} {dir : Bytes} {deep : Bool}

theorem foldlM_noteFault {findings : List Finding} (clean : ∀ found ∈ findings, found.fault = none)
    (report : MergeReport) : findings.foldlM (m.noteFault dir) report = .ok report := by
  induction findings with
  | nil => rfl
  | cons found findings ih =>
    obtain ⟨first, others⟩ := List.forall_mem_cons.mp clean
    have noted : m.noteFault dir report found = .ok report := by
      rw [noteFault, first]
    rw [List.foldlM_cons, noted]
    exact ih others

theorem collect_of_lookup (found : fs.lookup dir = .ok node) (tidy : node.Tidy) (free : node.OpenTo deep dir)
    (report : MergeReport) :
    m.collect fs dir deep report = .ok ((m.picked dir (node.findings deep dir)).map (Path.joinAll dir), report) := by
  rw [Merger.collect, FileSystem.findings, found]
  change ((node.findings deep dir).foldlM (m.noteFault dir) report).map _ = _
  rw [foldlM_noteFault fun _ => free.clean tidy]
  exact congrArg (fun paths => Except.ok (paths, report)) (choose_eq m dir (node.findings deep dir))

/-- What a walk that meets no fault chooses does not depend on where it starts. -/
theorem picked_lists (m : Merger) (tidy : node.Tidy) (spelled : node.Spelled) (free : node.OpenTo deep dir) :
    node.ListsFiles m.choice deep (m.picked dir (node.findings deep dir)) := by
  constructor
  · have rising := (node.rising_findings tidy deep dir).filter fun found => found.fault.isNone
    exact (List.pairwise_map.mpr rising).filter _
  · intro steps
    rw [picked, List.mem_filter, mem_files_iff, free.mem_findings tidy]
    have own : node.HasFile steps → m.choice.accepts (Path.joinAll dir steps) =
        (steps.getLast?.bind Bytes.text?).any m.choice.acceptsName := fun ⟨below, _, leads, _⟩ =>
      m.choice.accepts_joinAll dir below (spelled _ _ leads.2)
    have named : (steps.getLast?.bind Bytes.text?).any m.choice.acceptsName = true ↔
        ∃ name : String, steps.getLast? = some (Bytes.ofText name) ∧ m.choice.acceptsName name = true := by
      simp only [Option.any_eq_true, Option.bind_eq_some_iff, Bytes.text?_eq_some_iff]
      grind
    rw [← named]
    have below : (steps.getLast?.bind Bytes.text?).any m.choice.acceptsName = true → steps ≠ [] := by
      rintro last rfl
      cases last
    grind [Node.hasFile_iff]

/-- A directory gives the files that the rule accepts and to which text leads without a dot at the start of a name, each
once and in the order of their paths. Neither its own path nor what the report holds so far makes a difference. -/
theorem collect_lists (tidy : node.Tidy) (spelled : node.Spelled) (choice : FileChoice) (free : node.OpenTo deep dir) :
    ∃ found, node.ListsFiles choice deep found ∧
      ∀ (m : Merger) (fs : FileSystem) (other : Bytes) (report : MergeReport), m.choice = choice →
        fs.lookup other = .ok node → node.OpenTo deep other →
        m.collect fs other deep report = .ok (found.map (Path.joinAll other), report) ∧
          (found.map (Path.joinAll other)).Pairwise Path.Before := by
  obtain ⟨files, lists⟩ : ∃ files, node.ListsFiles choice deep files :=
    ⟨_, picked_lists { choice := choice } tidy spelled free⟩
  refine ⟨files, lists, ?_⟩
  rintro m fs other report rfl found free
  have same := (picked_lists m tidy spelled free).unique lists
  refine ⟨?_, ?_⟩
  · rw [collect_of_lookup found tidy free, same]
  · obtain ⟨front, steps⟩ := Path.exists_steps_joinAll other
    rw [List.pairwise_map]
    refine lists.rising.imp_of_mem fun {a b} memA memB before => ?_
    have own : ∀ names ∈ files, Path.steps (Path.joinAll other names) = front ++ names := by
      intro names mem
      obtain ⟨⟨leaf, there, -⟩, -, -, last, ends, -⟩ := (lists.mem_iff names).mp mem
      exact steps names (fun none => by rw [none] at ends; cases ends) (spelled _ _ there)
    rw [Path.Before, own a memA, own b memB]
    exact List.append_left_lt before

/-- The content of a directory stands at the directory's place, before a name that the directory's own begins. -/
example : Path.Before "runs/a/z.csv" "runs/a.csv" ∧ Bytes.ofText "runs/a.csv" < Bytes.ofText "runs/a/z.csv" := by
  unfold Path.Before
  decide +kernel

def hiddenRuns : Node :=
  .dir [("b.csv", .file []), ("a.csv", .file []), ("notes.TXT", .file []), ("last.csv", .link "b.csv"),
    ("a", .dir [("z.csv", .file []), (".y.csv", .file [])]), (".git", .dir [("c.csv", .file [])])]

theorem hiddenRuns_spelled : hiddenRuns.Spelled := by
  have link : (Node.link "b.csv").Spelled := by
    rintro (_ | ⟨name, rest⟩) leaf found
    · simp
    · cases found
  refine Node.spelled_dir (by decide) ?_
  simp only [List.forall_mem_cons, List.not_mem_nil, false_implies, implies_true, and_true]
  exact ⟨Node.spelled_file _, Node.spelled_file _, Node.spelled_file _, link,
    Node.spelled_dir (by decide) (by simp [Node.spelled_file]),
    Node.spelled_dir (by decide) (by simp [Node.spelled_file])⟩

theorem hiddenRuns_open : hiddenRuns.Open ".runs" := by
  have link : ∀ path, (Node.link "b.csv").Open path := fun _ _ _ leads => by
    obtain ⟨-, rfl⟩ := (Node.leads_of_entries rfl).mp leads
    rfl
  refine Node.open_dir (by decide) ?_
  simp only [List.forall_mem_cons, List.not_mem_nil, false_implies, implies_true, and_true]
  exact ⟨Node.open_file _ _, Node.open_file _ _, Node.open_file _ _, link _,
    Node.open_dir (by decide) (by simp [Node.open_file]), Node.open_dir (by decide) (by simp [Node.open_file])⟩

theorem collect_lists_hiddenRuns :
    let fs : FileSystem := { root := .dir [(".runs", hiddenRuns)] }
    hiddenRuns.Tidy ∧ hiddenRuns.Spelled ∧ hiddenRuns.OpenTo true ".runs" ∧
      ∃ found, hiddenRuns.ListsFiles {} true found ∧
        ({} : Merger).collect fs ".runs" true {} = .ok (found.map (Path.joinAll ".runs"), {}) ∧
        (found.map (Path.joinAll ".runs")).Pairwise Path.Before ∧
        [Bytes.ofText "a", Bytes.ofText "z.csv"] ∈ found ∧ [Bytes.ofText "a.csv"] ∈ found ∧
        [Bytes.ofText "last.csv"] ∉ found := by
  intro fs
  have tidy : hiddenRuns.Tidy := by simp [hiddenRuns, Node.Tidy.link]
  have free := hiddenRuns_open.openTo true
  obtain ⟨found, lists, gives⟩ := collect_lists tidy hiddenRuns_spelled {} free
  obtain ⟨given, rising⟩ := gives {} fs ".runs" {} rfl rfl free
  refine ⟨tidy, hiddenRuns_spelled, free, found, lists, given, rising, ?_, ?_, fun mem => ?_⟩
  · refine (lists.mem_iff _).mpr ⟨⟨.file [], rfl, rfl⟩, ?_, .inl rfl, "z.csv", rfl, by decide +kernel⟩
    simp only [List.forall_mem_cons, List.not_mem_nil, false_implies, implies_true, and_true]
    exact ⟨⟨"a", rfl, by decide⟩, "z.csv", rfl, by decide⟩
  · refine (lists.mem_iff _).mpr ⟨⟨.file [], rfl, rfl⟩, ?_, .inl rfl, "a.csv", rfl, by decide +kernel⟩
    simp only [List.forall_mem_cons, List.not_mem_nil, false_implies, implies_true, and_true]
    exact ⟨"a.csv", rfl, by decide⟩
  · obtain ⟨⟨leaf, reached, file⟩, -⟩ := (lists.mem_iff _).mp mem
    cases reached
    cases file

/-- A directory whose name is no text is passed over, although no name on the way to its file starts with a dot. -/
theorem collect_not_listed :
    let fs : FileSystem := { root := .dir [("dir", .dir [([0x64, 0xFF], .dir [("run.csv", .file [])])])] }
    let steps : Location := [[0x64, 0xFF], "run.csv"]
    (∀ step ∈ steps, step.head? ≠ some Path.dot) ∧ fs.readFile (Path.joinAll "dir" steps) = .ok [] ∧
      FileChoice.everything.accepts (Path.joinAll "dir" steps) = true ∧
      ((({ choice := .everything } : Merger).collect fs "dir" true {}).toOption.map fun collected =>
        (collected.1, collected.2.errors)) = some ([], []) := by
  refine ⟨by decide, by rfl, by decide +kernel, by decide +kernel⟩

end Merger

end SweepPlot
