import SweepPlot.Proofs.Files.Path
import SweepPlot.Proofs.Merge.ErrorModes
import SweepPlot.Proofs.Merge.Variants
import SweepPlot.Proofs.Table.Loaded
set_option autoImplicit false

namespace SweepPlot

section Untagged

def Record.withoutSubfolder (r : Record Float) : Record Float :=
  { r with subfolder := none }

namespace ResultFile

/-- A file says nothing of the subfolder that it lies in. -/
def Untagged (r : Record Float) : Prop :=
  r.subfolder = none

theorem parse_untagged (fs : FileSystem) (required : List Field) (path : Bytes) :
    ReturnsOnly (fun d => ∀ r ∈ d, Untagged r) (parse fs required path) := by
  unfold parse
  split
  · exact .error _
  next read _ =>
    cases read with
    | error cause => exact .error _
    | ok bytes =>
      intro d loaded r mem
      obtain ⟨cells, rfl, -⟩ := exists_cells_of_mem loaded mem
      rfl

end ResultFile

end Untagged

namespace Merger

open MergeReport

variable {m : Merger} {fs : FileSystem}

theorem fileReport_withoutSubfolder (name : String) (path : Bytes) :
    (m.fileReport fs (some name) path).records.map Record.withoutSubfolder =
      (m.fileReport fs none path).records ∧
    (m.fileReport fs (some name) path).errors = (m.fileReport fs none path).errors := by
  unfold fileReport
  rw [ResultFile.load_eq_parse]
  cases h : ResultFile.parse fs m.required path with
  | error failure => exact ⟨rfl, rfl⟩
  | ok d =>
    refine ⟨?_, rfl⟩
    simp only [Except.map, stamped, Dataset.stampSubfolder, Dataset.stampSource, List.map_map]
    refine List.map_congr_left fun r hr => ?_
    have untagged : r.subfolder = none := ResultFile.parse_untagged fs m.required path d h r hr
    simp [Record.withoutSubfolder, untagged]

theorem source_of_mem_fileReport {subfolder : Option String} {path : Bytes} {r : Record Float}
    (h : r ∈ (m.fileReport fs subfolder path).records) : r.source = some path := by
  unfold fileReport at h
  rw [ResultFile.load_eq_parse] at h
  cases hp : ResultFile.parse fs m.required path with
  | error failure => simp [hp, Except.map] at h
  | ok d =>
    rw [hp] at h
    cases subfolder <;>
    · simp only [Except.map, stamped, Dataset.stampSubfolder, Dataset.stampSource, List.mem_map] at h
      grind

theorem path_of_mem_fileReport {subfolder : Option String} {path : Bytes} {e : FileFailure}
    (h : e ∈ (m.fileReport fs subfolder path).errors) : e.path = path := by
  unfold fileReport at h
  split at h
  · rw [List.mem_singleton.mp h]
  · cases h

def picked (m : Merger) (dir : Bytes) (findings : List Finding) : List Location :=
  ((findings.filter fun found => found.fault.isNone).map (·.steps)).filter fun steps =>
    m.choice.accepts (Path.joinAll dir steps)

theorem chosen_of_lookup {dir : Bytes} {node : Node} (found : fs.lookup dir = .ok node) (deep : Bool) :
    m.chosen fs deep dir = m.picked dir (node.findings deep dir) := by
  unfold chosen FileSystem.findings
  rw [found]
  rfl

theorem picked_flatMap {α : Type} (dir : Bytes) (findings : α → List Finding) (as : List α) :
    m.picked dir (as.flatMap findings) = as.flatMap fun a => m.picked dir (findings a) := by
  unfold picked
  rw [List.filter_flatMap, List.map_flatMap, List.filter_flatMap]

theorem picked_below (dir name : Bytes) (findings : List Finding) :
    m.picked dir (findings.map fun found => { found with steps := name :: found.steps }) =
      (m.picked (Path.join dir name) findings).map (name :: ·) := by
  unfold picked
  simp only [List.filter_map, List.map_map, Function.comp_def, Path.joinAll, List.foldl_cons]

theorem picked_ne_nil {node : Node} {deep : Bool} {dir : Bytes} {steps : Location}
    (h : steps ∈ m.picked dir (node.findings deep dir)) : steps ≠ [] := by
  rintro rfl
  obtain ⟨listed, -⟩ := List.mem_filter.mp h
  exact (Node.mem_findings_nil.mp (mem_files_iff.mp listed)).1 rfl

end Merger

namespace Node

/-- Below the node all entries have names that a path can spell. -/
def Spelled (node : Node) : Prop :=
  ∀ steps leaf, node.at? steps = some leaf → ∀ step ∈ steps, Path.Proper step

def Unlinked (node : Node) : Prop :=
  ∀ steps target, ¬ node.Leads steps (.link target)

theorem spelled_dir {entries : List (Bytes × Node)} (names : ∀ entry ∈ entries, Path.Proper entry.1)
    (below : ∀ entry ∈ entries, entry.2.Spelled) : (dir entries).Spelled := by
  rintro (_ | ⟨name, rest⟩) leaf found
  · simp
  · obtain ⟨child, hc, hr⟩ := Option.bind_eq_some_iff.mp found
    have member := Keyed.mem_of_lookup hc
    exact List.forall_mem_cons.mpr ⟨names _ member, below _ member rest leaf hr⟩

theorem spelled_file (content : Bytes) : (file content).Spelled := by
  rintro (_ | ⟨name, rest⟩) leaf found
  · simp
  · cases found

theorem spelled_link (target : Bytes) : (link target).Spelled := by
  rintro (_ | ⟨name, rest⟩) leaf found
  · simp
  · cases found

theorem unlinked_dir {entries : List (Bytes × Node)} (below : ∀ entry ∈ entries, entry.2.Unlinked) :
    (dir entries).Unlinked := by
  rintro (_ | ⟨name, rest⟩) target leads
  · cases leads_nil.mp leads
  · obtain ⟨-, child, hc, hr⟩ := leads_cons.mp leads
    exact below (name, child) (Keyed.mem_of_lookup hc) rest target hr

theorem unlinked_file (content : Bytes) : (file content).Unlinked := fun _ _ leads => by
  cases ((leads_of_entries rfl).mp leads).2

end Node

namespace FileSystem

/-- A directory whose content can be walked: entries with names that are text, no visible link, and every visible
directory can be listed. -/
structure Walkable (fs : FileSystem) (root : Bytes) (entries : List (Bytes × Node)) : Prop where
  found : fs.lookup root = .ok (.dir entries)
  tidy : fs.root.Tidy
  spelled : (Node.dir entries).Spelled
  text : ∀ entry ∈ entries, ∃ text : String, entry.1 = text
  unlinked : (Node.dir entries).Unlinked
  free : (Node.dir entries).Open root

namespace Walkable

variable {fs : FileSystem} {root : Bytes} {entries : List (Bytes × Node)} {name : Bytes} {child : Node}

theorem tidy_dir (walk : fs.Walkable root entries) : (Node.dir entries).Tidy :=
  lookup_tidy walk.tidy walk.found

theorem leads (walk : fs.Walkable root entries) (member : (name, child) ∈ entries)
    (visible : Path.isVisible name = true) : (Node.dir entries).Leads [name] child :=
  Node.leads_cons.mpr ⟨visible, child, walk.tidy_dir.child?_dir.mpr member, Node.leads_nil.mpr rfl⟩

theorem ofText_shown (walk : fs.Walkable root entries) {entry : Bytes × Node} (member : entry ∈ entries) :
    Bytes.ofText entry.1.shown = entry.1 := by
  obtain ⟨text, same⟩ := walk.text entry member
  rw [same, Bytes.shown, Bytes.text?_ofText]

theorem isVisible_eq (walk : fs.Walkable root entries) {entry : Bytes × Node} (member : entry ∈ entries) :
    Path.isVisible entry.1 = !Path.isHidden entry.1.shown := by
  obtain ⟨text, same⟩ := walk.text entry member
  rw [same, Path.isVisible, Bytes.shown, Bytes.text?_ofText]
  rfl

theorem lookup_child (walk : fs.Walkable root entries) (member : (name, child) ∈ entries)
    (visible : Path.isVisible name = true) (text : checkPath (Path.join root name) = .ok ()) :
    fs.lookup (Path.join root name) = .ok child := by
  have leads := walk.leads member visible
  have proper := walk.spelled _ _ leads.2 name List.mem_cons_self
  refine lookup_join walk.found (walk.tidy_dir.child?_dir.mpr member) proper text ?_
  cases child with
  | link target => exact absurd leads (walk.unlinked _ target)
  | file | locked | dir => rfl

theorem open_child (walk : fs.Walkable root entries) (member : (name, child) ∈ entries)
    (visible : Path.isVisible name = true) : child.Open (Path.join root name) := fun steps leaf leads =>
  walk.free (name :: steps) leaf (Node.leads_cons.mpr ⟨visible, child, walk.tidy_dir.child?_dir.mpr member, leads⟩)

theorem lookup_directory (walk : fs.Walkable root entries) (member : (name, child) ∈ entries)
    (visible : Path.isVisible name = true) (directory : child.isDirectory = true) :
    (∃ inner, child = .dir inner) ∧ fs.lookup (Path.join root name) = .ok child := by
  have listable := walk.open_child member visible [] child (Node.leads_nil.mpr rfl)
  cases child with
  | file | link => cases directory
  | locked locked =>
    cases directory
    cases listable
  | dir inner =>
    have proper := walk.spelled _ _ (walk.leads member visible).2 name List.mem_cons_self
    have short := Node.fault?_dir_eq_none_iff.mp listable
    exact ⟨⟨inner, rfl⟩, walk.lookup_child member visible (checkPath_join walk.found proper short)⟩

theorem isDir_child (walk : fs.Walkable root entries) (member : (name, child) ∈ entries)
    (visible : Path.isVisible name = true) :
    fs.isDir (Path.join root name) = true ↔ child.isDirectory = true := by
  rw [isDir_iff]
  constructor
  · rintro ⟨node, found, directory⟩
    obtain ⟨_, leads, -⟩ := lookup_eq_ok_iff.mp found
    cases found.symm.trans (walk.lookup_child member visible (place_eq_ok_iff.mp leads).1)
    exact directory
  · exact fun directory => ⟨child, (walk.lookup_directory member visible directory).2, directory⟩

theorem walksFreely (walk : fs.Walkable root entries) : fs.WalksFreely root := by
  refine ⟨entries, walk.found, fun name node hn shown found => ?_⟩
  obtain ⟨⟨_, child⟩, member, rfl⟩ := List.mem_map.mp hn
  have visible := walk.isVisible_eq member
  rw [shown] at visible
  obtain ⟨_, leads, -⟩ := lookup_eq_ok_iff.mp found
  cases found.symm.trans (walk.lookup_child member visible (place_eq_ok_iff.mp leads).1)
  exact walk.open_child member visible

theorem folders_eq (walk : fs.Walkable root entries) :
    fs.folders root = (byName entries).filterMap (fs.subfolder? root) := by
  have key : ∀ entry ∈ entries, ∀ sub, fs.subfolder? root entry = some sub → sub.key = entry.1 := by
    intro entry member sub same
    obtain ⟨-, -, rfl⟩ := subfolder?_eq_some_iff.mp same
    exact walk.ofText_shown member
  have read : fs.readDir root = .ok entries := readDir_eq_ok_iff.mpr walk.found
  have perm : (fs.folders root).Perm ((byName entries).filterMap (fs.subfolder? root)) := by
    rw [folders, subfolders, read]
    exact (List.mergeSort_perm _ _).trans ((List.mergeSort_perm entries _).symm.filterMap _)
  have apart := rising_byName (Node.tidy_dir_iff.mp walk.tidy_dir).1
  have rising : ((byName entries).filterMap (fs.subfolder? root)).Pairwise fun a b => a.key < b.key := by
    refine List.pairwise_filterMap.mpr (apart.imp_of_mem fun memA memB less p hp q hq => ?_)
    rw [key _ (mem_byName.mp memA) p hp, key _ (mem_byName.mp memB) q hq]
    exact less
  have sorted : (fs.folders root).Pairwise fun a b => a.key ≤ b.key := by
    rw [folders, subfolders, read]
    exact rising_mergeSort Subfolder.key _
  refine perm.eq_of_pairwise (fun a b memA memB below above => ?_) sorted (rising.imp Std.le_of_lt)
  have level : a.key = b.key := Std.le_antisymm below above
  exact List.inj_on_of_nodup_map (List.pairwise_map.mpr (rising.imp Std.ne_of_lt)) (perm.subset memA) memB level

end Walkable

end FileSystem

namespace Merger

open MergeReport

variable {m : Merger} {fs : FileSystem}

/-- What the subfolder walk chooses below an entry of the root, by the names that lead there from the root. -/
def entryBelow (m : Merger) (fs : FileSystem) (root : Bytes) (entry : Bytes × Node) : List Location :=
  ((fs.subfolder? root entry).map fun sub => (m.below fs sub).map (entry.1 :: ·)).getD []

theorem picked_named {root : Bytes} {entries : List (Bytes × Node)} (walk : fs.Walkable root entries)
    {entry : Bytes × Node} (member : entry ∈ entries) :
    (m.picked root (Node.findings.named true root entry)).filter (fun steps => steps.length ≠ 1) =
      m.entryBelow fs root entry := by
  have shown := walk.isVisible_eq member
  obtain ⟨name, child⟩ := entry
  rw [Node.findings.named, entryBelow, FileSystem.subfolder?]
  dsimp only at shown ⊢
  rw [← shown]
  cases visible : Path.isVisible name with
  | false => rfl
  | true =>
    by_cases directory : child.isDirectory = true
    · obtain ⟨⟨inner, rfl⟩, found⟩ := walk.lookup_directory member visible directory
      have below : m.chosen fs true (Path.join root name) =
          m.picked (Path.join root name) ((Node.dir inner).findings true (Path.join root name)) :=
        chosen_of_lookup found true
      have deeper : ∀ steps ∈ m.chosen fs true (Path.join root name), (name :: steps).length ≠ 1 := by
        intro steps hs
        rw [below] at hs
        simpa using picked_ne_nil hs
      rw [if_neg (by simp), if_neg (by simp [Node.isFile]), if_pos rfl,
        (walk.isDir_child member visible).mpr directory, picked_below, ← below, List.filter_map,
        List.filter_eq_self.mpr]
      · rfl
      · exact fun steps hs => decide_eq_true (deeper steps hs)
    · have file : child.isFile = true := by
        cases child with
        | link target => exact absurd (walk.leads member visible) (walk.unlinked _ target)
        | dir => exact absurd rfl directory
        | file => rfl
        | locked locked => simpa [Node.isDirectory, Node.isFile] using directory
      have notDir : fs.isDir (Path.join root name) = false :=
        Bool.eq_false_iff.mpr fun isDir => directory ((walk.isDir_child member visible).mp isDir)
      rw [if_neg (by simp), if_pos file, notDir]
      unfold picked
      cases m.choice.accepts (Path.joinAll root [name]) <;> simp_all

/-- Below the directories of a root the deep walk chooses what the subfolder walks choose, in their order. -/
theorem chosen_deeper {root : Bytes} {entries : List (Bytes × Node)} (walk : fs.Walkable root entries) :
    ((m.chosen fs true root).filter fun steps => steps.length ≠ 1).map (Path.joinAll root) =
      (fs.folders root).flatMap fun sub => (m.below fs sub).map (Path.joinAll sub.path) := by
  rw [chosen_of_lookup walk.found, Node.findings_dir walk.free.short, picked_flatMap, List.filter_flatMap,
    walk.folders_eq, List.filterMap_eq_flatMap_toList, List.flatMap_assoc, List.map_flatMap]
  refine List.flatMap_congr fun entry member => ?_
  rw [picked_named walk (mem_byName.mp member), entryBelow]
  cases same : fs.subfolder? root entry with
  | none => rfl
  | some sub =>
    obtain ⟨-, -, rfl⟩ := FileSystem.subfolder?_eq_some_iff.mp same
    exact List.map_map.trans (List.flatMap_singleton _ _).symm

theorem mergeDirectory_collects (collect : m.errorMode = .collectErrors) {root : Bytes}
    (isDir : requireDir fs root = .ok ()) (clean : walkFailures fs true root = []) :
    ∃ outcome, m.mergeDirectory fs root true = .ok outcome ∧
      outcome.records = (m.chosen fs true root).flatMap (fun steps =>
        (m.fileReport fs none (Path.joinAll root steps)).records) ∧
      outcome.errors = (m.chosen fs true root).flatMap fun steps =>
        (m.fileReport fs none (Path.joinAll root steps)).errors := by
  refine ⟨_, mergeDirectory_eq collect isDir, ?_⟩
  by_cases none : m.chosen fs true root = []
  · simp [none, clean, MergeOutcome.records, MergeOutcome.errors]
  · simp [none, clean, directoryReport, MergeOutcome.records, MergeOutcome.errors, concat_eq, absorb,
      List.flatMap_map]

theorem subfolderReport_eq {sub : Subfolder} (clean : walkFailures fs true sub.path = []) :
    (m.subfolderReport fs sub).records = (m.below fs sub).flatMap (fun steps =>
      (m.fileReport fs (some sub.name) (Path.joinAll sub.path steps)).records) ∧
    (m.subfolderReport fs sub).errors = (m.below fs sub).flatMap (fun steps =>
      (m.fileReport fs (some sub.name) (Path.joinAll sub.path steps)).errors) := by
  unfold subfolderReport
  by_cases none : m.below fs sub = [] <;>
    simp [none, clean, absorb, concat_eq, List.flatMap_map]

/-- What the chosen files below the directories of a root add to a merge, by one field of their reports. -/
def gathered {α : Type} (m : Merger) (fs : FileSystem) (root : Bytes) (subfolder : String → Option String)
    (field : MergeReport → List α) : List α :=
  (fs.folders root).flatMap fun sub => (m.below fs sub).flatMap fun steps =>
    field (m.fileReport fs (subfolder sub.name) (Path.joinAll sub.path steps))

theorem gathered_of_unchosen {α : Type} {root : Bytes} (none : m.hasChosen fs root = false)
    (subfolder : String → Option String) (field : MergeReport → List α) :
    m.gathered fs root subfolder field = [] := by
  refine List.flatMap_eq_nil_iff.mpr fun sub mem => ?_
  have empty : ∀ sub ∈ fs.folders root, m.below fs sub = [] := by simpa [hasChosen] using none
  rw [empty sub mem, List.flatMap_nil]

theorem mergeSubfolders_gathered (collect : m.errorMode = .collectErrors) {root : Bytes}
    {entries : List (Bytes × Node)} (walk : fs.Walkable root entries) :
    ∃ outcome, m.mergeSubfolders fs root = .ok outcome ∧
      outcome.records = m.gathered fs root some (·.records) ∧
      outcome.errors = m.gathered fs root some (·.errors) := by
  have free := walk.walksFreely
  refine ⟨_, mergeSubfolders_eq collect free, ?_⟩
  obtain ⟨none, reason, outcome⟩ | ⟨-, outcome⟩ := m.rootOutcome_cases walk.tidy free
  · rw [outcome, gathered_of_unchosen none, gathered_of_unchosen none]
    exact ⟨rfl, rfl⟩
  · rw [outcome]
    have clean : ∀ sub ∈ fs.folders root, walkFailures fs true sub.path = [] := by
      intro sub mem
      obtain ⟨node, found, opens, tidy⟩ := free.lookup_folder walk.tidy mem
      exact walkFailures_eq_nil found opens tidy true
    simp only [MergeOutcome.records, MergeOutcome.errors, rootReport, concat_eq, List.flatMap_map]
    exact ⟨List.flatMap_congr fun sub mem => (subfolderReport_eq (clean sub mem)).1,
      List.flatMap_congr fun sub mem => (subfolderReport_eq (clean sub mem)).2⟩

theorem proper_of_chosen {root : Bytes} {entries : List (Bytes × Node)} (walk : fs.Walkable root entries)
    {steps : Location} (h : steps ∈ m.chosen fs true root) :
    ∃ name rest, steps = name :: rest ∧ ∀ step ∈ name :: rest, Path.Proper step := by
  obtain ⟨-, node, found, ⟨below, leaf, leads, -⟩, -⟩ := ((m.chosen_lists walk.tidy true root).mem_iff steps).mp h
  cases found.symm.trans walk.found
  cases steps with
  | nil => exact absurd rfl below
  | cons name rest => exact ⟨name, rest, rfl, walk.spelled _ _ leads.2⟩

theorem filter_direct {α : Type} {root : Bytes} {entries : List (Bytes × Node)}
    (walk : fs.Walkable root entries) (field : MergeReport → List α) {direct : α → Bool}
    (tells : ∀ path, ∀ a ∈ field (m.fileReport fs none path), direct a = Path.isDirectlyIn root path) :
    ((m.chosen fs true root).flatMap fun steps =>
        field (m.fileReport fs none (Path.joinAll root steps))).filter (fun a => !direct a) =
      m.gathered fs root (fun _ => none) field := by
  have each : ∀ steps ∈ m.chosen fs true root,
      (field (m.fileReport fs none (Path.joinAll root steps))).filter (fun a => !direct a) =
        if decide (steps.length ≠ 1) then field (m.fileReport fs none (Path.joinAll root steps)) else [] := by
    intro steps hs
    obtain ⟨name, rest, rfl, proper⟩ := proper_of_chosen walk hs
    have own : ∀ a ∈ field (m.fileReport fs none (Path.joinAll root (name :: rest))),
        direct a = rest.isEmpty := fun a ha =>
      (tells _ a ha).trans (Path.isDirectlyIn_joinAll root proper)
    cases rest with
    | nil => exact List.filter_eq_nil_iff.mpr fun a ha => by simp [own a ha]
    | cons next rest => exact List.filter_eq_self.mpr fun a ha => by simp [own a ha]
  have paths := congrArg (List.flatMap fun path => field (m.fileReport fs none path)) (chosen_deeper walk (m := m))
  rw [List.flatMap_map, List.flatMap_assoc] at paths
  rw [List.filter_flatMap, List.flatMap_congr each, ← flatMap_filter, paths]
  unfold gathered
  simp only [List.flatMap_map]

theorem gathered_withoutSubfolder (m : Merger) (fs : FileSystem) (root : Bytes) :
    (m.gathered fs root some (·.records)).map Record.withoutSubfolder =
        m.gathered fs root (fun _ => none) (·.records) ∧
      m.gathered fs root some (·.errors) = m.gathered fs root (fun _ => none) (·.errors) := by
  unfold gathered
  simp only [List.map_flatMap, (fileReport_withoutSubfolder _ _).1, (fileReport_withoutSubfolder _ _).2]
  exact ⟨trivial, trivial⟩

/-- A merge by subfolders loads what a deep merge of the root loads below the directories of the root: the
same records but for the subfolder, and the same failures, each in the same order. -/
theorem discovery_agrees (m : Merger) (fs : FileSystem) (root : Bytes) (entries : List (Bytes × Node))
    (collect : m.errorMode = .collectErrors) (walk : fs.Walkable root entries) :
    ∃ apart whole, m.mergeSubfolders fs root = .ok apart ∧ m.mergeDirectory fs root true = .ok whole ∧
      apart.records.map Record.withoutSubfolder =
        whole.records.filter (fun r => !r.source.any (Path.isDirectlyIn root)) ∧
      apart.errors = whole.errors.filter (fun e => !Path.isDirectlyIn root e.path) := by
  obtain ⟨apart, merged, records, errors⟩ := mergeSubfolders_gathered collect walk
  have isDir : requireDir fs root = .ok () := by
    unfold requireDir
    rw [walk.found]
    rfl
  have clean : walkFailures fs true root = [] := by
    unfold walkFailures FileSystem.findings
    rw [walk.found]
    refine List.filterMap_eq_nil_iff.mpr fun found mem => ?_
    rw [walkFailure?, (walk.free.openTo true).clean walk.tidy_dir mem]
    rfl
  obtain ⟨whole, merged', records', errors'⟩ := mergeDirectory_collects collect isDir clean
  obtain ⟨sameRecords, sameErrors⟩ := gathered_withoutSubfolder m fs root
  refine ⟨apart, whole, merged, merged', ?_, ?_⟩
  · rw [records, records', sameRecords]
    exact (filter_direct walk _ fun path r hr => by rw [source_of_mem_fileReport hr]; rfl).symm
  · rw [errors, errors', sameErrors]
    exact (filter_direct walk _ fun path e he => by rw [path_of_mem_fileReport he]).symm

def looseAndDeep : FileSystem where
  root := .dir [("runs", .dir [("a.csv", .file (Bytes.ofText "Queuetype\nA\n")),
    ("deep", .dir [("b.csv", .file (Bytes.ofText "Queuetype\nB\n"))])])]

theorem looseAndDeep_walkable : ∃ entries, looseAndDeep.Walkable "runs" entries := by
  refine ⟨_, rfl, by simp [looseAndDeep], ?_, ?_, ?_, ?_⟩
  · refine Node.spelled_dir (by decide) ?_
    simp only [List.forall_mem_cons, List.not_mem_nil, false_implies, implies_true, and_true]
    exact ⟨Node.spelled_file _, Node.spelled_dir (by decide) (by simp [Node.spelled_file])⟩
  · simp only [List.forall_mem_cons, List.not_mem_nil, false_implies, implies_true, and_true]
    exact ⟨⟨"a.csv", rfl⟩, "deep", rfl⟩
  · refine Node.unlinked_dir ?_
    simp only [List.forall_mem_cons, List.not_mem_nil, false_implies, implies_true, and_true]
    exact ⟨Node.unlinked_file _, Node.unlinked_dir (by simp [Node.unlinked_file])⟩
  · refine Node.open_dir (by decide) ?_
    simp only [List.forall_mem_cons, List.not_mem_nil, false_implies, implies_true, and_true]
    exact ⟨Node.open_file _ _, Node.open_dir (by decide) (by simp [Node.open_file])⟩

theorem discovery_agrees_looseAndDeep :
    let m : Merger := {}
    m.errorMode = .collectErrors ∧ (∃ entries, looseAndDeep.Walkable "runs" entries) ∧
      ∃ apart whole, m.mergeSubfolders looseAndDeep "runs" = .ok apart ∧
        m.mergeDirectory looseAndDeep "runs" true = .ok whole ∧
        apart.records.map Record.withoutSubfolder =
          whole.records.filter (fun r => !r.source.any (Path.isDirectlyIn "runs")) ∧
        apart.errors = whole.errors.filter (fun e => !Path.isDirectlyIn "runs" e.path) := by
  intro m
  obtain ⟨entries, walk⟩ := looseAndDeep_walkable
  exact ⟨rfl, ⟨entries, walk⟩, discovery_agrees m looseAndDeep "runs" entries rfl walk⟩

end Merger

end SweepPlot
