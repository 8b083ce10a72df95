import SweepPlot.Files.Listing
import SweepPlot.Proofs.Files.Tree
import SweepPlot.Proofs.Sorting
set_option autoImplicit false

namespace SweepPlot

theorem Path.length_le_join (path name : Bytes) : path.length ≤ (join path name).length := by
  unfold join
  split <;> simp

theorem Path.length_le_joinAll (path : Bytes) (steps : Location) : path.length ≤ (joinAll path steps).length := by
  induction steps generalizing path with
  | nil => exact Nat.le_refl _
  | cons step steps ih => exact Nat.le_trans (length_le_join path step) (ih (join path step))

section ByName

variable {α : Type}

theorem mem_byName {entries : List (Bytes × α)} {entry : Bytes × α} :
    entry ∈ byName entries ↔ entry ∈ entries :=
  List.mem_mergeSort

theorem sorted_byName (entries : List (Bytes × α)) :
    (byName entries).Pairwise fun a b => a.1 ≤ b.1 :=
  rising_mergeSort Prod.fst entries

theorem rising_byName {entries : List (Bytes × α)} (names : (entries.map Prod.fst).Nodup) :
    (byName entries).Pairwise fun a b => a.1 < b.1 := by
  have apart : (byName entries).Pairwise fun a b => a.1 ≠ b.1 :=
    List.pairwise_map.mp (((List.mergeSort_perm entries _).map Prod.fst).nodup_iff.mpr names)
  refine ((sorted_byName entries).and apart).imp ?_
  rintro a b ⟨le, ne⟩
  exact Std.lt_of_le_of_ne le ne

theorem byName_map {β : Type} (f : Bytes × α → β) (entries : List (Bytes × α)) :
    byName (entries.map fun entry => (entry.1, f entry)) =
      (byName entries).map fun entry => (entry.1, f entry) := by
  unfold byName
  rw [List.map_mergeSort]
  exact fun _ _ _ _ => rfl

end ByName

namespace Node

def fault? (path : Bytes) : Node → Option IoCause
  | dir _ => if FileSystem.pathLimit ≤ path.length then some .nameTooLong else none
  | locked true => some (if FileSystem.pathLimit ≤ path.length then .nameTooLong else .denied)
  | _ => none

theorem fault?_of_long {path : Bytes} (long : FileSystem.pathLimit ≤ path.length) (entries : List (Bytes × Node)) :
    (dir entries).fault? path = some .nameTooLong :=
  if_pos long

theorem fault?_dir_eq_none_iff {path : Bytes} {entries : List (Bytes × Node)} :
    (dir entries).fault? path = none ↔ path.length < FileSystem.pathLimit := by
  rw [fault?, ite_eq_right_iff]
  grind

section Findings

variable {deep : Bool} {path : Bytes}

theorem entryFindings_eq (deep : Bool) (path : Bytes) (entries : List (Bytes × Node)) :
    findings.entryFindings deep path entries =
      entries.map fun entry => (entry.1, findings.named deep path entry) := by
  induction entries with
  | nil => rfl
  | cons entry rest ih => rw [findings.entryFindings, ih, List.map_cons]

theorem findings_of_fault {node : Node} {cause : IoCause} (fault : node.fault? path = some cause) :
    node.findings deep path = [⟨[], some cause⟩] := by
  cases node with
  | file | link => cases fault
  | locked directory =>
    cases directory <;> cases fault
    rfl
  | dir entries =>
    rw [fault?] at fault
    split at fault
    next long =>
      cases fault
      rw [findings, if_pos long]
    next => cases fault

theorem findings_dir (short : path.length < FileSystem.pathLimit) (entries : List (Bytes × Node)) :
    (dir entries).findings deep path = (byName entries).flatMap (findings.named deep path) := by
  rw [findings, if_neg (Nat.not_le.mpr short), entryFindings_eq, byName_map, List.flatMap_map]

theorem findings_of_isFile {node : Node} (file : node.isFile = true) (deep : Bool) (path : Bytes) :
    node.findings deep path = [] := by
  cases node with
  | locked directory =>
    cases directory with
    | true => cases file
    | false => rfl
  | dir => cases file
  | file | link => rfl

theorem steps_of_mem_named {entry : Bytes × Node} {found : Finding}
    (mem : found ∈ findings.named deep path entry) : ∃ rest, found.steps = entry.1 :: rest := by
  obtain ⟨name, child⟩ := entry
  rw [findings.named] at mem
  grind

theorem mem_findings_nil {node : Node} {fault : Option IoCause} :
    ⟨[], fault⟩ ∈ node.findings deep path ↔ fault ≠ none ∧ node.fault? path = fault := by
  cases own : node.fault? path with
  | some cause =>
    rw [findings_of_fault own, List.mem_singleton, Finding.mk.injEq]
    grind
  | none =>
    refine iff_of_false (fun mem => ?_) fun ⟨given, same⟩ => given same.symm
    cases node with
    | file | link => cases mem
    | locked directory => cases directory <;> cases own; cases mem
    | dir entries =>
      rw [findings_dir (fault?_dir_eq_none_iff.mp own), List.mem_flatMap] at mem
      obtain ⟨entry, -, mem⟩ := mem
      obtain ⟨rest, same⟩ := steps_of_mem_named mem
      cases same

theorem mem_findings_dir_cons {entries : List (Bytes × Node)} {name : Bytes} {rest : Location}
    {fault : Option IoCause} :
    ⟨name :: rest, fault⟩ ∈ (dir entries).findings deep path ↔ path.length < FileSystem.pathLimit ∧
      Path.isVisible name = true ∧ ∃ child, (name, child) ∈ entries ∧
        (rest = [] ∧ fault = none ∧ child.isFile = true ∨
          deep = true ∧ ⟨rest, fault⟩ ∈ child.findings deep (Path.join path name)) := by
  have named : ∀ entry child, ⟨name :: rest, fault⟩ ∈ findings.named deep path (entry, child) ↔
      Path.isVisible name = true ∧ entry = name ∧
        (rest = [] ∧ fault = none ∧ child.isFile = true ∨
          deep = true ∧ ⟨rest, fault⟩ ∈ child.findings deep (Path.join path name)) := by
    intro entry child
    rw [findings.named]
    by_cases file : child.isFile = true
    · have none := findings_of_isFile file deep (Path.join path name)
      grind
    · grind [Finding]
  by_cases short : path.length < FileSystem.pathLimit
  · rw [findings_dir short, List.mem_flatMap]
    simp only [mem_byName, Prod.exists, named]
    grind
  · have long : (dir entries).fault? path = some .nameTooLong := if_pos (Nat.not_lt.mp short)
    rw [findings_of_fault long]
    simp [short]

end Findings

/-- Visible names lead from the node to another one. -/
def Leads (node : Node) (steps : Location) (leaf : Node) : Prop :=
  (∀ step ∈ steps, Path.isVisible step = true) ∧ node.at? steps = some leaf

theorem leads_nil {node leaf : Node} : node.Leads [] leaf ↔ node = leaf := by
  simp [Leads, at?]

theorem leads_cons {node leaf : Node} {name : Bytes} {rest : Location} :
    node.Leads (name :: rest) leaf ↔
      Path.isVisible name = true ∧ ∃ child, node.child? name = some child ∧ child.Leads rest leaf := by
  simp only [Leads, List.forall_mem_cons, at?_cons, Option.bind_eq_some_iff]
  grind

/-- Visible names lead from the node to a file below it. -/
def HasFile (node : Node) (steps : Location) : Prop :=
  steps ≠ [] ∧ ∃ leaf, node.Leads steps leaf ∧ leaf.isFile = true

theorem hasFile_cons {node : Node} {name : Bytes} {rest : Location} :
    node.HasFile (name :: rest) ↔ Path.isVisible name = true ∧ ∃ child, node.child? name = some child ∧
      (rest = [] ∧ child.isFile = true ∨ child.HasFile rest) := by
  simp only [HasFile, leads_cons, ne_eq, reduceCtorEq, not_false_eq_true, true_and]
  cases rest with
  | nil =>
    simp only [leads_nil]
    grind
  | cons next rest => grind

theorem leads_of_entries {node leaf : Node} (h : node.entries = []) {steps : Location} :
    node.Leads steps leaf ↔ steps = [] ∧ node = leaf := by
  cases steps with
  | nil => simp [leads_nil]
  | cons name rest => simp [leads_cons, child?, h]

theorem not_hasFile_of_entries {node : Node} (h : node.entries = []) {steps : Location} :
    ¬ node.HasFile steps := by
  rintro ⟨below, leaf, hl, -⟩
  exact below ((leads_of_entries h).mp hl).1

/-- Every directory to which visible names lead can be listed, from a node at a path. -/
def Open (node : Node) (path : Bytes) : Prop :=
  ∀ steps leaf, node.Leads steps leaf → leaf.fault? (Path.joinAll path steps) = none

def OpenTo (node : Node) (deep : Bool) (path : Bytes) : Prop :=
  ∀ steps leaf, node.Leads steps leaf → deep = true ∨ steps = [] → leaf.fault? (Path.joinAll path steps) = none

theorem open_dir {entries : List (Bytes × Node)} {path : Bytes} (short : path.length < FileSystem.pathLimit)
    (below : ∀ entry ∈ entries, entry.2.Open (Path.join path entry.1)) : (dir entries).Open path := by
  rintro (_ | ⟨name, rest⟩) leaf leads
  · cases leads_nil.mp leads
    exact if_neg (Nat.not_le.mpr short)
  · obtain ⟨-, child, hc, hr⟩ := leads_cons.mp leads
    exact below (name, child) (Keyed.mem_of_lookup hc) rest leaf hr

theorem open_file (content path : Bytes) : (file content).Open path := fun _ _ leads => by
  obtain ⟨-, rfl⟩ := (leads_of_entries rfl).mp leads
  rfl

theorem Open.short {entries : List (Bytes × Node)} {path : Bytes} (free : (dir entries).Open path) :
    path.length < FileSystem.pathLimit :=
  fault?_dir_eq_none_iff.mp (free [] _ (leads_nil.mpr rfl))

theorem mem_findings_of_entries {deep : Bool} {path : Bytes} {node : Node} (h : node.entries = []) {found : Finding}
    (mem : found ∈ node.findings deep path) : found.steps = [] := by
  cases node with
  | file | link => cases mem
  | locked directory =>
    cases directory with
    | false => cases mem
    | true =>
      rw [findings_of_fault rfl] at mem
      rw [List.mem_singleton.mp mem]
  | dir entries =>
    cases h
    rw [findings] at mem
    split at mem
    · rw [List.mem_singleton.mp mem]
    · simp [findings.entryFindings, byName] at mem

/-- A walk finds the files to which visible names lead by listable directories, only one name if it is not deep. -/
theorem mem_findings_file {deep : Bool} {node : Node} (tidy : node.Tidy) {path : Bytes} {steps : Location} :
    ⟨steps, none⟩ ∈ node.findings deep path ↔ node.HasFile steps ∧ (deep = true ∨ steps.length = 1) ∧
      (Path.joinAll path steps.dropLast).length < FileSystem.pathLimit := by
  induction node generalizing steps path with
  | file | link | locked =>
    refine iff_of_false (fun mem => ?_) fun h => not_hasFile_of_entries rfl h.1
    have here := mem_findings_of_entries rfl mem
    dsimp only at here
    rw [here] at mem
    exact (mem_findings_nil.mp mem).1 rfl
  | dir entries ih =>
    cases steps with
    | nil => exact iff_of_false (fun mem => (mem_findings_nil.mp mem).1 rfl) fun h => h.1.1 rfl
    | cons name rest =>
      have below : ∀ child, (name, child) ∈ entries →
          (⟨rest, none⟩ ∈ child.findings deep (Path.join path name) ↔ child.HasFile rest ∧
            (deep = true ∨ rest.length = 1) ∧
            (Path.joinAll (Path.join path name) rest.dropLast).length < FileSystem.pathLimit) := fun child hc =>
        ih _ hc ((tidy_dir_iff.mp tidy).2 _ hc)
      -- With one name left the walk ends at the child; a file below it needs another name.
      have ends : ∀ child : Node, ¬ child.HasFile [] := fun child file => file.1 rfl
      have shorter := Path.length_le_joinAll path (name :: rest).dropLast
      simp only [mem_findings_dir_cons, hasFile_cons, tidy.child?_dir]
      cases rest with
      | nil =>
        simp only [List.dropLast_singleton, List.length_singleton, or_true, true_and, ends, or_false]
        grind [Path.joinAll]
      | cons next rest =>
        rw [List.dropLast_cons_cons] at shorter ⊢
        change _ ↔ _ ∧ _ ∧ (Path.joinAll (Path.join path name) (next :: rest).dropLast).length < _
        grind [Path.joinAll]

theorem mem_findings_fault {deep : Bool} {node : Node} (tidy : node.Tidy) {path : Bytes} {steps : Location}
    {cause : IoCause} : ⟨steps, some cause⟩ ∈ node.findings deep path ↔
      (∃ leaf, node.Leads steps leaf ∧ leaf.fault? (Path.joinAll path steps) = some cause) ∧
        (deep = true ∨ steps = []) ∧
        (steps ≠ [] → (Path.joinAll path steps.dropLast).length < FileSystem.pathLimit) := by
  induction node generalizing steps path with
  | file | link | locked =>
    cases steps with
    | nil => simp [mem_findings_nil, leads_nil, Path.joinAll]
    | cons name rest =>
      refine iff_of_false (fun mem => ?_) fun ⟨⟨leaf, leads, _⟩, _⟩ => ?_
      · cases mem_findings_of_entries rfl mem
      · cases ((leads_of_entries rfl).mp leads).1
  | dir entries ih =>
    cases steps with
    | nil => simp [mem_findings_nil, leads_nil, Path.joinAll]
    | cons name rest =>
      have below : ∀ child, (name, child) ∈ entries →
          (⟨rest, some cause⟩ ∈ child.findings deep (Path.join path name) ↔
            (∃ leaf, child.Leads rest leaf ∧
              leaf.fault? (Path.joinAll (Path.join path name) rest) = some cause) ∧
            (deep = true ∨ rest = []) ∧
            (rest ≠ [] → (Path.joinAll (Path.join path name) rest.dropLast).length < FileSystem.pathLimit)) :=
        fun child hc => ih _ hc ((tidy_dir_iff.mp tidy).2 _ hc)
      have shorter := Path.length_le_joinAll path (name :: rest).dropLast
      simp only [mem_findings_dir_cons, leads_cons, tidy.child?_dir]
      change _ ↔ (∃ leaf : Node, _ ∧ leaf.fault? (Path.joinAll (Path.join path name) rest) = some cause) ∧ _
      cases rest with
      | nil =>
        simp only [List.dropLast_singleton]
        grind [Path.joinAll]
      | cons next rest =>
        rw [List.dropLast_cons_cons] at shorter ⊢
        change _ ↔ _ ∧ _ ∧ (name :: next :: rest ≠ [] →
          (Path.joinAll (Path.join path name) (next :: rest).dropLast).length < FileSystem.pathLimit)
        grind [Path.joinAll]

theorem rising_named {deep : Bool} {path : Bytes} {entry : Bytes × Node}
    (below : (entry.2.findings deep (Path.join path entry.1)).Pairwise fun a b => a.steps < b.steps) :
    (findings.named deep path entry).Pairwise fun a b => a.steps < b.steps := by
  obtain ⟨name, child⟩ := entry
  rw [findings.named]
  split
  · exact List.Pairwise.nil
  · split
    · exact List.pairwise_singleton _ _
    · split
      · exact List.pairwise_map.mpr (below.imp fun h => List.cons_lt_cons_self.mpr h)
      · exact List.Pairwise.nil

theorem rising_findings {node : Node} (tidy : node.Tidy) (deep : Bool) (path : Bytes) :
    (node.findings deep path).Pairwise fun a b => a.steps < b.steps := by
  induction node generalizing path with
  | file | link => exact List.Pairwise.nil
  | locked directory =>
    cases directory with
    | true => exact List.pairwise_singleton _ _
    | false => exact List.Pairwise.nil
  | dir entries ih =>
    obtain ⟨names, tidies⟩ := tidy_dir_iff.mp tidy
    by_cases short : path.length < FileSystem.pathLimit
    · rw [findings_dir short, List.pairwise_flatMap]
      refine ⟨fun entry he => ?_, (rising_byName names).imp fun {a b} hab => ?_⟩
      · have he := mem_byName.mp he
        exact rising_named (ih entry he (tidies entry he) _)
      · intro p hp q hq
        obtain ⟨restP, hp⟩ := steps_of_mem_named hp
        obtain ⟨restQ, hq⟩ := steps_of_mem_named hq
        rw [hp, hq]
        exact List.cons_lt_cons_iff.mpr (.inl hab)
    · rw [findings_of_fault (fault?_of_long (Nat.not_lt.mp short) entries)]
      exact List.pairwise_singleton _ _

theorem Open.openTo {node : Node} {path : Bytes} (free : node.Open path) (deep : Bool) : node.OpenTo deep path :=
  fun steps leaf leads _ => free steps leaf leads

theorem OpenTo.clean {node : Node} {deep : Bool} {path : Bytes} (free : node.OpenTo deep path) (tidy : node.Tidy)
    {found : Finding} (mem : found ∈ node.findings deep path) : found.fault = none := by
  obtain ⟨steps, fault⟩ := found
  cases fault with
  | none => rfl
  | some cause =>
    obtain ⟨⟨leaf, leads, fault⟩, met, -⟩ := (mem_findings_fault tidy).mp mem
    cases (free steps leaf leads met).symm.trans fault

/-- Where every directory can be listed, the way to a file is short enough. -/
theorem OpenTo.mem_findings {node : Node} {deep : Bool} {path : Bytes} (free : node.OpenTo deep path)
    (tidy : node.Tidy) {steps : Location} :
    ⟨steps, none⟩ ∈ node.findings deep path ↔ node.HasFile steps ∧ (deep = true ∨ steps.length = 1) := by
  rw [mem_findings_file tidy, ← and_assoc, and_iff_left_iff_imp]
  rintro ⟨⟨below, leaf, leads, -⟩, far⟩
  obtain ⟨front, name, rfl⟩ := (List.eq_nil_or_concat' steps).resolve_left below
  obtain ⟨visible, there⟩ := leads
  obtain ⟨parent, atParent, child⟩ : ∃ parent, node.at? front = some parent ∧ parent.child? name = some leaf := by
    rw [at?_concat] at there
    exact Option.bind_eq_some_iff.mp there
  rw [List.dropLast_concat]
  cases parent with
  | file | link | locked => cases child
  | dir entries =>
    have way : node.Leads front (dir entries) := ⟨fun step mem => visible step (List.mem_append_left _ mem), atParent⟩
    exact fault?_dir_eq_none_iff.mp (free front _ way (far.imp_right (by simp)))

end Node

namespace FileSystem

/-- The list holds the directories of a root that are shown, each once and by displayed name; those displayed
alike stand in it as in the directory. -/
structure ListsSubfolders (fs : FileSystem) (root : Bytes) (subs : List Subfolder) : Prop where
  mem_iff : ∀ sub, sub ∈ subs ↔ ∃ name, (∃ entries, fs.lookup root = .ok (.dir entries) ∧
    name ∈ entries.map Prod.fst) ∧ Path.isHidden name.shown = false ∧
    fs.isDir (Path.join root name) = true ∧ sub = ⟨name.shown, Path.join root name⟩
  once : subs.Nodup
  sorted : ∀ entries, fs.lookup root = .ok (.dir entries) →
    StablySorted Subfolder.key (entries.filterMap (fs.subfolder? root)) subs

theorem subfolder?_eq_some_iff {fs : FileSystem} {root : Bytes} {entry : Bytes × Node} {sub : Subfolder} :
    fs.subfolder? root entry = some sub ↔ Path.isHidden entry.1.shown = false ∧
      fs.isDir (Path.join root entry.1) = true ∧ sub = ⟨entry.1.shown, Path.join root entry.1⟩ := by
  unfold subfolder?
  simp only [Option.ite_none_right_eq_some, Bool.and_eq_true, Bool.not_eq_true', Option.some.injEq, and_assoc]
  exact and_congr_right fun _ => and_congr_right fun _ => eq_comm

theorem join_injective (root : Bytes) : Function.Injective (Path.join root) := by
  intro a b same
  unfold Path.join at same
  split at same
  · exact List.append_cancel_left same
  · exact (List.cons.inj (List.append_cancel_left same)).2

theorem lists_subfolders {fs : FileSystem} (tidy : fs.root.Tidy) {root : Bytes} {subs : List Subfolder}
    (listed : fs.subfolders root = .ok subs) : fs.ListsSubfolders root subs := by
  unfold subfolders at listed
  cases read : fs.readDir root with
  | error cause => rw [read] at listed; cases listed
  | ok entries =>
    rw [read] at listed
    cases listed
    have atRoot := readDir_eq_ok_iff.mp read
    have apart : (entries.map Prod.fst).Nodup := (Node.tidy_dir_iff.mp (lookup_tidy tidy atRoot)).1
    refine ⟨fun sub => ?_, ?_, ?_⟩
    · rw [List.mem_mergeSort, List.mem_filterMap]
      simp only [subfolder?_eq_some_iff, atRoot, Except.ok.injEq, Node.dir.injEq, exists_eq_left', List.mem_map]
      constructor
      · rintro ⟨entry, mem, shown⟩
        exact ⟨entry.1, ⟨entry, mem, rfl⟩, shown⟩
      · rintro ⟨_, ⟨entry, mem, rfl⟩, shown⟩
        exact ⟨entry, mem, shown⟩
    · refine (List.mergeSort_perm _ _).nodup_iff.mpr ?_
      rw [List.nodup_iff_pairwise_ne, List.pairwise_filterMap]
      refine (List.pairwise_map.mp apart).imp fun {a b} differ p hp q hq => ?_
      obtain ⟨-, -, rfl⟩ := subfolder?_eq_some_iff.mp hp
      obtain ⟨-, -, rfl⟩ := subfolder?_eq_some_iff.mp hq
      exact fun same => differ (join_injective root (Subfolder.mk.inj same).2)
    · intro entries' atRoot'
      cases atRoot.symm.trans atRoot'
      exact stablySorted_mergeSort Subfolder.key _

theorem sublist_filterMap {α β : Type} {f g : α → Option β} {as bs : List α} (sub : as.Sublist bs)
    (kept : ∀ a ∈ as, ∀ b, f a = some b → g a = some b) : (as.filterMap f).Sublist (bs.filterMap g) := by
  refine List.Sublist.trans ?_ (sub.filterMap g)
  clear sub
  induction as with
  | nil => exact .refl _
  | cons a as ih =>
    obtain ⟨own, others⟩ := List.forall_mem_cons.mp kept
    cases first : f a with
    | none =>
      rw [List.filterMap_cons_none first]
      exact (ih others).trans ((List.sublist_cons_self a as).filterMap g)
    | some b =>
      rw [List.filterMap_cons_some first, List.filterMap_cons_some (own b first)]
      exact (ih others).cons_cons b

theorem sublist_subfolders {before after : FileSystem} (tidy : before.root.Tidy) (tidy' : after.root.Tidy)
    {root : Bytes} {entries entries' : List (Bytes × Node)} {subs subs' : List Subfolder}
    (found : before.lookup root = .ok (.dir entries)) (found' : after.lookup root = .ok (.dir entries'))
    (listed : before.subfolders root = .ok subs) (listed' : after.subfolders root = .ok subs')
    (names : (entries.map Prod.fst).Sublist (entries'.map Prod.fst)) (kept : subs ⊆ subs') : subs.Sublist subs' := by
  have lists := lists_subfolders tidy listed
  have lists' := lists_subfolders tidy' listed'
  have stable := lists.sorted entries found
  have stable' := lists'.sorted entries' found'
  refine stable.sublist stable' ?_ (stable'.perm.nodup_iff.mp lists'.once)
  have byNames : ∀ (fs : FileSystem) (entries : List (Bytes × Node)), entries.filterMap (fs.subfolder? root) =
      (entries.map Prod.fst).filterMap fun name => fs.subfolder? root (name, .empty) := by
    intro fs entries
    rw [List.filterMap_map]
    rfl
  rw [byNames, byNames]
  refine sublist_filterMap names fun name mem sub shown => ?_
  obtain ⟨entry, held, rfl⟩ := List.mem_map.mp mem
  have member : sub ∈ subs := stable.perm.mem_iff.mpr (List.mem_filterMap.mpr ⟨entry, held, shown⟩)
  obtain ⟨other, -, visible, isDir, same⟩ := (lists'.mem_iff sub).mp (kept member)
  obtain ⟨-, -, own⟩ := subfolder?_eq_some_iff.mp shown
  obtain rfl : other = entry.1 := join_injective root (Subfolder.mk.inj (same.symm.trans own)).2
  exact subfolder?_eq_some_iff.mpr ⟨visible, isDir, own⟩

end FileSystem

end SweepPlot
