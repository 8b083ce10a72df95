import SweepPlot.Proofs.Files.Listing
import SweepPlot.Proofs.Files.Replace
set_option autoImplicit false

namespace SweepPlot

namespace Node

section Tidy

theorem mem_setEntry {name : Bytes} {child : Node} {entries : List (Bytes × Node)} {entry : Bytes × Node}
    (mem : entry ∈ setEntry name child entries) : entry = (name, child) ∨ entry ∈ entries := by
  induction entries with
  | nil => exact .inl (List.mem_singleton.mp mem)
  | cons first rest ih =>
    rw [setEntry] at mem
    split at mem
    · exact (List.mem_cons.mp mem).imp_right (List.mem_cons_of_mem _)
    · obtain rfl | mem := List.mem_cons.mp mem
      · exact .inr List.mem_cons_self
      · exact (ih mem).imp_right (List.mem_cons_of_mem _)

theorem nodup_setEntry {name : Bytes} {child : Node} {entries : List (Bytes × Node)}
    (names : (entries.map Prod.fst).Nodup) : ((setEntry name child entries).map Prod.fst).Nodup := by
  induction entries with
  | nil => exact List.nodup_singleton name
  | cons first rest ih =>
    obtain ⟨apart, names⟩ := List.nodup_cons.mp names
    rw [setEntry]
    split
    next same => exact List.nodup_cons.mpr ⟨same ▸ apart, names⟩
    next differ =>
      refine List.nodup_cons.mpr ⟨fun mem => ?_, ih names⟩
      obtain ⟨entry, there, same⟩ := List.mem_map.mp mem
      obtain rfl | there := mem_setEntry there
      · exact differ same.symm
      · exact apart (List.mem_map.mpr ⟨entry, there, same⟩)

theorem tidy_setEntry {name : Bytes} {child : Node} {entries : List (Bytes × Node)} (tidy : (dir entries).Tidy)
    (own : child.Tidy) : (dir (setEntry name child entries)).Tidy := by
  obtain ⟨names, below⟩ := tidy_dir_iff.mp tidy
  refine tidy_dir_iff.mpr ⟨nodup_setEntry names, fun entry mem => ?_⟩
  obtain rfl | mem := mem_setEntry mem
  · exact own
  · exact below entry mem

theorem tidy_put {new node : Node} (own : new.Tidy) (location : Location) (tidy : node.Tidy) :
    (put new location node).Tidy := by
  induction location generalizing node with
  | nil => exact own
  | cons name rest ih =>
    cases node with
    | file | link | locked => exact tidy
    | dir entries =>
      rw [put]
      split
      next child found => exact tidy_setEntry tidy (ih (tidy.child found))
      · split
        · exact tidy_setEntry tidy own
        · exact tidy

theorem tidy_remove {node : Node} (location : Location) (tidy : node.Tidy) : (remove location node).Tidy := by
  induction location generalizing node with
  | nil => exact tidy
  | cons name rest ih =>
    cases node with
    | file | link | locked => exact tidy
    | dir entries =>
      obtain ⟨names, below⟩ := tidy_dir_iff.mp tidy
      rw [remove]
      split
      · exact tidy_dir_iff.mpr ⟨names.sublist (List.filter_sublist.map _),
          fun entry mem => below entry (List.mem_filter.mp mem).1⟩
      · split
        next child found => exact tidy_setEntry tidy (ih (tidy.child found))
        · exact tidy

end Tidy

section Grown

variable {old new : Node} {deep : Bool}

/-- Below the new node is what was below the old one, and directories that were not there. -/
def Grown (old new : Node) : Prop :=
  ∀ steps, new.itemAt? steps = old.itemAt? steps ∨
    old.itemAt? steps = none ∧ new.itemAt? steps = some .directory

theorem at?_eq_iff {node leaf : Node} (plain : leaf.item ≠ .directory) {steps : Location} :
    node.at? steps = some leaf ↔ node.itemAt? steps = some leaf.item := by
  unfold itemAt?
  cases node.at? steps with
  | none => simp
  | some found => cases found <;> cases leaf <;> simp_all [item]

theorem Grown.itemAt?_iff (grown : old.Grown new) {steps : Location} {item : Item} (plain : item ≠ .directory) :
    new.itemAt? steps = some item ↔ old.itemAt? steps = some item := by
  obtain same | ⟨absent, made⟩ := grown steps
  · rw [same]
  · rw [absent, made]
    refine iff_of_false (fun h => plain ?_) (fun h => by cases h)
    cases h
    rfl

theorem Grown.leads_iff (grown : old.Grown new) {steps : Location} {leaf : Node} (plain : leaf.item ≠ .directory) :
    new.Leads steps leaf ↔ old.Leads steps leaf := by
  unfold Leads
  rw [at?_eq_iff plain, at?_eq_iff plain, grown.itemAt?_iff plain]

theorem Grown.hasFile_iff (grown : old.Grown new) {steps : Location} : new.HasFile steps ↔ old.HasFile steps := by
  unfold HasFile
  refine and_congr_right fun _ => exists_congr fun leaf => and_congr_left fun file => grown.leads_iff ?_
  cases leaf with
  | dir => cases file
  | file | link | locked => exact Item.noConfusion

theorem fault?_eq_of_item {a b : Node} (same : a.item = b.item) (path : Bytes) : a.fault? path = b.fault? path := by
  cases a <;> cases b <;> cases same <;> rfl

/-- What is new below the node is at paths that can be listed, as far as a walk gets to it. -/
def WithinReach (old new : Node) (path : Bytes) : Prop :=
  ∀ steps, old.itemAt? steps = none → new.itemAt? steps ≠ none → (∀ step ∈ steps, Path.isVisible step = true) →
    (Path.joinAll path steps.dropLast).length < FileSystem.pathLimit →
      (Path.joinAll path steps).length < FileSystem.pathLimit

/-- A directory that has grown lists what it listed, if a deep walk can list what is new. -/
theorem Grown.findings_eq (grown : old.Grown new) (tidy : old.Tidy) (tidy' : new.Tidy) {path : Bytes}
    (reach : deep = true → old.WithinReach new path) : new.findings deep path = old.findings deep path := by
  have : Std.Antisymm fun a b : Finding => a.steps < b.steps := ⟨fun _ _ h h' => absurd h (List.lt_asymm h')⟩
  have : Std.Irrefl fun a b : Finding => a.steps < b.steps := ⟨fun _ => List.lt_irrefl _⟩
  refine (rising_findings tidy' deep path).eq_of_mem_iff (rising_findings tidy deep path) fun ⟨steps, fault⟩ => ?_
  cases fault with
  | none => rw [mem_findings_file tidy', mem_findings_file tidy, grown.hasFile_iff]
  | some cause =>
    rw [mem_findings_fault tidy', mem_findings_fault tidy]
    refine and_congr_left fun ⟨met, short⟩ => ⟨?_, ?_⟩
    · rintro ⟨leaf, ⟨visible, there⟩, fault⟩
      obtain same | ⟨absent, made⟩ := grown steps
      · obtain ⟨leaf', there', item⟩ := Option.map_eq_some_iff.mp (same.symm.trans (congrArg (Option.map item) there))
        exact ⟨leaf', ⟨visible, there'⟩, (fault?_eq_of_item item _).trans fault⟩
      · -- A new directory is where it can be listed.
        have below : steps ≠ [] := by
          rintro rfl
          cases absent
        have there' : new.itemAt? steps ≠ none := by
          rw [made]
          exact Option.some_ne_none _
        have listed := reach (met.resolve_right below) steps absent there' visible (short below)
        obtain ⟨entries, atSteps⟩ := itemAt?_eq_directory_iff.mp made
        cases there.symm.trans atSteps
        cases (fault?_dir_eq_none_iff.mpr listed).symm.trans fault
    · rintro ⟨leaf, ⟨visible, there⟩, fault⟩
      have kept : new.itemAt? steps = some leaf.item := by
        obtain same | ⟨absent, -⟩ := grown steps
        · exact same.trans (congrArg (Option.map item) there)
        · cases absent.symm.trans (congrArg (Option.map item) there)
      obtain ⟨leaf', there', item⟩ := Option.map_eq_some_iff.mp kept
      exact ⟨leaf', ⟨visible, there'⟩, (fault?_eq_of_item item _).trans fault⟩

theorem findings_of_directories {node : Node} (tidy : node.Tidy) {path : Bytes}
    (only : ∀ steps item, node.itemAt? steps = some item → item = .directory)
    (short : path.length < FileSystem.pathLimit)
    (reach : ∀ steps, node.itemAt? steps ≠ none → (∀ step ∈ steps, Path.isVisible step = true) →
      (Path.joinAll path steps.dropLast).length < FileSystem.pathLimit →
        (Path.joinAll path steps).length < FileSystem.pathLimit) (deep : Bool) :
    node.findings deep path = [] := by
  refine List.eq_nil_iff_forall_not_mem.mpr fun ⟨steps, fault⟩ mem => ?_
  cases fault with
  | none =>
    obtain ⟨⟨-, leaf, leads, file⟩, -⟩ := (mem_findings_file tidy).mp mem
    have plain := only steps leaf.item (congrArg (Option.map item) leads.2)
    cases leaf with
    | dir => cases file
    | file | link | locked => cases plain
  | some cause =>
    obtain ⟨⟨leaf, ⟨visible, there⟩, fault⟩, -, near⟩ := (mem_findings_fault tidy).mp mem
    have atSteps : node.itemAt? steps = some leaf.item := congrArg (Option.map item) there
    have listed : (Path.joinAll path steps).length < FileSystem.pathLimit := by
      by_cases here : steps = []
      · rw [here]
        exact short
      · refine reach steps ?_ visible (near here)
        rw [atSteps]
        exact Option.some_ne_none _
    cases leaf with
    | dir entries => cases (fault?_dir_eq_none_iff.mpr listed).symm.trans fault
    | file | link | locked => cases only steps _ atSteps

end Grown

end Node

namespace FileSystem

variable {fs : FileSystem}

section Tidy

theorem tidy_putAt {new : Node} (own : new.Tidy) (location : Location) (tidy : fs.root.Tidy) :
    (fs.putAt location new).root.Tidy :=
  Node.tidy_put own location tidy

theorem tidy_removeAt (location : Location) (tidy : fs.root.Tidy) : (fs.removeAt location).root.Tidy :=
  Node.tidy_remove location tidy

theorem tidy_makeDir {path : Bytes} {made : FileSystem} (tidy : fs.root.Tidy) (done : fs.makeDir path = .ok made) :
    made.root.Tidy := by
  unfold makeDir at done
  split at done
  · cases done
  · cases done
  · cases done
    exact tidy_putAt (by simp [Node.empty]) _ tidy

theorem tidy_makeDirs (making : Bytes → Bool → Option IoCause) (path : Bytes) (tidy : fs.root.Tidy) :
    (fs.makeDirs making path).1.root.Tidy :=
  makeLineage_induct tidy_makeDir _ tidy

theorem tidy_append {path : Bytes} {bytes : Bytes} {after : FileSystem} (tidy : fs.root.Tidy)
    (done : fs.append path bytes = .ok after) : after.root.Tidy := by
  unfold append at done
  cases goes : fs.writable path with
  | error cause => rw [goes] at done; cases done
  | ok found =>
    rw [goes] at done
    cases done
    exact tidy_putAt (Node.tidy_file _) _ tidy

theorem tidy_moveFile {source : Location} {path : Bytes} {moved : FileSystem} (tidy : fs.root.Tidy)
    (done : fs.moveFile source path = .ok moved) : moved.root.Tidy := by
  unfold moveFile at done
  split at done
  · cases done
  · split at done
    · cases done
    · split at done
      · cases done
      · split at done
        · cases done
        next file there =>
          split at done
          · cases done
            exact tidy
          · cases done
            exact tidy_removeAt _ (tidy_putAt (tidy.at? there) _ tidy)

theorem tidy_replaceFile (faults : ReplaceFaults) (path : Bytes) (bytes : Bytes) (tidy : fs.root.Tidy) :
    (fs.replaceFile faults path bytes).1.root.Tidy := by
  have made := tidy_makeDirs faults.making (directoryText path) tidy
  unfold replaceFile
  dsimp only
  generalize fs.makeDirs faults.making (directoryText path) = reached at made ⊢
  obtain ⟨reached, answer⟩ := reached
  change reached.root.Tidy at made
  cases answer with
  | error cause => exact made
  | ok =>
  have filled : ∀ source, (reached.putAt source (.file bytes)).root.Tidy :=
    fun source => tidy_putAt (Node.tidy_file bytes) source made
  dsimp only
  split
  · exact made
  · split
    · exact tidy_removeAt _ (filled _)
    · split
      next moved done => exact tidy_moveFile (filled _) (orFault_eq_ok_iff.mp done).2
      · exact tidy_removeAt _ (filled _)

end Tidy

section Proper

theorem mem_steps_of_endingOf {path name : Bytes} {front : List Bytes} {slash : Bool}
    (ending : endingOf path = ⟨front, some name, slash⟩) : name ∈ Path.steps path ∧ Path.isName name = true := by
  unfold endingOf at ending
  dsimp only at ending
  have suffix : dropEmpty (Path.steps path).reverse <:+ (Path.steps path).reverse := List.dropWhile_suffix _
  split at ending
  · cases ending
  next last front' kept =>
    rw [kept] at suffix
    obtain ⟨-, named, -⟩ := Ending.mk.inj ending
    split at named
    next isName =>
      cases named
      exact ⟨List.mem_reverse.mp (suffix.subset List.mem_cons_self), isName⟩
    · cases named

theorem Ends.proper {path name : Bytes} {directory : Location} {slash : Bool}
    (ends : fs.Ends path directory name slash) : Path.Proper name := by
  obtain ⟨text, ⟨front, ending, -⟩, short⟩ := ends
  obtain ⟨mem, isName⟩ := mem_steps_of_endingOf ending
  obtain ⟨plain, sub⟩ := Text.of_mem_split mem
  exact ⟨⟨isName, short⟩, plain, fun nul => (checkPath_eq_ok_iff.mp text).2.1 (sub nul)⟩

theorem makeDirs_proper (making : Bytes → Bool → Option IoCause) (path : Bytes) {directory : Location} {name : Bytes}
    (absent : fs.itemAt? (directory ++ [name]) = none)
    (there : (fs.makeDirs making path).1.itemAt? (directory ++ [name]) ≠ none) : Path.Proper name := by
  let P (made : FileSystem) : Prop := made.itemAt? (directory ++ [name]) ≠ none → Path.Proper name
  have step : ∀ {fs made : FileSystem} {path : Bytes}, P fs → fs.makeDir path = .ok made → P made := by
    intro fs made path known done there
    unfold makeDir at done
    split at done
    · cases done
    · cases done
    next up last slash found =>
      cases done
      obtain ⟨ends, absent⟩ := target_eq_ok_iff.mp found
      rw [itemAt?_putAt Node.leaf_empty (takes_free ends.inside absent.symm)] at there
      by_cases here : directory ++ [name] = up ++ [last]
      · rw [(List.append_inj' here rfl).2 |> List.singleton_inj.mp]
        exact ends.proper
      · rw [if_neg here] at there
        exact known there
  exact makeLineage_induct (P := P) step _ (fun there => absurd absent there) there

end Proper

section Below

variable {before after : FileSystem} {path : Bytes} {location steps : Location} {node old new leaf : Node}

theorem joinAll_append (path : Bytes) (steps : List Bytes) : ∃ more, Path.joinAll path steps = path ++ more := by
  induction steps generalizing path with
  | nil => exact ⟨[], by simp [Path.joinAll]⟩
  | cons step steps ih =>
    obtain ⟨more, whole⟩ := ih (Path.join path step)
    obtain ⟨slash, within⟩ := Path.within_eq path
    refine ⟨slash ++ step ++ more, ?_⟩
    change Path.joinAll (Path.join path step) steps = _
    rw [whole, Path.join_eq, within, List.append_assoc, List.append_assoc, List.append_assoc]

theorem LeadsTo.joinAll (leads : fs.LeadsTo path location) (there : fs.root.at? location = some node)
    (below : node.at? steps = some leaf) (proper : ∀ step ∈ steps, Path.Proper step)
    (solid : leaf.item.isLink = false) (text : checkPath (Path.joinAll path steps) = .ok ()) :
    fs.LeadsTo (Path.joinAll path steps) (location ++ steps) := by
  induction steps generalizing path location node with
  | nil =>
    rw [List.append_nil]
    exact leads
  | cons name rest ih =>
    obtain ⟨own, others⟩ := List.forall_mem_cons.mp proper
    obtain ⟨child, found, deeper⟩ := Option.bind_eq_some_iff.mp below
    have atChild : fs.root.at? (location ++ [name]) = some child := by
      rw [Node.at?_concat, there]
      exact found
    have inside : fs.itemAt? location = some .directory := Node.itemAt?_front atChild
    have solidChild : child.item.isLink = false := by
      cases rest with
      | nil =>
        cases deeper
        exact solid
      | cons =>
        cases child with
        | dir => rfl
        | file | link | locked => cases deeper
    have textChild : checkPath (Path.join path name) = .ok () := by
      obtain ⟨more, whole⟩ := joinAll_append (Path.join path name) rest
      refine checkPath_front (whole ▸ text) (Path.join_closed path own).1
    have next := leads.join inside own.names own.plain textChild (congrArg (Option.map Node.item) atChild) solidChild
    rw [List.append_cons location name rest]
    exact ih next atChild deeper others text

/-- Where only directories have been made, a path to a file is read as before. -/
theorem readFile_below (grown : old.Grown new) (leads : before.LeadsTo path location)
    (leads' : after.LeadsTo path location) (there : before.root.at? location = some old)
    (there' : after.root.at? location = some new) (below : old.at? steps = some leaf)
    (proper : ∀ step ∈ steps, Path.Proper step) (plain : leaf.item ≠ .directory) (solid : leaf.item.isLink = false) :
    after.readFile (Path.joinAll path steps) = before.readFile (Path.joinAll path steps) := by
  cases text : checkPath (Path.joinAll path steps) with
  | error cause =>
    unfold readFile openFile lookup place
    rw [text]
  | ok =>
    have below' : new.at? steps = some leaf :=
      (Node.at?_eq_iff plain).mpr ((grown.itemAt?_iff plain).mpr ((Node.at?_eq_iff plain).mp below))
    have found : before.lookup (Path.joinAll path steps) = .ok leaf :=
      lookup_eq_ok_iff.mpr ⟨_, leads.joinAll there below proper solid text, by rw [Node.at?_append, there]; exact below⟩
    have found' : after.lookup (Path.joinAll path steps) = .ok leaf :=
      lookup_eq_ok_iff.mpr ⟨_, leads'.joinAll there' below' proper solid text,
        by rw [Node.at?_append, there']; exact below'⟩
    unfold readFile openFile
    rw [found, found']

theorem ChangesOnly.grown {touched : List Location} (changes : ChangesOnly before touched after)
    (apart : ∀ other ∈ touched, ¬ location <+: other) (there : before.root.at? location = some old)
    (there' : after.root.at? location = some new) : old.Grown new := by
  intro steps
  have away : location ++ steps ∉ touched := fun mem => apart _ mem (List.prefix_append _ _)
  have below := changes.items _ away
  unfold itemAt? Node.itemAt? at below
  rw [Node.at?_append, Node.at?_append, there, there'] at below
  exact below

end Below

end FileSystem

end SweepPlot
