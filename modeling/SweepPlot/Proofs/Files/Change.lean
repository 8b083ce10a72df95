import SweepPlot.Files.Change
import SweepPlot.Proofs.Files.Trail
import SweepPlot.Proofs.Outcome
set_option autoImplicit false

namespace SweepPlot

namespace Node

theorem lookup_setEntry (name other : Bytes) (child : Node) (entries : List (Bytes × Node)) :
    (setEntry name child entries).lookup other = if other = name then some child else entries.lookup other := by
  induction entries with
  | nil => exact Keyed.lookup_cons name other child []
  | cons entry entries ih =>
    obtain ⟨first, node⟩ := entry
    rw [setEntry]
    by_cases same : first = name
    · subst same
      rw [if_pos rfl, Keyed.lookup_cons, Keyed.lookup_cons]
      by_cases h : other = first <;> simp [h]
    · rw [if_neg same, Keyed.lookup_cons, Keyed.lookup_cons, ih]
      by_cases h : other = first
      · subst h
        simp [same]
      · simp [h]

/-- A node that holds no other one. -/
def Leaf (node : Node) : Prop :=
  node.entries = []

theorem itemAt?_cons (name : Bytes) (rest : Location) (node : Node) :
    node.itemAt? (name :: rest) = (node.child? name).bind (Node.itemAt? · rest) := by
  rw [itemAt?, at?_cons, Option.map_bind]
  rfl

theorem leaf_file (content : Bytes) : (Node.file content).Leaf := rfl

theorem leaf_empty : Node.empty.Leaf := rfl

theorem leaf_of_not_directory {node : Node} (solid : node.isDirectory = false) : node.Leaf := by
  cases node with
  | dir => cases solid
  | file | link | locked => rfl

theorem Leaf.itemAt?_cons {node : Node} (leaf : node.Leaf) (name : Bytes) (rest : Location) :
    node.itemAt? (name :: rest) = none := by
  rw [Node.itemAt?_cons, child?, show node.entries = [] from leaf]
  rfl

/-- There is a leaf at the location, or room for one in a directory. -/
structure Takes (node : Node) (location : Location) : Prop where
  leaf : ∀ old, node.at? location = some old → old.Leaf
  inside : location = [] ∨ node.itemAt? location.dropLast = some .directory

theorem Takes.cons {node : Node} {name : Bytes} {rest : Location} (takes : node.Takes (name :: rest)) :
    ∃ entries, node = .dir entries ∧
      ((∃ child, entries.lookup name = some child ∧ child.Takes rest) ∨
        entries.lookup name = none ∧ rest = []) := by
  obtain ⟨leaf, none | inside⟩ := takes
  · cases none
  cases rest with
  | nil =>
    obtain ⟨entries, same⟩ := itemAt?_eq_directory_iff.mp inside
    cases same
    refine ⟨entries, rfl, ?_⟩
    cases found : entries.lookup name with
    | none => exact .inr ⟨rfl, rfl⟩
    | some child =>
      refine .inl ⟨child, rfl, fun old same => ?_, .inl rfl⟩
      cases same
      exact leaf child (by rw [at?_cons, child?, Node.entries, found]; rfl)
  | cons next rest =>
    rw [List.dropLast_cons_cons, itemAt?_cons] at inside
    obtain ⟨child, found, below⟩ := Option.bind_eq_some_iff.mp inside
    cases node with
    | file | link | locked => cases found
    | dir entries =>
      refine ⟨entries, rfl, .inl ⟨child, found, fun old there => ?_, .inr below⟩⟩
      exact leaf old (by rw [at?_cons, found]; exact there)

/-- What is put is there, and nothing else is touched. -/
theorem itemAt?_put {new node : Node} {location : Location} (leaf : new.Leaf)
    (takes : node.Takes location) (other : Location) :
    (put new location node).itemAt? other =
      if other = location then some new.item else node.itemAt? other := by
  induction location generalizing node other with
  | nil =>
    cases other with
    | nil => rfl
    | cons name rest =>
      rw [if_neg (List.cons_ne_nil name rest), (takes.leaf node rfl).itemAt?_cons]
      exact leaf.itemAt?_cons name rest
  | cons name rest ih =>
    obtain ⟨entries, rfl, below⟩ := takes.cons
    -- One entry is set; below it the change is the one that the induction hypothesis is about.
    obtain ⟨child, whole, inner⟩ : ∃ child, put new (name :: rest) (.dir entries) =
        .dir (setEntry name child entries) ∧ ∀ deeper, child.itemAt? deeper =
          if deeper = rest then some new.item else (entries.lookup name).bind (Node.itemAt? · deeper) := by
      obtain ⟨child, found, takesRest⟩ | ⟨absent, rfl⟩ := below
      · refine ⟨put new rest child, by simp [put, found], fun deeper => ?_⟩
        rw [found]
        exact ih takesRest deeper
      · refine ⟨new, by simp [put, absent], fun deeper => ?_⟩
        rw [absent]
        cases deeper with
        | nil => rfl
        | cons step deeper => exact leaf.itemAt?_cons step deeper
    rw [whole]
    cases other with
    | nil => rfl
    | cons step deeper =>
      rw [itemAt?_cons, itemAt?_cons, child?, child?, Node.entries, Node.entries, lookup_setEntry]
      by_cases same : step = name
      · subst same
        rw [if_pos rfl, Option.bind_some, inner]
        simp
      · rw [if_neg same, if_neg fun both => same (List.cons.inj both).1]

theorem itemAt?_remove {node old : Node} {location : Location} (given : location ≠ [])
    (there : node.at? location = some old) (leaf : old.Leaf) (other : Location) :
    (remove location node).itemAt? other = if other = location then none else node.itemAt? other := by
  induction location generalizing node other with
  | nil => exact absurd rfl given
  | cons name rest ih =>
    rw [at?_cons] at there
    obtain ⟨child, found, below⟩ := Option.bind_eq_some_iff.mp there
    cases node with
    | file | link | locked => cases found
    | dir entries =>
    cases other with
    | nil =>
      cases rest with
      | nil => rfl
      | cons => simp [remove, show entries.lookup name = some child from found]; rfl
    | cons step deeper =>
    cases rest with
    | nil =>
      cases below
      rw [show remove [name] (.dir entries) = .dir (entries.filter fun entry => entry.1 != name) from rfl,
        itemAt?_cons, itemAt?_cons, child?, Node.entries, Keyed.lookup_filter_ne]
      by_cases same : step = name
      · subst same
        rw [found, if_pos rfl]
        cases deeper with
        | nil => simp
        | cons next deeper => simp [leaf.itemAt?_cons next deeper]
      · rw [if_neg same, if_neg fun both => same (List.cons.inj both).1]
        rfl
    | cons next rest =>
      have whole : remove (name :: next :: rest) (.dir entries) =
          .dir (setEntry name (remove (next :: rest) child) entries) := by
        simp [remove, show entries.lookup name = some child from found]
      rw [whole, itemAt?_cons, itemAt?_cons, child?, Node.entries, lookup_setEntry]
      by_cases same : step = name
      · subst same
        rw [if_pos rfl, Option.bind_some, ih (List.cons_ne_nil next rest) below, found]
        simp
      · rw [if_neg same, if_neg fun both => same (List.cons.inj both).1]
        rfl

theorem sublist_names_setEntry (name : Bytes) (child : Node) (entries : List (Bytes × Node)) :
    (entries.map Prod.fst).Sublist ((setEntry name child entries).map Prod.fst) := by
  induction entries with
  | nil => exact List.nil_sublist _
  | cons entry entries ih =>
    rw [setEntry]
    split
    next same =>
      rw [List.map_cons, List.map_cons, same]
    next => exact ih.cons_cons entry.1

theorem itemAt?_above {node found : Node} {location : Location} {name : Bytes} {rest : Location}
    (there : node.at? (location ++ name :: rest) = some found) : node.itemAt? location = some .directory := by
  rw [List.append_cons, at?_append] at there
  obtain ⟨parent, atParent, -⟩ := Option.bind_eq_some_iff.mp there
  exact itemAt?_front atParent

theorem names_put {new node : Node} {location place : Location} {entries : List (Bytes × Node)}
    (outside : ¬ location <+: place) (there : node.at? place = some (.dir entries)) :
    ∃ entries', (put new location node).at? place = some (.dir entries') ∧
      (entries.map Prod.fst).Sublist (entries'.map Prod.fst) := by
  induction location generalizing node place with
  | nil => exact absurd List.nil_prefix outside
  | cons name rest ih =>
    cases node with
    | file | link | locked => exact ⟨entries, there, .refl _⟩
    | dir own =>
    rw [put]
    cases place with
    | nil =>
      cases there
      split
      · exact ⟨_, rfl, sublist_names_setEntry _ _ _⟩
      · split
        · exact ⟨_, rfl, sublist_names_setEntry _ _ _⟩
        · exact ⟨_, rfl, .refl _⟩
    | cons step deeper =>
      rw [at?_cons] at there
      obtain ⟨child, found, below⟩ := Option.bind_eq_some_iff.mp there
      have kept : ∀ set, step ≠ name → (dir (setEntry name set own)).at? (step :: deeper) = some (dir entries) := by
        intro set apart
        rw [at?_cons, child?, Node.entries, lookup_setEntry, if_neg apart]
        exact there
      split
      next other found' =>
        by_cases same : step = name
        · subst same
          cases found.symm.trans found'
          have deepOutside : ¬ rest <+: deeper := fun inside => outside (List.cons_prefix_cons.mpr ⟨rfl, inside⟩)
          obtain ⟨entries', there', sub⟩ := ih deepOutside below
          refine ⟨entries', ?_, sub⟩
          rw [at?_cons, child?, Node.entries, lookup_setEntry, if_pos rfl]
          exact there'
        · exact ⟨entries, kept _ same, .refl _⟩
      next absent =>
        have apart : step ≠ name := by
          rintro rfl
          cases found.symm.trans absent
        split
        · exact ⟨entries, kept _ apart, .refl _⟩
        · exact ⟨entries, there, .refl _⟩

theorem names_remove {node : Node} {location place : Location} {entries : List (Bytes × Node)}
    (outside : ¬ location <+: place) (there : node.at? place = some (.dir entries)) :
    ∃ entries', (remove location node).at? place = some (.dir entries') ∧
      ((entries.map Prod.fst).filter fun name => place ++ [name] ≠ location).Sublist (entries'.map Prod.fst) := by
  induction location generalizing node place with
  | nil => exact absurd List.nil_prefix outside
  | cons name rest ih =>
    cases node with
    | file | link | locked => exact ⟨entries, there, List.filter_sublist⟩
    | dir own =>
    rw [remove]
    cases place with
    | nil =>
      cases there
      split
      next last =>
        refine ⟨_, rfl, ?_⟩
        rw [List.filter_map, last]
        simp [Function.comp_def, bne, beq_eq_decide]
      · split
        · exact ⟨_, rfl, List.filter_sublist.trans (sublist_names_setEntry _ _ _)⟩
        · exact ⟨_, rfl, List.filter_sublist⟩
    | cons step deeper =>
      rw [at?_cons] at there
      obtain ⟨child, found, below⟩ := Option.bind_eq_some_iff.mp there
      split
      next last =>
        have apart : step ≠ name := by
          rintro rfl
          exact outside (last ▸ List.cons_prefix_cons.mpr ⟨rfl, List.nil_prefix⟩)
        refine ⟨entries, ?_, List.filter_sublist⟩
        rw [at?_cons, child?, Node.entries, Keyed.lookup_filter_ne, if_neg apart]
        exact there
      split
      next other found' =>
        by_cases same : step = name
        · subst same
          cases found.symm.trans found'
          have deepOutside : ¬ rest <+: deeper := fun inside => outside (List.cons_prefix_cons.mpr ⟨rfl, inside⟩)
          obtain ⟨entries', there', sub⟩ := ih deepOutside below
          refine ⟨entries', ?_, ?_⟩
          · rw [at?_cons, child?, Node.entries, lookup_setEntry, if_pos rfl]
            exact there'
          · simpa using sub
        · refine ⟨entries, ?_, List.filter_sublist⟩
          rw [at?_cons, child?, Node.entries, lookup_setEntry, if_neg same]
          exact there
      · refine ⟨entries, ?_, List.filter_sublist⟩
        rw [at?_cons]
        exact there

end Node

namespace FileSystem

variable {fs : FileSystem}

theorem itemAt?_putAt {new : Node} {location : Location} (leaf : new.Leaf)
    (takes : fs.root.Takes location) (other : Location) :
    (fs.putAt location new).itemAt? other = if other = location then some new.item else fs.itemAt? other :=
  Node.itemAt?_put leaf takes other

theorem itemAt?_removeAt {old : Node} {location : Location} (given : location ≠ [])
    (there : fs.root.at? location = some old) (leaf : old.Leaf) (other : Location) :
    (fs.removeAt location).itemAt? other = if other = location then none else fs.itemAt? other :=
  Node.itemAt?_remove given there leaf other

theorem takes_entry {directory : Location} {name : Bytes} (inside : fs.itemAt? directory = some .directory)
    (leaf : ∀ old, fs.root.at? (directory ++ [name]) = some old → old.Leaf) :
    fs.root.Takes (directory ++ [name]) :=
  ⟨leaf, .inr (by rw [List.dropLast_concat]; exact inside)⟩

theorem takes_free {directory : Location} {name : Bytes} (inside : fs.itemAt? directory = some .directory)
    (absent : fs.root.at? (directory ++ [name]) = none) : fs.root.Takes (directory ++ [name]) :=
  takes_entry inside fun old there => by rw [absent] at there; cases there

section Names

/-- Every directory is still there and lists what it listed, in the same order, and perhaps more. -/
def KeepsNames (before after : FileSystem) : Prop :=
  ∀ place entries, before.root.at? place = some (.dir entries) → ∃ entries',
    after.root.at? place = some (.dir entries') ∧ (entries.map Prod.fst).Sublist (entries'.map Prod.fst)

theorem KeepsNames.refl (fs : FileSystem) : fs.KeepsNames fs :=
  fun _ entries there => ⟨entries, there, .refl _⟩

theorem KeepsNames.trans {before middle after : FileSystem} (first : before.KeepsNames middle)
    (second : middle.KeepsNames after) : before.KeepsNames after := by
  intro place entries there
  obtain ⟨entries', there', sub⟩ := first place entries there
  obtain ⟨entries'', there'', sub'⟩ := second place entries' there'
  exact ⟨entries'', there'', sub.trans sub'⟩

theorem outside_of_solid {location place : Location} {entries : List (Bytes × Node)}
    (solid : fs.itemAt? location ≠ some .directory) (there : fs.root.at? place = some (.dir entries)) :
    ¬ location <+: place := by
  rintro ⟨rest, rfl⟩
  cases rest with
  | nil =>
    rw [List.append_nil] at there
    exact solid (Node.itemAt?_eq_directory_iff.mpr ⟨entries, there⟩)
  | cons name rest => exact solid (Node.itemAt?_above there)

theorem keepsNames_putAt (new : Node) {location : Location} (solid : fs.itemAt? location ≠ some .directory) :
    fs.KeepsNames (fs.putAt location new) :=
  fun _ _ there => Node.names_put (outside_of_solid solid there) there

theorem KeepsNames.removeAt {before : FileSystem} {location : Location} (keeps : before.KeepsNames fs)
    (absent : before.itemAt? location = none) (solid : fs.itemAt? location ≠ some .directory) :
    before.KeepsNames (fs.removeAt location) := by
  intro place entries there
  obtain ⟨entries', there', sub⟩ := keeps place entries there
  obtain ⟨entries'', there'', sub'⟩ := Node.names_remove (outside_of_solid solid there') there'
  refine ⟨entries'', there'', ?_⟩
  have kept : (entries.map Prod.fst).filter (fun name => place ++ [name] ≠ location) = entries.map Prod.fst := by
    refine List.filter_eq_self.mpr fun name mem => decide_eq_true ?_
    rintro rfl
    obtain ⟨child, found⟩ := Option.isSome_iff_exists.mp (Keyed.lookup_isSome_iff_mem.mpr mem)
    have held : before.root.at? (place ++ [name]) = some child := by
      rw [Node.at?_concat, there]
      exact found
    cases absent.symm.trans (congrArg (Option.map Node.item) held)
  rw [← kept]
  exact (sub.filter _).trans sub'

end Names

/-- Two trees that differ at the touched locations only, but for directories that are new in the second. -/
structure ChangesOnly (before : FileSystem) (touched : List Location) (after : FileSystem) : Prop where
  workDir : after.workDir = before.workDir
  items : ∀ location ∉ touched, after.itemAt? location = before.itemAt? location ∨
    before.itemAt? location = none ∧ after.itemAt? location = some .directory

namespace ChangesOnly

variable {before middle after : FileSystem} {touched : List Location}

theorem refl (fs : FileSystem) (touched : List Location) : ChangesOnly fs touched fs :=
  ⟨rfl, fun _ _ => .inl rfl⟩

theorem trans (first : ChangesOnly before touched middle) (second : ChangesOnly middle touched after) :
    ChangesOnly before touched after := by
  refine ⟨second.workDir.trans first.workDir, fun location apart => ?_⟩
  obtain same | ⟨absent, made⟩ := first.items location apart
  · rw [← same]
    exact second.items location apart
  · obtain same' | ⟨absent', -⟩ := second.items location apart
    · exact .inr ⟨absent, same'.trans made⟩
    · cases made.symm.trans absent'

theorem mono {more : List Location} (sub : ∀ location ∈ touched, location ∈ more)
    (changes : ChangesOnly before touched after) : ChangesOnly before more after :=
  ⟨changes.workDir, fun location apart => changes.items location fun mem => apart (sub location mem)⟩

theorem keeps (changes : ChangesOnly before touched after) {location : Location} {item : Item}
    (apart : location ∉ touched) (there : before.itemAt? location = some item) :
    after.itemAt? location = some item := by
  obtain same | ⟨absent, -⟩ := changes.items location apart
  · exact same.trans there
  · cases absent.symm.trans there

theorem leadsTo (changes : ChangesOnly before [] after) {path : Bytes} {location : Location}
    (leads : before.LeadsTo path location) : after.LeadsTo path location :=
  leads.mono changes.workDir fun _ => .of_same fun _ => changes.keeps List.not_mem_nil

end ChangesOnly

section Target

theorem directoryOf_eq_ok_iff {path : Bytes} {front : List Bytes} {directory : Location} :
    fs.directoryOf path front = .ok directory ↔
      Trail fs.itemAt? linkLimit (startOf fs.workDir path) (front ++ [[]]) (.node directory) := by
  change _ ↔ Trail fs.root.itemAt? _ _ _ _
  rw [← walk_eq_ok_iff, directoryOf]
  cases walk fs.root false linkLimit (startOf fs.workDir path) (front ++ [[]]) with
  | error cause => simp
  | ok place => cases place <;> simp

/-- What is known of the end of a path when it is about to be made or replaced. -/
structure Ends (fs : FileSystem) (path : Bytes) (directory : Location) (name : Bytes) (slash : Bool) :
    Prop where
  text : checkPath path = .ok ()
  ending : ∃ front, endingOf path = ⟨front, some name, slash⟩ ∧ fs.directoryOf path front = .ok directory
  short : name.length ≤ nameLimit

theorem target_eq_ok_iff {path name : Bytes} {noName : IoCause} {directory : Location} {old : Option Node}
    {slash : Bool} : fs.target path noName = .ok (directory, name, old, slash) ↔
      fs.Ends path directory name slash ∧ old = fs.root.at? (directory ++ [name]) := by
  rw [Node.at?_concat]
  unfold target
  cases text : checkPath path with
  | error cause =>
    refine iff_of_false (fun h => by cases h) fun ⟨ends, _⟩ => ?_
    cases text.symm.trans ends.text
  | ok =>
  rcases ending : endingOf path with ⟨front, last, slash'⟩
  dsimp only
  cases reached : fs.directoryOf path front with
  | error cause =>
    refine iff_of_false (fun h => by cases h) fun ⟨ends, _⟩ => ?_
    obtain ⟨front', same, reached'⟩ := ends.ending
    cases ending.symm.trans same
    cases reached.symm.trans reached'
  | ok directory' =>
  cases last with
  | none =>
    refine iff_of_false (fun h => by cases h) fun ⟨ends, _⟩ => ?_
    obtain ⟨front', same, -⟩ := ends.ending
    cases ending.symm.trans same
  | some name' =>
  dsimp only
  split
  next long =>
    refine iff_of_false (fun h => by cases h) fun ⟨ends, _⟩ => ?_
    obtain ⟨front', same, -⟩ := ends.ending
    cases ending.symm.trans same
    exact Nat.not_lt.mpr ends.short long
  next short =>
    constructor
    · intro h
      cases h
      exact ⟨⟨text, ⟨front, ending, reached⟩, Nat.not_lt.mp short⟩, rfl⟩
    · rintro ⟨ends, rfl⟩
      obtain ⟨front', same, reached'⟩ := ends.ending
      cases ending.symm.trans same
      cases reached.symm.trans reached'
      rfl

theorem Ends.inside {path name : Bytes} {directory : Location} {slash : Bool}
    (ends : fs.Ends path directory name slash) : fs.itemAt? directory = some .directory := by
  obtain ⟨front, -, reached⟩ := ends.ending
  exact ((directoryOf_eq_ok_iff.mp reached).front_of_blank (.inl rfl)).1

end Target

section Make

theorem makeDir_changes {path : Bytes} {made : FileSystem} (done : fs.makeDir path = .ok made) :
    ChangesOnly fs [] made := by
  unfold makeDir at done
  split at done
  · cases done
  · cases done
  next directory name slash found =>
    cases done
    obtain ⟨ends, absent⟩ := target_eq_ok_iff.mp found
    have takes := takes_free ends.inside absent.symm
    refine ⟨rfl, fun location _ => ?_⟩
    rw [itemAt?_putAt Node.leaf_empty takes]
    by_cases here : location = directory ++ [name]
    · refine .inr ⟨?_, if_pos here⟩
      rw [here]
      exact Option.map_eq_none_iff.mpr absent.symm
    · exact .inl (if_neg here)

theorem orFault_eq_ok_iff {α : Type} {fault : Option IoCause} {given : Except IoCause α} {a : α} :
    orFault fault given = .ok a ↔ fault = none ∧ given = .ok a := by
  cases fault <;> simp [orFault]

/-- What holds at the start and is kept by every directory that is made holds at the end. -/
theorem makeLineage_induct {P : FileSystem → Prop} {making : Bytes → Bool → Option IoCause}
    (step : ∀ {fs made : FileSystem} {path : Bytes}, P fs → fs.makeDir path = .ok made → P made)
    (paths : List Bytes) {fs : FileSystem} (start : P fs) : P (fs.makeLineage making paths).1 := by
  induction paths generalizing fs with
  | nil => exact start
  | cons path parents ih =>
    rw [makeLineage]
    split
    next made done => exact step start (orFault_eq_ok_iff.mp done).2
    next =>
      have below := ih start
      split
      next reached cause failed =>
        rw [failed] at below
        exact below
      next reached done =>
        rw [done] at below
        split
        next made done => exact step below (orFault_eq_ok_iff.mp done).2
        next => exact below
    next => exact start

theorem makeDirs_changes (fs : FileSystem) (making : Bytes → Bool → Option IoCause) (path : Bytes) :
    ChangesOnly fs [] (fs.makeDirs making path).1 :=
  makeLineage_induct (fun below done => below.trans (makeDir_changes done)) _ (.refl fs [])

theorem makeDir_keepsNames {path : Bytes} {made : FileSystem} (done : fs.makeDir path = .ok made) :
    fs.KeepsNames made := by
  unfold makeDir at done
  split at done
  · cases done
  · cases done
  next directory name slash found =>
    cases done
    have absent : fs.itemAt? (directory ++ [name]) = none :=
      Option.map_eq_none_iff.mpr (target_eq_ok_iff.mp found).2.symm
    exact keepsNames_putAt .empty (by simp [absent])

theorem makeDirs_keepsNames (fs : FileSystem) (making : Bytes → Bool → Option IoCause) (path : Bytes) :
    fs.KeepsNames (fs.makeDirs making path).1 :=
  makeLineage_induct (fun below done => below.trans (makeDir_keepsNames done)) _ (.refl fs)

end Make

section Append

theorem place_of_toWrite {path : Bytes} {toWrite : Bool} {place : Place}
    (found : fs.place toWrite path = .ok place) : fs.place false path = .ok place := by
  unfold FileSystem.place at found
  split at found
  · cases found
  next text => exact place_eq_ok_iff.mpr ⟨text, trail_of_walk found⟩

theorem takes_file {location : Location} {content : Bytes} (there : fs.root.at? location = some (.file content)) :
    fs.root.Takes location := by
  refine ⟨fun old same => ?_, ?_⟩
  · cases there.symm.trans same
    rfl
  · obtain rfl | ⟨directory, name, rfl⟩ := List.eq_nil_or_concat' location
    · exact .inl rfl
    · exact .inr (by rw [List.dropLast_concat]; exact Node.itemAt?_front there)

/-- The bytes are at the end of what the path leads to, which was a file or nothing before. -/
structure Appended (fs : FileSystem) (path : Bytes) (bytes : Bytes) (after : FileSystem)
    (location : Location) (old : Option Bytes) : Prop where
  goes : fs.writable path = .ok (location, old.getD [])
  before : fs.itemAt? location = old.map .file
  known : fs.isThere path = old.isSome
  workDir : after.workDir = fs.workDir
  items : ∀ other, after.itemAt? other =
    if other = location then some (.file (old.getD [] ++ bytes)) else fs.itemAt? other
  leads : after.LeadsTo path location

theorem writable_cases {path : Bytes} {location : Location} {content : Bytes}
    (goes : fs.writable path = .ok (location, content)) :
    ∃ (old : Option Bytes) (place : Place), content = old.getD [] ∧ fs.itemAt? location = old.map Item.file ∧
      fs.isThere path = old.isSome ∧ fs.root.Takes location ∧
      fs.place false path = .ok place ∧ place.location = location := by
  unfold writable at goes
  split at goes
  · cases goes
  next directory name ended =>
    cases goes
    have ended' := place_of_toWrite ended
    obtain ⟨inside, absent⟩ := (place_eq_ok_iff.mp ended').2.of_free
    refine ⟨none, _, rfl, absent, ?_, takes_free inside (Option.map_eq_none_iff.mp absent), ended', rfl⟩
    unfold isThere lookup
    rw [ended']
    rfl
  next ended =>
    have leads := place_of_toWrite ended
    split at goes
    next there =>
      cases goes
      refine ⟨some content, _, rfl, Node.itemAt?_eq_file_iff.mpr there, ?_, takes_file there, leads, rfl⟩
      unfold isThere
      rw [lookup_eq_ok_iff.mpr ⟨location, leads, there⟩]
      rfl
    · cases goes
    · cases goes

theorem keepsAt_of_file {after : FileSystem} {location : Location} {old : Option Bytes} {content : Bytes}
    (before : fs.itemAt? location = old.map .file)
    (items : ∀ other, after.itemAt? other = if other = location then some (.file content) else fs.itemAt? other)
    (other : Location) : Trail.KeepsAt fs.itemAt? after.itemAt? other := by
  intro item there
  rw [items]
  by_cases here : other = location
  · rw [here, before] at there
    obtain ⟨_, -, rfl⟩ := Option.map_eq_some_iff.mp there
    exact ⟨_, if_pos here, .inr ⟨Item.noConfusion, rfl, rfl⟩⟩
  · exact ⟨item, (if_neg here).trans there, .inl rfl⟩

theorem leadsTo_of_file {path : Bytes} {place : Place} {after : FileSystem} {old : Option Bytes} {content : Bytes}
    (ended : fs.place false path = .ok place) (before : fs.itemAt? place.location = old.map .file)
    (workDir : after.workDir = fs.workDir)
    (items : ∀ other, after.itemAt? other = if other = place.location then some (.file content) else fs.itemAt? other) :
    after.LeadsTo path place.location := by
  obtain ⟨text, trail⟩ := place_eq_ok_iff.mp ended
  refine place_eq_ok_iff.mpr ⟨text, ?_⟩
  rw [workDir]
  refine trail.transfer (fun other _ => keepsAt_of_file before items other) (fun _ _ => False.elim) ?_
  cases place with
  | node => exact ⟨id, rfl⟩
  | free => exact ⟨rfl, _, (items _).trans (if_pos rfl), rfl⟩

theorem append_cases {path : Bytes} {bytes : Bytes} {after : FileSystem}
    (done : fs.append path bytes = .ok after) : ∃ location old, Appended fs path bytes after location old := by
  obtain ⟨location, content, goes, rfl⟩ : ∃ location content, fs.writable path = .ok (location, content) ∧
      fs.putAt location (.file (content ++ bytes)) = after := by
    unfold append at done
    cases goes : fs.writable path with
    | error cause => rw [goes] at done; cases done
    | ok found => rw [goes] at done; exact ⟨found.1, found.2, rfl, Except.ok.inj done⟩
  obtain ⟨old, place, rfl, before, known, takes, ended, rfl⟩ := writable_cases goes
  have items := itemAt?_putAt (Node.leaf_file (old.getD [] ++ bytes)) takes
  exact ⟨place.location, old, goes, before, known, rfl, items, leadsTo_of_file ended before rfl items⟩

theorem append_keepsNames {path : Bytes} {bytes : Bytes} {after : FileSystem} (done : fs.append path bytes = .ok after) :
    fs.KeepsNames after := by
  obtain ⟨⟨location, content⟩, goes, rfl⟩ := map_eq_ok.mp done
  obtain ⟨old, place, -, before, -⟩ := writable_cases goes
  refine keepsNames_putAt _ fun inside => ?_
  obtain ⟨_, -, file⟩ := Option.map_eq_some_iff.mp (before.symm.trans inside)
  cases file

namespace Appended

variable {path : Bytes} {bytes : Bytes} {after : FileSystem} {location : Location} {old : Option Bytes}

theorem changes (appended : Appended fs path bytes after location old) : ChangesOnly fs [location] after := by
  refine ⟨appended.workDir, fun other apart => .inl ?_⟩
  rw [appended.items, if_neg (by simpa using apart)]

theorem keepsFile (appended : Appended fs path bytes after location old) {other : Bytes} {found : Location}
    {content : Bytes} (leads : fs.LeadsTo other found) (file : fs.itemAt? found = some (.file content)) :
    after.LeadsTo other found ∧ ∃ content', after.itemAt? found = some (.file content') := by
  refine ⟨leads.mono appended.workDir (keepsAt_of_file appended.before appended.items), ?_⟩
  rw [appended.items]
  by_cases here : found = location
  · exact ⟨_, if_pos here⟩
  · exact ⟨content, (if_neg here).trans file⟩

end Appended

end Append

end FileSystem

end SweepPlot
