import Mathlib
import SweepPlot.Proofs.Files.Change
import SweepPlot.Proofs.Files.Upwards
import SweepPlot.Proofs.Outcome
import SweepPlot.Proofs.Table.Text
set_option autoImplicit false

namespace SweepPlot.FileSystem

variable {fs : FileSystem}

theorem readFile_eq_ok_iff {path : Bytes} {content : Bytes} :
    fs.readFile path = .ok content ↔
      ∃ location, fs.LeadsTo path location ∧ fs.itemAt? location = some (.file content) := by
  have found : fs.readFile path = .ok content ↔ fs.lookup path = .ok (.file content) := by
    unfold readFile openFile
    cases fs.lookup path with
    | error cause => simp
    | ok node => cases node <;> simp
  rw [found, lookup_eq_ok_iff]
  exact exists_congr fun location => and_congr_right fun _ => Node.itemAt?_eq_file_iff.symm

theorem readFile_overwrite {path : Bytes} {bytes : Bytes} {after : FileSystem}
    (done : fs.overwrite path bytes = .ok after) : after.readFile path = .ok bytes := by
  obtain ⟨location, content, goes, rfl⟩ : ∃ location content, fs.writable path = .ok (location, content) ∧
      fs.putAt location (.file bytes) = after := by
    unfold overwrite at done
    cases goes : fs.writable path with
    | error cause => rw [goes] at done; cases done
    | ok found => rw [goes] at done; exact ⟨found.1, found.2, rfl, Except.ok.inj done⟩
  obtain ⟨old, place, -, before, -, takes, ended, rfl⟩ := writable_cases goes
  have items := itemAt?_putAt (Node.leaf_file bytes) takes
  exact readFile_eq_ok_iff.mpr ⟨_, leadsTo_of_file ended before rfl items, (items _).trans (if_pos rfl)⟩

section Directories

/-- If the directory at the end of a path cannot be made, the path leads to none. -/
theorem makeLineage_fails {making : Bytes → Bool → Option IoCause} {n : Nat} {path : Bytes} {reached : FileSystem}
    {cause : IoCause} (failed : fs.makeLineage making (Path.upwards n path) = (reached, .error cause)) :
    ¬ reached.Enters path := by
  induction n generalizing path cause with
  | zero => cases failed
  | succ n ih =>
    have settled : ∀ {stuck : FileSystem} {cause' : IoCause},
        (stuck, if stuck.isDir path then .ok () else .error cause') = (reached, Except.error cause) →
          ¬ reached.Enters path := by
      intro stuck cause' same enters
      obtain ⟨rfl, answer⟩ := Prod.mk.inj same
      rw [if_pos enters.isDir] at answer
      cases answer
    rw [Path.upwards] at failed
    split at failed
    · cases failed
    rw [makeLineage] at failed
    split at failed
    · cases failed
    · split at failed
      next stuck cause' below =>
        cases failed
        -- The parents could not be made, so the path cannot lead through them.
        rintro ⟨location, leads, -⟩
        split at below
        · cases below
        next up parent =>
          have given : up ≠ [] := by
            rintro rfl
            cases n <;> cases below
          exact ih below (leads.up parent given)
      next =>
        split at failed
        · cases failed
        · exact settled failed
    · exact settled failed

theorem directoryOf_of_enters {path : Bytes} (enters : fs.Enters path) :
    ∃ directory, fs.directoryOf path (Path.steps path) = .ok directory := by
  obtain ⟨location, leads, inside⟩ := enters
  obtain ⟨left, onward⟩ := (place_eq_ok_iff.mp leads).2.extend
  exact ⟨location, directoryOf_eq_ok_iff.mpr (onward (.stay inside (.inl rfl) .stop))⟩

end Directories

section Target

theorem dropEmpty_cons {step : Bytes} (given : step ≠ []) (rest : List Bytes) :
    dropEmpty (step :: rest) = step :: rest :=
  List.dropWhile_cons_of_neg (by simpa using given)

theorem endingOf_name {path name : Bytes} {front : List Bytes} (steps : Path.steps path = front ++ [name])
    (names : Path.Names name) : endingOf path = ⟨front, some name, false⟩ := by
  have given : name ≠ [] := by
    rintro rfl
    cases names.1
  simp [endingOf, steps, dropEmpty, names.1, given]

theorem steps_of_endingOf {path name : Bytes} {front : List Bytes}
    (ending : endingOf path = ⟨front, some name, false⟩) :
    Path.steps path = front ++ [name] ∧ Path.isName name = true := by
  unfold endingOf at ending
  rw [← List.reverse_reverse (Path.steps path)]
  generalize (Path.steps path).reverse = back at ending
  dsimp only at ending
  cases back with
  | nil => cases ending
  | cons last others =>
    by_cases empty : last = []
    · -- A blank last step counts as a slash.
      subst empty
      split at ending
      · cases ending
      · cases (Ending.mk.inj ending).2.2
    · rw [dropEmpty_cons empty] at ending
      obtain ⟨rfl, named, -⟩ := Ending.mk.inj ending
      split at named
      next isName =>
        cases named
        exact ⟨List.reverse_cons, isName⟩
      · cases named

theorem Ends.leadsTo {path name : Bytes} {directory : Location} {item : Item}
    (ends : fs.Ends path directory name false) (there : fs.itemAt? (directory ++ [name]) = some item)
    (solid : item.isLink = false) : fs.LeadsTo path (directory ++ [name]) := by
  obtain ⟨text, ⟨front, ending, reached⟩, short⟩ := ends
  obtain ⟨steps, isName⟩ := steps_of_endingOf ending
  obtain ⟨inside, left, onward⟩ := (directoryOf_eq_ok_iff.mp reached).front_of_blank (.inl rfl)
  refine place_eq_ok_iff.mpr ⟨text, ?_⟩
  rw [steps]
  exact onward (.enter inside ⟨isName, short⟩ there solid .stop)

theorem Ends.mono {path name : Bytes} {directory : Location} {slash : Bool} {other : FileSystem}
    (ends : fs.Ends path directory name slash)
    (workDir : other.workDir = fs.workDir)
    (keeps : ∀ place, Trail.KeepsAt fs.itemAt? other.itemAt? place) : other.Ends path directory name slash := by
  obtain ⟨text, ⟨front, ending, reached⟩, short⟩ := ends
  refine ⟨text, ⟨front, ending, directoryOf_eq_ok_iff.mpr ?_⟩, short⟩
  rw [workDir]
  exact (directoryOf_eq_ok_iff.mp reached).keep keeps

theorem target_of_file {path : Bytes} {location : Location} {content : Bytes} {noName : IoCause}
    (leads : fs.LeadsTo path location) (file : fs.itemAt? location = some (.file content)) :
    ∃ directory name old, fs.target path noName = .ok (directory, name, some old, false) ∧
      old.isDirectory = false := by
  obtain ⟨text, trail⟩ := place_eq_ok_iff.mp leads
  obtain none | ⟨front, name, steps⟩ := List.eq_nil_or_concat' (Path.steps path)
  · exact absurd none (Path.steps_ne_nil path)
  rw [steps] at trail
  obtain ⟨left, directory, tail, onward⟩ := trail.split (List.cons_ne_nil name [])
  obtain ⟨names, old, there, solid⟩ : Path.Names name ∧ ∃ old,
      fs.root.at? (directory ++ [name]) = some old ∧ old.isDirectory = false := by
    cases tail with
    | stay inside blank next =>
      cases next
      cases inside.symm.trans file
    | up inside next =>
      cases next
      cases (Node.itemAt?_dropLast inside).symm.trans file
    | enter inside names there solid next =>
      cases next
      exact ⟨names, _, Node.itemAt?_eq_file_iff.mp file, rfl⟩
    | follow inside names there next =>
      obtain ⟨old, atOld, link⟩ := Option.map_eq_some_iff.mp there
      refine ⟨names, old, atOld, ?_⟩
      cases old with
      | link => rfl
      | file | locked | dir => cases link
  refine ⟨directory, name, old, target_eq_ok_iff.mpr ⟨⟨text, ⟨front, endingOf_name steps names, ?_⟩, names.2⟩,
    there.symm⟩, solid⟩
  exact directoryOf_eq_ok_iff.mpr (onward (.stay tail.inside (.inl rfl) .stop))

end Target

section Temporary

/-- Of one name more than there are entries, one is free. -/
theorem freshName_absent (entries : List (Bytes × Node)) : entries.lookup (freshName entries) = none := by
  have apart : ((List.range (entries.length + 1)).map fun i => Bytes.ofText (".tmp" ++ toString i)).Nodup := by
    refine List.nodup_range.map fun i j same => Nat.repr_injective ?_
    exact (String.append_right_inj ".tmp").mp (Bytes.ofText_injective same)
  unfold freshName
  dsimp only
  generalize names_def :
    ((List.range (entries.length + 1)).map fun i => Bytes.ofText (".tmp" ++ toString i)) = names at apart ⊢
  cases found : names.find? fun name => (entries.lookup name).isNone with
  | some name => simpa using List.find?_some found
  | none =>
    -- Otherwise all of them would be names of entries, more than there are.
    have taken : ∀ name ∈ names, name ∈ entries.map Prod.fst := by
      intro name mem
      refine Keyed.lookup_isSome_iff_mem.mp ?_
      simpa using List.find?_eq_none.mp found name mem
    have fewer := (apart.subperm taken).length_le
    rw [← names_def] at fewer
    simp at fewer

theorem lookup_entries {directory : Location} {name : Bytes} {old : Option Node}
    (absent : (((fs.root.at? directory).getD .empty).entries).lookup name = old) :
    fs.root.at? (directory ++ [name]) = old := by
  rw [Node.at?_concat]
  cases there : fs.root.at? directory with
  | none =>
    rw [there] at absent
    exact absent
  | some node =>
    rw [there] at absent
    exact absent

end Temporary

section Move

theorem moveFile_cases {source : Location} {path : Bytes} {file : Node}
    (there : fs.root.at? source = some file) :
    (∃ directory name, fs.Ends path directory name false ∧
      (∀ old, fs.root.at? (directory ++ [name]) = some old → old.isDirectory = false) ∧
      fs.moveFile source path = .ok (if directory ++ [name] = source then fs
        else (fs.putAt (directory ++ [name]) file).removeAt source)) ∨
    (∃ cause, fs.moveFile source path = .error cause) ∧ ∀ content, fs.readFile path ≠ .ok content := by
  unfold moveFile
  cases found : fs.target path .deviceBusy with
  | error cause =>
    refine .inr ⟨⟨_, rfl⟩, fun content read => ?_⟩
    obtain ⟨location, leads, file⟩ := readFile_eq_ok_iff.mp read
    obtain ⟨directory, name, old, found', -⟩ := target_of_file leads file
    cases found.symm.trans found'
  | ok end' =>
  obtain ⟨directory, name, old, slash⟩ := end'
  have fileless : slash = true ∨ (old.map Node.isDirectory).getD false = true →
      ∀ content, fs.readFile path ≠ .ok content := by
    intro blocked content read
    obtain ⟨location, leads, file⟩ := readFile_eq_ok_iff.mp read
    obtain ⟨directory', name', old', found', solid⟩ := target_of_file leads file
    cases found.symm.trans found'
    rcases blocked with slash | inside
    · cases slash
    · cases inside.symm.trans solid
  dsimp only [Except.mapError]
  split
  next isSlash => exact .inr ⟨⟨_, rfl⟩, fileless (.inl isSlash)⟩
  next noSlash =>
  split
  next inside => exact .inr ⟨⟨_, rfl⟩, fileless (.inr inside)⟩
  next solid =>
    obtain ⟨ends, rfl⟩ := target_eq_ok_iff.mp found
    rw [Bool.not_eq_true] at noSlash
    rw [noSlash] at ends
    refine .inl ⟨directory, name, ends, fun old atOld => ?_, ?_⟩
    · rw [atOld] at solid
      simpa using solid
    · rw [there]
      exact (apply_ite Except.ok _ _ _).symm

end Move

section Replace

variable {made after : FileSystem} {path : Bytes} {bytes : Bytes}

/-- The entry that the path ends with is the new file, and nothing else is different. -/
structure Replaced (made : FileSystem) (path : Bytes) (bytes : Bytes) (after : FileSystem)
    (directory : Location) (name : Bytes) : Prop where
  ends : made.Ends path directory name false
  solid : ∀ item, made.itemAt? (directory ++ [name]) = some item → item.isDirectory = false
  workDir : after.workDir = made.workDir
  items : ∀ other, after.itemAt? other =
    if other = directory ++ [name] then some (.file bytes) else made.itemAt? other
  names : made.KeepsNames after

/-- The new file is found at the path, unless the entry was a link, over which the path may lead itself. -/
theorem Replaced.readFile {directory : Location} {name : Bytes}
    (replaced : Replaced made path bytes after directory name)
    (unlinked : ∀ target, made.itemAt? (directory ++ [name]) ≠ some (.link target)) :
    after.readFile path = .ok bytes := by
  obtain ⟨ends, solid, workDir, items, -⟩ := replaced
  have there : after.itemAt? (directory ++ [name]) = some (.file bytes) := (items _).trans (if_pos rfl)
  refine readFile_eq_ok_iff.mpr ⟨_, (ends.mono workDir fun other item found => ?_).leadsTo there rfl, there⟩
  rw [items]
  by_cases entry : other = directory ++ [name]
  · rw [entry] at found
    refine ⟨_, if_pos entry, .inr ⟨?_, ?_, rfl⟩⟩
    · rintro rfl
      cases solid _ found
    · cases item with
      | link target => exact absurd found (unlinked target)
      | file | locked | directory => rfl
  · exact ⟨item, (if_neg entry).trans found, .inl rfl⟩

/-- Nothing is different, and if no fault of the system was to blame, the path leads to no file. -/
structure Refused (made : FileSystem) (faults : ReplaceFaults) (path : Bytes) (after : FileSystem) : Prop where
  workDir : after.workDir = made.workDir
  items : ∀ other, after.itemAt? other = made.itemAt? other
  fileless : faults = {} → ∀ content, after.readFile path ≠ .ok content

theorem Refused.not_file (refused : Refused made {} path after) {location : Location} {content : Bytes}
    (leads : made.LeadsTo path location) (file : made.itemAt? location = some (.file content)) : False := by
  refine refused.fileless rfl content (readFile_eq_ok_iff.mpr ⟨location, ?_, (refused.items location).trans file⟩)
  exact leads.mono refused.workDir fun other => .of_same fun item there => (refused.items other).trans there

theorem Ends.of_putAt {source directory : Location} {name : Bytes} {slash : Bool}
    (takes : made.root.Takes source) (absent : made.itemAt? source = none)
    (ends : (made.putAt source (.file bytes)).Ends path directory name slash) :
    made.Ends path directory name slash := by
  have filled := itemAt?_putAt (Node.leaf_file bytes) takes
  obtain ⟨text, ⟨front, ending, reached⟩, short⟩ := ends
  refine ⟨text, ⟨front, ending, ?_⟩, short⟩
  have trail := directoryOf_eq_ok_iff.mp reached
  have inside := (trail.front_of_blank (.inl rfl)).1
  have apart : directory ≠ source := by
    rintro rfl
    rw [filled, if_pos rfl] at inside
    cases inside
  have last : Trail.Becomes made.itemAt? (· = source) (.node directory) directory := ⟨apart, rfl⟩
  refine directoryOf_eq_ok_iff.mpr (trail.transfer (fun other kept item there => ?_) (fun other item gone there => ?_)
    last)
  · rw [filled, if_neg kept] at there
    exact ⟨item, there, .inl rfl⟩
  · rw [filled, if_pos gone] at there
    cases there
    exact ⟨Item.noConfusion, rfl⟩

theorem at?_filled {source : Location} (takes : made.root.Takes source) :
    (made.putAt source (.file bytes)).root.at? source = some (.file bytes) :=
  Node.itemAt?_eq_file_iff.mp ((itemAt?_putAt (Node.leaf_file bytes) takes source).trans (if_pos rfl))

theorem itemAt?_moved {source directory : Location} {name : Bytes} (given : source ≠ [])
    (takes : made.root.Takes source) (absent : made.itemAt? source = none)
    (ends : (made.putAt source (.file bytes)).Ends path directory name false)
    (solid : ∀ old, (made.putAt source (.file bytes)).root.at? (directory ++ [name]) = some old →
      old.isDirectory = false) (other : Location) :
    (if directory ++ [name] = source then made.putAt source (.file bytes)
      else ((made.putAt source (.file bytes)).putAt (directory ++ [name]) (.file bytes)).removeAt
        source).itemAt? other =
      if other = directory ++ [name] then some (.file bytes) else made.itemAt? other := by
  have filled := itemAt?_putAt (Node.leaf_file bytes) takes
  split
  next same =>
    rw [filled, same]
    rfl
  next apart =>
    have leaf : ∀ old, (made.putAt source (.file bytes)).root.at? (directory ++ [name]) = some old → old.Leaf :=
      fun old atOld => Node.leaf_of_not_directory (solid old atOld)
    have put := itemAt?_putAt (Node.leaf_file bytes) (takes_entry ends.inside leaf)
    have there := Node.itemAt?_eq_file_iff.mp ((put source).trans ((if_neg (Ne.symm apart)).trans
      ((filled source).trans (if_pos rfl))))
    refine (itemAt?_removeAt given there (Node.leaf_file bytes) other).trans ?_
    by_cases gone : other = source
    · rw [gone, if_pos rfl, if_neg (Ne.symm apart), absent]
    · rw [if_neg gone, put, filled, if_neg gone]
      rfl

theorem keepsNames_moved {source directory : Location} {name : Bytes} (takes : made.root.Takes source)
    (absent : made.itemAt? source = none) (ends : (made.putAt source (.file bytes)).Ends path directory name false)
    (solid : ∀ old, (made.putAt source (.file bytes)).root.at? (directory ++ [name]) = some old →
      old.isDirectory = false) :
    made.KeepsNames (if directory ++ [name] = source then made.putAt source (.file bytes)
      else ((made.putAt source (.file bytes)).putAt (directory ++ [name]) (.file bytes)).removeAt source) := by
  have filled : made.KeepsNames (made.putAt source (.file bytes)) := keepsNames_putAt _ (by simp [absent])
  split
  · exact filled
  next apart =>
    have entry : (made.putAt source (.file bytes)).itemAt? (directory ++ [name]) ≠ some .directory := by
      intro inside
      obtain ⟨entries, there⟩ := Node.itemAt?_eq_directory_iff.mp inside
      cases solid _ there
    have put := itemAt?_putAt (Node.leaf_file bytes) (takes_entry ends.inside fun old atOld =>
      Node.leaf_of_not_directory (solid old atOld)) source
    rw [if_neg (Ne.symm apart), itemAt?_putAt (Node.leaf_file bytes) takes, if_pos rfl] at put
    refine (filled.trans (keepsNames_putAt _ entry)).removeAt absent ?_
    rw [put]
    exact nofun

theorem itemAt?_unfilled {source : Location} (given : source ≠ []) (takes : made.root.Takes source)
    (absent : made.itemAt? source = none) (bytes : Bytes) (other : Location) :
    ((made.putAt source (.file bytes)).removeAt source).itemAt? other = made.itemAt? other := by
  rw [itemAt?_removeAt given (at?_filled takes) (Node.leaf_file bytes), itemAt?_putAt (Node.leaf_file bytes) takes]
  by_cases gone : other = source
  · rw [gone, if_pos rfl, absent]
  · rw [if_neg gone, if_neg gone]

theorem readFile_unfilled {source : Location} (given : source ≠ []) (takes : made.root.Takes source)
    (absent : made.itemAt? source = none)
    (fileless : ∀ content, (made.putAt source (.file bytes)).readFile path ≠ .ok content) (content : Bytes) :
    ((made.putAt source (.file bytes)).removeAt source).readFile path ≠ .ok content := by
  intro read
  obtain ⟨location, leads, file⟩ := readFile_eq_ok_iff.mp read
  have keeps : ∀ other item, ((made.putAt source (.file bytes)).removeAt source).itemAt? other = some item →
      (made.putAt source (.file bytes)).itemAt? other = some item := by
    intro other item found
    rw [itemAt?_unfilled given takes absent bytes] at found
    have apart : other ≠ source := by
      rintro rfl
      cases absent.symm.trans found
    rw [itemAt?_putAt (Node.leaf_file bytes) takes, if_neg apart]
    exact found
  exact fileless content (readFile_eq_ok_iff.mpr ⟨location, leads.mono rfl fun other => .of_same (keeps other),
    keeps _ _ file⟩)

/-- Moving the filled temporary file to the path replaces the entry there, or else the path leads to no file. -/
theorem moveFile_filled (path bytes : Bytes) {source : Location} (given : source ≠ [])
    (takes : made.root.Takes source) (absent : made.itemAt? source = none) :
    (∃ directory name moved, (made.putAt source (.file bytes)).moveFile source path = .ok moved ∧
      Replaced made path bytes moved directory name) ∨
    ∃ cause, (made.putAt source (.file bytes)).moveFile source path = .error cause ∧
      ∀ content, ((made.putAt source (.file bytes)).removeAt source).readFile path ≠ .ok content := by
  obtain ⟨directory, name, ends, solid, moved⟩ | ⟨⟨cause, failed⟩, fileless⟩ := moveFile_cases (at?_filled takes)
  · refine .inl ⟨directory, name, _, moved, ends.of_putAt takes absent, fun item there => ?_, ?_,
      itemAt?_moved given takes absent ends solid, keepsNames_moved takes absent ends solid⟩
    · have apart : directory ++ [name] ≠ source := by
        rintro rfl
        cases absent.symm.trans there
      obtain ⟨old, atEntry, rfl⟩ := Option.map_eq_some_iff.mp
        ((itemAt?_putAt (Node.leaf_file bytes) takes _).trans ((if_neg apart).trans there))
      exact (Node.isDirectory_item old).trans (solid old atEntry)
    · split <;> rfl
  · exact .inr ⟨cause, failed, readFile_unfilled given takes absent fileless⟩

theorem replaceFile_cases (fs : FileSystem) (faults : ReplaceFaults) (path : Bytes) (bytes : Bytes) :
    (∃ directory name, (fs.replaceFile faults path bytes).2 = .ok () ∧
      Replaced (fs.makeDirs faults.making (directoryText path)).1 path bytes (fs.replaceFile faults path bytes).1
        directory name) ∨
    ∃ place cause, (fs.replaceFile faults path bytes).2 = .error (.io place cause) ∧
      Refused (fs.makeDirs faults.making (directoryText path)).1 faults path
        (fs.replaceFile faults path bytes).1 := by
  have fileless : ∀ {made : FileSystem}, ¬ made.Enters (directoryText path) →
      Refused made faults path made := by
    refine fun blocked => ⟨rfl, fun _ => rfl, fun _ content read => ?_⟩
    obtain ⟨location, leads, file⟩ := readFile_eq_ok_iff.mp read
    exact blocked (leads.directoryText (by simp [file]))
  unfold replaceFile
  dsimp only
  rcases reached : fs.makeDirs faults.making (directoryText path) with ⟨made, cause | -⟩
  · exact .inr ⟨_, _, rfl, fileless (makeLineage_fails reached)⟩
  dsimp only
  cases creating : faults.creating with
  | some cause =>
    refine .inr ⟨_, cause, rfl, rfl, fun _ => rfl, ?_⟩
    rintro rfl
    cases creating
  | none =>
  cases found : made.directoryOf (directoryText path) (Path.steps (directoryText path)) with
  | error cause =>
    refine .inr ⟨_, _, rfl, fileless fun enters => ?_⟩
    obtain ⟨directory, found'⟩ := directoryOf_of_enters enters
    cases found.symm.trans found'
  | ok directory =>
  have inside := ((directoryOf_eq_ok_iff.mp found).front_of_blank (.inl rfl)).1
  have absent := lookup_entries (freshName_absent ((made.root.at? directory).getD .empty).entries)
  have takes := takes_free inside absent
  have nowhere : made.itemAt? (directory ++ [freshName ((made.root.at? directory).getD .empty).entries]) = none :=
    Option.map_eq_none_iff.mpr absent
  have given := List.concat_ne_nil (freshName ((made.root.at? directory).getD .empty).entries) directory
  have unfilled := itemAt?_unfilled given takes nowhere bytes
  dsimp only [orFault]
  cases storing : faults.filling.or faults.syncing with
  | some cause =>
    refine .inr ⟨_, cause, rfl, rfl, unfilled, ?_⟩
    rintro rfl
    cases storing
  | none =>
  cases moving : faults.moving with
  | some cause =>
    refine .inr ⟨path, cause, rfl, rfl, unfilled, ?_⟩
    rintro rfl
    cases moving
  | none =>
  dsimp only
  obtain ⟨directory', name, moved, done, replaced⟩ | ⟨cause, failed, lost⟩ :=
    moveFile_filled path bytes given takes nowhere
  · rw [done]
    exact .inl ⟨directory', name, rfl, replaced⟩
  · rw [failed]
    exact .inr ⟨path, cause, rfl, rfl, unfilled, fun _ => lost⟩

end Replace

end SweepPlot.FileSystem
