import SweepPlot.Proofs.Files.Shape
import SweepPlot.Proofs.Run.Effects
import SweepPlot.Proofs.Run.Reload
set_option autoImplicit false

/-!
Results that a run leaves alone. What a run makes besides the drawing can be told before it: the directory of the
output, and the table if there is none. If the results are found in the tree with these, but without the entry that
the drawing replaces, they are found after the run too, for a drawing only fills the free name.
-/

namespace SweepPlot.Request

open FileSystem (SameShape Fills ListsNew)

variable {r : Request} {before after : FileSystem} {directory : Location} {name path : Bytes}

/-- An empty table is there if one is asked for and none was. -/
def withTable (r : Request) (fs : FileSystem) : FileSystem :=
  match r.summary with
  | none => fs
  | some path => (fs.append path []).toOption.getD fs

/-- The tree in which a run replaces the output file, but for the new rows. -/
def ready (r : Request) (fs : FileSystem) : FileSystem :=
  r.prepared {} (r.withTable fs)

/-- The same tree without the entry that the drawing replaces. -/
def cleared (r : Request) (fs : FileSystem) : FileSystem :=
  match (r.ready fs).target r.outputPath .deviceBusy with
  | .ok (directory, name, some _, _) => (r.ready fs).removeAt (directory ++ [name])
  | _ => r.ready fs

/-- What a run writes is out of the way of its results. Neither the free name for the drawing nor the table is where
results are looked for or below, the way to no result goes over the entry that the drawing replaces, and the
directories that are made lead to no result that was not found before. -/
structure KeepsClear (r : Request) (before : FileSystem) : Prop where
  output : ∃ directory name, (r.cleared before).place false r.outputPath = .ok (.free directory name) ∧
    r.Unsought (r.cleared before) (directory ++ [name])
  table : ∀ path ∈ r.summary, ∃ location, (r.cleared before).LeadsTo path location ∧
    r.Unsought (r.cleared before) location
  kept : ∀ path, r.Seeks before path → before.isThere path = true → (r.cleared before).isThere path = true
  roots : ∀ root ∈ r.rootPaths, (r.cleared before).isThere root = true → before.isThere root = true
  below : ∀ path place, r.SeeksBelow (r.cleared before) path → (r.cleared before).LeadsTo path place →
    before.isThere path = true ∨ before.itemAt? place = none
  listsNew : ∀ path, r.Walks (r.cleared before) path → ListsNew before (r.cleared before) path

section Ready

theorem withTable_keepsAt (r : Request) (fs : FileSystem) :
    (r.withTable fs).workDir = fs.workDir ∧ ∀ place, Trail.KeepsAt fs.itemAt? (r.withTable fs).itemAt? place := by
  unfold withTable
  split
  · exact ⟨rfl, fun _ => .of_same fun _ => id⟩
  next path _ =>
    cases done : fs.append path [] with
    | error cause => exact ⟨rfl, fun _ => .of_same fun _ => id⟩
    | ok opened =>
      obtain ⟨location, old, appended⟩ := FileSystem.append_cases done
      exact ⟨appended.workDir, FileSystem.keepsAt_of_file appended.before appended.items⟩

theorem ready_leadsTo {location : Location} (leads : before.LeadsTo path location) :
    (r.ready before).LeadsTo path location := by
  obtain ⟨workDir, keeps⟩ := r.withTable_keepsAt before
  exact (r.prepared_changes {} (r.withTable before)).leadsTo (leads.mono workDir keeps)

theorem ready_tidy (tidy : before.root.Tidy) : (r.ready before).root.Tidy := by
  refine FileSystem.tidy_makeDirs _ _ ?_
  unfold withTable
  split
  · exact tidy
  next path _ =>
    cases done : before.append path [] with
    | error cause => exact tidy
    | ok opened => exact FileSystem.tidy_append tidy done

theorem cleared_tidy (tidy : before.root.Tidy) : (r.cleared before).root.Tidy := by
  unfold cleared
  split
  · exact FileSystem.tidy_removeAt _ (ready_tidy tidy)
  · exact ready_tidy tidy

theorem Recorded.withTable_shape {opened : FileSystem} {added : Bool → Bytes} {table : Option Location}
    (recorded : r.Recorded before opened added table) : (r.withTable before).SameShape opened := by
  unfold withTable
  have asked := recorded.asked
  cases table with
  | none =>
    rw [Option.isSome_none, eq_comm, Option.isSome_eq_false_iff, Option.isNone_iff_eq_none] at asked
    rw [asked]
    exact ⟨recorded.workDir, fun location => by rw [recorded.items location nofun]⟩
  | some location =>
    obtain ⟨path, named, bytes, done, -⟩ := recorded.written location rfl
    rw [Option.mem_def.mp named]
    obtain ⟨place, old, appended⟩ := FileSystem.append_cases done
    have empty : before.append path [] = .ok (before.putAt place (.file (old.getD [] ++ []))) := by
      rw [FileSystem.append, appended.goes]
      rfl
    obtain ⟨place', old', appended'⟩ := FileSystem.append_cases empty
    obtain rfl : place = place' := (Prod.mk.inj (Except.ok.inj (appended.goes.symm.trans appended'.goes))).1
    dsimp only
    rw [empty]
    refine ⟨appended.workDir.trans appended'.workDir.symm, fun other => ?_⟩
    change (opened.itemAt? other).map _ = ((before.putAt place (.file (old.getD [] ++ []))).itemAt? other).map _
    rw [appended.items, appended'.items]
    split <;> rfl

end Ready

/-- The tree that a run leaves: what is ready for the drawing, and the drawing. -/
structure Leaves (r : Request) (before after : FileSystem) (directory : Location) (name : Bytes) : Prop where
  ends : (r.ready before).Ends r.outputPath directory name false
  solid : ∀ item, (r.ready before).itemAt? (directory ++ [name]) = some item → item.isDirectory = false
  workDir : after.workDir = (r.ready before).workDir
  file : ∃ content, after.itemAt? (directory ++ [name]) = some (.file content)
  items : ∀ other, other ≠ directory ++ [name] →
    (after.itemAt? other).map Item.shape = ((r.ready before).itemAt? other).map Item.shape

namespace Leaves

variable (leaves : r.Leaves before after directory name)
include leaves

theorem cleared_items : (r.cleared before).workDir = (r.ready before).workDir ∧ ∀ other,
    (r.cleared before).itemAt? other =
      if other = directory ++ [name] then none else (r.ready before).itemAt? other := by
  have found : (r.ready before).target r.outputPath .deviceBusy = .ok (directory, name, _, false) :=
    FileSystem.target_eq_ok_iff.mpr ⟨leaves.ends, rfl⟩
  unfold cleared
  rw [found]
  cases atEntry : (r.ready before).root.at? (directory ++ [name]) with
  | none =>
    refine ⟨rfl, fun other => ?_⟩
    by_cases entry : other = directory ++ [name]
    · rw [if_pos entry, entry]
      exact Option.map_eq_none_iff.mpr atEntry
    · rw [if_neg entry]
  | some old =>
    refine ⟨rfl, FileSystem.itemAt?_removeAt (List.concat_ne_nil name directory) atEntry ?_⟩
    refine Node.leaf_of_not_directory ((Node.isDirectory_item old).symm.trans (leaves.solid old.item ?_))
    exact congrArg (Option.map Node.item) atEntry

theorem fills : Fills (r.cleared before) after directory name := by
  obtain ⟨workDir, items⟩ := leaves.cleared_items
  refine ⟨leaves.workDir.trans workDir.symm, (items _).trans (if_pos rfl), leaves.file, fun other apart => ?_⟩
  rw [items, if_neg apart]
  exact leaves.items other apart

theorem cleared_keepsAt (other : Location) :
    Trail.KeepsAt (r.cleared before).itemAt? (r.ready before).itemAt? other := by
  refine .of_same fun item there => ?_
  rw [leaves.cleared_items.2] at there
  exact (Option.ite_none_left_eq_some.mp there).2

end Leaves

namespace KeepsClear

variable (clear : r.KeepsClear before) (leaves : r.Leaves before after directory name)
include clear leaves

theorem entry : (r.cleared before).place false r.outputPath = .ok (.free directory name) ∧
    r.Unsought (r.cleared before) (directory ++ [name]) := by
  obtain ⟨directory', name', free, unsought⟩ := clear.output
  obtain ⟨-, trail⟩ := FileSystem.place_eq_ok_iff.mp free
  obtain ⟨-, ⟨front, ending, reached⟩, -⟩ := leaves.ends
  obtain ⟨steps, isName⟩ := FileSystem.steps_of_endingOf ending
  rw [steps] at trail
  obtain ⟨left, middle, tail, onward⟩ := trail.split (List.cons_ne_nil name [])
  have same : (r.ready before).directoryOf r.outputPath front = .ok middle := by
    refine FileSystem.directoryOf_eq_ok_iff.mpr ?_
    rw [← leaves.cleared_items.1]
    exact (onward (.stay tail.inside (.inl rfl) .stop)).keep leaves.cleared_keepsAt
  cases reached.symm.trans same
  have absent := leaves.fills.absent
  cases tail with
  | stay _ blank => simp_all [Path.isName]
  | up => cases isName
  | enter _ _ there | follow _ _ there => cases absent.symm.trans there
  | free => exact ⟨free, unsought⟩

theorem leads_back (sought : r.Seeks (r.cleared before) path) {place : Location} (leads : after.LeadsTo path place) :
    (r.cleared before).LeadsTo path place := by
  obtain kept | ⟨-, free⟩ := leaves.fills.place_cases leads
  · exact kept
  · exact absurd List.prefix_rfl ((clear.entry leaves).2 path _ sought free)

theorem apart (sought : r.Seeks (r.cleared before) path) {place : Location}
    (leads : (r.cleared before).LeadsTo path place) (steps : Location) : place ++ steps ≠ directory ++ [name] :=
  fun same => (clear.entry leaves).2 path _ sought leads ⟨steps, same⟩

theorem seeksBelow (tidy : before.root.Tidy) (tidy' : after.root.Tidy) (sought : r.SeeksBelow after path) :
    r.SeeksBelow (r.cleared before) path := by
  obtain ⟨mode, root, given, subs, listed, sub, mem, rfl⟩ := sought
  obtain ⟨entries, read, -⟩ := map_eq_ok.mp listed
  obtain ⟨location, leads, there⟩ := FileSystem.lookup_eq_ok_iff.mp (FileSystem.readDir_eq_ok_iff.mp read)
  have leads' := clear.leads_back leaves (.inl given) leads
  have apart := clear.apart leaves (.inl given) leads'
  obtain ⟨entries', there'⟩ : ∃ entries', (r.cleared before).root.at? location = some (.dir entries') := by
    refine Node.itemAt?_eq_directory_iff.mp ?_
    have inside : after.itemAt? location = some .directory := congrArg (Option.map Node.item) there
    obtain same | ⟨_, _, -, file⟩ := Item.shape_cases (leaves.fills.items location (by simpa using apart []))
    · exact same.symm.trans inside
    · cases file.symm.trans inside
  have listed' : (r.cleared before).subfolders root = .ok _ := map_eq_ok.mpr ⟨entries',
    FileSystem.readDir_eq_ok_iff.mpr (FileSystem.lookup_eq_ok_iff.mpr ⟨location, leads', there'⟩), rfl⟩
  refine Request.seeksBelow mode given listed' ?_
  obtain ⟨entry, same, shown, held, isDir⟩ := (mem_subfolders_iff tidy' leads listed).mp mem
  refine (mem_subfolders_iff (cleared_tidy tidy) leads' listed').mpr ⟨entry, same, shown, ?_, ?_⟩
  · exact (leaves.fills.itemAt?_eq_none_iff (apart _)).not.mp held
  · exact (leaves.fills.isDir_eq _).symm.trans isDir

theorem unsought (tidy : before.root.Tidy) (tidy' : after.root.Tidy) {location : Location}
    (away : r.Unsought (r.cleared before) location) : r.Unsought after location := by
  intro path place sought found
  have sought' := sought.imp_right (clear.seeksBelow leaves tidy tidy')
  obtain kept | ⟨rfl, free⟩ := leaves.fills.place_cases found
  · exact away path place sought' kept
  · exact away path (.free directory name) sought' free

omit clear in
theorem unique {place place' : Location} (leads : before.LeadsTo path place)
    (leads' : (r.cleared before).LeadsTo path place') : place' = place := by
  have ready := leads'.mono leaves.cleared_items.1.symm leaves.cleared_keepsAt
  exact Place.node.inj (Except.ok.inj (ready.symm.trans (ready_leadsTo leads)))

theorem undisturbed (tidy : before.root.Tidy) (tidy' : after.root.Tidy) : r.Undisturbed before after where
  kept := by
    intro path place sought leads
    obtain ⟨place', leads'⟩ := FileSystem.isThere_iff_leads.mp
      (clear.kept path sought (FileSystem.isThere_iff_leads.mpr ⟨place, leads⟩))
    cases unique leaves leads leads'
    exact leaves.fills.leadsTo leads'
  roots := by
    intro root given place leads
    have leads' := clear.leads_back leaves (.inl given) leads
    obtain ⟨place', led⟩ := FileSystem.isThere_iff_leads.mp
      (clear.roots root given (FileSystem.isThere_iff_leads.mpr ⟨place, leads'⟩))
    cases unique leaves led leads'
    exact led
  below := by
    intro path place sought leads
    have sought' := clear.seeksBelow leaves tidy tidy' sought
    have leads' := clear.leads_back leaves (.inr sought') leads
    refine (clear.below path place sought' leads').imp_left fun there => ?_
    obtain ⟨place', led⟩ := FileSystem.isThere_iff_leads.mp there
    cases unique leaves led leads'
    exact led

theorem listsNew_after (tidy : before.root.Tidy) (tidy' : after.root.Tidy) (walks : r.Walks after path) :
    ListsNew before after path := by
  have walks' : r.Walks (r.cleared before) path := walks.imp_right (clear.seeksBelow leaves tidy tidy')
  have sought : r.Seeks (r.cleared before) path := walks'.imp_left fun flat => flat.2.2
  intro location leads steps absent made
  have leads' := clear.leads_back leaves sought leads
  refine clear.listsNew path walks' location leads' steps absent ?_
  exact (leaves.fills.itemAt?_eq_none_iff (clear.apart leaves sought leads' steps)).not.mp made

end KeepsClear

end SweepPlot.Request
