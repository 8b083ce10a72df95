import SweepPlot.Proofs.Files.Again
import SweepPlot.Proofs.Merge.Again
import SweepPlot.Proofs.Run.Answer
import SweepPlot.Proofs.Run.FlatOrder
set_option autoImplicit false

namespace SweepPlot

open FileSystem (Stays ListsNew ChangesOnly)
open Merger (StaysBelow AgreesSoFar)

theorem MergeOutcome.Agrees.report?_agrees {outcome outcome' : MergeOutcome} (agrees : outcome.Agrees outcome') :
    AgreesSoFar outcome.report? outcome'.report? := by
  cases agrees with
  | loaded agrees => exact .some agrees
  | empty => exact .none

theorem MergeOutcome.Agrees.report_repeats {outcome outcome' : MergeOutcome} (agrees : outcome.Agrees outcome') :
    Repeats MergeReport.Agrees outcome.report outcome'.report := by
  cases agrees with
  | loaded agrees => exact .ok agrees
  | empty => exact .error _ _

namespace Request

variable {r : Request} {before after : FileSystem}

section Load

/-- The results of a request are where they were: the roots, and their subdirectories if these are loaded one by one. -/
structure Refinds (r : Request) (before after : FileSystem) : Prop where
  tidy : before.root.Tidy
  tidy' : after.root.Tidy
  spelled : before.root.Spelled
  roots : ∀ root ∈ r.rootPaths, Stays before after root
  flat : r.mode = .flat → r.recursive = true → ∀ root ∈ r.rootPaths, ListsNew before after root
  below : r.mode ≠ .flat → ∀ root ∈ r.rootPaths, StaysBelow before after root

theorem Refinds.mergeDirectories_repeats (refinds : r.Refinds before after) (flat : r.mode = .flat) {root : Bytes}
    (given : root ∈ r.rootPaths) {merged merged' : Option MergeReport} (agrees : AgreesSoFar merged merged') :
    Repeats AgreesSoFar (r.mergeDirectories before merged root) (r.mergeDirectories after merged' root) := by
  have repeats := Merger.mergeDirectory_repeats (m := r.merger) refinds.tidy refinds.tidy' refinds.spelled
    (refinds.roots root given) fun deep => refinds.flat flat deep root given
  unfold mergeDirectories
  cases first : r.merger.mergeDirectory before root r.recursive with
  | error failure => exact .error _ _
  | ok outcome =>
    obtain ⟨outcome', second, next⟩ := repeats outcome first
    rw [second]
    cases next with
    | loaded next => exact .ok (.some (agrees.getD.absorb next))
    | empty => exact .ok agrees

theorem Refinds.loadFlat_repeats (refinds : r.Refinds before after) (flat : r.mode = .flat) :
    Repeats MergeReport.Agrees (r.loadFlat before) (r.loadFlat after) := by
  have files : (r.rootPaths.filter fun root => !after.isDir root) = r.rootPaths.filter fun root => !before.isDir root :=
    List.filter_congr fun root given => by rw [(refinds.roots root given).isDir_eq]
  have directories : r.rootPaths.filter after.isDir = r.rootPaths.filter before.isDir :=
    List.filter_congr fun root given => (refinds.roots root given).isDir_eq
  rw [loadFlat_eq, loadFlat_eq, files, directories]
  refine (Merger.mergeFiles_repeats fun root mem => refinds.roots root (List.mem_filter.mp mem).1).bind
    fun outcome outcome' agrees => ?_
  refine (Repeats.foldlM (fun root mem merged merged' agrees => ?_) agrees.report?_agrees).bind ?_
  · exact refinds.mergeDirectories_repeats flat (List.mem_filter.mp mem).1 agrees
  · rintro _ _ (_ | agrees)
    · exact .error _ _
    · exact .ok agrees

theorem Refinds.loadMode_repeats (refinds : r.Refinds before after) (sound : r.Sound) :
    Repeats MergeReport.Agrees (r.loadMode before) (r.loadMode after) := by
  unfold loadMode
  cases mode : r.mode with
  | flat => exact refinds.loadFlat_repeats mode
  | subfolder =>
    have below := refinds.below (by simp [mode])
    obtain ⟨root, only⟩ := sound.only_root mode
    have only : r.rootPaths = [Bytes.ofText root] := congrArg (List.map Bytes.ofText) only
    rw [only] at below ⊢
    exact (Merger.mergeSubfolders_repeats refinds.tidy refinds.tidy' refinds.spelled
      (below _ (List.mem_singleton_self _))).bind fun _ _ agrees => agrees.report_repeats
  | variant =>
    have below := refinds.below (by simp [mode])
    exact (Merger.mergeVariants_repeats refinds.tidy refinds.tidy' refinds.spelled below r.variants).bind
      fun _ _ agrees => agrees.report_repeats

theorem Refinds.loadResults_repeats (refinds : r.Refinds before after) (sound : r.Sound) :
    Repeats MergeReport.Agrees (r.loadResults before) (r.loadResults after) := by
  unfold loadResults
  refine (refinds.loadMode_repeats sound).bind fun report other agrees => ?_
  rw [agrees.records]
  split
  · exact .error _ _
  · exact .ok agrees

end Load

section Places

def SeeksBelow (r : Request) (fs : FileSystem) (path : Bytes) : Prop :=
  r.mode ≠ .flat ∧ ∃ root ∈ r.rootPaths, ∃ subs, fs.subfolders root = .ok subs ∧ ∃ sub ∈ subs, sub.path = path

/-- The paths at which results are looked for: the roots, and their subfolders if these are loaded one by one. -/
def Seeks (r : Request) (fs : FileSystem) (path : Bytes) : Prop :=
  path ∈ r.rootPaths ∨ r.SeeksBelow fs path

def Walks (r : Request) (fs : FileSystem) (path : Bytes) : Prop :=
  r.mode = .flat ∧ r.recursive = true ∧ path ∈ r.rootPaths ∨ r.SeeksBelow fs path

def sought (r : Request) (fs : FileSystem) : List Bytes :=
  r.rootPaths ++ if r.mode = .flat then []
    else r.rootPaths.flatMap fun root => ((fs.subfolders root).toOption.getD []).map (·.path)

theorem seeks_iff {fs : FileSystem} {path : Bytes} : r.Seeks fs path ↔ path ∈ r.sought fs := by
  unfold Seeks SeeksBelow sought
  rw [List.mem_append]
  refine or_congr_right ?_
  by_cases flat : r.mode = .flat
  · simp [flat]
  · rw [if_neg flat, List.mem_flatMap]
    refine (and_iff_right flat).trans (exists_congr fun root => and_congr_right fun _ => ?_)
    cases fs.subfolders root <;> simp [Except.toOption]

/-- No results are looked for at the place or above it. -/
def Unsought (r : Request) (fs : FileSystem) (location : Location) : Prop :=
  ∀ path place, r.Seeks fs path → fs.place false path = .ok place → ¬ place.location <+: location

/-- No path at which results are looked for has come to lead elsewhere: what led to a place leads there still, and
what leads to a place led there before, but for a subfolder that was not there at all. -/
structure Undisturbed (r : Request) (before after : FileSystem) : Prop where
  kept : ∀ path place, r.Seeks before path → before.LeadsTo path place → after.LeadsTo path place
  roots : ∀ root ∈ r.rootPaths, ∀ place, after.LeadsTo root place → before.LeadsTo root place
  below : ∀ path place, r.SeeksBelow after path → after.LeadsTo path place →
    before.LeadsTo path place ∨ before.itemAt? place = none

/-- The second tree is the first one but for touched files and new directories, and no results are looked for where
it was touched. -/
structure Spares (r : Request) (before : FileSystem) (touched : List Location) (after : FileSystem) : Prop where
  changes : ChangesOnly before touched after
  names : before.KeepsNames after
  tidy : before.root.Tidy
  tidy' : after.root.Tidy
  spelled : before.root.Spelled
  solid : ∀ place ∈ touched, ∀ item, before.itemAt? place = some item → item.isDirectory = false
  proper : ∀ {directory name}, directory ++ [name] ∉ touched → before.itemAt? (directory ++ [name]) = none →
    after.itemAt? (directory ++ [name]) ≠ none → Path.Proper name
  unsought : ∀ place ∈ touched, r.Unsought after place
  listsNew : ∀ path, r.Walks after path → ListsNew before after path

variable {touched : List Location} {path root : Bytes} {location : Location} {sub : Subfolder}
  {subs subs' : List Subfolder}

theorem seeksBelow (mode : r.mode ≠ .flat) (given : root ∈ r.rootPaths) {fs : FileSystem}
    (listed : fs.subfolders root = .ok subs) (mem : sub ∈ subs) : r.SeeksBelow fs sub.path :=
  ⟨mode, root, given, subs, listed, sub, mem, rfl⟩

theorem stays_of_leads (changes : ChangesOnly before touched after) (apart : ∀ place ∈ touched, ¬ location <+: place)
    (leads : before.LeadsTo path location) (leads' : after.LeadsTo path location) : Stays before after path := by
  obtain ⟨old, there⟩ := leads.there
  have same := changes.keeps (fun mem => apart location mem List.prefix_rfl) (congrArg (Option.map Node.item) there)
  obtain ⟨new, there', -⟩ := Option.map_eq_some_iff.mp same
  exact .found leads leads' there there' (changes.grown apart there there')

theorem Spares.apart (spares : r.Spares before touched after) (sought : r.Seeks after path)
    (leads : after.LeadsTo path location) : ∀ place ∈ touched, ¬ location <+: place :=
  fun place mem => spares.unsought place mem path (.node location) sought leads

theorem Spares.stays_root (spares : r.Spares before touched after) (undisturbed : r.Undisturbed before after)
    (given : root ∈ r.rootPaths) : Stays before after root := by
  cases found : before.lookup root with
  | ok node =>
    obtain ⟨location, leads, -⟩ := FileSystem.lookup_eq_ok_iff.mp found
    have leads' := undisturbed.kept root location (.inl given) leads
    exact stays_of_leads spares.changes (spares.apart (.inl given) leads') leads leads'
  | error cause =>
    cases found' : after.lookup root with
    | error cause' => exact .lost found found'
    | ok node =>
      obtain ⟨location, leads', -⟩ := FileSystem.lookup_eq_ok_iff.mp found'
      have leads := undisturbed.roots root given location leads'
      obtain ⟨old, there⟩ := leads.there
      cases found.symm.trans (FileSystem.lookup_eq_ok_iff.mpr ⟨location, leads, there⟩)

/-- A subfolder is listed where the root holds its name and the path with the name leads to a directory. -/
theorem mem_subfolders_iff {fs : FileSystem} (tidy : fs.root.Tidy) (leads : fs.LeadsTo root location)
    (listed : fs.subfolders root = .ok subs) : sub ∈ subs ↔ ∃ name, sub = ⟨name.shown, Path.join root name⟩ ∧
      Path.isHidden name.shown = false ∧ fs.itemAt? (location ++ [name]) ≠ none ∧
      fs.isDir (Path.join root name) = true := by
  have holds : ∀ name, (∃ entries, fs.lookup root = .ok (.dir entries) ∧ name ∈ entries.map Prod.fst) ↔
      fs.itemAt? (location ++ [name]) ≠ none := by
    intro name
    obtain ⟨entries, read, -⟩ := map_eq_ok.mp listed
    have found := FileSystem.readDir_eq_ok_iff.mp read
    obtain ⟨_, leads', there⟩ := FileSystem.lookup_eq_ok_iff.mp found
    cases leads.symm.trans leads'
    rw [FileSystem.itemAt?, Node.itemAt?, Node.at?_concat, there, found]
    simp only [Except.ok.injEq, Node.dir.injEq, exists_eq_left', ← Keyed.lookup_isSome_iff_mem]
    simp [Node.child?, Node.entries, Option.isSome_iff_ne_none]
  rw [(FileSystem.lists_subfolders tidy listed).mem_iff]
  refine exists_congr fun name => ?_
  rw [holds]
  constructor
  · rintro ⟨there, shown, isDir, same⟩
    exact ⟨same, shown, there, isDir⟩
  · rintro ⟨same, shown, there, isDir⟩
    exact ⟨there, shown, isDir, same⟩

theorem Spares.stays_subfolder (spares : r.Spares before touched after) (undisturbed : r.Undisturbed before after)
    (mode : r.mode ≠ .flat) (given : root ∈ r.rootPaths) (leads : before.LeadsTo root location)
    (listed : before.subfolders root = .ok subs) (listed' : after.subfolders root = .ok subs')
    (mem : sub ∈ subs) : sub ∈ subs' ∧ Stays before after sub.path := by
  have leads' := undisturbed.kept root location (.inl given) leads
  have sought := seeksBelow mode given listed mem
  obtain ⟨name, rfl, shown, there, isDir⟩ := (mem_subfolders_iff spares.tidy leads listed).mp mem
  obtain ⟨place, item, goes, atPlace, directory⟩ := FileSystem.isDir_iff_leads.mp isDir
  have goes' := undisturbed.kept _ place (.inr sought) goes
  have untouched : place ∉ touched := fun mem => by cases (spares.solid place mem item atPlace).symm.trans directory
  have held : location ++ [name] ∉ touched := fun mem =>
    spares.apart (.inl given) leads' _ mem (List.prefix_append _ _)
  have there' : after.itemAt? (location ++ [name]) ≠ none := by
    obtain ⟨found, atName⟩ := Option.ne_none_iff_exists'.mp there
    rw [spares.changes.keeps held atName]
    exact Option.some_ne_none found
  have mem' : (⟨name.shown, Path.join root name⟩ : Subfolder) ∈ subs' :=
    (mem_subfolders_iff spares.tidy' leads' listed').mpr ⟨name, rfl, shown, there',
      FileSystem.isDir_iff_leads.mpr ⟨place, item, goes', spares.changes.keeps untouched atPlace, directory⟩⟩
  have apart := spares.apart (.inr (seeksBelow mode given listed' mem')) goes'
  exact ⟨mem', stays_of_leads spares.changes apart goes goes'⟩

theorem Spares.absent_subfolder (spares : r.Spares before touched after) (undisturbed : r.Undisturbed before after)
    (mode : r.mode ≠ .flat) (given : root ∈ r.rootPaths) (leads : before.LeadsTo root location)
    (listed : before.subfolders root = .ok subs) (listed' : after.subfolders root = .ok subs')
    (mem : sub ∈ subs') (new : sub ∉ subs) {place : Location} (goes' : after.LeadsTo sub.path place) :
    before.itemAt? place = none := by
  have leads' := undisturbed.kept root location (.inl given) leads
  have sought := seeksBelow mode given listed' mem
  have apart := spares.apart (.inr sought) goes'
  obtain goes | absent := undisturbed.below _ place sought goes'
  · -- The path led to the directory before, so its name was new in the root, and the directory has that name.
    obtain ⟨name, rfl, shown, there', isDir⟩ := (mem_subfolders_iff spares.tidy' leads' listed').mp mem
    obtain ⟨_, item, goes'', atPlace, directory⟩ := FileSystem.isDir_iff_leads.mp isDir
    cases goes'.symm.trans goes''
    obtain ⟨old, there⟩ := goes.there
    have atOld : before.itemAt? place = some old.item := congrArg (Option.map Node.item) there
    cases atPlace.symm.trans (spares.changes.keeps (fun mem => apart place mem List.prefix_rfl) atOld)
    have unheld : before.itemAt? (location ++ [name]) = none := by
      by_contra held
      exact new ((mem_subfolders_iff spares.tidy leads listed).mpr
        ⟨name, rfl, shown, held, FileSystem.isDir_iff_leads.mpr ⟨place, old.item, goes, atOld, directory⟩⟩)
    have held : location ++ [name] ∉ touched := fun mem =>
      spares.apart (.inl given) leads' _ mem (List.prefix_append _ _)
    have proper := spares.proper held unheld there'
    obtain same | ⟨-, made⟩ := spares.changes.items _ held
    · exact absurd (same.trans unheld) there'
    have inside : after.itemAt? location = some .directory := by
      obtain ⟨node, atNode, -⟩ := Option.map_eq_some_iff.mp made
      exact Node.itemAt?_front atNode
    have joined := leads'.join inside proper.names proper.plain (FileSystem.place_eq_ok_iff.mp goes').1 made rfl
    cases goes'.symm.trans joined
    exact unheld
  · exact absent

theorem Spares.silent_subfolder (spares : r.Spares before touched after) (undisturbed : r.Undisturbed before after)
    (mode : r.mode ≠ .flat) (given : root ∈ r.rootPaths) (leads : before.LeadsTo root location)
    (listed : before.subfolders root = .ok subs) (listed' : after.subfolders root = .ok subs')
    (mem : sub ∈ subs') (new : sub ∉ subs) : after.findings true sub.path = .ok [] := by
  have leads' := undisturbed.kept root location (.inl given) leads
  have sought := seeksBelow mode given listed' mem
  obtain ⟨name, same, -, -, isDir⟩ := (mem_subfolders_iff spares.tidy' leads' listed').mp mem
  have isDir : after.isDir sub.path = true := same ▸ isDir
  obtain ⟨place, item, goes', atPlace, -⟩ := FileSystem.isDir_iff_leads.mp isDir
  obtain ⟨node, atNode, rfl⟩ := Option.map_eq_some_iff.mp atPlace
  have apart := spares.apart (.inr sought) goes'
  have absent := spares.absent_subfolder undisturbed mode given leads listed listed' mem new goes'
  have absentBelow : ∀ steps, before.itemAt? (place ++ steps) = none := by
    intro steps
    rw [FileSystem.itemAt?, Node.itemAt?, Node.at?_append, Option.map_eq_none_iff.mp absent]
    rfl
  unfold FileSystem.findings
  rw [FileSystem.lookup_eq_ok_iff.mpr ⟨place, goes', atNode⟩]
  refine congrArg Except.ok (Node.findings_of_directories (spares.tidy'.at? atNode) (fun steps found below => ?_)
    (FileSystem.checkPath_eq_ok_iff.mp (FileSystem.place_eq_ok_iff.mp goes').1).2.2 (fun steps made => ?_) true)
  · rw [← FileSystem.itemAt?_append atNode] at below
    obtain same | ⟨-, made⟩ := spares.changes.items (place ++ steps) fun mem => apart _ mem (List.prefix_append _ _)
    · cases (absentBelow steps).symm.trans (same.symm.trans below)
    · exact Option.some.inj (below.symm.trans made)
  · rw [← FileSystem.itemAt?_append atNode] at made
    exact spares.listsNew _ (.inr sought) place goes' steps (absentBelow steps) made

theorem Spares.staysBelow (spares : r.Spares before touched after) (undisturbed : r.Undisturbed before after)
    (mode : r.mode ≠ .flat) (given : root ∈ r.rootPaths) : StaysBelow before after root := by
  have stays := spares.stays_root undisturbed given
  refine ⟨stays, fun subs listed => ?_⟩
  obtain ⟨entries, read, -⟩ := map_eq_ok.mp listed
  have found := FileSystem.readDir_eq_ok_iff.mp read
  obtain ⟨location, leads, there⟩ := FileSystem.lookup_eq_ok_iff.mp found
  have leads' := undisturbed.kept root location (.inl given) leads
  obtain ⟨entries', there', names⟩ := spares.names location entries there
  have found' := FileSystem.lookup_eq_ok_iff.mpr ⟨location, leads', there'⟩
  obtain ⟨subs', listed'⟩ : ∃ subs', after.subfolders root = .ok subs' :=
    ⟨_, map_eq_ok.mpr ⟨entries', FileSystem.readDir_eq_ok_iff.mpr found', rfl⟩⟩
  have kept : ∀ sub ∈ subs, sub ∈ subs' ∧ Stays before after sub.path := fun sub mem =>
    spares.stays_subfolder undisturbed mode given leads listed listed' mem
  refine ⟨subs', listed', ?_, (FileSystem.lists_subfolders spares.tidy' listed').once, fun sub mem => ?_,
    fun sub mem new => ?_⟩
  · exact FileSystem.sublist_subfolders spares.tidy spares.tidy' found found' listed listed' names fun sub mem =>
      (kept sub mem).1
  · exact ⟨(kept sub mem).2, spares.listsNew _ (.inr (seeksBelow mode given listed' (kept sub mem).1))⟩
  · exact spares.silent_subfolder undisturbed mode given leads listed listed' mem new

theorem Spares.refinds (spares : r.Spares before touched after) (undisturbed : r.Undisturbed before after) :
    r.Refinds before after where
  tidy := spares.tidy
  tidy' := spares.tidy'
  spelled := spares.spelled
  roots _ given := spares.stays_root undisturbed given
  flat flat deep root given := spares.listsNew root (.inl ⟨flat, deep, given⟩)
  below mode _ given := spares.staysBelow undisturbed mode given

end Places

end Request

end SweepPlot
