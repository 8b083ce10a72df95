import SweepPlot.Proofs.Files.Replace
set_option autoImplicit false

namespace SweepPlot

/-- Where a trail ends something stands, if it takes a step or something stands where it starts. -/
theorem Trail.there {root : Node} {links : Nat} {here location : Location} {steps : List Bytes}
    (start : steps = [] → root.itemAt? here ≠ none) (trail : Trail root.itemAt? links here steps (.node location)) :
    root.itemAt? location ≠ none := by
  generalize ended : Place.node location = place at trail
  induction trail with
  | stop =>
    cases ended
    exact start rfl
  | stay inside blank next ih => exact ih (fun _ => by simp [inside]) ended
  | up inside next ih => exact ih (fun _ => by simp [Node.itemAt?_dropLast inside]) ended
  | enter inside names there solid next ih => exact ih (fun _ => by simp [there]) ended
  | follow inside names there next ih =>
    exact ih (fun none => absurd (List.append_eq_nil_iff.mp none).1 (Path.steps_ne_nil _)) ended
  | free => cases ended

namespace FileSystem

variable {fs made after : FileSystem} {path : Bytes} {location directory : Location} {name : Bytes}
  {content bytes : Bytes} {slash : Bool}

theorem LeadsTo.there (leads : fs.LeadsTo path location) : ∃ node, fs.root.at? location = some node := by
  have found := (place_eq_ok_iff.mp leads).2.there fun none => absurd none (Path.steps_ne_nil path)
  exact Option.isSome_iff_exists.mp (by simpa [Option.isSome_iff_ne_none, Node.itemAt?] using found)

theorem isThere_iff_leads : fs.isThere path = true ↔ ∃ location, fs.LeadsTo path location := by
  constructor
  · intro there
    obtain ⟨node, found⟩ := exists_eq_ok there
    obtain ⟨location, leads, -⟩ := lookup_eq_ok_iff.mp found
    exact ⟨location, leads⟩
  · rintro ⟨location, leads⟩
    obtain ⟨node, there⟩ := leads.there
    rw [isThere, lookup_eq_ok_iff.mpr ⟨location, leads, there⟩]
    rfl

section Append

theorem writable_of_file (leads : fs.LeadsTo path location)
    (file : fs.itemAt? location = some (.file content)) : fs.writable path = .ok (location, content) := by
  obtain ⟨text, trail⟩ := place_eq_ok_iff.mp leads
  have goes : fs.place true path = .ok (.node location) := by
    unfold place
    rw [text]
    refine walk_of_trail (fun _ other same inside => ?_) trail
    cases same
    cases inside.symm.trans file
  unfold writable
  rw [goes]
  dsimp only
  rw [Node.itemAt?_eq_file_iff.mp file]

/-- Where writing goes to a file that is there, the path is that of the file, and else there is none at the path. -/
theorem readFile_of_writable {old : Option Bytes} (goes : fs.writable path = .ok (location, content))
    (before : fs.itemAt? location = old.map .file) : (fs.readFile path).toOption = old := by
  obtain ⟨old', place, rfl, same, known, -, ended, rfl⟩ := writable_cases goes
  obtain rfl : old' = old := by
    refine Option.map_injective (fun a b same => ?_) (same.symm.trans before)
    injection same
  cases old' with
  | some content =>
    refine toOption_eq_some.mpr (readFile_eq_ok_iff.mpr ⟨place.location, ?_, before⟩)
    cases place with
    | node location => exact ended
    | free directory name =>
      have absent := (place_eq_ok_iff.mp ended).2.of_free.2
      cases absent.symm.trans before
  | none =>
    unfold isThere at known
    unfold readFile openFile
    cases found : fs.lookup path with
    | error cause => rfl
    | ok node =>
      rw [found] at known
      cases known

theorem append_of_file (leads : fs.LeadsTo path location) (file : fs.itemAt? location = some (.file content))
    (bytes : Bytes) : ∃ after, fs.append path bytes = .ok after ∧
      Appended fs path bytes after location (some content) := by
  have goes := writable_of_file leads file
  have done : fs.append path bytes = .ok (fs.putAt location (.file (content ++ bytes))) := by
    rw [append, goes]
    rfl
  obtain ⟨location', old, appended⟩ := append_cases done
  obtain ⟨rfl, -⟩ := Prod.mk.inj (Except.ok.inj (goes.symm.trans appended.goes))
  obtain ⟨_, rfl, same⟩ := Option.map_eq_some_iff.mp (appended.before.symm.trans file)
  cases same
  exact ⟨_, done, appended⟩

end Append

section Replace

theorem Ends.unique {directory' : Location} {name' : Bytes} {slash' : Bool}
    (ends : fs.Ends path directory name slash) (ends' : fs.Ends path directory' name' slash') :
    directory' = directory ∧ name' = name := by
  have found : fs.target path .notFound = .ok (directory, name, _, slash) := target_eq_ok_iff.mpr ⟨ends, rfl⟩
  have found' : fs.target path .notFound = .ok (directory', name', _, slash') := target_eq_ok_iff.mpr ⟨ends', rfl⟩
  obtain ⟨rfl, rest⟩ := Prod.mk.inj (Except.ok.inj (found'.symm.trans found))
  exact ⟨rfl, (Prod.mk.inj rest).1⟩

theorem Replaced.trail_before (replaced : Replaced made path bytes after directory name) {links : Nat}
    {here : Location} {steps : List Bytes} (apart : location ≠ directory ++ [name])
    (trail : Trail after.itemAt? links here steps (.node location)) :
    Trail made.itemAt? links here steps (.node location) := by
  have last : Trail.Becomes made.itemAt? (· = directory ++ [name]) (.node location) location := ⟨apart, rfl⟩
  refine trail.transfer (fun other away => .of_same fun item there => ?_) (fun other item gone there => ?_) last
  · rwa [replaced.items, if_neg away] at there
  · rw [replaced.items, if_pos gone] at there
    cases there
    exact ⟨Item.noConfusion, rfl⟩

theorem Replaced.leadsTo_before {other : Bytes} (replaced : Replaced made path bytes after directory name)
    (apart : location ≠ directory ++ [name]) (leads : after.LeadsTo other location) :
    made.LeadsTo other location := by
  obtain ⟨text, trail⟩ := place_eq_ok_iff.mp leads
  refine place_eq_ok_iff.mpr ⟨text, ?_⟩
  rw [replaced.workDir] at trail
  exact replaced.trail_before apart trail

/-- Where the path still leads somewhere, it leads to the replaced file, through the same directory. -/
theorem Replaced.again (replaced : Replaced made path bytes after directory name)
    (leads : after.LeadsTo path location) :
    location = directory ++ [name] ∧ after.Ends path directory name false := by
  obtain ⟨⟨text, ⟨front, ending, reached⟩, short⟩, -, workDir, items⟩ := id replaced
  obtain ⟨steps, isName⟩ := steps_of_endingOf ending
  have file : after.itemAt? (directory ++ [name]) = some (.file bytes) := (items _).trans (if_pos rfl)
  obtain ⟨-, trail⟩ := place_eq_ok_iff.mp leads
  rw [steps] at trail
  obtain ⟨left, middle, tail, onward⟩ := trail.split (List.cons_ne_nil name [])
  have inside := tail.inside
  have apart : middle ≠ directory ++ [name] := by
    rintro rfl
    cases inside.symm.trans file
  have reaches := onward (.stay inside (.inl rfl) .stop)
  have same : made.directoryOf path front = .ok middle := by
    refine directoryOf_eq_ok_iff.mpr (replaced.trail_before apart ?_)
    rwa [← workDir]
  cases reached.symm.trans same
  refine ⟨?_, text, ⟨front, ending, directoryOf_eq_ok_iff.mpr reaches⟩, short⟩
  cases tail with
  | stay _ blank => simp_all [Path.isName]
  | up => cases isName
  | enter _ _ _ _ next =>
    cases next
    rfl
  | follow _ _ there => cases there.symm.trans file

theorem Replaced.keepsAt (replaced : Replaced made path bytes after directory name)
    (file : made.itemAt? (directory ++ [name]) = some (.file content)) (place : Location) :
    Trail.KeepsAt made.itemAt? after.itemAt? place := by
  have was : made.itemAt? (directory ++ [name]) = (some content).map .file := file
  exact keepsAt_of_file was replaced.items place

theorem replaceFile_of_file (ends : fs.Ends path directory name false)
    (leads : fs.LeadsTo path (directory ++ [name])) (file : fs.itemAt? (directory ++ [name]) = some (.file content))
    (bytes : Bytes) : (fs.replaceFile {} path bytes).2 = .ok () ∧
      Replaced (fs.makeDirs (fun _ _ => none) (directoryText path)).1 path bytes (fs.replaceFile {} path bytes).1
        directory name := by
  have changes := makeDirs_changes fs (fun _ _ => none) (directoryText path)
  obtain ⟨directory', name', done, replaced⟩ | ⟨place, cause, -, refused⟩ := replaceFile_cases fs {} path bytes
  · have ends' := ends.mono changes.workDir fun other => .of_same fun item => changes.keeps List.not_mem_nil
    obtain ⟨rfl, rfl⟩ := ends'.unique replaced.ends
    exact ⟨done, replaced⟩
  · exact (refused.not_file (changes.leadsTo leads) (changes.keeps List.not_mem_nil file)).elim

end Replace

end FileSystem

end SweepPlot
