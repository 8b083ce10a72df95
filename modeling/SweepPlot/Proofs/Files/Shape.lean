import SweepPlot.Proofs.Files.Again
set_option autoImplicit false

namespace SweepPlot

def Item.shape : Item → Item
  | file _ => file []
  | item => item

theorem Item.shape_cases {item item' : Option Item} (same : item'.map shape = item.map shape) :
    item' = item ∨ ∃ content content', item = some (.file content) ∧ item' = some (.file content') := by
  cases item <;> cases item'
  · exact .inl rfl
  · cases same
  · cases same
  next a b =>
    cases a <;> cases b <;> cases same
    · exact .inr ⟨_, _, rfl, rfl⟩
    all_goals exact .inl rfl

theorem Trail.unfill {items items' : Location → Option Item} {directory : Location} {name content : Bytes}
    (absent : items (directory ++ [name]) = none) (file : items' (directory ++ [name]) = some (.file content))
    (same : ∀ other, other ≠ directory ++ [name] → (items' other).map Item.shape = (items other).map Item.shape)
    {links : Nat} {here : Location} {steps : List Bytes} {place : Place} (trail : Trail items' links here steps place) :
    Trail items links here steps place ∨
      place = .node (directory ++ [name]) ∧ Trail items links here steps (.free directory name) := by
  -- Away from the new file a directory, a link or nothing is what it was.
  have kept : ∀ other item, (∀ content, item ≠ some (.file content)) → items' other = item →
      other ≠ directory ++ [name] → items other = item := by
    intro other item plain there apart
    obtain eq | ⟨_, content', -, is⟩ := Item.shape_cases (same other apart)
    · exact eq.symm.trans there
    · exact absurd (there.symm.trans is) (plain content')
  have inside' : ∀ other, items' other = some .directory → items other = some .directory := by
    refine fun other inside => kept other _ nofun inside ?_
    rintro rfl
    cases file.symm.trans inside
  induction trail with
  | stop => exact .inl .stop
  | stay inside blank next ih =>
    exact ih.imp (.stay (inside' _ inside) blank) (And.imp_right (.stay (inside' _ inside) blank))
  | up inside next ih => exact ih.imp (.up (inside' _ inside)) (And.imp_right (.up (inside' _ inside)))
  | @enter links here step rest place item inside names there solid next ih =>
    by_cases entry : here ++ [step] = directory ++ [name]
    · -- A file is the end of the way.
      rw [entry] at next
      cases rest with
      | cons => cases file.symm.trans next.inside
      | nil =>
        cases next
        obtain ⟨rfl, last⟩ := List.append_inj' entry rfl
        cases last
        exact .inr ⟨rfl, .free (inside' _ inside) names absent⟩
    · obtain ⟨item', there', solid'⟩ : ∃ item', items (here ++ [step]) = some item' ∧ item'.isLink = false := by
        obtain eq | ⟨content', _, was, -⟩ := Item.shape_cases (same _ entry)
        · exact ⟨item, eq.symm.trans there, solid⟩
        · exact ⟨_, was, rfl⟩
      exact ih.imp (.enter (inside' _ inside) names there' solid')
        (And.imp_right (.enter (inside' _ inside) names there' solid'))
  | follow inside names there next ih =>
    have there' := kept _ _ (fun _ same => by cases same) there fun entry => by cases file.symm.trans (entry ▸ there)
    exact ih.imp (.follow (inside' _ inside) names there') (And.imp_right (.follow (inside' _ inside) names there'))
  | free inside names none =>
    have none' := kept _ _ (fun _ same => by cases same) none fun entry => by cases file.symm.trans (entry ▸ none)
    exact .inl (.free (inside' _ inside) names none')

namespace FileSystem

/-- The same directories, links and files are in the same places, whatever the files hold. -/
structure SameShape (fs other : FileSystem) : Prop where
  workDir : other.workDir = fs.workDir
  items : ∀ location, (other.itemAt? location).map Item.shape = (fs.itemAt? location).map Item.shape

theorem SameShape.refl (fs : FileSystem) : fs.SameShape fs :=
  ⟨rfl, fun _ => rfl⟩

theorem walk_shape {root root' : Node}
    (items : ∀ location, (root'.itemAt? location).map Item.shape = (root.itemAt? location).map Item.shape)
    (toWrite : Bool) (links : Nat) (here : Location) (steps : List Bytes) :
    walk root' toWrite links here steps = walk root toWrite links here steps := by
  induction links using Nat.strongRecOn generalizing here steps with
  | ind links fewer =>
    induction steps generalizing here with
    | nil => rw [walk_nil, walk_nil]
    | cons step rest ih =>
      have onward : ∀ left, links = left + 1 → ∀ here steps,
          walk root' toWrite left here steps = walk root toWrite left here steps :=
        fun left counted => fewer left (counted ▸ Nat.lt_succ_self left)
      rw [walk_cons, walk_cons]
      obtain same | ⟨_, _, was, is⟩ := Item.shape_cases (items here)
      · rw [same]
        obtain same' | ⟨_, _, was, is⟩ := Item.shape_cases (items (here ++ [step]))
        · rw [same']
          cases links with
          | zero => simp only [ih]
          | succ left => simp only [ih, onward left rfl]
        · rw [was, is]
          simp only [ih]
      · rw [was, is]

namespace SameShape

variable {fs other : FileSystem} (same : fs.SameShape other)
include same

theorem place_eq (toWrite : Bool) (path : Bytes) : other.place toWrite path = fs.place toWrite path := by
  unfold place
  rw [same.workDir, walk_shape same.items]

theorem keepsAt (location : Location) : Trail.KeepsAt fs.itemAt? other.itemAt? location := by
  intro item there
  obtain kept | ⟨_, content', was, is⟩ := Item.shape_cases (same.items location)
  · exact ⟨item, kept.trans there, .inl rfl⟩
  · cases there.symm.trans was
    exact ⟨_, is, .inr ⟨Item.noConfusion, rfl, rfl⟩⟩

theorem symm : other.SameShape fs :=
  ⟨same.workDir.symm, fun location => (same.items location).symm⟩

theorem leadsTo_iff {path : Bytes} {location : Location} : other.LeadsTo path location ↔ fs.LeadsTo path location := by
  unfold LeadsTo
  rw [same.place_eq]

theorem isDir_eq (path : Bytes) : other.isDir path = fs.isDir path := by
  rw [Bool.eq_iff_iff, isDir_iff_leads, isDir_iff_leads]
  refine exists_congr fun place => ?_
  rw [same.leadsTo_iff]
  obtain kept | ⟨_, _, was, is⟩ := Item.shape_cases (same.items place)
  · rw [kept]
  · simp [was, is, Item.isDirectory]

theorem target_cases (path : Bytes) (noName : IoCause) :
    (∃ cause, fs.target path noName = .error cause ∧ other.target path noName = .error cause) ∨
      ∃ directory name slash, fs.target path noName =
          .ok (directory, name, fs.root.at? (directory ++ [name]), slash) ∧
        other.target path noName = .ok (directory, name, other.root.at? (directory ++ [name]), slash) := by
  have reached : ∀ front, other.directoryOf path front = fs.directoryOf path front := by
    intro front
    unfold directoryOf
    rw [same.workDir, walk_shape same.items]
  unfold target
  cases checkPath path with
  | error cause => exact .inl ⟨cause, rfl, rfl⟩
  | ok =>
  dsimp only
  rw [reached]
  cases fs.directoryOf path (endingOf path).front with
  | error cause => exact .inl ⟨cause, rfl, rfl⟩
  | ok directory =>
  cases (endingOf path).name with
  | none => exact .inl ⟨noName, rfl, rfl⟩
  | some name =>
  dsimp only
  split
  · exact .inl ⟨_, rfl, rfl⟩
  · refine .inr ⟨directory, name, (endingOf path).slash, ?_, ?_⟩ <;> rw [Node.at?_concat]

end SameShape

/-- Both fail for the same cause, or make trees of the same shape. -/
inductive MakesAlike : Except IoCause FileSystem → Except IoCause FileSystem → Prop where
  | ok {made made' : FileSystem} (same : made.SameShape made') : MakesAlike (.ok made) (.ok made')
  | error (cause : IoCause) : MakesAlike (.error cause) (.error cause)

theorem MakesAlike.orFault {given given' : Except IoCause FileSystem} (alike : MakesAlike given given')
    (fault : Option IoCause) : MakesAlike (orFault fault given) (orFault fault given') := by
  cases fault with
  | none => exact alike
  | some cause => exact .error cause

namespace SameShape

variable {fs other : FileSystem}

theorem putAt {new : Node} {location : Location} (same : fs.SameShape other) (leaf : new.Leaf)
    (takes : fs.root.Takes location) (takes' : other.root.Takes location) :
    (fs.putAt location new).SameShape (other.putAt location new) := by
  refine ⟨same.workDir, fun place => ?_⟩
  rw [itemAt?_putAt leaf takes, itemAt?_putAt leaf takes']
  split
  · rfl
  · exact same.items place

theorem makeDir (same : fs.SameShape other) (path : Bytes) : MakesAlike (fs.makeDir path) (other.makeDir path) := by
  unfold FileSystem.makeDir
  obtain ⟨cause, failed, failed'⟩ | ⟨directory, name, slash, found, found'⟩ := same.target_cases path .alreadyExists
  · rw [failed, failed']
    exact .error cause
  · have inside := (target_eq_ok_iff.mp found).1.inside
    have inside' := (target_eq_ok_iff.mp found').1.inside
    rw [found, found']
    have items := same.items (directory ++ [name])
    unfold itemAt? Node.itemAt? at items
    cases old : fs.root.at? (directory ++ [name]) <;> cases new : other.root.at? (directory ++ [name]) <;>
      rw [old, new] at items
    · exact .ok (same.putAt Node.leaf_empty (takes_free inside old) (takes_free inside' new))
    · cases items
    · cases items
    · exact .error .alreadyExists

theorem makeLineage (same : fs.SameShape other) (making : Bytes → Bool → Option IoCause) (paths : List Bytes) :
    (other.makeLineage making paths).2 = (fs.makeLineage making paths).2 ∧
      (fs.makeLineage making paths).1.SameShape (other.makeLineage making paths).1 := by
  induction paths generalizing fs other with
  | nil => exact ⟨rfl, same⟩
  | cons path parents ih =>
    rw [FileSystem.makeLineage, FileSystem.makeLineage]
    have alike := (same.makeDir path).orFault (making path false)
    generalize orFault (making path false) (fs.makeDir path) = first at alike ⊢
    generalize orFault (making path false) (other.makeDir path) = first' at alike ⊢
    cases alike with
    | ok same => exact ⟨rfl, same⟩
    | error cause =>
    by_cases missing : cause = .notFound
    · subst missing
      obtain ⟨answer, below⟩ := ih same
      generalize fs.makeLineage making parents = made at answer below ⊢
      generalize other.makeLineage making parents = made' at answer below ⊢
      obtain ⟨reached, given⟩ := made
      obtain ⟨reached', given'⟩ := made'
      cases answer
      cases given with
      | error cause => exact ⟨rfl, below⟩
      | ok =>
        have alike := (SameShape.makeDir below path).orFault (making path true)
        dsimp only
        generalize orFault (making path true) (reached.makeDir path) = second at alike ⊢
        generalize orFault (making path true) (reached'.makeDir path) = second' at alike ⊢
        cases alike with
        | ok same => exact ⟨rfl, same⟩
        | error cause => exact ⟨by rw [below.isDir_eq], below⟩
    · have answers := same.isDir_eq path
      cases cause with
      | notFound => exact absurd rfl missing
      | _ => exact ⟨by rw [answers], same⟩

theorem makeDirs (same : fs.SameShape other) (making : Bytes → Bool → Option IoCause) (path : Bytes) :
    (fs.makeDirs making path).1.SameShape (other.makeDirs making path).1 :=
  (same.makeLineage making (Path.lineage path)).2

end SameShape

/-- The second tree has a file where the first has nothing, and otherwise the same shape. -/
structure Fills (bare after : FileSystem) (directory : Location) (name : Bytes) : Prop where
  workDir : after.workDir = bare.workDir
  absent : bare.itemAt? (directory ++ [name]) = none
  file : ∃ content, after.itemAt? (directory ++ [name]) = some (.file content)
  items : ∀ other, other ≠ directory ++ [name] →
    (after.itemAt? other).map Item.shape = (bare.itemAt? other).map Item.shape

namespace Fills

variable {bare after : FileSystem} {directory : Location} {name path : Bytes}
  (fills : Fills bare after directory name)
include fills

theorem keepsAt (other : Location) : Trail.KeepsAt bare.itemAt? after.itemAt? other := by
  intro item there
  have apart : other ≠ directory ++ [name] := by
    rintro rfl
    cases fills.absent.symm.trans there
  obtain eq | ⟨_, content, was, is⟩ := Item.shape_cases (fills.items other apart)
  · exact ⟨item, eq.trans there, .inl rfl⟩
  · cases there.symm.trans was
    exact ⟨_, is, .inr ⟨Item.noConfusion, rfl, rfl⟩⟩

theorem leadsTo {location : Location} (leads : bare.LeadsTo path location) : after.LeadsTo path location :=
  leads.mono fills.workDir fills.keepsAt

theorem leadsTo_filled (free : bare.place false path = .ok (.free directory name)) :
    after.LeadsTo path (directory ++ [name]) := by
  obtain ⟨text, trail⟩ := place_eq_ok_iff.mp free
  obtain ⟨content, file⟩ := fills.file
  have last : Trail.Becomes after.itemAt? (fun _ => False) (.free directory name) (directory ++ [name]) :=
    ⟨rfl, _, file, rfl⟩
  refine place_eq_ok_iff.mpr ⟨text, ?_⟩
  rw [fills.workDir]
  exact trail.transfer (fun other _ => fills.keepsAt other) (fun _ _ => False.elim) last

theorem place_cases {place : Place} (found : after.place false path = .ok place) :
    bare.place false path = .ok place ∨
      place = .node (directory ++ [name]) ∧ bare.place false path = .ok (.free directory name) := by
  obtain ⟨text, trail⟩ := place_eq_ok_iff.mp found
  obtain ⟨content, file⟩ := fills.file
  rw [fills.workDir] at trail
  exact (trail.unfill fills.absent file fills.items).imp (fun kept => place_eq_ok_iff.mpr ⟨text, kept⟩)
    (And.imp_right fun free => place_eq_ok_iff.mpr ⟨text, free⟩)

theorem itemAt?_eq_none_iff {other : Location} (apart : other ≠ directory ++ [name]) :
    after.itemAt? other = none ↔ bare.itemAt? other = none := by
  obtain eq | ⟨_, _, was, is⟩ := Item.shape_cases (fills.items other apart)
  · rw [eq]
  · simp [was, is]

theorem isDir_eq (path : Bytes) : after.isDir path = bare.isDir path := by
  have alike : ∀ place, place ≠ directory ++ [name] → ((∃ item, after.itemAt? place = some item ∧
      item.isDirectory = true) ↔ ∃ item, bare.itemAt? place = some item ∧ item.isDirectory = true) := by
    intro place apart
    obtain eq | ⟨_, _, was, is⟩ := Item.shape_cases (fills.items place apart)
    · rw [eq]
    · simp [was, is, Item.isDirectory]
  rw [Bool.eq_iff_iff, isDir_iff_leads, isDir_iff_leads]
  constructor
  · rintro ⟨place, item, leads, there, directory⟩
    obtain leads' | ⟨ended, -⟩ := fills.place_cases leads
    · obtain ⟨old, there'⟩ := LeadsTo.there leads'
      have apart : place ≠ _ := fun same => by
        cases fills.absent.symm.trans (same ▸ congrArg (Option.map Node.item) there')
      obtain ⟨item', there', directory'⟩ := (alike place apart).mp ⟨item, there, directory⟩
      exact ⟨place, item', leads', there', directory'⟩
    · cases ended
      obtain ⟨content, file⟩ := fills.file
      cases file.symm.trans there
      cases directory
  · rintro ⟨place, item, leads, there, directory⟩
    have apart : place ≠ _ := fun same => by cases fills.absent.symm.trans (same ▸ there)
    obtain ⟨item', there', directory'⟩ := (alike place apart).mpr ⟨item, there, directory⟩
    exact ⟨place, item', fills.leadsTo leads, there', directory'⟩

end Fills

end FileSystem

end SweepPlot
