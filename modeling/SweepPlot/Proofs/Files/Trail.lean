import Mathlib.Data.List.Basic
import SweepPlot.Files.Resolve
import SweepPlot.Proofs.Files.Tree
set_option autoImplicit false

/-!
Where paths lead. A walk asks of a tree only what stands at the places on its way, so walks in two trees
that agree there end alike. `Trail` lists the steps of a walk that ends; a trail can be cut and continued
at any step.
-/

namespace SweepPlot

/-- What stands at a location; of a directory only that it is one. -/
inductive Item where
  | file (content : Bytes)
  | link (target : Bytes)
  | locked (directory : Bool)
  | directory
  deriving DecidableEq

def Item.isLink : Item → Bool
  | link _ => true
  | _ => false

def Item.isDirectory : Item → Bool
  | directory => true
  | locked isDirectory => isDirectory
  | _ => false

namespace Node

def item : Node → Item
  | file content => .file content
  | link target => .link target
  | locked directory => .locked directory
  | dir _ => .directory

def itemAt? (node : Node) (location : Location) : Option Item :=
  (node.at? location).map item

theorem isDirectory_item (node : Node) : node.item.isDirectory = node.isDirectory := by
  cases node <;> rfl

theorem itemAt?_eq_directory_iff {node : Node} {location : Location} :
    node.itemAt? location = some .directory ↔ ∃ entries, node.at? location = some (.dir entries) := by
  unfold itemAt?
  cases node.at? location with
  | none => simp
  | some found => cases found <;> simp [item]

theorem itemAt?_eq_file_iff {node : Node} {location : Location} {content : Bytes} :
    node.itemAt? location = some (.file content) ↔ node.at? location = some (.file content) := by
  unfold itemAt?
  cases node.at? location with
  | none => simp
  | some found => cases found <;> simp [item]

theorem itemAt?_front {node found : Node} {location : Location} {name : Bytes}
    (there : node.at? (location ++ [name]) = some found) : node.itemAt? location = some .directory := by
  rw [at?_concat] at there
  obtain ⟨parent, atParent, child⟩ := Option.bind_eq_some_iff.mp there
  cases parent with
  | dir entries => exact itemAt?_eq_directory_iff.mpr ⟨entries, atParent⟩
  | file | link | locked => cases child

theorem itemAt?_dropLast {node : Node} {location : Location} (inside : node.itemAt? location = some .directory) :
    node.itemAt? location.dropLast = some .directory := by
  obtain rfl | ⟨front, name, rfl⟩ := List.eq_nil_or_concat' location
  · exact inside
  · obtain ⟨entries, there⟩ := itemAt?_eq_directory_iff.mp inside
    rw [List.dropLast_concat]
    exact itemAt?_front there

end Node

def Path.Names (step : Bytes) : Prop :=
  isName step = true ∧ step.length ≤ FileSystem.nameLimit

def Place.location : Place → Location
  | node location => location
  | free directory name => directory ++ [name]

/-- A walk that ends, with what stands at the places on its way and how many links it may still follow. -/
inductive Trail (items : Location → Option Item) : Nat → Location → List Bytes → Place → Prop where
  | stop {links : Nat} {here : Location} : Trail items links here [] (.node here)
  | stay {links : Nat} {here : Location} {step : Bytes} {rest : List Bytes} {place : Place}
      (inside : items here = some .directory) (blank : step = [] ∨ step = Path.here)
      (next : Trail items links here rest place) : Trail items links here (step :: rest) place
  | up {links : Nat} {here : Location} {rest : List Bytes} {place : Place}
      (inside : items here = some .directory) (next : Trail items links here.dropLast rest place) :
      Trail items links here (Path.up :: rest) place
  | enter {links : Nat} {here : Location} {step : Bytes} {rest : List Bytes} {place : Place} {item : Item}
      (inside : items here = some .directory) (names : Path.Names step)
      (there : items (here ++ [step]) = some item) (solid : item.isLink = false)
      (next : Trail items links (here ++ [step]) rest place) : Trail items links here (step :: rest) place
  | follow {links : Nat} {here : Location} {step target : Bytes} {rest : List Bytes} {place : Place}
      (inside : items here = some .directory) (names : Path.Names step)
      (there : items (here ++ [step]) = some (.link target))
      (next : Trail items links (FileSystem.startOf here target) (Path.steps target ++ rest) place) :
      Trail items (links + 1) here (step :: rest) place
  | free {links : Nat} {here : Location} {step : Bytes}
      (inside : items here = some .directory) (names : Path.Names step)
      (absent : items (here ++ [step]) = none) : Trail items links here [step] (.free here step)

namespace FileSystem

/-- A walk takes a step by what stands here and, for a name, by what stands at the name. -/
theorem walk_cons (root : Node) (toWrite : Bool) (links : Nat) (here : Location) (step : Bytes)
    (rest : List Bytes) :
    walk root toWrite links here (step :: rest) =
      match root.itemAt? here with
      | none => .error .notFound
      | some (.locked true) => .error .denied
      | some .directory =>
        if step = [] ∨ step = Path.here then walk root toWrite links here rest
        else if step = Path.up then walk root toWrite links here.dropLast rest
        else if toWrite && onlySlashes rest then .error .isDirectory
        else if nameLimit < step.length then .error .nameTooLong
        else
          match root.itemAt? (here ++ [step]) with
          | none => if rest = [] then .ok (.free here step) else .error .notFound
          | some (.link target) =>
            match links with
            | 0 => .error .linkLoop
            | left + 1 => walk root toWrite left (startOf here target) (Path.steps target ++ rest)
          | some _ => walk root toWrite links (here ++ [step]) rest
      | some _ => .error .notDirectory := by
  cases links with
  | zero | succ =>
    rw [walk, walkSteps]
    simp only [Node.itemAt?, Node.at?_concat]
    cases root.at? here with
    | none => rfl
    | some node =>
      cases node with
      | file | link => rfl
      | locked directory => cases directory <;> rfl
      | dir entries =>
        simp only [Option.map_some, Node.item, Option.bind_some, Node.child?, Node.entries]
        cases entries.lookup step with
        | none => rfl
        | some child => cases child <;> rfl

theorem walk_nil (root : Node) (toWrite : Bool) (links : Nat) (here : Location) :
    walk root toWrite links here [] = .ok (.node here) := by
  cases links <;> rfl

theorem trail_of_walk {root : Node} {toWrite : Bool} {links : Nat} {here : Location} {steps : List Bytes}
    {place : Place} (ended : walk root toWrite links here steps = .ok place) :
    Trail root.itemAt? links here steps place := by
  -- A link costs one of the links left, any other step is gone afterwards.
  induction links using Nat.strongRecOn generalizing here steps with
  | ind links fewer =>
    induction steps generalizing here with
    | nil =>
      rw [walk_nil] at ended
      cases ended
      exact .stop
    | cons step rest ih =>
      rw [walk_cons] at ended
      split at ended
      case h_1 | h_2 | h_4 => cases ended
      next inside =>
      split at ended
      next blank => exact .stay inside blank (ih ended)
      next notBlank =>
      split at ended
      next isUp =>
        subst isUp
        exact .up inside (ih ended)
      next notUp =>
      split at ended
      · cases ended
      split at ended
      · cases ended
      next short =>
      have names : Path.Names step := by
        simp only [not_or] at notBlank
        exact ⟨by simp [Path.isName, notBlank, notUp], Nat.not_lt.mp short⟩
      split at ended
      next absent =>
        split at ended
        next last =>
          cases ended
          subst last
          exact .free inside names absent
        next => cases ended
      next target there =>
        cases links with
        | zero => cases ended
        | succ left => exact .follow inside names there (fewer left (Nat.lt_succ_self left) ended)
      next item solid there =>
        refine .enter inside names there ?_ (ih ended)
        cases item with
        | link target => exact absurd rfl (solid target)
        | file | locked | directory => rfl

end FileSystem

namespace Trail

variable {items items' : Location → Option Item}

/-- A trail can be cut before any step, and its first part continued with other steps. -/
theorem split {links : Nat} {here : Location} {front more : List Bytes} {place : Place}
    (more_ne : more ≠ []) (trail : Trail items links here (front ++ more) place) :
    ∃ left middle, Trail items left middle more place ∧
      ∀ {others place'}, Trail items left middle others place' →
        Trail items links here (front ++ others) place' := by
  cases front with
  | nil => exact ⟨links, here, trail, id⟩
  | cons step front =>
    rw [List.cons_append] at trail
    generalize after : front ++ more = rest at trail
    cases trail with
    | stay inside blank next =>
      obtain ⟨left, middle, tail, onward⟩ := split more_ne (after ▸ next)
      exact ⟨left, middle, tail, fun other => .stay inside blank (onward other)⟩
    | up inside next =>
      obtain ⟨left, middle, tail, onward⟩ := split more_ne (after ▸ next)
      exact ⟨left, middle, tail, fun other => .up inside (onward other)⟩
    | enter inside names there solid next =>
      obtain ⟨left, middle, tail, onward⟩ := split more_ne (after ▸ next)
      exact ⟨left, middle, tail, fun other => .enter inside names there solid (onward other)⟩
    | follow inside names there next =>
      rw [← after, ← List.append_assoc] at next
      obtain ⟨left, middle, tail, onward⟩ := split more_ne next
      exact ⟨left, middle, tail, fun other => .follow inside names there (by simpa using onward other)⟩
    | free => exact absurd (List.append_eq_nil_iff.mp after).2 more_ne

theorem extend {links : Nat} {here location : Location} {steps : List Bytes}
    (trail : Trail items links here steps (.node location)) :
    ∃ left, ∀ {others place}, Trail items left location others place →
      Trail items links here (steps ++ others) place := by
  generalize ended : Place.node location = place at trail
  induction trail with
  | stop =>
    cases ended
    exact ⟨_, id⟩
  | stay inside blank next ih =>
    obtain ⟨left, onward⟩ := ih ended
    exact ⟨left, fun other => .stay inside blank (onward other)⟩
  | up inside next ih =>
    obtain ⟨left, onward⟩ := ih ended
    exact ⟨left, fun other => .up inside (onward other)⟩
  | enter inside names there solid next ih =>
    obtain ⟨left, onward⟩ := ih ended
    exact ⟨left, fun other => .enter inside names there solid (onward other)⟩
  | follow inside names there next ih =>
    obtain ⟨left, onward⟩ := ih ended
    exact ⟨left, fun other => .follow inside names there (by simpa using onward other)⟩
  | free => cases ended

theorem inside {links : Nat} {here : Location} {step : Bytes} {rest : List Bytes} {place : Place}
    (trail : Trail items links here (step :: rest) place) : items here = some .directory := by
  cases trail <;> assumption

theorem of_blank {links : Nat} {here : Location} {step : Bytes} {rest : List Bytes} {place : Place}
    (blank : step = [] ∨ step = Path.here) (trail : Trail items links here (step :: rest) place) :
    Trail items links here rest place := by
  have nameless : ¬ Path.Names step := by
    rintro ⟨name, -⟩
    obtain rfl | rfl := blank <;> cases name
  cases trail with
  | stay _ _ next => exact next
  | up => exact absurd blank (by decide)
  | enter _ names | follow _ names | free _ names => exact absurd names nameless

/-- A blank step at the end is taken in a directory, and so can be any other step. -/
theorem front_of_blank {links : Nat} {here directory : Location} {front : List Bytes} {step : Bytes}
    (blank : step = [] ∨ step = Path.here) (trail : Trail items links here (front ++ [step]) (.node directory)) :
    items directory = some .directory ∧ ∃ left, ∀ {others place},
      Trail items left directory others place → Trail items links here (front ++ others) place := by
  obtain ⟨left, middle, last, onward⟩ := trail.split (List.cons_ne_nil step [])
  have inside := last.inside
  cases last.of_blank blank
  exact ⟨inside, left, onward⟩

theorem of_free {links : Nat} {here directory : Location} {steps : List Bytes} {name : Bytes}
    (trail : Trail items links here steps (.free directory name)) :
    items directory = some .directory ∧ items (directory ++ [name]) = none := by
  generalize ended : Place.free directory name = place at trail
  induction trail with
  | stop => cases ended
  | stay _ _ _ ih | up _ _ ih | enter _ _ _ _ _ ih | follow _ _ _ _ ih => exact ih ended
  | free inside _ absent =>
    cases ended
    exact ⟨inside, absent⟩

theorem of_onlySlashes {links : Nat} {here : Location} {front rest : List Bytes} {place : Place}
    (slashes : FileSystem.onlySlashes rest = true) (trail : Trail items links here (front ++ rest) place) :
    ∃ location, place = .node location ∧ items location = some .directory := by
  obtain none | ⟨others, last, rfl⟩ := List.eq_nil_or_concat' rest
  · rw [none] at slashes
    cases slashes
  have blank : last = [] := by
    have all := (Bool.and_eq_true_iff.mp slashes).2
    simpa using List.all_eq_true.mp all last (List.mem_append_right others (List.mem_singleton_self last))
  subst blank
  rw [← List.append_assoc] at trail
  obtain ⟨left, middle, tail, -⟩ := trail.split (List.cons_ne_nil [] [])
  have inside := tail.inside
  cases tail.of_blank (.inl rfl)
  exact ⟨middle, rfl, inside⟩

/-- What a walk needs of a place is kept: a directory and a link as they are, of anything else that
it is there. -/
def KeepsAt (items items' : Location → Option Item) (location : Location) : Prop :=
  ∀ item, items location = some item → ∃ item', items' location = some item' ∧
    (item' = item ∨ item ≠ .directory ∧ item.isLink = false ∧ item'.isLink = false)

theorem KeepsAt.of_same {location : Location}
    (same : ∀ item, items location = some item → items' location = some item) : KeepsAt items items' location :=
  fun item there => ⟨item, same item there, .inl rfl⟩

/-- What the end of a walk is in other items: the same node, unless it is lost, or what is put at a free
name. -/
def Becomes (items' : Location → Option Item) (lost : Location → Prop) : Place → Location → Prop
  | .node location, found => ¬ lost location ∧ found = location
  | .free directory name, found =>
    found = directory ++ [name] ∧ ∃ item, items' found = some item ∧ item.isLink = false

/-- A trail stays one in other items, if what these do not keep are dead ends away from its end. -/
theorem transfer {links : Nat} {here found : Location} {steps : List Bytes} {place : Place}
    {lost : Location → Prop} (keeps : ∀ location, ¬ lost location → KeepsAt items items' location)
    (dead : ∀ location item, lost location → items location = some item →
      item ≠ .directory ∧ item.isLink = false)
    (ends : Becomes items' lost place found) (trail : Trail items links here steps place) :
    Trail items' links here steps (.node found) := by
  have stays : ∀ {location}, items location = some .directory → items' location = some .directory := by
    intro location inside
    have kept : ¬ lost location := fun gone => (dead location _ gone inside).1 rfl
    obtain ⟨item', there, rfl | ⟨differ, -⟩⟩ := keeps location kept _ inside
    · exact there
    · exact absurd rfl differ
  induction trail with
  | stop =>
    obtain ⟨-, rfl⟩ := ends
    exact .stop
  | stay inside blank next ih => exact .stay (stays inside) blank (ih ends)
  | up inside next ih => exact .up (stays inside) (ih ends)
  | @enter links here step rest place item inside names there solid next ih =>
    have kept : ¬ lost (here ++ [step]) := by
      intro gone
      cases rest with
      | nil =>
        cases next
        exact ends.1 gone
      | cons => exact (dead _ _ gone next.inside).1 rfl
    obtain ⟨item', there', same⟩ := keeps _ kept item there
    refine .enter (stays inside) names there' ?_ (ih ends)
    obtain rfl | ⟨-, -, solid'⟩ := same
    · exact solid
    · exact solid'
  | @follow links here step target rest place inside names there next ih =>
    have kept : ¬ lost (here ++ [step]) := by
      intro gone
      cases (dead _ _ gone there).2
    obtain ⟨item', there', rfl | ⟨-, solid, -⟩⟩ := keeps _ kept _ there
    · exact .follow (stays inside) names there' (ih ends)
    · cases solid
  | free inside names absent =>
    obtain ⟨rfl, item, put, solid⟩ := ends
    exact .enter (stays inside) names put solid .stop

theorem keep {links : Nat} {here location : Location} {steps : List Bytes}
    (keeps : ∀ other, KeepsAt items items' other) (trail : Trail items links here steps (.node location)) :
    Trail items' links here steps (.node location) := by
  have last : Becomes items' (fun _ => False) (.node location) location := ⟨id, rfl⟩
  exact trail.transfer (fun other _ => keeps other) (fun _ _ => False.elim) last

end Trail

namespace FileSystem

theorem walk_of_trail {root : Node} {toWrite : Bool} {links : Nat} {here : Location} {steps : List Bytes}
    {place : Place} (goes : toWrite = true → ∀ location, place = .node location →
      root.itemAt? location ≠ some .directory)
    (trail : Trail root.itemAt? links here steps place) : walk root toWrite links here steps = .ok place := by
  have plain : ∀ {step : Bytes}, Path.Names step → ¬ (step = [] ∨ step = Path.here) ∧ step ≠ Path.up ∧
      ¬ nameLimit < step.length := by
    rintro step ⟨name, short⟩
    simp only [Path.isName, Bool.and_eq_true, bne_iff_ne, ne_eq] at name
    exact ⟨fun blank => blank.elim name.1.1 name.1.2, name.2, Nat.not_lt.mpr short⟩
  have passes : ∀ {links here rest place} (front : List Bytes), (toWrite = true → ∀ location, place = .node location →
      root.itemAt? location ≠ some .directory) → Trail root.itemAt? links here (front ++ rest) place →
        (toWrite && onlySlashes rest) = false := by
    intro links here rest place front goes next
    by_contra blocked
    obtain ⟨writes, slashes⟩ := Bool.and_eq_true_iff.mp (Bool.not_eq_false _ ▸ blocked)
    obtain ⟨location, ended, inside⟩ := next.of_onlySlashes slashes
    exact goes writes location ended inside
  induction trail with
  | stop => exact walk_nil ..
  | stay inside blank next ih =>
    rw [walk_cons, inside]
    simp only [if_pos blank, ih goes]
  | up inside next ih =>
    rw [walk_cons, inside]
    exact ih goes
  | @enter links here step rest place item inside names there solid next ih =>
    obtain ⟨notBlank, notUp, short⟩ := plain names
    rw [walk_cons, inside, there, passes [] goes next]
    simp only [if_neg notBlank, if_neg notUp, if_neg short, Bool.false_eq_true, if_false]
    cases item with
    | link => cases solid
    | file | locked | directory => exact ih goes
  | follow inside names there next ih =>
    obtain ⟨notBlank, notUp, short⟩ := plain names
    rw [walk_cons, inside, there, passes _ goes next]
    simp only [if_neg notBlank, if_neg notUp, if_neg short, Bool.false_eq_true, if_false]
    exact ih goes
  | free inside names absent =>
    obtain ⟨notBlank, notUp, short⟩ := plain names
    rw [walk_cons, inside, absent]
    simp only [if_neg notBlank, if_neg notUp, if_neg short, onlySlashes, List.isEmpty_nil, Bool.not_true,
      Bool.false_and, Bool.and_false, Bool.false_eq_true, if_false, if_true]

theorem walk_eq_ok_iff {root : Node} {links : Nat} {here : Location} {steps : List Bytes} {place : Place} :
    walk root false links here steps = .ok place ↔ Trail root.itemAt? links here steps place :=
  ⟨trail_of_walk, walk_of_trail fun writes => by cases writes⟩

def itemAt? (fs : FileSystem) (location : Location) : Option Item :=
  fs.root.itemAt? location

/-- The path, links followed, ends at a node. -/
def LeadsTo (fs : FileSystem) (path : Bytes) (location : Location) : Prop :=
  fs.place false path = .ok (.node location)

instance (fs : FileSystem) (path : Bytes) (location : Location) : Decidable (fs.LeadsTo path location) :=
  inferInstanceAs (Decidable (fs.place false path = .ok (.node location)))

theorem place_eq_ok_iff {fs : FileSystem} {path : Bytes} {place : Place} :
    fs.place false path = .ok place ↔ checkPath path = .ok () ∧
      Trail fs.itemAt? linkLimit (startOf fs.workDir path) (Path.steps path) place := by
  unfold FileSystem.place
  cases h : checkPath path with
  | error cause => simp
  | ok => simp only [walk_eq_ok_iff, true_and]; rfl

theorem LeadsTo.mono {before after : FileSystem} {path : Bytes} {location : Location}
    (leads : before.LeadsTo path location) (workDir : after.workDir = before.workDir)
    (keeps : ∀ other, Trail.KeepsAt before.itemAt? after.itemAt? other) : after.LeadsTo path location := by
  obtain ⟨text, trail⟩ := place_eq_ok_iff.mp leads
  refine place_eq_ok_iff.mpr ⟨text, ?_⟩
  rw [workDir]
  exact trail.keep keeps

theorem lookup_eq_ok_iff {fs : FileSystem} {path : Bytes} {node : Node} :
    fs.lookup path = .ok node ↔ ∃ location, fs.LeadsTo path location ∧ fs.root.at? location = some node := by
  unfold lookup LeadsTo
  cases fs.place false path with
  | error cause => simp
  | ok place =>
    cases place with
    | free => simp
    | node location =>
      simp only [Except.ok.injEq, Place.node.injEq, exists_eq_left']
      cases fs.root.at? location <;> simp

theorem isDir_iff_leads {fs : FileSystem} {path : Bytes} : fs.isDir path = true ↔
    ∃ place item, fs.LeadsTo path place ∧ fs.itemAt? place = some item ∧ item.isDirectory = true := by
  rw [isDir_iff]
  constructor
  · rintro ⟨node, found, directory⟩
    obtain ⟨place, leads, there⟩ := lookup_eq_ok_iff.mp found
    exact ⟨place, node.item, leads, congrArg (Option.map Node.item) there, node.isDirectory_item.trans directory⟩
  · rintro ⟨place, item, leads, there, directory⟩
    obtain ⟨node, atPlace, rfl⟩ := Option.map_eq_some_iff.mp there
    exact ⟨node, lookup_eq_ok_iff.mpr ⟨place, leads, atPlace⟩, node.isDirectory_item.symm.trans directory⟩

end FileSystem

end SweepPlot
