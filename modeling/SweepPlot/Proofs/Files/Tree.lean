import SweepPlot.Files.Resolve
import SweepPlot.Proofs.Keyed
set_option autoImplicit false

namespace SweepPlot.Node

@[elab_as_elim, induction_eliminator]
theorem byEntries {motive : Node → Prop} (file : ∀ content, motive (.file content))
    (link : ∀ target, motive (.link target)) (locked : ∀ directory, motive (.locked directory))
    (dir : ∀ entries : List (Bytes × Node), (∀ entry ∈ entries, motive entry.2) → motive (.dir entries))
    (node : Node) : motive node := by
  refine @Node.rec motive (fun entries => ∀ entry ∈ entries, motive entry.2)
    (fun entry => motive entry.2) file link locked dir ?_ ?_ ?_ node
  · simp
  · intro head tail atHead atTail
    simpa using ⟨atHead, fun name child => atTail (name, child)⟩
  · intro name child atChild
    exact atChild

/-- No directory in the tree has two entries of one name. -/
inductive Tidy : Node → Prop where
  | file (content : Bytes) : Tidy (.file content)
  | link (target : Bytes) : Tidy (.link target)
  | locked (directory : Bool) : Tidy (.locked directory)
  | dir (entries : List (Bytes × Node)) (names : (entries.map Prod.fst).Nodup)
      (below : ∀ entry ∈ entries, Tidy entry.2) : Tidy (.dir entries)

@[simp]
theorem tidy_file (content : Bytes) : (Node.file content).Tidy := .file content

@[simp]
theorem tidy_dir_iff {entries : List (Bytes × Node)} :
    (Node.dir entries).Tidy ↔ (entries.map Prod.fst).Nodup ∧ ∀ entry ∈ entries, entry.2.Tidy := by
  constructor
  · rintro (_ | _ | _ | ⟨_, names, below⟩)
    exact ⟨names, below⟩
  · rintro ⟨names, below⟩
    exact .dir entries names below

theorem at?_cons (name : Bytes) (rest : Location) (node : Node) :
    node.at? (name :: rest) = (node.child? name).bind (at? rest) := rfl

theorem at?_append (first rest : Location) (node : Node) :
    node.at? (first ++ rest) = (node.at? first).bind (at? rest) := by
  induction first generalizing node with
  | nil => rfl
  | cons name first ih =>
    rw [List.cons_append, at?_cons, at?_cons, Option.bind_assoc]
    exact congrArg _ (funext ih)

theorem at?_concat (location : Location) (name : Bytes) (node : Node) :
    node.at? (location ++ [name]) = (node.at? location).bind fun found => found.child? name := by
  rw [at?_append]
  refine congrArg _ (funext fun found => ?_)
  rw [at?_cons]
  exact Option.bind_fun_some _

theorem Tidy.child {node child : Node} {name : Bytes} (tidy : node.Tidy)
    (h : node.child? name = some child) : child.Tidy := by
  cases tidy with
  | dir entries names below => exact below _ (Keyed.mem_of_lookup h)
  | file | link | locked => cases h

theorem Tidy.at? {node found : Node} {location : Location} (tidy : node.Tidy)
    (h : node.at? location = some found) : found.Tidy := by
  induction location generalizing node with
  | nil =>
    cases h
    exact tidy
  | cons name rest ih =>
    obtain ⟨child, hc, hr⟩ := Option.bind_eq_some_iff.mp h
    exact ih (tidy.child hc) hr

theorem Tidy.child?_dir {entries : List (Bytes × Node)} (tidy : (Node.dir entries).Tidy)
    {name : Bytes} {child : Node} :
    (Node.dir entries).child? name = some child ↔ (name, child) ∈ entries :=
  Keyed.lookup_eq_some_iff_mem (tidy_dir_iff.mp tidy).1

end SweepPlot.Node

namespace SweepPlot.FileSystem

theorem lookup_tidy {fs : FileSystem} {path : Bytes} {node : Node} (tidy : fs.root.Tidy)
    (h : fs.lookup path = .ok node) : node.Tidy := by
  unfold lookup at h
  split at h
  · cases h
  · cases h
  · split at h
    next location _ found hf =>
      cases h
      exact tidy.at? hf
    next => cases h

theorem readDir_eq_ok_iff {fs : FileSystem} {path : Bytes} {entries : List (Bytes × Node)} :
    fs.readDir path = .ok entries ↔ fs.lookup path = .ok (.dir entries) := by
  unfold readDir
  cases fs.lookup path with
  | error cause => simp
  | ok node =>
    cases node with
    | locked directory => cases directory <;> simp
    | file | link | dir => simp

theorem isDir_iff {fs : FileSystem} {path : Bytes} :
    fs.isDir path = true ↔ ∃ node, fs.lookup path = .ok node ∧ node.isDirectory = true := by
  unfold isDir
  cases fs.lookup path <;> simp

end SweepPlot.FileSystem
