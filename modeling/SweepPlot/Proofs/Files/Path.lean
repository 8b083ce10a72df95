import SweepPlot.Proofs.Files.Trail
set_option autoImplicit false

namespace SweepPlot

namespace Text

variable {α : Type} [DecidableEq α]

theorem split_append (sep : α) (front back : List α) :
    split sep (front ++ sep :: back) = split sep front ++ split sep back := by
  induction front with
  | nil => simp [split]
  | cons c front ih =>
    by_cases h : c = sep
    · simp [split, h, ih]
    · rw [List.cons_append, split, split, if_neg h, if_neg h, ih]
      cases hs : split sep front with
      | nil => exact absurd hs (split_ne_nil sep front)
      | cons part parts => rfl

theorem of_mem_split {sep : α} {piece cs : List α} (mem : piece ∈ split sep cs) : sep ∉ piece ∧ piece ⊆ cs := by
  induction cs generalizing piece with
  | nil =>
    rw [split, List.mem_singleton] at mem
    subst mem
    exact ⟨List.not_mem_nil, List.nil_subset _⟩
  | cons c cs ih =>
    rw [split] at mem
    split at mem
    · obtain rfl | mem := List.mem_cons.mp mem
      · exact ⟨List.not_mem_nil, List.nil_subset _⟩
      · exact ⟨(ih mem).1, fun x hx => List.mem_cons_of_mem _ ((ih mem).2 hx)⟩
    next differ =>
      split at mem
      next none => exact absurd none (split_ne_nil sep cs)
      next part parts whole =>
        rw [whole] at ih
        obtain rfl | mem := List.mem_cons.mp mem
        · obtain ⟨plain, sub⟩ := ih List.mem_cons_self
          refine ⟨fun slash => ?_, List.cons_subset_cons c sub⟩
          obtain rfl | slash := List.mem_cons.mp slash
          · exact differ rfl
          · exact plain slash
        · obtain ⟨plain, sub⟩ := ih (List.mem_cons_of_mem _ mem)
          exact ⟨plain, fun x hx => List.mem_cons_of_mem _ (sub hx)⟩

end Text

namespace Path

theorem steps_append (front back : Bytes) : steps (front ++ slash :: back) = steps front ++ steps back :=
  Text.split_append slash front back

theorem steps_of_not_mem {name : Bytes} (h : slash ∉ name) : steps name = [name] :=
  Text.split_of_not_mem h

theorem steps_ne_nil (path : Bytes) : steps path ≠ [] :=
  Text.split_ne_nil slash path

/-- A joined path has the steps of its directory, without an empty one at their end, and the name. -/
theorem steps_join (path : Bytes) : ∃ front, (steps path = front ∨ steps path = front ++ [[]]) ∧
    ∀ name : Bytes, slash ∉ name → steps (join path name) = front ++ [name] := by
  unfold join
  by_cases given : path = []
  · refine ⟨[], .inr ?_, fun name plain => ?_⟩
    · rw [given]
      rfl
    · rw [if_pos (.inl given), given, List.nil_append, steps_of_not_mem plain]
      rfl
  · by_cases closed : path.getLast? = some slash
    · obtain ⟨front, rfl⟩ := List.getLast?_eq_some_iff.mp closed
      refine ⟨steps front, .inr (steps_append front []), fun name plain => ?_⟩
      rw [if_pos (.inr closed), List.append_assoc, List.singleton_append, steps_append, steps_of_not_mem plain]
    · refine ⟨steps path, .inl rfl, fun name plain => ?_⟩
      rw [if_neg (not_or.mpr ⟨given, closed⟩), steps_append, steps_of_not_mem plain]

end Path

namespace Path

/-- What stands before the name of an entry. -/
def within (path : Bytes) : Bytes :=
  join path []

theorem join_eq (path name : Bytes) : join path name = within path ++ name := by
  unfold within join
  split <;> simp

theorem within_eq (path : Bytes) : ∃ more, within path = path ++ more := by
  unfold within join
  split
  · exact ⟨[], rfl⟩
  · exact ⟨[slash], rfl⟩

theorem isAbsolute_append {path : Bytes} (given : path ≠ []) (more : Bytes) :
    isAbsolute (path ++ more) = isAbsolute path := by
  unfold isAbsolute
  rw [List.head?_append_of_ne_nil path given]

/-- A name that an entry of a directory may have. -/
structure Proper (name : Bytes) : Prop where
  names : Names name
  plain : slash ∉ name
  clean : 0 ∉ name

theorem proper_iff {name : Bytes} :
    Proper name ↔ (isName name = true ∧ name.length ≤ FileSystem.nameLimit) ∧ slash ∉ name ∧ 0 ∉ name :=
  ⟨fun ⟨names, plain, clean⟩ => ⟨names, plain, clean⟩, fun ⟨names, plain, clean⟩ => ⟨names, plain, clean⟩⟩

instance (name : Bytes) : Decidable (Proper name) :=
  decidable_of_iff' _ proper_iff

theorem Proper.given {name : Bytes} (proper : Proper name) : name ≠ [] := by
  rintro rfl
  cases proper.names.1

/-- The path is that of an entry of the directory: nothing after the directory's own bytes is a slash. -/
def isDirectlyIn (directory path : Bytes) : Bool :=
  (within directory).isPrefixOf path && !(path.drop (within directory).length).contains slash

theorem isDirectlyIn_iff {directory path : Bytes} :
    isDirectlyIn directory path = true ↔ ∃ name, slash ∉ name ∧ path = join directory name := by
  unfold isDirectlyIn
  simp only [join_eq, Bool.and_eq_true, List.isPrefixOf_iff_prefix, Bool.not_eq_true',
    List.contains_eq_mem, decide_eq_false_iff_not]
  constructor
  · rintro ⟨⟨rest, rfl⟩, plain⟩
    rw [List.drop_left] at plain
    exact ⟨rest, plain, rfl⟩
  · rintro ⟨name, plain, rfl⟩
    rw [List.drop_left]
    exact ⟨List.prefix_append _ _, plain⟩

theorem join_closed (path : Bytes) {name : Bytes} (proper : Proper name) :
    join path name ≠ [] ∧ (join path name).getLast? ≠ some slash := by
  rw [join_eq]
  refine ⟨fun none => proper.given (List.append_eq_nil_iff.mp none).2, fun closed => ?_⟩
  rw [List.getLast?_append_of_ne_nil _ proper.given] at closed
  exact proper.plain (List.mem_of_getLast? closed)

theorem joinAll_of_closed {path : Bytes} {steps : List Bytes} (given : path ≠ [])
    (closed : path.getLast? ≠ some slash) (proper : ∀ step ∈ steps, Proper step) :
    joinAll path steps = path ++ steps.flatMap fun step => slash :: step := by
  induction steps generalizing path with
  | nil => simp [joinAll]
  | cons step steps ih =>
    obtain ⟨own, rest⟩ := List.forall_mem_cons.mp proper
    obtain ⟨given', closed'⟩ := join_closed path own
    refine (ih given' closed' rest).trans ?_
    unfold join
    rw [if_neg (not_or.mpr ⟨given, closed⟩)]
    simp

theorem isDirectlyIn_joinAll (directory : Bytes) {name : Bytes} {rest : List Bytes}
    (proper : ∀ step ∈ name :: rest, Proper step) :
    isDirectlyIn directory (joinAll directory (name :: rest)) = rest.isEmpty := by
  obtain ⟨own, others⟩ := List.forall_mem_cons.mp proper
  obtain ⟨given, closed⟩ := join_closed directory own
  have text := joinAll_of_closed given closed others
  cases rest with
  | nil => exact isDirectlyIn_iff.mpr ⟨name, own.plain, rfl⟩
  | cons next rest =>
    refine Bool.eq_false_iff.mpr fun direct => ?_
    obtain ⟨other, plain, same⟩ := isDirectlyIn_iff.mp direct
    change joinAll (join directory name) (next :: rest) = _ at same
    rw [same, join_eq, join_eq, List.append_assoc, List.append_cancel_left_eq] at text
    exact plain (text ▸ by simp)

end Path

namespace FileSystem

theorem checkPath_eq_ok_iff {path : Bytes} :
    checkPath path = .ok () ↔ path ≠ [] ∧ 0 ∉ path ∧ path.length < pathLimit := by
  unfold checkPath
  split
  next empty => simp [empty]
  next given =>
    split
    next nul => simpa using fun _ h => absurd (by simpa using nul) h
    next clean =>
      split
      next long => simp; omega
      next short => simp [given]; exact ⟨by simpa using clean, by omega⟩

theorem startOf_front {path : Bytes} (given : path ≠ []) (here : Location) (more : Bytes) :
    startOf here (path ++ more) = startOf here path := by
  unfold startOf
  rw [Path.isAbsolute_append given]

theorem LeadsTo.join {fs : FileSystem} {root name : Bytes} {location : Location} {item : Item}
    (leads : fs.LeadsTo root location) (inside : fs.itemAt? location = some .directory)
    (names : Path.Names name) (plain : Path.slash ∉ name)
    (text : checkPath (Path.join root name) = .ok ())
    (there : fs.itemAt? (location ++ [name]) = some item) (solid : item.isLink = false) :
    fs.LeadsTo (Path.join root name) (location ++ [name]) := by
  obtain ⟨textRoot, trail⟩ := place_eq_ok_iff.mp leads
  have given := (checkPath_eq_ok_iff.mp textRoot).1
  have start : startOf fs.workDir (Path.join root name) = startOf fs.workDir root := by
    obtain ⟨more, hs⟩ := Path.within_eq root
    rw [Path.join_eq, hs, List.append_assoc, startOf_front given]
  refine place_eq_ok_iff.mpr ⟨text, ?_⟩
  obtain ⟨front, stepsRoot, stepsJoin⟩ := Path.steps_join root
  rw [start, stepsJoin name plain]
  obtain same | same := stepsRoot
  · rw [same] at trail
    obtain ⟨left, onward⟩ := trail.extend
    exact onward (.enter inside names there solid .stop)
  · rw [same] at trail
    obtain ⟨left, middle, last, onward⟩ := trail.split (List.cons_ne_nil [] [])
    cases last.of_blank (.inl rfl)
    exact onward (.enter inside names there solid .stop)

theorem lookup_join {fs : FileSystem} {root name : Bytes} {node child : Node}
    (found : fs.lookup root = .ok node) (there : node.child? name = some child)
    (proper : Path.Proper name) (text : checkPath (Path.join root name) = .ok ())
    (solid : child.item.isLink = false) : fs.lookup (Path.join root name) = .ok child := by
  obtain ⟨location, leads, atRoot⟩ := lookup_eq_ok_iff.mp found
  have inside : fs.itemAt? location = some .directory := by
    cases node with
    | dir => exact congrArg (Option.map Node.item) atRoot
    | file | link | locked => cases there
  have atChild : fs.root.at? (location ++ [name]) = some child := by
    rw [Node.at?_concat, atRoot]
    exact there
  exact lookup_eq_ok_iff.mpr ⟨location ++ [name],
    leads.join inside proper.names proper.plain text (congrArg (Option.map Node.item) atChild) solid, atChild⟩

theorem checkPath_join {fs : FileSystem} {root name : Bytes} {node : Node}
    (found : fs.lookup root = .ok node) (proper : Path.Proper name)
    (short : (Path.join root name).length < pathLimit) :
    checkPath (Path.join root name) = .ok () := by
  obtain ⟨location, leads, -⟩ := lookup_eq_ok_iff.mp found
  obtain ⟨-, clean, -⟩ := checkPath_eq_ok_iff.mp (place_eq_ok_iff.mp leads).1
  refine checkPath_eq_ok_iff.mpr ⟨(Path.join_closed root proper).1, fun nul => ?_, short⟩
  unfold Path.join at nul
  split at nul
  · exact (List.mem_append.mp nul).elim clean proper.clean
  · obtain nul | nul := List.mem_append.mp nul
    · exact clean nul
    · exact (List.mem_cons.mp nul).elim (by decide) proper.clean

end FileSystem

end SweepPlot
