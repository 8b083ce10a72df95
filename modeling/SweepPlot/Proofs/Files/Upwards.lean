import SweepPlot.Files.Change
import SweepPlot.Proofs.Files.Path
set_option autoImplicit false

namespace SweepPlot

namespace Path

theorem steps_reverse (last front : Bytes) :
    steps (last ++ slash :: front).reverse = steps front.reverse ++ steps last.reverse := by
  rw [← steps_append]
  simp

theorem steps_reverse_plain {last : Bytes} (plain : slash ∉ last) : steps last.reverse = [last.reverse] :=
  steps_of_not_mem (by simpa using plain)

theorem isAbsolute_plain {path : Bytes} (plain : slash ∉ path) : isAbsolute path = false := by
  refine Bool.eq_false_iff.mpr fun absolute => plain ?_
  exact List.mem_of_head? (eq_of_beq absolute)

/-- Dropping the end of a path drops only steps that lead nowhere. -/
theorem trail_dropEnd {items : Location → Option Item} {links : Nat} {here location : Location}
    {back : Bytes} (trail : Trail items links here (steps back.reverse) (.node location)) :
    Trail items links here (steps (dropEnd back).reverse) (.node location) := by
  induction back with
  | nil => exact trail
  | cons a back ih =>
    cases back with
    | nil => exact trail
    | cons b back =>
      by_cases ends : a = slash ∨ a = dot ∧ b = slash
      · rw [dropEnd, if_pos ends]
        refine ih ?_
        obtain rfl | ⟨rfl, rfl⟩ := ends
        · rw [show slash :: b :: back = [] ++ slash :: b :: back from rfl, steps_reverse] at trail
          obtain ⟨-, left, onward⟩ := trail.front_of_blank (.inl rfl)
          simpa using onward .stop
        · rw [show dot :: slash :: back = [dot] ++ slash :: back from rfl, steps_reverse] at trail
          obtain ⟨inside, left, onward⟩ := trail.front_of_blank (.inr rfl)
          rw [show slash :: back = [] ++ slash :: back from rfl, steps_reverse]
          exact onward (.stay inside (.inl rfl) .stop)
      · rwa [dropEnd, if_neg ends]

theorem dropEnd_suffix (back : Bytes) : dropEnd back <:+ back := by
  induction back with
  | nil => exact List.suffix_rfl
  | cons a back ih =>
    cases back with
    | nil => exact List.suffix_rfl
    | cons b back =>
      have dropped : dropEnd (a :: b :: back) =
          if a = slash ∨ a = dot ∧ b = slash then dropEnd (b :: back) else a :: b :: back := rfl
      rw [dropped]
      split
      · exact ih.trans (List.suffix_cons _ _)
      · exact List.suffix_rfl

theorem dropEnd_ne_nil {back : Bytes} (given : back ≠ []) : dropEnd back ≠ [] := by
  induction back with
  | nil => exact given
  | cons a back ih =>
    cases back with
    | nil => exact given
    | cons b back =>
      rw [dropEnd]
      split
      · exact ih (List.cons_ne_nil b back)
      · exact given

theorem append_of_suffix {path back : Bytes} (suffix : back <:+ path.reverse) :
    ∃ more, path = back.reverse ++ more := by
  obtain ⟨front, whole⟩ := suffix
  refine ⟨front.reverse, ?_⟩
  rw [← List.reverse_append, whole, List.reverse_reverse]

theorem lastStep_cases (back : Bytes) :
    (slash ∉ back ∧ back.dropWhile (fun b => b != slash) = []) ∨
      ∃ last front, slash ∉ last ∧ back = last ++ slash :: front ∧
        back.dropWhile (fun b => b != slash) = slash :: front := by
  induction back with
  | nil => exact .inl ⟨List.not_mem_nil, rfl⟩
  | cons b back ih =>
    by_cases ends : b = slash
    · subst ends
      exact .inr ⟨[], back, List.not_mem_nil, rfl, by simp⟩
    · rw [List.dropWhile_cons_of_pos (by simpa using ends)]
      obtain ⟨plain, none⟩ | ⟨last, front, plain, rfl, rest⟩ := ih
      · exact .inl ⟨by simp [plain, Ne.symm ends], none⟩
      · exact .inr ⟨b :: last, front, by simp [plain, Ne.symm ends], rfl, rest⟩

theorem parent?_cases (path : Bytes) :
    (parent? path = none ∧ (dropEnd path.reverse = [] ∨ dropEnd path.reverse = [slash])) ∨
      parent? path = some (dropEnd ((dropEnd path.reverse).dropWhile fun b => b != slash)).reverse ∧
        dropEnd path.reverse ≠ [] := by
  unfold parent?
  by_cases none : dropEnd path.reverse = [] ∨ dropEnd path.reverse = [slash]
  · exact .inl ⟨if_pos none, none⟩
  · exact .inr ⟨if_neg none, fun empty => none (.inl empty)⟩

end Path

namespace FileSystem

variable {fs : FileSystem}

theorem checkPath_front {path more : Bytes} (text : checkPath (path ++ more) = .ok ()) (given : path ≠ []) :
    checkPath path = .ok () := by
  obtain ⟨-, clean, short⟩ := checkPath_eq_ok_iff.mp text
  rw [List.mem_append, not_or] at clean
  rw [List.length_append] at short
  exact checkPath_eq_ok_iff.mpr ⟨given, clean.1, by omega⟩

theorem LeadsTo.trail_dropEnd {path : Bytes} {location : Location} (leads : fs.LeadsTo path location) :
    Trail fs.itemAt? linkLimit (startOf fs.workDir path)
      (Path.steps (Path.dropEnd path.reverse).reverse) (.node location) := by
  have trail := (place_eq_ok_iff.mp leads).2
  rw [← List.reverse_reverse path] at trail
  have shorter := Path.trail_dropEnd trail
  rwa [List.reverse_reverse] at shorter

def Enters (fs : FileSystem) (path : Bytes) : Prop :=
  ∃ location, fs.LeadsTo path location ∧ fs.itemAt? location = some .directory

theorem Enters.isDir {path : Bytes} (enters : fs.Enters path) : fs.isDir path = true := by
  obtain ⟨location, leads, inside⟩ := enters
  obtain ⟨entries, there⟩ := Node.itemAt?_eq_directory_iff.mp inside
  exact isDir_iff.mpr ⟨_, lookup_eq_ok_iff.mpr ⟨location, leads, there⟩, rfl⟩

theorem LeadsTo.up {path up : Bytes} {location : Location} (leads : fs.LeadsTo path location)
    (parent : Path.parent? path = some up) (given : up ≠ []) : fs.Enters up := by
  obtain ⟨none, -⟩ | ⟨some, -⟩ := Path.parent?_cases path
  · cases none.symm.trans parent
  have trail := leads.trail_dropEnd
  have suffix := Path.dropEnd_suffix path.reverse
  cases some.symm.trans parent
  generalize Path.dropEnd path.reverse = back at trail suffix given
  obtain ⟨plain, none⟩ | ⟨last, front, plain, rfl, rest⟩ := Path.lastStep_cases back
  · rw [none] at given
    exact absurd rfl given
  rw [rest] at given ⊢
  rw [Path.steps_reverse, Path.steps_reverse_plain plain] at trail
  obtain ⟨left, middle, tail, onward⟩ := trail.split (List.cons_ne_nil _ [])
  have closed : Trail fs.itemAt? linkLimit (startOf fs.workDir path)
      (Path.steps (Path.slash :: front).reverse) (.node middle) := by
    rw [show Path.slash :: front = [] ++ Path.slash :: front from rfl, Path.steps_reverse]
    exact onward (.stay tail.inside (.inl rfl) .stop)
  have upper := Path.trail_dropEnd closed
  have front_suffix := (Path.dropEnd_suffix (Path.slash :: front)).trans ((List.suffix_append last _).trans suffix)
  obtain ⟨more, whole⟩ := Path.append_of_suffix front_suffix
  rw [whole, startOf_front given] at upper
  have text := (place_eq_ok_iff.mp leads).1
  rw [whole] at text
  exact ⟨middle, place_eq_ok_iff.mpr ⟨checkPath_front text given, upper⟩, tail.inside⟩

/-- A path to something that is no directory has a directory that the thing is in. -/
theorem LeadsTo.directoryText {path : Bytes} {location : Location} (leads : fs.LeadsTo path location)
    (solid : fs.itemAt? location ≠ some .directory) : fs.Enters (directoryText path) := by
  have trail := leads.trail_dropEnd
  obtain ⟨-, blank⟩ | ⟨some, given⟩ := Path.parent?_cases path
  · -- Nothing but the root is left of the path, or nothing at all.
    have last : ∃ front, Path.steps (Path.dropEnd path.reverse).reverse = front ++ [[]] := by
      obtain same | same := blank
      · exact ⟨[], by rw [same]; rfl⟩
      · exact ⟨[[]], by rw [same]; rfl⟩
    obtain ⟨front, same⟩ := last
    rw [same] at trail
    exact absurd (trail.front_of_blank (.inl rfl)).1 solid
  unfold FileSystem.directoryText
  rw [some]
  dsimp only
  split
  next empty =>
    -- The path is a name in the working directory, with nothing before it.
    have none : (Path.dropEnd path.reverse).dropWhile (fun b => b != Path.slash) = [] := by
      by_contra rest
      exact Path.dropEnd_ne_nil rest (List.reverse_eq_nil_iff.mp empty)
    obtain ⟨more, whole⟩ := Path.append_of_suffix (Path.dropEnd_suffix path.reverse)
    obtain ⟨plain, -⟩ | ⟨_, _, _, _, rest⟩ := Path.lastStep_cases (Path.dropEnd path.reverse)
    · have inside := (Path.steps_reverse_plain plain ▸ trail).inside
      have start : startOf fs.workDir path = fs.workDir := by
        rw [whole, startOf_front (by simpa using given), startOf, Path.isAbsolute_plain (by simpa using plain)]
        rfl
      rw [start] at inside
      exact ⟨fs.workDir, place_eq_ok_iff.mpr ⟨by rfl, .stay inside (.inr rfl) .stop⟩, inside⟩
    · cases rest.symm.trans none
  next up => exact leads.up some up

end FileSystem

end SweepPlot
