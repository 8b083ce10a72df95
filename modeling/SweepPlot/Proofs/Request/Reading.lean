import Mathlib.Data.List.Perm.Lattice
import Mathlib.Data.Option.Basic
import SweepPlot.Proofs.Keyed
import SweepPlot.Request.Document
set_option autoImplicit false

namespace SweepPlot

namespace Document

/-- The same document but for the order of the entries in its tables. -/
inductive Alike : Document → Document → Prop
  | refl (d : Document) : Alike d d
  | trans {a b c : Document} : Alike a b → Alike b c → Alike a c
  | order {entries entries' : List (String × Document)} : entries.Perm entries' → Alike (table entries) (table entries')
  | entry {key : String} {d d' : Document} (front back : List (String × Document)) : Alike d d' →
      Alike (table (front ++ (key, d) :: back)) (table (front ++ (key, d') :: back))
  | item {d d' : Document} (front back : List Document) : Alike d d' →
      Alike (list (front ++ d :: back)) (list (front ++ d' :: back))

def Steady {β : Type} (read : Document → β) : Prop :=
  ∀ {a b : Document}, Alike a b → read a = read b

/-- What is neither found in tables nor in lists does not depend on an order. -/
theorem steady_of_plain {α : Type} {read : Document → Option α} (table : ∀ entries, read (.table entries) = none)
    (list : ∀ items, read (.list items) = none) : Steady read := by
  intro a b alike
  induction alike with
  | refl => rfl
  | trans _ _ first second => exact first.trans second
  | order | entry => rw [table, table]
  | item => rw [list, list]

end Document

namespace Request

open Document (Alike Steady steady_of_plain)

theorem lookup_of_perm {name : String} {entries entries' : List (String × Document)} (perm : entries.Perm entries')
    (once : countKey name entries ≤ 1) : entries.lookup name = entries'.lookup name := by
  rw [Keyed.lookup_eq_head_filter, Keyed.lookup_eq_head_filter]
  have found := perm.filter fun entry => entry.1 == name
  rw [countKey, List.countP_eq_length_filter] at once
  generalize (entries.filter fun entry => entry.1 == name) = own at found once
  match own, once with
  | [], _ => rw [List.nil_perm.mp found]
  | [entry], _ => rw [List.singleton_perm.mp found]

section Fields

variable {rules : DocumentRules} {names : List String}

/-- Both documents have no fields, or the fields of these names hold documents that are alike. -/
def SameFields (names : List String) (f g : Option Fields) : Prop :=
  (f = none ∧ g = none) ∨
    ∃ f' g', f = some f' ∧ g = some g' ∧ ∀ name ∈ names, Option.Rel Alike (f' name) (g' name)

theorem rel_refl (found : Option Document) : Option.Rel Alike found found := by
  cases found with
  | none => exact .none
  | some d => exact .some (.refl d)

theorem rel_trans {a b c : Option Document} (first : Option.Rel Alike a b) (second : Option.Rel Alike b c) :
    Option.Rel Alike a c := by
  cases first with
  | none => exact second
  | some first =>
    cases second with
    | some second => exact .some (first.trans second)

theorem SameFields.refl (names : List String) (f : Option Fields) : SameFields names f f := by
  cases f with
  | none => exact .inl ⟨rfl, rfl⟩
  | some f => exact .inr ⟨f, f, rfl, rfl, fun name _ => rel_refl (f name)⟩

theorem SameFields.trans {f g h : Option Fields} (first : SameFields names f g) (second : SameFields names g h) :
    SameFields names f h := by
  obtain ⟨rfl, rfl⟩ | ⟨f, g, rfl, rfl, left⟩ := first
  · obtain ⟨-, rfl⟩ | ⟨_, _, found, -, -⟩ := second
    · exact .inl ⟨rfl, rfl⟩
    · cases found
  · obtain ⟨none, -⟩ | ⟨_, h, found, rfl, right⟩ := second
    · cases none
    · cases found
      refine .inr ⟨f, h, rfl, rfl, fun name mem => ?_⟩
      exact rel_trans (left name mem) (right name mem)

theorem fieldsOf_table (rules : DocumentRules) {entries : List (String × Document)}
    (once : ∀ name ∈ names, countKey name entries ≤ 1) :
    fieldsOf rules names (.table entries) = some fun name => entries.lookup name := by
  have single : (names.any fun name => decide (1 < countKey name entries)) = false := by
    simpa using once
  simp [fieldsOf, single]

theorem fieldsOf_table_twice (rules : DocumentRules) {entries : List (String × Document)}
    (twice : ¬ ∀ name ∈ names, countKey name entries ≤ 1) : fieldsOf rules names (.table entries) = none := by
  have double : (names.any fun name => decide (1 < countKey name entries)) = true := by
    simpa using twice
  simp [fieldsOf, double]

theorem sameFields_tables {entries entries' : List (String × Document)}
    (counts : ∀ name, countKey name entries = countKey name entries')
    (values : ∀ name, countKey name entries ≤ 1 → Option.Rel Alike (entries.lookup name) (entries'.lookup name)) :
    SameFields names (fieldsOf rules names (.table entries)) (fieldsOf rules names (.table entries')) := by
  by_cases once : ∀ name ∈ names, countKey name entries ≤ 1
  · rw [fieldsOf_table rules once, fieldsOf_table rules fun name mem => counts name ▸ once name mem]
    exact .inr ⟨_, _, rfl, rfl, fun name mem => values name (once name mem)⟩
  · have once' : ¬ ∀ name ∈ names, countKey name entries' ≤ 1 :=
      fun single => once fun name mem => (counts name).symm ▸ single name mem
    exact .inl ⟨fieldsOf_table_twice rules once, fieldsOf_table_twice rules once'⟩

theorem fieldsOf_alike (rules : DocumentRules) (names : List String) {a b : Document} (alike : Alike a b) :
    SameFields names (fieldsOf rules names a) (fieldsOf rules names b) := by
  induction alike with
  | refl d => exact .refl names _
  | trans _ _ first second => exact first.trans second
  | order perm =>
    refine sameFields_tables (fun name => perm.countP_eq _) fun name once => ?_
    rw [lookup_of_perm perm once]
    exact rel_refl _
  | @entry key d d' front back alike =>
    refine sameFields_tables (fun name => by simp [countKey, List.countP_cons]) fun name _ => ?_
    rw [List.lookup_append, List.lookup_append, Keyed.lookup_cons, Keyed.lookup_cons]
    cases front.lookup name with
    | some found => exact rel_refl _
    | none =>
      split
      · exact .some alike
      · exact rel_refl _
  | @item d d' front back alike =>
    have sizes : (front ++ d :: back).length = (front ++ d' :: back).length := by simp
    unfold fieldsOf
    dsimp only
    rw [sizes]
    split
    · refine .inr ⟨_, _, rfl, rfl, fun name _ => ?_⟩
      cases names.idxOf? name with
      | none => exact .none
      | some i =>
        dsimp only [Option.bind]
        rw [List.getElem?_append, List.getElem?_append, List.getElem?_cons, List.getElem?_cons]
        split
        · exact rel_refl _
        · split
          · exact .some alike
          · exact rel_refl _
    · exact .inl ⟨rfl, rfl⟩

theorem get_alike {α : Type} {f g : Fields} (same : ∀ name ∈ names, Option.Rel Alike (f name) (g name))
    {read : Document → Option α} (steady : Steady read) (standard : α) (name : String) (mem : name ∈ names) :
    f.get name standard read = g.get name standard read := by
  have related := same name mem
  unfold Fields.get
  generalize f name = left at related
  generalize g name = right at related
  cases related with
  | none => rfl
  | some alike => exact steady alike

end Fields

section Readers

variable {rules : DocumentRules}

theorem steady_readFlag : Steady readFlag := steady_of_plain (fun _ => rfl) fun _ => rfl

theorem steady_readInt : Steady readInt := steady_of_plain (fun _ => rfl) fun _ => rfl

theorem steady_readText : Steady readText := steady_of_plain (fun _ => rfl) fun _ => rfl

theorem steady_readOptText : Steady readOptText := steady_of_plain (fun _ => rfl) fun _ => rfl

theorem steady_readList {α : Type} {read : Document → Option α} (steady : Steady read) :
    Steady (readList read) := by
  intro a b alike
  induction alike with
  | refl => rfl
  | trans _ _ first second => exact first.trans second
  | order | entry => rfl
  | item front back alike =>
    simp only [readList, List.mapM_append, List.mapM_cons, steady alike]

theorem readWord_table {α : Type} {ofToken? : String → Option α} {entries : List (String × Document)}
    (several : entries.length ≠ 1) : readWord rules ofToken? (.table entries) = none := by
  unfold readWord
  split
  next equal => cases equal
  next equal =>
    cases equal
    exact absurd rfl several
  · rfl

theorem steady_readWord {α : Type} (bare : Steady rules.isBare) (ofToken? : String → Option α) :
    Steady (readWord rules ofToken?) := by
  intro a b alike
  induction alike with
  | refl => rfl
  | trans _ _ first second => exact first.trans second
  | @order entries entries' perm =>
    by_cases single : entries.length = 1
    · obtain ⟨entry, rfl⟩ := List.length_eq_one_iff.mp single
      rw [List.singleton_perm.mp perm]
    · rw [readWord_table single, readWord_table (perm.length_eq ▸ single)]
  | @entry key d d' front back alike =>
    cases front with
    | nil =>
      cases back with
      | nil => simp only [List.nil_append, readWord, bare alike]
      | cons => rfl
    | cons => rw [readWord_table (by simp), readWord_table (by simp)]
  | item => rfl

theorem steady_isNull : Steady Document.isNull := by
  intro a b alike
  induction alike with
  | refl => rfl
  | trans _ _ first second => exact first.trans second
  | order | entry | item => rfl

theorem steady_isEmpty : Steady DocumentRules.toml.isBare := by
  intro a b alike
  induction alike with
  | refl => rfl
  | trans _ _ first second => exact first.trans second
  | @order entries entries' perm =>
    cases entries with
    | nil => rw [List.nil_perm.mp perm]
    | cons =>
      cases entries' with
      | nil => exact absurd perm.length_eq (by simp)
      | cons => rfl
  | entry front | item front => cases front <;> rfl

theorem steady_readFilter : Steady (readFilter rules) := by
  intro a b alike
  obtain ⟨none, none'⟩ | ⟨f, g, found, found', same⟩ := fieldsOf_alike rules filterNames alike
  · simp only [readFilter, none, none']
  · have texts := get_alike same (steady_readList steady_readText) []
    simp only [readFilter, found, found', Option.bind_eq_bind, Option.bind_some]
    rw [texts "allow" (by decide), texts "highlight" (by decide), texts "ignore" (by decide)]

theorem steady_readChoice : Steady (readChoice rules) := by
  intro a b alike
  obtain ⟨none, none'⟩ | ⟨f, g, found, found', same⟩ := fieldsOf_alike rules choiceNames alike
  · simp only [readChoice, none, none']
  · simp only [readChoice, found, found', Option.bind_eq_bind, Option.bind_some]
    rw [get_alike same (steady_readList steady_readText) _ _ (by decide),
      get_alike same steady_readOptText _ _ (by decide)]

/-- Documents that are alike are read as the same request. -/
theorem steady_ofDocument (bare : Steady rules.isBare) : Steady (ofDocument rules) := by
  intro a b alike
  obtain ⟨none, none'⟩ | ⟨f, g, found, found', same⟩ := fieldsOf_alike rules names alike
  · unfold ofDocument
    rw [none, none']
  · have texts := get_alike same (steady_readList steady_readText) []
    have flags := get_alike same steady_readFlag false
    have paths := get_alike same steady_readOptText none
    have word {α : Type} (ofToken? : String → Option α) := get_alike same (steady_readWord bare ofToken?)
    unfold ofDocument
    rw [found, found']
    dsimp only [Option.bind_eq_bind, Option.bind_some]
    rw [texts "roots" (by decide), texts "variants" (by decide), word _ _ "kind" (by decide),
      word _ _ "layout" (by decide), word _ _ "mode" (by decide), word _ _ "metric" (by decide),
      flags "recursive" (by decide), get_alike same steady_readFilter _ "filter" (by decide),
      texts "right" (by decide), get_alike same (steady_readList steady_readInt) _ "x_ticks" (by decide),
      flags "per_trial" (by decide), get_alike same steady_readChoice _ "selection" (by decide),
      word _ _ "error_mode" (by decide), paths "output" (by decide), flags "show" (by decide),
      paths "summary_csv" (by decide)]

end Readers

end Request

end SweepPlot
