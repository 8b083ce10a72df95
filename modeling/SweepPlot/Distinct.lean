set_option autoImplicit false

namespace SweepPlot

section Distinct

variable {α : Type} [DecidableEq α]

/-- Every value once, in order of first occurrence. -/
def distinct : List α → List α
  | [] => []
  | a :: as => a :: (distinct as).filter (· ≠ a)

/-- The first value that is in the list of earlier ones or stands a second time. -/
def repeatAfter? (earlier : List α) : List α → Option α
  | [] => none
  | a :: as => if a ∈ earlier then some a else repeatAfter? (a :: earlier) as

def firstRepeat? (as : List α) : Option α :=
  repeatAfter? [] as

theorem mem_distinct {a : α} {as : List α} : a ∈ distinct as ↔ a ∈ as := by
  induction as with
  | nil => simp [distinct]
  | cons b as ih =>
    by_cases h : a = b <;> simp [distinct, h, ih]

theorem nodup_distinct (as : List α) : (distinct as).Nodup := by
  induction as with
  | nil => simp [distinct]
  | cons b as ih =>
    refine List.nodup_cons.2 ⟨by simp, ?_⟩
    exact ih.sublist List.filter_sublist

theorem one_lt_length_distinct_cons {a : α} {as : List α} :
    1 < (distinct (a :: as)).length ↔ ∃ b ∈ as, b ≠ a := by
  rw [distinct, List.length_cons, Nat.lt_add_left_iff_pos, List.length_pos_iff_exists_mem]
  simp [mem_distinct]

theorem one_lt_length_distinct {as : List α} : 1 < (distinct as).length ↔ ∃ a ∈ as, ∃ b ∈ as, a ≠ b := by
  cases as with
  | nil => simp [distinct]
  | cons first as =>
    rw [one_lt_length_distinct_cons]
    constructor
    · rintro ⟨b, mem, differ⟩
      exact ⟨b, List.mem_cons_of_mem first mem, first, List.mem_cons_self, differ⟩
    · rintro ⟨a, memA, b, memB, differ⟩
      by_cases same : a = first
      · subst same
        exact ⟨b, List.mem_of_ne_of_mem differ.symm memB, differ.symm⟩
      · exact ⟨a, List.mem_of_ne_of_mem same memA, same⟩

theorem distinct_concat (as : List α) (a : α) :
    distinct (as ++ [a]) = if a ∈ as then distinct as else distinct as ++ [a] := by
  induction as with
  | nil => rfl
  | cons b as ih =>
    by_cases h : a = b
    · subst h
      by_cases ha : a ∈ as <;> simp [distinct, ih, ha]
    · by_cases ha : a ∈ as <;> simp [distinct, ih, ha, h]

theorem distinct_filter (p : α → Bool) (as : List α) :
    distinct (as.filter p) = (distinct as).filter p := by
  induction as with
  | nil => rfl
  | cons a as ih =>
    by_cases kept : p a = true
    · rw [List.filter_cons_of_pos kept, distinct, distinct, List.filter_cons_of_pos kept, ih, List.filter_filter,
        List.filter_filter]
      congr 1
      apply List.filter_congr
      intro b _
      rw [Bool.and_comm]
    · rw [List.filter_cons_of_neg kept, distinct, List.filter_cons_of_neg kept, ih, List.filter_filter]
      apply List.filter_congr
      intro b _
      have differ : p b = true → b ≠ a := by
        rintro kept' rfl
        exact kept kept'
      by_cases kept' : p b = true
      · simp [kept', differ kept']
      · simp [kept']

theorem filter_map_filter_ne {β : Type} [DecidableEq β] (f : α → β) (a : α) (as : List α) :
    ((as.filter (· ≠ a)).map f).filter (· ≠ f a) = (as.map f).filter (· ≠ f a) := by
  rw [List.filter_map, List.filter_map, List.filter_filter]
  congr 1
  apply List.filter_congr
  intro b _
  by_cases same : b = a <;> simp [same]

theorem distinct_map_distinct {β : Type} [DecidableEq β] (f : α → β) (as : List α) :
    distinct ((distinct as).map f) = distinct (as.map f) := by
  induction as with
  | nil => rfl
  | cons a as ih =>
    rw [distinct, List.map_cons, List.map_cons, distinct, distinct, ← ih, ← distinct_filter, filter_map_filter_ne,
      distinct_filter]

theorem pairwise_distinct (as : List α) :
    (distinct as).Pairwise fun a b => as.idxOf a < as.idxOf b := by
  induction as with
  | nil => exact List.Pairwise.nil
  | cons b as ih =>
    have later : ∀ {a}, a ≠ b → (b :: as).idxOf a = as.idxOf a + 1 := by
      intro a h
      have hb : (b == a) = false := by simpa using h.symm
      rw [List.idxOf_cons, hb, cond_false]
    refine List.pairwise_cons.2 ⟨fun a ha => ?_, ?_⟩
    · have differ : a ≠ b := by simpa using (List.mem_filter.1 ha).2
      rw [List.idxOf_cons_self, later differ]
      exact Nat.succ_pos _
    · refine (List.Pairwise.sublist List.filter_sublist ih).imp_of_mem ?_
      intro p q hp hq hlt
      have np : p ≠ b := by simpa using (List.mem_filter.1 hp).2
      have nq : q ≠ b := by simpa using (List.mem_filter.1 hq).2
      rw [later np, later nq]
      exact Nat.succ_lt_succ hlt

theorem repeatAfter?_eq_none {earlier as : List α} :
    repeatAfter? earlier as = none ↔ as.Nodup ∧ ∀ a ∈ as, a ∉ earlier := by
  induction as generalizing earlier with
  | nil => simp [repeatAfter?]
  | cons b as ih =>
    by_cases h : b ∈ earlier
    · simp [repeatAfter?, h]
    · simp only [repeatAfter?, h, if_false, ih, List.nodup_cons, List.mem_cons]
      grind

theorem firstRepeat?_eq_none {as : List α} : firstRepeat? as = none ↔ as.Nodup := by
  simp [firstRepeat?, repeatAfter?_eq_none]

end Distinct

end SweepPlot
