import Mathlib.Data.List.Nodup
set_option autoImplicit false

namespace SweepPlot.Keyed

variable {κ α : Type}

theorem eq_of_mem_of_fst {entries : List (κ × α)} (names : (entries.map Prod.fst).Nodup)
    {a b : κ × α} (ha : a ∈ entries) (hb : b ∈ entries) (h : a.1 = b.1) : a = b :=
  List.inj_on_of_nodup_map names ha hb h

section Lookup

variable [BEq κ] [LawfulBEq κ]

theorem lookup_isSome_iff_mem {entries : List (κ × α)} {name : κ} :
    (entries.lookup name).isSome ↔ name ∈ entries.map Prod.fst := by
  simp only [List.lookup_isSome_iff, beq_iff_eq, List.mem_map]
  constructor
  · rintro ⟨entry, he, rfl⟩
    exact ⟨entry, he, rfl⟩
  · rintro ⟨entry, he, rfl⟩
    exact ⟨entry, he, rfl⟩

theorem lookup_eq_none_iff_not_mem {entries : List (κ × α)} {name : κ} :
    entries.lookup name = none ↔ name ∉ entries.map Prod.fst := by
  rw [← lookup_isSome_iff_mem, Option.not_isSome_iff_eq_none]

theorem mem_of_lookup {entries : List (κ × α)} {name : κ} {a : α}
    (h : entries.lookup name = some a) : (name, a) ∈ entries := by
  obtain ⟨before, after, rfl, -⟩ := List.lookup_eq_some_iff.mp h
  simp

theorem lookup_eq_some_iff_mem {entries : List (κ × α)} (names : (entries.map Prod.fst).Nodup)
    {name : κ} {a : α} : entries.lookup name = some a ↔ (name, a) ∈ entries := by
  refine ⟨mem_of_lookup, fun h => ?_⟩
  obtain ⟨before, after, rfl⟩ := List.append_of_mem h
  refine List.lookup_eq_some_iff.mpr ⟨before, after, rfl, fun entry he => ?_⟩
  have apart : name ∉ before.map Prod.fst := by
    rw [List.map_append, List.map_cons, List.nodup_append] at names
    intro hn
    exact names.2.2 name hn name (by simp) rfl
  have differ : entry.1 ≠ name := by
    rintro rfl
    exact apart (List.mem_map_of_mem he)
  simpa using differ.symm

variable [DecidableEq κ]

theorem lookup_cons (name other : κ) (a : α) (entries : List (κ × α)) :
    ((name, a) :: entries).lookup other = if other = name then some a else entries.lookup other := by
  rw [List.lookup_cons]
  by_cases h : other = name
  · simp [h]
  · simp [h, beq_false_of_ne h]

theorem lookup_eq_head_filter (name : κ) (entries : List (κ × α)) :
    entries.lookup name = (entries.filter fun entry => entry.1 == name).head?.map Prod.snd := by
  induction entries with
  | nil => rfl
  | cons entry entries ih =>
    rw [lookup_cons]
    by_cases same : entry.1 = name
    · rw [List.filter_cons_of_pos (by simpa using same), if_pos same.symm]
      rfl
    · rw [List.filter_cons_of_neg (by simpa using same), if_neg fun h => same h.symm, ih]

theorem lookup_filter (p : κ → Bool) (name : κ) (entries : List (κ × α)) :
    (entries.filter fun entry => p entry.1).lookup name = if p name = true then entries.lookup name else none := by
  induction entries with
  | nil => simp
  | cons entry entries ih =>
    obtain ⟨first, a⟩ := entry
    rw [lookup_cons]
    by_cases kept : p first = true
    · rw [List.filter_cons_of_pos (by exact kept), lookup_cons, ih]
      by_cases same : name = first
      · rw [if_pos same, if_pos same, same, if_pos kept]
      · rw [if_neg same, if_neg same]
    · rw [List.filter_cons_of_neg (by exact kept), ih]
      by_cases same : name = first
      · rw [same, if_neg kept, if_neg kept]
      · rw [if_neg same]

theorem lookup_filter_ne (name other : κ) (entries : List (κ × α)) :
    (entries.filter fun entry => entry.1 != name).lookup other =
      if other = name then none else entries.lookup other := by
  rw [lookup_filter (fun key => key != name)]
  by_cases same : other = name <;> simp [same]

end Lookup

end SweepPlot.Keyed
