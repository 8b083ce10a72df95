import Mathlib.Data.List.Pairwise
import Mathlib.Data.List.Perm.Basic
import Mathlib.Data.List.Perm.Subperm
import Mathlib.Data.List.Flatten
import Mathlib.Data.List.Nodup
set_option autoImplicit false

/-!
Stable sorting by a rank. The result rises, and what is equally high stands in it as it stood before; these two
facts determine it, so sorting is also taking a list apart by its ranks and going through them from the lowest.
Taken apart by any other key, and in any order of the keys, a list still has the same elements.
-/

namespace SweepPlot

/-- The list in rising order, with what is equally high as it stood before. -/
structure StablySorted {α κ : Type} [LE κ] [DecidableEq κ] (rank : α → κ) (as sorted : List α) : Prop where
  rising : sorted.Pairwise fun a b => rank a ≤ rank b
  level : ∀ k, sorted.filter (fun a => rank a = k) = as.filter fun a => rank a = k

theorem StablySorted.filter {α κ : Type} [LE κ] [DecidableEq κ] {rank : α → κ} {as bs : List α}
    (stable : StablySorted rank as bs) (p : α → Bool) : StablySorted rank (as.filter p) (bs.filter p) where
  rising := stable.rising.filter p
  level := by
    intro k
    rw [List.filter_comm, stable.level k, List.filter_comm]

section Parts

variable {α κ : Type} [DecidableEq κ] {key : α → κ}

theorem perm_flatMap_filter {keys : List κ} (once : keys.Nodup) {as : List α} (known : ∀ a ∈ as, key a ∈ keys) :
    (keys.flatMap fun k => as.filter fun a => key a = k).Perm as := by
  induction keys generalizing as with
  | nil =>
    have none : as = [] := List.eq_nil_iff_forall_not_mem.mpr fun a mem => List.not_mem_nil (known a mem)
    rw [none]
    exact .refl []
  | cons k keys ih =>
    obtain ⟨fresh, once⟩ := List.nodup_cons.mp once
    have others : ∀ a ∈ as.filter fun a => !decide (key a = k), key a ∈ keys := by
      intro a mem
      obtain ⟨mem, apart⟩ := List.mem_filter.mp mem
      exact (List.mem_cons.mp (known a mem)).resolve_left (by simpa using apart)
    have rest : (keys.flatMap fun l => as.filter fun a => key a = l) =
        keys.flatMap fun l => (as.filter fun a => !decide (key a = k)).filter fun a => key a = l := by
      refine List.flatMap_congr fun l mem => ?_
      rw [List.filter_filter]
      refine List.filter_congr fun a _ => ?_
      by_cases own : key a = l
      · have differ : ¬ key a = k := fun h => fresh (h ▸ own ▸ mem)
        rw [decide_eq_true own, decide_eq_false differ]
        rfl
      · rw [decide_eq_false own, Bool.false_and]
    rw [List.flatMap_cons, rest]
    exact ((ih once others).append_left _).trans (List.filter_append_perm (fun a => decide (key a = k)) as)

end Parts

section Levels

variable {α κ : Type} [LE κ] [Std.IsLinearOrder κ] [DecidableEq κ] {rank : α → κ} {as bs cs : List α}

/-- What comes first in a rising list is not above anything in another list with the same levels. -/
theorem head_of_rising {a : α} (rising : (a :: as).Pairwise fun x y => rank x ≤ rank y)
    (same : ∀ k, (a :: as).filter (fun x => rank x = k) = bs.filter fun x => rank x = k) {b : α} (mem : b ∈ bs) :
    rank a ≤ rank b := by
  have kept : b ∈ (a :: as).filter fun x => rank x = rank b := by
    rw [same]
    exact List.mem_filter.mpr ⟨mem, decide_eq_true rfl⟩
  obtain rfl | later := List.mem_cons.mp (List.mem_filter.mp kept).1
  · exact Std.le_refl _
  · exact (List.pairwise_cons.mp rising).1 b later

/-- The levels of a list determine its stable order. -/
theorem StablySorted.unique (hb : StablySorted rank as bs) (hc : StablySorted rank as cs) : bs = cs := by
  obtain ⟨risingB, levelB⟩ := hb
  obtain ⟨risingC, levelC⟩ := hc
  have same : ∀ k, bs.filter (fun x => rank x = k) = cs.filter fun x => rank x = k :=
    fun k => (levelB k).trans (levelC k).symm
  clear levelB levelC
  induction bs generalizing cs with
  | nil =>
    cases cs with
    | nil => rfl
    | cons c cs => simpa using same (rank c)
  | cons b bs ih =>
    cases cs with
    | nil => simpa using same (rank b)
    | cons c cs =>
      have tied : rank b = rank c := Std.le_antisymm (head_of_rising risingB same List.mem_cons_self)
        (head_of_rising risingC (fun k => (same k).symm) List.mem_cons_self)
      have heads := same (rank c)
      rw [List.filter_cons_of_pos (by simpa using tied), List.filter_cons_of_pos (by simp)] at heads
      obtain rfl := (List.cons.inj heads).1
      refine congrArg (b :: ·) (ih risingB.of_cons risingC.of_cons fun k => ?_)
      by_cases own : rank b = k
      · subst own
        exact (List.cons.inj heads).2
      · have others := same k
        rwa [List.filter_cons_of_neg (by simpa using own), List.filter_cons_of_neg (by simpa using own)] at others

/-- Without the elements that are new, a longer list is in the order of the shorter one. -/
theorem StablySorted.sublist [DecidableEq α] {sorted : List α} (short : StablySorted rank as bs)
    (long : StablySorted rank cs sorted) (sub : as.Sublist cs) (once : cs.Nodup) : bs.Sublist sorted := by
  have kept : cs.filter (fun a => a ∈ as) = as := by
    have own : as.filter (fun a => a ∈ as) = as := List.filter_eq_self.mpr fun a mem => decide_eq_true mem
    have fewer : (as.filter fun a => a ∈ as).Sublist (cs.filter fun a => a ∈ as) := sub.filter _
    rw [own] at fewer
    have once' : (cs.filter fun a => a ∈ as).Nodup := once.filter _
    refine (fewer.eq_of_length_le (once'.subperm fun a mem => ?_).length_le).symm
    exact of_decide_eq_true (List.mem_filter.mp mem).2
  have same := short.unique (kept ▸ long.filter fun a => a ∈ as)
  rw [same]
  exact List.filter_sublist

theorem stablySorted_levels [LT κ] [Std.LawfulOrderLT κ] {levels : List κ} (climb : levels.Pairwise (· < ·))
    (known : ∀ a ∈ as, rank a ∈ levels) :
    StablySorted rank as (levels.flatMap fun k => as.filter fun a => rank a = k) where
  rising := by
    have on : ∀ {k a}, a ∈ as.filter (fun a => rank a = k) → rank a = k :=
      fun mem => of_decide_eq_true (List.mem_filter.mp mem).2
    refine List.pairwise_flatMap.mpr ⟨fun k _ => ?_, climb.imp fun lower a ha b hb => ?_⟩
    · refine List.pairwise_of_forall_mem_list fun a ha b hb => ?_
      rw [on ha, on hb]
      exact Std.le_refl k
    · rw [on ha, on hb]
      exact Std.le_of_lt lower
  level := by
    intro k
    have away : ∀ {part : List κ}, k ∉ part →
        (part.flatMap fun l => (as.filter fun a => rank a = l).filter fun a => rank a = k) = [] := by
      intro part absent
      refine List.flatMap_eq_nil_iff.mpr fun l mem => List.filter_eq_nil_iff.mpr fun a ha own => ?_
      have level : rank a = l := of_decide_eq_true (List.mem_filter.mp ha).2
      have level' : rank a = k := of_decide_eq_true own
      exact absent (level'.symm.trans level ▸ mem)
    rw [List.filter_flatMap]
    by_cases listed : k ∈ levels
    · obtain ⟨lower, upper, rfl⟩ := List.append_of_mem listed
      have once : (lower ++ k :: upper).Nodup := climb.imp Std.ne_of_lt
      obtain ⟨-, after, apart⟩ := List.nodup_append.mp once
      rw [List.flatMap_append, List.flatMap_cons, away fun mem => apart k mem k List.mem_cons_self rfl,
        away (List.nodup_cons.mp after).1, List.nil_append, List.append_nil, List.filter_filter]
      exact List.filter_congr fun a _ => Bool.and_self _
    · rw [away listed]
      refine (List.filter_eq_nil_iff.mpr fun a mem own => listed ?_).symm
      exact of_decide_eq_true own ▸ known a mem

end Levels

section MergeSort

variable {α κ : Type} [LE κ] [DecidableLE κ] [Std.IsLinearOrder κ] {rank : α → κ} {as : List α}

theorem rank_le_trans (rank : α → κ) (a b c : α) (ab : decide (rank a ≤ rank b) = true)
    (bc : decide (rank b ≤ rank c) = true) : decide (rank a ≤ rank c) = true :=
  decide_eq_true (Std.le_trans (of_decide_eq_true ab) (of_decide_eq_true bc))

theorem rank_le_total (rank : α → κ) (a b : α) : (decide (rank a ≤ rank b) || decide (rank b ≤ rank a)) = true := by
  rw [Bool.or_eq_true, decide_eq_true_eq, decide_eq_true_eq]
  exact Std.le_total

theorem rising_mergeSort (rank : α → κ) (as : List α) :
    (as.mergeSort fun a b => decide (rank a ≤ rank b)).Pairwise fun a b => rank a ≤ rank b :=
  (List.pairwise_mergeSort (rank_le_trans rank) (rank_le_total rank) as).imp of_decide_eq_true

theorem filter_mergeSort {p : α → Bool}
    (tied : ∀ a ∈ as, ∀ b ∈ as, p a = true → p b = true → rank a = rank b) :
    (as.mergeSort fun a b => decide (rank a ≤ rank b)).filter p = as.filter p := by
  have level : (as.filter p).Pairwise fun a b => decide (rank a ≤ rank b) = true := by
    apply List.pairwise_of_forall_mem_list
    intro a ha b hb
    obtain ⟨ha, pa⟩ := List.mem_filter.mp ha
    obtain ⟨hb, pb⟩ := List.mem_filter.mp hb
    exact decide_eq_true (Std.le_of_eq (tied a ha b hb pa pb))
  have kept : (as.filter p).Sublist ((as.mergeSort fun a b => decide (rank a ≤ rank b)).filter p) := by
    have sorted := (List.sublist_mergeSort (rank_le_trans rank) (rank_le_total rank) level List.filter_sublist).filter p
    rwa [List.filter_filter, List.filter_congr fun a _ => Bool.and_self (p a)] at sorted
  have sizes := ((List.mergeSort_perm as fun a b => decide (rank a ≤ rank b)).filter p).length_eq
  exact (kept.eq_of_length sizes.symm).symm

variable [DecidableEq κ]

theorem stablySorted_mergeSort (rank : α → κ) (as : List α) :
    StablySorted rank as (as.mergeSort fun a b => decide (rank a ≤ rank b)) where
  rising := rising_mergeSort rank as
  level := by
    intro k
    refine filter_mergeSort fun a _ b _ ha hb => ?_
    exact (of_decide_eq_true ha).trans (of_decide_eq_true hb).symm

theorem StablySorted.perm {sorted : List α} (stable : StablySorted rank as sorted) : sorted.Perm as := by
  rw [stable.unique (stablySorted_mergeSort rank as)]
  exact List.mergeSort_perm _ _

theorem StablySorted.eq_of_perm {sortedA sortedB : List α} (ha : StablySorted rank as sortedA) {bs : List α}
    (hb : StablySorted rank bs sortedB) (same : as.Perm bs) (apart : (as.map rank).Nodup) : sortedA = sortedB := by
  have perm : sortedA.Perm sortedB := (ha.perm.trans same).trans hb.perm.symm
  refine perm.eq_of_pairwise (fun a b memA memB ab ba => ?_) ha.rising hb.rising
  exact List.inj_on_of_nodup_map apart (ha.perm.subset memA) (same.symm.subset (hb.perm.subset memB))
    (Std.le_antisymm ab ba)

/-- A stable sort takes the levels of a list one after the other. -/
theorem mergeSort_eq_flatMap [LT κ] [Std.LawfulOrderLT κ] {levels : List κ} (climb : levels.Pairwise (· < ·))
    (known : ∀ a ∈ as, rank a ∈ levels) :
    (as.mergeSort fun a b => decide (rank a ≤ rank b)) = levels.flatMap fun k => as.filter fun a => rank a = k :=
  (stablySorted_mergeSort rank as).unique (stablySorted_levels climb known)

end MergeSort

end SweepPlot
