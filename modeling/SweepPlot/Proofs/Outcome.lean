import Mathlib.Data.List.Forall2
set_option autoImplicit false

/-!
Computations that may fail. `FailsOnly` says which failures are possible, `ReturnsOnly` what a result is
like if there is one, `Yields` that there is one, `Settles` whether there is one or which failure comes instead, and
`Repeats` that there is one where another computation has one; all of them go through the steps of a computation.
-/

namespace SweepPlot

section Success

variable {ε δ α β : Type}

theorem bind_eq_ok {x : Except ε α} {f : α → Except ε β} {b : β} :
    x >>= f = .ok b ↔ ∃ a, x = .ok a ∧ f a = .ok b := by
  cases x with
  | error failure => exact iff_of_false (fun h => by cases h) (by simp)
  | ok a => exact ⟨fun h => ⟨a, rfl, h⟩, fun ⟨_, rfl, h⟩ => h⟩

theorem map_eq_ok {x : Except ε α} {f : α → β} {b : β} : x.map f = .ok b ↔ ∃ a, x = .ok a ∧ f a = b := by
  cases x <;> simp [Except.map]

theorem mapError_eq_ok {x : Except δ α} {f : δ → ε} {a : α} : x.mapError f = .ok a ↔ x = .ok a := by
  cases x <;> simp [Except.mapError]

theorem exists_eq_ok {x : Except ε α} (done : x.isOk = true) : ∃ a, x = .ok a := by
  cases x with
  | error failure => cases done
  | ok a => exact ⟨a, rfl⟩

theorem toOption_eq_some {x : Except ε α} {a : α} : x.toOption = some a ↔ x = .ok a := by
  cases x <;> simp [Except.toOption]

theorem mapM_eq_ok {f : α → Except ε β} {as : List α} {bs : List β} (h : as.mapM f = .ok bs) :
    List.Forall₂ (fun a b => f a = .ok b) as bs := by
  induction as generalizing bs with
  | nil =>
    cases h
    exact .nil
  | cons a as ih =>
    rw [List.mapM_cons] at h
    obtain ⟨b, hb, h⟩ := bind_eq_ok.mp h
    obtain ⟨rest, hr, h⟩ := bind_eq_ok.mp h
    cases h
    exact .cons hb (ih hr)

theorem mapM_of_forall₂ {f : α → Except ε β} {as : List α} {bs : List β}
    (each : List.Forall₂ (fun a b => f a = .ok b) as bs) : as.mapM f = .ok bs := by
  induction each with
  | nil => rfl
  | cons first _ ih =>
    rw [List.mapM_cons, first, ih]
    rfl

theorem mapM_map_eq_some (read : β → Option α) (write : α → β) (back : ∀ a, read (write a) = some a)
    (as : List α) : (as.map write).mapM read = some as := by
  induction as with
  | nil => rfl
  | cons a as ih =>
    rw [List.map_cons, List.mapM_cons, back, ih]
    rfl

theorem findSome?_cons_eq_or (f : α → Option β) (a : α) (as : List α) :
    (a :: as).findSome? f = (f a).or (as.findSome? f) := by
  rw [List.findSome?_cons]
  cases f a <;> rfl

theorem findSome?_congr {f g : α → Option β} {as : List α} (h : ∀ a ∈ as, f a = g a) :
    as.findSome? f = as.findSome? g := by
  induction as with
  | nil => rfl
  | cons a as ih =>
    obtain ⟨first, rest⟩ := List.forall_mem_cons.mp h
    rw [findSome?_cons_eq_or, findSome?_cons_eq_or, first, ih rest]

end Success

section Beside

variable {α β γ : Type} {R : α → β → Prop} {as : List α} {bs : List β}

theorem forall₂_zip_map (related : List.Forall₂ R as bs) (f : α × β → γ) {S : α → γ → Prop}
    (h : ∀ a b, R a b → S a (f (a, b))) : List.Forall₂ S as ((as.zip bs).map f) := by
  induction related with
  | nil => exact .nil
  | cons first _ ih => exact .cons (h _ _ first) ih

theorem exists_mem_of_forall₂ (related : List.Forall₂ R as bs) {b : β} (mem : b ∈ bs) : ∃ a ∈ as, R a b := by
  induction related with
  | nil => cases mem
  | cons first _ ih =>
    obtain rfl | later := List.mem_cons.mp mem
    · exact ⟨_, List.mem_cons_self, first⟩
    · obtain ⟨a, present, held⟩ := ih later
      exact ⟨a, List.mem_cons_of_mem _ present, held⟩

theorem forall_mem_iff_of_forall₂ {P : α → Prop} {Q : β → Prop} (related : List.Forall₂ R as bs)
    (h : ∀ a b, R a b → (P a ↔ Q b)) : (∀ a ∈ as, P a) ↔ ∀ b ∈ bs, Q b := by
  induction related with
  | nil => exact iff_of_true (List.forall_mem_nil P) (List.forall_mem_nil Q)
  | cons first _ ih => rw [List.forall_mem_cons, List.forall_mem_cons, h _ _ first, ih]

end Beside

def FailsOnly {ε α : Type} (P : ε → Prop) (x : Except ε α) : Prop :=
  ∀ failure, x = .error failure → P failure

namespace FailsOnly

variable {ε α β σ : Type} {P : ε → Prop}

theorem ok (a : α) : FailsOnly P (.ok a) := by
  intro failure h
  cases h

theorem error {failure : ε} (h : P failure) : FailsOnly P (.error failure : Except ε α) := by
  intro other same
  cases same
  exact h

theorem bind {x : Except ε α} {f : α → Except ε β} (hx : FailsOnly P x)
    (hf : ∀ a, FailsOnly P (f a)) : FailsOnly P (x >>= f) := by
  cases x with
  | error failure => exact error (hx failure rfl)
  | ok a => exact hf a

theorem map {x : Except ε α} (hx : FailsOnly P x) (f : α → β) : FailsOnly P (x.map f) := by
  cases x with
  | error failure => exact error (hx failure rfl)
  | ok a => exact ok (f a)

theorem mapError {δ : Type} {x : Except δ α} {f : δ → ε} (h : ∀ cause, P (f cause)) :
    FailsOnly P (x.mapError f) := by
  cases x with
  | error cause => exact error (h cause)
  | ok a => exact ok a

theorem foldlM {step : σ → α → Except ε σ} (h : ∀ s a, FailsOnly P (step s a)) (as : List α) (s : σ) :
    FailsOnly P (as.foldlM step s) := by
  induction as generalizing s with
  | nil => exact ok s
  | cons a as ih =>
    rw [List.foldlM_cons]
    exact (h s a).bind fun next => ih next

theorem mono {Q : ε → Prop} {x : Except ε α} (hx : FailsOnly P x) (h : ∀ failure, P failure → Q failure) :
    FailsOnly Q x :=
  fun failure hf => h failure (hx failure hf)

end FailsOnly

def ReturnsOnly {ε α : Type} (Q : α → Prop) (x : Except ε α) : Prop :=
  ∀ a, x = .ok a → Q a

namespace ReturnsOnly

variable {ε α β σ : Type} {Q : α → Prop}

theorem ok {a : α} (h : Q a) : ReturnsOnly Q (.ok a : Except ε α) := by
  rintro _ ⟨⟩
  exact h

theorem error (failure : ε) : ReturnsOnly Q (.error failure : Except ε α) := by
  rintro _ ⟨⟩

theorem bind {R : β → Prop} {x : Except ε α} {f : α → Except ε β} (hx : ReturnsOnly Q x)
    (hf : ∀ a, Q a → ReturnsOnly R (f a)) : ReturnsOnly R (x >>= f) := by
  cases x with
  | error failure => exact error failure
  | ok a => exact hf a (hx a rfl)

theorem map {R : β → Prop} {x : Except ε α} (hx : ReturnsOnly Q x) {f : α → β}
    (h : ∀ a, Q a → R (f a)) : ReturnsOnly R (x.map f) := by
  cases x with
  | error failure => exact error failure
  | ok a => exact ok (h a (hx a rfl))

theorem foldlM {I : σ → Prop} {step : σ → α → Except ε σ} (h : ∀ s a, I s → ReturnsOnly I (step s a))
    (as : List α) {s : σ} (start : I s) : ReturnsOnly I (as.foldlM step s) := by
  induction as generalizing s with
  | nil => exact ok start
  | cons a as ih =>
    rw [List.foldlM_cons]
    exact (h s a start).bind fun _ => ih

end ReturnsOnly

/-- The computation ends with a result, and all such results satisfy the predicate. -/
def Yields {ε α : Type} (Q : α → Prop) (x : Except ε α) : Prop :=
  ∃ a, x = .ok a ∧ Q a

namespace Yields

variable {ε α β σ : Type} {Q : α → Prop}

theorem ok {a : α} (h : Q a) : Yields Q (.ok a : Except ε α) :=
  ⟨a, rfl, h⟩

theorem mono {R : α → Prop} {x : Except ε α} (hx : Yields Q x) (h : ∀ a, Q a → R a) : Yields R x := by
  obtain ⟨a, rfl, ha⟩ := hx
  exact ok (h a ha)

theorem map {R : β → Prop} {x : Except ε α} (hx : Yields Q x) {f : α → β} (h : ∀ a, Q a → R (f a)) :
    Yields R (x.map f) := by
  obtain ⟨a, rfl, ha⟩ := hx
  exact ok (h a ha)

theorem bind {R : β → Prop} {x : Except ε α} {f : α → Except ε β} (hx : Yields Q x)
    (h : ∀ a, Q a → Yields R (f a)) : Yields R (x >>= f) := by
  obtain ⟨a, rfl, ha⟩ := hx
  exact h a ha

end Yields

/-- The computation fails with the given failure. If none is given it ends with a result, and that satisfies the
predicate. -/
def Settles {ε α : Type} (Q : α → Prop) (fault : Option ε) (x : Except ε α) : Prop :=
  match fault with
  | some failure => x = .error failure
  | none => Yields Q x

namespace Settles

variable {ε δ α β σ : Type} {Q : α → Prop} {fault : Option ε} {x : Except ε α}

theorem ok {a : α} (h : Q a) : Settles Q none (.ok a : Except ε α) :=
  Yields.ok h

theorem error (failure : ε) : Settles Q (some failure) (.error failure : Except ε α) :=
  rfl

theorem eq_error_iff (hx : Settles Q fault x) {failure : ε} : x = .error failure ↔ fault = some failure := by
  cases fault with
  | none =>
    obtain ⟨a, rfl, -⟩ := hx
    simp
  | some own =>
    have failed : x = .error own := hx
    simp [failed]

theorem yields (hx : Settles Q fault x) (sound : fault = none) : Yields Q x := by
  subst sound
  exact hx

theorem of_eq_ok (hx : Settles Q fault x) {a : α} (done : x = .ok a) : fault = none ∧ Q a := by
  cases fault with
  | none =>
    obtain ⟨b, rfl, own⟩ := hx
    cases done
    exact ⟨rfl, own⟩
  | some own =>
    have failed : x = .error own := hx
    rw [failed] at done
    cases done

theorem returnsOnly (hx : Settles Q fault x) : ReturnsOnly Q x :=
  fun _ done => (hx.of_eq_ok done).2

theorem unique {a : α} {y : Except ε α} (hx : Settles (· = a) fault x) (hy : Settles (· = a) fault y) : x = y := by
  cases fault with
  | none =>
    obtain ⟨_, rfl, rfl⟩ := hx
    obtain ⟨_, rfl, rfl⟩ := hy
    rfl
  | some own => exact Eq.trans (show x = .error own from hx) (show y = .error own from hy).symm

theorem mono {R : α → Prop} (hx : Settles Q fault x) (h : ∀ a, Q a → R a) : Settles R fault x := by
  cases fault with
  | none => exact Yields.mono hx h
  | some own => exact hx

theorem map {R : β → Prop} (hx : Settles Q fault x) {f : α → β} (h : ∀ a, Q a → R (f a)) :
    Settles R fault (x.map f) := by
  cases fault with
  | none => exact Yields.map hx h
  | some own =>
    have failed : x = .error own := hx
    rw [failed]
    exact error own

theorem mapError (hx : Settles Q fault x) (f : ε → δ) : Settles Q (fault.map f) (x.mapError f) := by
  cases fault with
  | none =>
    obtain ⟨a, rfl, own⟩ := hx
    exact ok own
  | some own =>
    have failed : x = .error own := hx
    rw [failed]
    exact error (f own)

theorem bind {R : β → Prop} {later : Option ε} {f : α → Except ε β} (hx : Settles Q fault x)
    (h : ∀ a, Q a → Settles R later (f a)) : Settles R (fault.or later) (x >>= f) := by
  cases fault with
  | none =>
    obtain ⟨a, rfl, own⟩ := hx
    exact h a own
  | some own =>
    have failed : x = .error own := hx
    rw [failed]
    exact error own

theorem mapM {f : α → Except ε β} {R : α → β → Prop} {fault : α → Option ε} {as : List α}
    (h : ∀ a ∈ as, Settles (R a) (fault a) (f a)) :
    Settles (List.Forall₂ R as) (as.findSome? fault) (as.mapM f) := by
  induction as with
  | nil => exact ok .nil
  | cons a as ih =>
    obtain ⟨first, rest⟩ := List.forall_mem_cons.mp h
    rw [List.mapM_cons, findSome?_cons_eq_or]
    refine first.bind fun b own => ?_
    rw [← Option.or_none (o := as.findSome? fault)]
    exact (ih rest).bind fun bs others => ok (.cons own others)

end Settles

/-- Where the first computation has a result, the second has one too, related to it. -/
def Repeats {ε α β : Type} (R : α → β → Prop) (x : Except ε α) (y : Except ε β) : Prop :=
  ∀ a, x = .ok a → Yields (R a) y

namespace Repeats

variable {ε α β γ δ σ τ : Type} {R : α → β → Prop} {S : γ → δ → Prop} {x : Except ε α} {y : Except ε β}

theorem ok {a : α} {b : β} (h : R a b) : Repeats R (.ok a : Except ε α) (.ok b) := by
  rintro _ ⟨⟩
  exact .ok h

theorem error (failure : ε) (y : Except ε β) : Repeats R (.error failure) y := by
  rintro _ ⟨⟩

theorem bind {f : α → Except ε γ} {g : β → Except ε δ} (hx : Repeats R x y)
    (h : ∀ a b, R a b → Repeats S (f a) (g b)) : Repeats S (x >>= f) (y >>= g) := by
  intro c hc
  obtain ⟨a, rfl, hf⟩ := bind_eq_ok.mp hc
  exact (hx a rfl).bind fun b hb => h a b hb c hf

theorem map {f : α → γ} {g : β → δ} (hx : Repeats R x y) (h : ∀ a b, R a b → S (f a) (g b)) :
    Repeats S (x.map f) (y.map g) := by
  cases x with
  | error failure => exact error failure _
  | ok a =>
    rintro _ ⟨⟩
    exact (hx a rfl).map fun b hb => h a b hb

theorem ite {p q : Prop} [Decidable p] [Decidable q] {x' : Except ε α} {y' : Except ε β} (same : q ↔ p)
    (yes : p → Repeats R x y) (no : ¬ p → Repeats R x' y') :
    Repeats R (if p then x else x') (if q then y else y') := by
  by_cases h : p
  · rw [if_pos h, if_pos (same.mpr h)]
    exact yes h
  · rw [if_neg h, if_neg (mt same.mp h)]
    exact no h

theorem foldlM {I : σ → τ → Prop} {step : σ → α → Except ε σ} {step' : τ → α → Except ε τ} {as : List α}
    (h : ∀ a ∈ as, ∀ s t, I s t → Repeats I (step s a) (step' t a)) {s : σ} {t : τ} (start : I s t) :
    Repeats I (as.foldlM step s) (as.foldlM step' t) := by
  induction as generalizing s t with
  | nil => exact ok start
  | cons a as ih =>
    rw [List.foldlM_cons, List.foldlM_cons]
    obtain ⟨first, rest⟩ := List.forall_mem_cons.mp h
    exact (first s t start).bind fun s t next => ih rest next

/-- The second computation may take steps more, if these keep what relates it to the first. -/
theorem foldlM_sublist {I : σ → τ → Prop} {step : σ → α → Except ε σ} {step' : τ → α → Except ε τ}
    {as bs : List α} (sub : as.Sublist bs) (once : bs.Nodup)
    (h : ∀ a ∈ as, ∀ s t, I s t → Repeats I (step s a) (step' t a))
    (more : ∀ b ∈ bs, b ∉ as → ∀ s t, I s t → Yields (I s) (step' t b)) {s : σ} {t : τ} (start : I s t) :
    Repeats I (as.foldlM step s) (bs.foldlM step' t) := by
  induction sub generalizing s t with
  | slnil => exact ok start
  | @cons as bs b sub ih =>
    obtain ⟨apart, once⟩ := List.nodup_cons.mp once
    intro last folded
    rw [List.foldlM_cons]
    refine (more b List.mem_cons_self (fun mem => apart (sub.subset mem)) s t start).bind fun t next => ?_
    exact ih once h (fun other mem => more other (List.mem_cons_of_mem b mem)) next last folded
  | @cons_cons as bs a sub ih =>
    obtain ⟨apart, once⟩ := List.nodup_cons.mp once
    obtain ⟨first, rest⟩ := List.forall_mem_cons.mp h
    rw [List.foldlM_cons, List.foldlM_cons]
    refine (first s t start).bind fun s t next => ih once rest (fun other mem absent => ?_) next
    refine more other (List.mem_cons_of_mem a mem) fun both => ?_
    obtain rfl | both := List.mem_cons.mp both
    · exact apart mem
    · exact absent both

end Repeats

end SweepPlot
