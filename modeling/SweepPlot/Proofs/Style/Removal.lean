import SweepPlot.Proofs.Style.Numbering
import SweepPlot.Run
set_option autoImplicit false

namespace SweepPlot

namespace Registry

/-- Colours may be pinned, but no type has a style yet. -/
structure Bare (r : Registry) : Prop where
  styles : r.styles = []
  unknown : r.unknown = 0

def othersBefore (queues : List String) (queue : String) : Nat :=
  (distinct queues).countP fun other => isOther other && decide (other < queue)

/-- The slot of a listed type in a registry that had no styles. -/
def place (queues : List String) (queue : String) : Nat :=
  (Style.priority? queue).getD (Style.knownCount + othersBefore queues queue)

/-- Neither type is well known, and the slot of the first counts the second. -/
def StandsBehind (queues : List String) (queue other : String) : Prop :=
  isOther queue = true ∧ isOther other = true ∧ other ∈ queues ∧ other < queue

instance (queues : List String) (queue other : String) : Decidable (StandsBehind queues queue other) :=
  inferInstanceAs (Decidable (_ ∧ _ ∧ _ ∧ _))

section Names

theorem othersBefore_filter (queues : List String) (queue gone : String) :
    othersBefore queues queue = othersBefore (queues.filter fun q => q != gone) queue +
      if isOther gone = true ∧ gone ∈ queues ∧ gone < queue then 1 else 0 := by
  have once : (distinct queues).count gone = if gone ∈ queues then 1 else 0 := by
    rw [(nodup_distinct queues).count]
    simp only [mem_distinct]
  have apart : (distinct queues).filter (fun q => !(q != gone)) =
      List.replicate ((distinct queues).count gone) gone := by
    simpa [bne] using List.filter_beq (l := distinct queues) gone
  unfold othersBefore
  rw [distinct_filter, List.countP_eq_countP_filter_add _ _ fun q => q != gone, apart, once, List.countP_replicate]
  by_cases listed : gone ∈ queues <;> simp [listed]

end Names

section Bare

variable {r : Registry} {queues : List String} {queue : String}

theorem Bare.sound (bare : r.Bare) : r.Sound where
  apart := by
    rw [names, bare.styles]
    exact List.nodup_nil
  known := by
    rw [bare.styles]
    intro entry mem
    cases mem
  others := by
    rw [otherSlots, bare.styles, bare.unknown]
    rfl
  dressed := by
    rw [bare.styles]
    intro entry mem
    cases mem

theorem Bare.style?_eq_none (bare : r.Bare) (queue : String) : r.style? queue = none := by
  rw [style?, bare.styles]
  rfl

theorem Bare.newcomersBefore_eq (bare : r.Bare) (queues : List String) (queue : String) :
    r.newcomersBefore queues queue = othersBefore queues queue := by
  unfold newcomersBefore othersBefore
  refine List.countP_congr fun other _ => ?_
  simp only [bare.style?_eq_none, Option.isNone_none, Bool.and_true, Bool.and_eq_true, decide_eq_true_eq,
    Bytes.ofText_lt_iff]

theorem Bare.slot_eq (bare : r.Bare) {style : SeriesStyle} (given : (r.assign queues).style? queue = some style) :
    style.slot = place queues queue := by
  rw [bare.sound.slot_of_fresh (bare.style?_eq_none queue) given, bare.newcomersBefore_eq, bare.unknown]
  rfl

theorem Bare.style?_eq (bare : r.Bare) (listed : queue ∈ queues) :
    (r.assign queues).style? queue = some (r.styleAt queue (place queues queue)) := by
  have given : queue ∈ (r.assign queues).names := (mem_assign_names r queues).mpr (Or.inr listed)
  obtain ⟨style, found⟩ := Option.isSome_iff_exists.mp (Keyed.lookup_isSome_iff_mem.mpr given)
  have sound := bare.sound.assign queues
  have dressed : style = (r.assign queues).styleAt queue style.slot := sound.dressed _ (sound.style?_iff.mp found)
  rw [bare.slot_eq found] at dressed
  exact found.trans (congrArg some dressed)

end Bare

section Removal

variable {queues : List String} {queue gone : String}

/-- A type stands one slot lower without another one if it stood behind that one, and else where it stood. -/
theorem place_filter (queues : List String) (queue gone : String) :
    place queues queue = place (queues.filter fun q => q != gone) queue +
      if StandsBehind queues queue gone then 1 else 0 := by
  unfold place
  cases known : Style.priority? queue with
  | some k => simp [StandsBehind, isOther, known]
  | none =>
    have other : (isOther gone = true ∧ gone ∈ queues ∧ gone < queue) ↔ StandsBehind queues queue gone := by
      simp [StandsBehind, isOther, known]
    rw [Option.getD_none, Option.getD_none, othersBefore_filter queues queue gone, Nat.add_assoc]
    simp only [other]

/-- Neighbouring slots never have the same line. -/
theorem ofSlot_line_succ (slot : Nat) : (SeriesStyle.ofSlot (slot + 1)).line ≠ (SeriesStyle.ofSlot slot).line := by
  have differ : ∀ k < 4, LineStyle.all.getD ((k + 1) % 4) .solid ≠ LineStyle.all.getD k .solid := by decide
  change LineStyle.all.getD ((slot + 1) % 4) .solid ≠ LineStyle.all.getD (slot % 4) .solid
  rw [Nat.add_mod]
  exact differ (slot % 4) (Nat.mod_lt slot (by omega))

end Removal

end Registry

namespace Dataset

def without (d : Dataset) (queue : String) : Dataset :=
  d.filter fun r => r.queue != queue

theorem queueTypes_without (d : Dataset) (queue : String) :
    (d.without queue).queueTypes = d.queueTypes.filter fun q => q != queue := by
  unfold queueTypes without
  rw [← distinct_filter, List.filter_map]
  rfl

end Dataset

namespace Request

open Registry

theorem registry_bare (r : Request) : ∃ base : Registry, base.Bare ∧ ∀ d, r.registry d = base.assign d.queueTypes := by
  unfold registry
  cases r.layout with
  | sixPanel => exact ⟨comparison, ⟨rfl, rfl⟩, fun _ => rfl⟩
  | single | combined | fourMetric | paired | peakMemory | bfs => exact ⟨empty, ⟨rfl, rfl⟩, fun _ => rfl⟩

/-- Without the records of one queue type every other type in the data has the same colour, line and marker,
except that a type that is not well known and comes after the missing one in name order, itself not well known,
takes the slot before its own; then its line differs. -/
theorem registry_without (r : Request) (d : Dataset) {queue gone : String} (occurs : queue ∈ d.queueTypes)
    (differ : queue ≠ gone) :
    ∃ style rest, (r.registry d).style? queue = some style ∧ (r.registry (d.without gone)).style? queue = some rest ∧
      style.slot = rest.slot + (if StandsBehind d.queueTypes queue gone then 1 else 0) ∧
      (rest.color = style.color ∧ rest.line = style.line ∧ rest.marker = style.marker ↔
        ¬ StandsBehind d.queueTypes queue gone) := by
  obtain ⟨base, bare, given⟩ := r.registry_bare
  have stays : queue ∈ (d.without gone).queueTypes := by
    rw [Dataset.queueTypes_without]
    exact List.mem_filter.mpr ⟨occurs, by simpa using differ⟩
  have moved := place_filter d.queueTypes queue gone
  rw [given, given]
  refine ⟨_, _, bare.style?_eq occurs, bare.style?_eq stays, ?_, ?_⟩
  · rw [Dataset.queueTypes_without]
    exact moved
  · rw [Dataset.queueTypes_without]
    by_cases behind : StandsBehind d.queueTypes queue gone
    · rw [if_pos behind] at moved
      refine iff_of_false (fun ⟨_, line, _⟩ => ?_) (not_not_intro behind)
      rw [moved] at line
      exact ofSlot_line_succ _ line.symm
    · rw [if_neg behind, Nat.add_zero] at moved
      rw [← moved]
      exact iff_of_true ⟨rfl, rfl, rfl⟩ behind

theorem registry_without_comparing :
    let r : Request := { roots := ["50", "500"], layout := .sixPanel }
    let d : Dataset := [{ queue := "zeta_q" }, { queue := "lcrq_rust" }, { queue := "mid_q" }, { queue := "alpha_q" }]
    ∀ queue ∈ ["lcrq_rust", "alpha_q", "zeta_q"], queue ∈ d.queueTypes ∧ queue ≠ "mid_q" ∧
      ∃ style rest, (r.registry d).style? queue = some style ∧
        (r.registry (d.without "mid_q")).style? queue = some rest ∧
        style.slot = rest.slot + (if queue = "zeta_q" then 1 else 0) ∧
        (rest.color = style.color ∧ rest.line = style.line ∧ rest.marker = style.marker ↔ queue ≠ "zeta_q") := by
  intro r d queue listed
  have occurs : ∀ q ∈ ["lcrq_rust", "alpha_q", "zeta_q"], q ∈ d.queueTypes ∧ q ≠ "mid_q" := by decide +kernel
  have behind : ∀ q ∈ ["lcrq_rust", "alpha_q", "zeta_q"], StandsBehind d.queueTypes q "mid_q" ↔ q = "zeta_q" := by
    decide +kernel
  obtain ⟨present, differ⟩ := occurs queue listed
  have styles := r.registry_without d present differ
  simp only [behind queue listed] at styles
  exact ⟨present, differ, styles⟩

/-- A type that is not well known takes another style when one before it in name order leaves. -/
theorem registry_without_moves :
    let r : Request := { roots := ["run.csv"] }
    let d : Dataset := [{ queue := "alpha_q" }, { queue := "zeta_q" }]
    "zeta_q" ≠ "alpha_q" ∧ "zeta_q" ∈ d.queueTypes ∧ ∃ style rest, (r.registry d).style? "zeta_q" = some style ∧
      (r.registry (d.without "alpha_q")).style? "zeta_q" = some rest ∧
      rest.color ≠ style.color ∧ rest.line ≠ style.line ∧ rest.marker ≠ style.marker := by
  intro r d
  have bare : Registry.empty.Bare := ⟨rfl, rfl⟩
  have full : (r.registry d).style? "zeta_q" = _ := bare.style?_eq (by decide)
  have less : (r.registry (d.without "alpha_q")).style? "zeta_q" = _ := bare.style?_eq (by decide)
  refine ⟨by decide, by decide, _, _, full, less, ?_, ?_, ?_⟩
  all_goals decide +kernel

end Request

end SweepPlot
