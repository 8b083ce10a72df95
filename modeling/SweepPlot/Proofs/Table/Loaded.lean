import SweepPlot.Proofs.Table.Records
import SweepPlot.Proofs.Table.Text
set_option autoImplicit false

namespace SweepPlot

structure Text.Trimmed (s : String) : Prop where
  given : s ≠ ""
  trimmed : Text.trim s = s

structure Record.Clean (r : Record Float) : Prop where
  queue : Text.Trimmed r.queue
  testId : ∀ text, r.testId = some text → Text.Trimmed text
  counts : ∀ sweep v, r.count sweep = some v → Number.inInt64 v = true

/-- The record of a file, whatever tags it has got since. -/
def Record.IsRead (r : Record Float) : Prop :=
  ∃ path required bytes records, ResultFile.ofBytes path required bytes = .ok records ∧
    ∃ read ∈ records, r = { read with subfolder := r.subfolder, variant := r.variant, source := r.source }

theorem Number.inInt64_of_integer? {s : String} {v : Int} (reads : integer? s = some v) : inInt64 v = true := by
  unfold integer? at reads
  dsimp only at reads
  cases digits : wholeDigits? (unsigned s.toList).2 with
  | none =>
    rw [digits] at reads
    cases reads
  | some n =>
    rw [digits] at reads
    obtain ⟨fits, same⟩ := Option.ite_none_right_eq_some.mp reads
    cases same
    exact fits

theorem Number.inInt64_of_count? {s : String} {v : Int} (reads : count? s = some v) : inInt64 v = true := by
  unfold count? at reads
  split at reads
  next whole =>
    cases reads
    exact inInt64_of_integer? whole
  · split at reads
    · split at reads
      next small =>
        cases reads
        have size : signBit = 9223372036854775808 := by decide
        rw [size] at small
        rw [inInt64, decide_eq_true_eq, minInt64, maxInt64]
        omega
      · cases reads
    · cases reads

namespace Sheet

theorem trimmed_readRows (width index : Nat) (rows : List Table.Row) :
    ∀ row ∈ readRows width index rows, ∀ line cells, row = .ok (line, cells) →
      ∀ cell ∈ cells, Text.trim cell = cell := by
  induction rows generalizing index with
  | nil => simp [readRows]
  | cons first rows ih =>
    intro row mem line cells read
    obtain rfl | mem := List.mem_cons.mp mem
    · unfold readRow at read
      split at read
      · cases read
      · split at read
        · cases read
        · cases read
          intro cell present
          obtain ⟨text, -, rfl⟩ := List.mem_map.mp present
          exact Text.trim_trim text
    · exact ih (index + 1) row mem line cells read

theorem trimmed_ofBytes {bytes : Bytes} {sheet : Sheet} (read : ofBytes bytes = .ok sheet) :
    ∀ row ∈ sheet.body, ∀ line cells, row = .ok (line, cells) → ∀ cell ∈ cells, Text.trim cell = cell := by
  unfold ofBytes at read
  split at read
  · cases read
    simp
  · split at read
    · cases read
    · cases read
      exact trimmed_readRows _ _ _

end Sheet

theorem Record.clean_ofCells {read : Field → Option String} (named : read .queueType ≠ none)
    (trimmed : ∀ field text, read field = some text → Text.Trimmed text) : (ofCells read).Clean where
  queue := by
    obtain ⟨queue, given⟩ := Option.ne_none_iff_exists'.mp named
    rw [ofCells, given]
    exact trimmed .queueType queue given
  testId := trimmed .testId
  counts := by
    intro sweep v same
    rw [count, ofCells, PerSweep.get_ofFn] at same
    obtain ⟨cell, -, reads⟩ := Option.bind_eq_some_iff.mp same
    exact Number.inInt64_of_count? reads

theorem ResultFile.exists_cells_of_mem {path : Bytes} {required : List Field} {bytes : Bytes} {records : Dataset}
    (loaded : ofBytes path required bytes = .ok records) {r : Record Float} (mem : r ∈ records) :
    ∃ read, r = Record.ofCells read ∧ read .queueType ≠ none ∧
      ∀ field text, read field = some text → Text.Trimmed text := by
  unfold ofBytes at loaded
  cases opened : Sheet.ofBytes bytes with
  | error fault =>
    rw [opened] at loaded
    cases loaded
  | ok sheet =>
    rw [opened] at loaded
    obtain ⟨sound, gives⟩ := (ofSheet_settles path required sheet).of_eq_ok loaded
    obtain ⟨_, present, line, cells, rfl, rfl⟩ := exists_mem_of_forall₂ gives mem
    obtain ⟨_, _, ⟨⟩, readable⟩ := (fault?_eq_none_iff.mp sound).rows _ present
    refine ⟨_, rfl, readable.queue, fun field text given => ?_⟩
    obtain ⟨mem, given⟩ := mem_of_cellOf given
    exact ⟨given, Sheet.trimmed_ofBytes opened _ present line cells rfl text mem⟩

theorem Record.IsRead.clean {r : Record Float} (read : r.IsRead) : r.Clean := by
  obtain ⟨path, required, bytes, records, loaded, origin, mem, same⟩ := read
  obtain ⟨cells, rfl, named, trimmed⟩ := ResultFile.exists_cells_of_mem loaded mem
  have clean := clean_ofCells named trimmed
  rw [same]
  exact ⟨clean.queue, clean.testId, clean.counts⟩

end SweepPlot
