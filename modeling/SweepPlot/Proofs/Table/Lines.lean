import SweepPlot.Proofs.Table.Records
import SweepPlot.Proofs.Table.Text
set_option autoImplicit false

/-!
Where rows begin. A row's position is right after the terminator of the row before it, and its first byte comes later
if terminators that belong to no row stand between: the line feed of a two byte line end, or blank lines. A fault names
the line of the position, so it names the line of the row exactly if none of these is a line feed.
-/

namespace SweepPlot

namespace Table

def Position.past (p : Position) (bytes : Bytes) : Position :=
  ⟨p.line + bytes.count lineFeed, p.byte + bytes.length⟩

theorem Position.past_nil (p : Position) : p.past [] = p := rfl

theorem Position.past_cons (p : Position) (b : UInt8) (bytes : Bytes) : p.past (b :: bytes) = (p.after b).past bytes := by
  have line : p.line + (b :: bytes).count lineFeed = (p.after b).line + bytes.count lineFeed := by
    rw [after, List.count_cons]
    by_cases feed : b = lineFeed
    · rw [if_pos (beq_iff_eq.mpr feed), if_pos feed]
      exact Nat.add_right_comm p.line (bytes.count lineFeed) 1
    · rw [if_neg (by simpa using feed), if_neg feed]
      rfl
  have byte : p.byte + (b :: bytes).length = (p.after b).byte + bytes.length :=
    Nat.add_right_comm p.byte bytes.length 1
  rw [past, past, line, byte]

theorem Position.past_append (p : Position) (front back : Bytes) : p.past (front ++ back) = (p.past front).past back := by
  rw [past, past, past, List.count_append, List.length_append, Nat.add_assoc, Nat.add_assoc]

/-- The scanner right after the terminator of a row. -/
def Scanner.freshAt (p : Position) : Scanner :=
  { opened := p, here := p }

/-- How some bytes lead up to a row: `front` holds the rows before it with their terminators, `gap` terminators of no row,
and the row's own first byte is the one after these. -/
structure Leads (read : Bytes → List Row) (start : Position) (bytes : Bytes) (earlier : List Row)
    (front gap rest : Bytes) : Prop where
  split : bytes = front ++ gap ++ rest
  closed : ∀ more, read (front ++ more) = earlier ++ (Scanner.freshAt (start.past front)).rows more
  gap : ∀ b ∈ gap, isTerminator b = true
  first : ∃ b, rest.head? = some b ∧ isTerminator b = false

theorem Leads.cons {read : Bytes → List Row} {start : Position} {first : Row} {earlier : List Row}
    {own left front gap rest : Bytes}
    (reads : ∀ more, read (own ++ more) = first :: (Scanner.freshAt (start.past own)).rows more)
    (later : Leads (Scanner.freshAt (start.past own)).rows (start.past own) left earlier front gap rest) :
    Leads read start (own ++ left) (first :: earlier) (own ++ front) gap rest where
  split := by rw [later.split, List.append_assoc, List.append_assoc, List.append_assoc]
  closed more := by rw [List.append_assoc, reads, later.closed, Position.past_append, List.cons_append]
  gap := later.gap
  first := later.first

namespace Scanner

variable {s : Scanner} {b : UInt8} {bytes : Bytes}

/-- What a byte does: it is a terminator of no row, belongs to a row, or ends one. -/
inductive Steps (s : Scanner) (b : UInt8) : Scanner × Option Row → Prop where
  | blank (between : s.spot = .between) (ends : isTerminator b = true) : Steps s b (s.skip b .between, none)
  | goesOn {next : Scanner} (inside : next.spot ≠ .between) (opened : next.opened = s.opened)
      (here : next.here = s.here.after b) (first : s.spot = .between → isTerminator b = false) : Steps s b (next, none)
  | closes (inside : s.spot ≠ .between) : Steps s b (freshAt (s.here.after b), some s.row)

theorem plain_steps (first : s.spot = .between → isTerminator b = false) : Steps s b (s.plain b) := by
  rw [plain]
  split
  next => exact .goesOn nofun rfl rfl first
  · split
    next ends =>
      refine .closes fun between => ?_
      rw [first between] at ends
      cases ends
    next => exact .goesOn nofun rfl rfl first

theorem step_steps (s : Scanner) (b : UInt8) : Steps s b (s.step b) := by
  rw [step]
  cases spot : s.spot <;> dsimp only
  case between =>
    split
    next ends => exact .blank spot ends
    next solid =>
      have first : s.spot = .between → isTerminator b = false := fun _ => eq_false_of_ne_true solid
      split
      · exact .goesOn nofun rfl rfl first
      · exact plain_steps first
  all_goals have first : s.spot = .between → isTerminator b = false := fun between => nomatch spot.symm.trans between
  case cellStart =>
    split
    · exact .goesOn nofun rfl rfl first
    · exact plain_steps first
  case bare => exact plain_steps first
  case quoted =>
    split
    · exact .goesOn nofun rfl rfl first
    · exact .goesOn nofun rfl rfl first
  case quoteSeen =>
    split
    · exact .goesOn nofun rfl rfl first
    · exact plain_steps first

theorem rows_cons_of_none {next : Scanner} (step : s.step b = (next, none)) (bytes : Bytes) :
    s.rows (b :: bytes) = next.rows bytes := by
  rw [rows, step]

theorem rows_cons_of_some {next : Scanner} {row : Row} (step : s.step b = (next, some row)) (bytes : Bytes) :
    s.rows (b :: bytes) = row :: next.rows bytes := by
  rw [rows, step]

theorem rows_of_inside (inside : s.spot ≠ .between) (bytes : Bytes) :
    ∃ row, row.opened = s.opened ∧ (s.rows bytes = [row] ∨ ∃ used left, bytes = used ++ left ∧
      ∀ more, s.rows (used ++ more) = row :: (freshAt (s.here.past used)).rows more) := by
  induction bytes generalizing s with
  | nil =>
    refine ⟨s.row, rfl, .inl ?_⟩
    rw [rows, finish]
    split
    next between => exact absurd between inside
    next => rfl
  | cons b bytes ih =>
    cases step : s.step b with
    | mk next row =>
      have does := step_steps s b
      rw [step] at does
      cases does with
      | blank between _ => exact absurd between inside
      | goesOn inside opened here =>
        obtain ⟨row, own, rest⟩ := ih inside
        refine ⟨row, own.trans opened, ?_⟩
        rw [rows_cons_of_none step]
        obtain alone | ⟨used, left, split, reads⟩ := rest
        · exact .inl alone
        · refine .inr ⟨b :: used, left, congrArg (b :: ·) split, fun more => ?_⟩
          rw [List.cons_append, rows_cons_of_none step, reads, Position.past_cons, here]
      | closes _ =>
        refine ⟨s.row, rfl, .inr ⟨[b], bytes, rfl, fun more => ?_⟩⟩
        rw [List.singleton_append, rows_cons_of_some step, Position.past_cons, Position.past_nil]

theorem rows_of_between (between : s.spot = .between) (bytes : Bytes) :
    s.rows bytes = [] ∨ ∃ (gap : Bytes) (b : UInt8) (left : Bytes) (next : Scanner), bytes = gap ++ b :: left ∧
      (∀ b ∈ gap, isTerminator b = true) ∧ isTerminator b = false ∧ next.spot ≠ .between ∧
      next.opened = s.opened ∧ next.here = s.here.past (gap ++ [b]) ∧
      ∀ more, s.rows (gap ++ b :: more) = next.rows more := by
  induction bytes generalizing s with
  | nil =>
    left
    rw [rows, finish, between]
  | cons b bytes ih =>
    cases step : s.step b with
    | mk next row =>
      have does := step_steps s b
      rw [step] at does
      cases does with
      | blank _ ends =>
        have between : (s.skip b .between).spot = .between := rfl
        rw [rows_cons_of_none step]
        obtain none | ⟨gap, c, left, next, split, blank, solid, inside, opened, here, reads⟩ := ih between
        · exact .inl none
        · refine .inr ⟨b :: gap, c, left, next, congrArg (b :: ·) split, ?_, solid, inside, opened, ?_, fun more => ?_⟩
          · exact List.forall_mem_cons.mpr ⟨ends, blank⟩
          · rw [List.cons_append, Position.past_cons]
            exact here
          · rw [List.cons_append, rows_cons_of_none step]
            exact reads more
      | goesOn inside opened here first =>
        refine .inr ⟨[], b, bytes, next, rfl, nofun, first between, inside, opened, ?_, fun more => ?_⟩
        · rw [List.nil_append, Position.past_cons, Position.past_nil]
          exact here
        · exact rows_cons_of_none step more
      | closes inside => exact absurd between inside

/-- The first row has the position where the scanner opened it, and only terminators stand before it. -/
theorem opened_of_getElem?_zero (between : s.spot = .between) {row : Row} (read : (s.rows bytes)[0]? = some row) :
    row.opened = s.opened ∧ ∃ gap rest, bytes = gap ++ rest ∧ (∀ b ∈ gap, isTerminator b = true) ∧
      ∃ b, rest.head? = some b ∧ isTerminator b = false := by
  obtain none | ⟨gap, b, left, next, rfl, blank, solid, inside, opened, -, reads⟩ := rows_of_between between bytes
  · rw [none] at read
    cases read
  · refine ⟨?_, gap, b :: left, rfl, blank, b, rfl, solid⟩
    obtain ⟨first, own, rest⟩ := rows_of_inside inside left
    have head : (next.rows left)[0]? = some first := by
      obtain alone | ⟨used, left, rfl, reads⟩ := rest
      · rw [alone]
        rfl
      · rw [reads]
        rfl
    rw [reads, head] at read
    cases read
    exact own.trans opened

theorem exists_front (between : s.spot = .between) {index : Nat} {row : Row}
    (read : (s.rows bytes)[index + 1]? = some row) :
    ∃ first front left, bytes = front ++ left ∧
      ∀ more, s.rows (front ++ more) = first :: (freshAt (s.here.past front)).rows more := by
  obtain none | ⟨gap, b, left, next, rfl, -, -, inside, -, here, reads⟩ := rows_of_between between bytes
  · rw [none] at read
    cases read
  · obtain ⟨first, -, alone | ⟨used, left, rfl, rest⟩⟩ := rows_of_inside inside left
    · rw [reads, alone] at read
      cases read
    · refine ⟨first, gap ++ b :: used, left, by rw [List.append_assoc, List.cons_append], fun more => ?_⟩
      rw [List.append_assoc, List.cons_append, reads, rest, here, ← Position.past_append, List.append_assoc,
        List.singleton_append]

theorem exists_leads (between : s.spot = .between) {index : Nat} {row : Row}
    (read : (s.rows bytes)[index + 1]? = some row) :
    ∃ front gap rest, Leads s.rows s.here bytes ((s.rows bytes).take (index + 1)) front gap rest ∧
      row.opened = s.here.past front := by
  induction index generalizing s bytes with
  | zero =>
    obtain ⟨first, front, left, rfl, reads⟩ := exists_front between read
    rw [reads, List.getElem?_cons_succ] at read
    obtain ⟨opened, gap, rest, rfl, blank, solid⟩ := opened_of_getElem?_zero rfl read
    refine ⟨front, gap, rest, ⟨(List.append_assoc ..).symm, fun more => ?_, blank, solid⟩, opened⟩
    rw [reads, reads]
    rfl
  | succ index ih =>
    obtain ⟨first, front, left, rfl, reads⟩ := exists_front between read
    rw [reads, List.getElem?_cons_succ] at read
    have fresh : (freshAt (s.here.past front)).spot = .between := rfl
    obtain ⟨front', gap, rest, later, opened⟩ := ih fresh read
    rw [reads, List.take_succ_cons]
    exact ⟨front ++ front', gap, rest, later.cons reads, opened.trans (Position.past_append ..).symm⟩

end Scanner

theorem rows_of_unmarked {bytes : Bytes} (unmarked : ∀ bs, bytes ≠ 0xEF :: 0xBB :: 0xBF :: bs) :
    rows bytes = ({} : Scanner).rows bytes := by
  unfold rows
  split
  next bs => exact absurd rfl (unmarked bs)
  next => rfl

/-- Where a row has ended, more has been read than the first bytes of a mark. -/
theorem Leads.unmarked {bytes : Bytes} {earlier : List Row} {front gap rest : Bytes}
    (leads : Leads ({} : Scanner).rows {} bytes earlier front gap rest) (ended : earlier ≠ [])
    (unmarked : ∀ bs, bytes ≠ 0xEF :: 0xBB :: 0xBF :: bs) (more bs : Bytes) :
    front ++ more ≠ 0xEF :: 0xBB :: 0xBF :: bs := by
  have grown : (({} : Scanner).rows (front ++ [0x41])).length ≠ 1 := by
    have fresh : ((Scanner.freshAt (Position.past {} front)).rows [0x41]).length = 1 := rfl
    have long := List.length_pos_iff.mpr ended
    rw [leads.closed, List.length_append, fresh]
    omega
  intro same
  obtain _ | ⟨_, _ | ⟨_, _ | ⟨_, front⟩⟩⟩ := front
  · exact grown rfl
  · cases same
    exact grown rfl
  · cases same
    exact grown rfl
  · cases same
    exact unmarked _ leads.split

theorem exists_leads_rows {bytes : Bytes} {index : Nat} {row : Row} (read : (rows bytes)[index + 1]? = some row) :
    ∃ front gap rest, Leads rows {} bytes ((rows bytes).take (index + 1)) front gap rest ∧
      row.opened = Position.past {} front := by
  by_cases marked : ∃ bs, bytes = 0xEF :: 0xBB :: 0xBF :: bs
  · obtain ⟨bs, rfl⟩ := marked
    obtain ⟨front, gap, rest, leads, opened⟩ := Scanner.exists_leads rfl read
    have past : Position.past {} (0xEF :: 0xBB :: 0xBF :: front) = Position.past ⟨1, 3⟩ front :=
      Position.past_append {} [0xEF, 0xBB, 0xBF] front
    refine ⟨0xEF :: 0xBB :: 0xBF :: front, gap, rest, ⟨?_, fun more => ?_, leads.gap, leads.first⟩,
      opened.trans past.symm⟩
    · exact congrArg (0xEF :: 0xBB :: 0xBF :: ·) leads.split
    · rw [past]
      exact leads.closed more
  · have unmarked : ∀ bs, bytes ≠ 0xEF :: 0xBB :: 0xBF :: bs := fun bs same => marked ⟨bs, same⟩
    rw [rows_of_unmarked unmarked] at read ⊢
    obtain ⟨front, gap, rest, leads, opened⟩ := Scanner.exists_leads rfl read
    have ended : (({} : Scanner).rows bytes).take (index + 1) ≠ [] := by
      rw [Ne, List.take_eq_nil_iff]
      rintro (none | none)
      · cases none
      · rw [none] at read
        cases read
    refine ⟨front, gap, rest, ⟨leads.split, fun more => ?_, leads.gap, leads.first⟩, opened⟩
    rw [rows_of_unmarked (leads.unmarked ended unmarked more), leads.closed]

end Table

def TableFault.rowLine? : TableFault → Option Nat
  | .noHeader | .ragged .. | .notUtf8 .. => none
  | .emptyQueue line | .notInteger line _ _ | .notNumeric line _ _ => some line

theorem TableFault.exists_message {fault : TableFault} {n : Nat} (named : fault.rowLine? = some n) :
    ∃ detail, fault.message = "line " ++ toString n ++ ": " ++ detail := by
  have empty : ": empty " = ": " ++ "empty " := by decide
  have quoted : ": '" = ": " ++ "'" := by decide
  have ofCell : ∀ cell column ending : String,
      "line " ++ toString n ++ ": '" ++ cell ++ "' in column '" ++ column ++ ending =
        "line " ++ toString n ++ ": " ++ ("'" ++ cell ++ "' in column '" ++ column ++ ending) := by
    intro cell column ending
    rw [quoted]
    simp only [String.append_assoc]
  cases fault with
  | noHeader | ragged | notUtf8 => cases named
  | emptyQueue =>
    cases named
    refine ⟨"empty " ++ Field.queueTypeColumn, ?_⟩
    change "line " ++ toString n ++ ": empty " ++ Field.queueTypeColumn = _
    rw [empty]
    simp only [String.append_assoc]
  | notInteger _ cell sweep =>
    cases named
    exact ⟨_, ofCell cell sweep.column "' is not an integer"⟩
  | notNumeric _ cell m =>
    cases named
    exact ⟨_, ofCell cell m.column "' is not numeric"⟩

theorem Failure.exists_message (path : Bytes) {fault : TableFault} {n : Nat} (named : fault.rowLine? = some n) :
    ∃ detail, (malformed path fault).message =
      "parse error in " ++ path.shown ++ ": line " ++ toString n ++ ": " ++ detail := by
  obtain ⟨detail, own⟩ := TableFault.exists_message named
  have text : (malformed path fault).message = "parse error in " ++ path.shown ++ ": " ++ fault.message := rfl
  have colon : ": line " = ": " ++ "line " := by decide
  refine ⟨detail, ?_⟩
  rw [text, own, colon]
  simp only [String.append_assoc]

theorem Field.line_of_fault? {line n : Nat} {field : Field} {cell : String} {fault : TableFault}
    (bad : field.fault? line cell = some fault) (named : fault.rowLine? = some n) : n = line := by
  cases field with
  | queueType | testId => cases bad
  | count sweep =>
    obtain ⟨-, same⟩ := Option.ite_none_right_eq_some.mp bad
    cases same
    exact (Option.some.inj named).symm
  | metric m =>
    obtain ⟨-, same⟩ := Option.ite_none_right_eq_some.mp bad
    cases same
    exact (Option.some.inj named).symm

namespace Sheet

theorem getElem?_readRows (width start : Nat) (rows : List Table.Row) (index : Nat) :
    (readRows width start rows)[index]? = rows[index]?.map (readRow width (start + index)) := by
  induction rows generalizing start index with
  | nil => rfl
  | cons row rows ih =>
    cases index with
    | zero => rfl
    | succ index =>
      rw [readRows, List.getElem?_cons_succ, List.getElem?_cons_succ, ih]
      congr 2
      omega

/-- The row that a fault is about: the first one that cannot be read. -/
structure Culprit (bytes : Bytes) (fault : TableFault) (sheet : Sheet) (index : Nat) (row : Table.Row) : Prop where
  opened : ofBytes bytes = .ok sheet
  scanned : (Table.rows bytes)[index + 1]? = some row
  body : sheet.body[index]? = some (readRow sheet.header.length (index + 1) row)
  own : rowFault? sheet.header (readRow sheet.header.length (index + 1) row) = some (.table fault)
  first : ∀ other ∈ sheet.body.take index, rowFault? sheet.header other = none

theorem rowLine?_of_ofBytes {bytes : Bytes} {fault : TableFault} {n : Nat} (unread : ofBytes bytes = .error fault) :
    fault.rowLine? ≠ some n := by
  unfold ofBytes at unread
  split at unread
  · cases unread
  · split at unread
    · cases unread
      nofun
    · cases unread

theorem exists_row {bytes : Bytes} {sheet : Sheet} (opened : ofBytes bytes = .ok sheet) {index : Nat}
    {read : Except RowFault (Nat × List String)} (body : sheet.body[index]? = some read) :
    ∃ row, (Table.rows bytes)[index + 1]? = some row ∧ read = readRow sheet.header.length (index + 1) row := by
  unfold ofBytes at opened
  split at opened
  · cases opened
    cases body
  next head rows scanned =>
    split at opened
    · cases opened
    · cases opened
      rw [getElem?_readRows, Option.map_eq_some_iff] at body
      obtain ⟨row, own, rfl⟩ := body
      refine ⟨row, by rw [scanned, List.getElem?_cons_succ, own], by rw [Nat.add_comm]⟩

/-- A fault of a row names the line where the row's position is. -/
theorem line_of_rowFault? {header : List String} {width index : Nat} {row : Table.Row} {fault : TableFault} {n : Nat}
    (own : rowFault? header (readRow width index row) = some (.table fault)) (named : fault.rowLine? = some n) :
    n = row.opened.line := by
  rw [readRow] at own
  split at own
  · cases own
    cases named
  · split at own
    · cases own
      cases named
    · obtain ⟨_, bad, ⟨⟩⟩ := Option.map_eq_some_iff.mp own
      rw [cellFault?] at bad
      split at bad
      · cases bad
        cases named
        rfl
      · obtain ⟨field, -, bad⟩ := List.exists_of_findSome?_eq_some bad
        obtain ⟨cell, -, bad⟩ := Option.bind_eq_some_iff.mp bad
        exact Field.line_of_fault? bad named

end Sheet

namespace ResultFile

section Diagnostics

variable {path : Bytes} {required : List Field} {bytes : Bytes} {fault : TableFault} {n : Nat}

theorem exists_culprit (failed : ofBytes path required bytes = .error (.malformed path fault))
    (named : fault.rowLine? = some n) :
    ∃ sheet index row, Sheet.Culprit bytes fault sheet index row := by
  unfold ofBytes at failed
  cases opened : Sheet.ofBytes bytes with
  | error unread =>
    rw [opened] at failed
    cases failed
    exact absurd named (Sheet.rowLine?_of_ofBytes opened)
  | ok sheet =>
    rw [opened] at failed
    have found := (ofSheet_settles path required sheet).eq_error_iff.mp failed
    rw [Sheet.fault?] at found
    split at found
    · cases found
      cases named
    · obtain column | ⟨-, row⟩ := Option.or_eq_some_iff.mp found
      · obtain ⟨field, -, same⟩ := Option.map_eq_some_iff.mp column
        cases same
      · obtain ⟨own, first, same⟩ := Option.map_eq_some_iff.mp row
        cases own with
        | io cause => cases same
        | table own =>
        cases same
        obtain ⟨before, read, after, split, own, sound⟩ := List.findSome?_eq_some_iff.mp first
        have body : sheet.body[before.length]? = some read := by
          rw [split, List.getElem?_append_right (le_refl _), Nat.sub_self]
          rfl
        obtain ⟨row, scanned, rfl⟩ := Sheet.exists_row opened body
        refine ⟨sheet, before.length, row, opened, scanned, body, own, fun other mem => ?_⟩
        rw [split, List.take_left] at mem
        exact sound other mem

/-- A fault of a row names the line where the row before it has ended, and so the line where its own row begins exactly if
there is no line feed between the two. -/
theorem ofBytes_names_line (failed : ofBytes path required bytes = .error (.malformed path fault))
    (named : fault.rowLine? = some n) :
    ∃ sheet index row front gap rest, Sheet.Culprit bytes fault sheet index row ∧
      Table.Leads Table.rows {} bytes ((Table.rows bytes).take (index + 1)) front gap rest ∧
      n = 1 + front.count Table.lineFeed ∧
      1 + (front ++ gap).count Table.lineFeed = n + gap.count Table.lineFeed ∧
      (n = 1 + (front ++ gap).count Table.lineFeed ↔ Table.lineFeed ∉ gap) ∧
      ∃ detail, (Failure.malformed path fault).message =
        "parse error in " ++ path.shown ++ ": line " ++ toString n ++ ": " ++ detail := by
  obtain ⟨sheet, index, row, culprit⟩ := exists_culprit failed named
  obtain ⟨front, gap, rest, leads, opened⟩ := Table.exists_leads_rows culprit.scanned
  have line : n = 1 + front.count Table.lineFeed := by
    rw [Sheet.line_of_rowFault? culprit.own named, opened]
    rfl
  have later : 1 + (front ++ gap).count Table.lineFeed = n + gap.count Table.lineFeed := by
    rw [line, List.count_append, Nat.add_assoc]
  have right : n = 1 + (front ++ gap).count Table.lineFeed ↔ Table.lineFeed ∉ gap := by
    rw [later, ← List.count_eq_zero]
    omega
  exact ⟨sheet, index, row, front, gap, rest, culprit, leads, line, later, right, Failure.exists_message path named⟩

theorem ofBytes_names_line_quoted : ∃ sheet index row front gap rest,
    Sheet.Culprit (Bytes.ofText "Queuetype,Throughput\n\"a\r\nb\",1\nbbq,x\n") (.notNumeric 4 "x" .throughput) sheet index
      row ∧ (4 = 1 + (front ++ gap).count Table.lineFeed ↔ Table.lineFeed ∉ gap) ∧
      Bytes.ofText "Queuetype,Throughput\n\"a\r\nb\",1\nbbq,x\n" = front ++ gap ++ rest := by
  have failed : ofBytes "a.csv" [] (Bytes.ofText "Queuetype,Throughput\n\"a\r\nb\",1\nbbq,x\n") =
      .error (.malformed "a.csv" (.notNumeric 4 "x" .throughput)) := by rfl
  obtain ⟨sheet, index, row, front, gap, rest, culprit, leads, -, -, right, -⟩ := ofBytes_names_line failed rfl
  exact ⟨sheet, index, row, front, gap, rest, culprit, right, leads.split⟩

/-- After a line end of two bytes the line is one too small: the row begins on the second line. -/
theorem ofBytes_names_line_before :
    ofBytes "input.csv" [] (Bytes.ofText "Queuetype,Throughput\r\nbbq,x\r\n") =
        .error (.malformed "input.csv" (.notNumeric 1 "x" .throughput)) ∧
      ∃ row, (Table.rows (Bytes.ofText "Queuetype,Throughput\r\nbbq,x\r\n"))[1]? = some row ∧
        Table.Leads Table.rows {} (Bytes.ofText "Queuetype,Throughput\r\nbbq,x\r\n")
          ((Table.rows (Bytes.ofText "Queuetype,Throughput\r\nbbq,x\r\n")).take 1)
          (Bytes.ofText "Queuetype,Throughput\r") (Bytes.ofText "\n") (Bytes.ofText "bbq,x\r\n") ∧
        1 + (Bytes.ofText "Queuetype,Throughput\r" ++ Bytes.ofText "\n").count Table.lineFeed = 2 := by
  refine ⟨by rfl, _, rfl, ⟨by decide +kernel, fun more => ?_, by decide +kernel, _, rfl, by decide⟩,
    by decide +kernel⟩
  rfl

end Diagnostics

end ResultFile

end SweepPlot
