import SweepPlot.Proofs.Files.Replace
import SweepPlot.Run
set_option autoImplicit false

namespace SweepPlot.Request

open FileSystem (Appended ChangesOnly Replaced Refused directoryText)

variable {r : Request} {site : Site} {before opened after : FileSystem} {groups : List (Group Float)}

/-- The tree in which the output file is replaced: its directory is made. -/
def prepared (r : Request) (site : Site) (opened : FileSystem) : FileSystem :=
  (opened.makeDirs site.output.making (directoryText r.outputPath)).1

/-- The summary table and the output file are different files: in the tree in which the output file is replaced,
whatever the table holds, their paths lead to different places. -/
def WritesApart (r : Request) (site : Site) (fs : FileSystem) : Prop :=
  ∀ path ∈ r.summary, ∀ bytes opened, fs.append path bytes = .ok opened →
    ∀ location, (r.prepared site opened).LeadsTo path location → ¬ (r.prepared site opened).LeadsTo r.outputPath location

def rowBytes (r : Request) (groups : List (Group Float)) (isNew : Bool) : Bytes :=
  SummaryTable.bytes (SummaryTable.rows r.aggregation r.sweep groups isNew)

/-- What is added to the table: all rows, or what is there of them when they cannot be written or flushed. -/
inductive Adds (r : Request) (site : Site) (groups : List (Group Float)) : (Bool → Bytes) → Prop where
  | rows : r.Adds site groups (r.rowBytes groups)
  | written {left : Bytes} {cause : IoCause} (fault : site.table = some (.writing left cause)) :
      r.Adds site groups fun _ => left
  | flushed {left : Bytes} {cause : IoCause} (fault : site.table = some (.flushing left cause)) :
      r.Adds site groups fun _ => left

/-- What the summary path leads to has the added bytes below what was there before. -/
structure Grows (r : Request) (before after : FileSystem) (added : Bool → Bytes) (location : Location) : Prop where
  goes : ∃ path ∈ r.summary, ∃ content, before.writable path = .ok (location, content)
  content : ∃ old : Option Bytes, before.itemAt? location = old.map .file ∧
    after.itemAt? location = some (.file (old.getD [] ++ added old.isNone))

section Table

variable {added : Bool → Bytes} {table : Option Location}

/-- The table is written to, if one is asked for, and nothing else is different. -/
structure Recorded (r : Request) (before opened : FileSystem) (added : Bool → Bytes) (table : Option Location) :
    Prop where
  asked : table.isSome = r.summary.isSome
  workDir : opened.workDir = before.workDir
  items : ∀ location ∉ table, opened.itemAt? location = before.itemAt? location
  grows : ∀ location ∈ table, r.Grows before opened added location
  written : ∀ location ∈ table, ∃ path ∈ r.summary, ∃ bytes, before.append path bytes = .ok opened ∧
    opened.LeadsTo path location
  keepsFile : ∀ {path location content}, before.LeadsTo path location →
    before.itemAt? location = some (.file content) →
      opened.LeadsTo path location ∧ ∃ content', opened.itemAt? location = some (.file content')

theorem recorded_of_append {path : String} {bytes : Bytes} (added : Bool → Bytes) (named : path ∈ r.summary)
    (done : before.append path bytes = .ok opened) (same : bytes = added (!before.isThere path)) :
    ∃ table, r.Recorded before opened added table := by
  obtain ⟨location, old, appended⟩ := FileSystem.append_cases done
  refine ⟨some location, ?_, appended.workDir, fun other away => ?_, ?_, ?_, appended.keepsFile⟩
  · rw [Option.mem_def.mp named]
    rfl
  · rw [appended.items, if_neg fun same => away (congrArg some same.symm)]
  · rintro _ ⟨⟩
    refine ⟨⟨path, named, _, appended.goes⟩, old, appended.before, ?_⟩
    rw [appended.items, if_pos rfl, same, appended.known, Option.not_isSome]
  · rintro _ ⟨⟩
    exact ⟨path, named, _, done, appended.leads⟩

/-- A failure of the system while something is written. -/
def WriteFailure (failure : Failure) : Prop :=
  (∃ path cause, failure = .io path cause) ∨ ∃ text, failure = .render text

/-- How writing to the table can end: nothing is touched, it has failed with something added, or all rows are there. -/
inductive RecordEnds (r : Request) (site : Site) (before : FileSystem) (groups : List (Group Float)) :
    FileSystem × Except Failure Unit → Prop where
  | untouched (failure : Failure) : RecordEnds r site before groups (before, .error failure)
  | torn {opened : FileSystem} {failure : Failure} {added : Bool → Bytes} {table : Option Location}
      (recorded : r.Recorded before opened added table) (adds : r.Adds site groups added)
      (kind : WriteFailure failure) : RecordEnds r site before groups (opened, .error failure)
  | written {opened : FileSystem} {table : Option Location}
      (recorded : r.Recorded before opened (r.rowBytes groups) table) : RecordEnds r site before groups (opened, .ok ())

theorem tear_ends {site : Site} {path : String} {left : Bytes} {failure : Failure} (asked : r.summary = some path)
    (adds : r.Adds site groups fun _ => left) (kind : WriteFailure failure) :
    r.RecordEnds site before groups (SummaryTable.tear before path left failure) := by
  unfold SummaryTable.tear
  cases done : before.append path left with
  | error cause => exact .untouched _
  | ok opened =>
    obtain ⟨table, recorded⟩ := recorded_of_append (fun _ => left) asked done rfl
    exact .torn recorded adds kind

theorem record_ends (r : Request) (site : Site) (before : FileSystem) (groups : List (Group Float)) :
    r.RecordEnds site before groups (r.record site before groups) := by
  unfold record
  cases asked : r.summary with
  | none =>
    have recorded : r.Recorded before before (r.rowBytes groups) none := by
      refine ⟨?_, rfl, fun _ _ => rfl, ?_, ?_, fun leads file => ⟨leads, _, file⟩⟩
      · rw [asked]
        rfl
      · rintro _ ⟨⟩
      · rintro _ ⟨⟩
    exact .written recorded
  | some path =>
    unfold SummaryTable.record
    dsimp only
    split
    next =>
      cases done : SummaryTable.append before path r.aggregation r.sweep groups with
      | error failure => exact .untouched failure
      | ok opened =>
        obtain ⟨table, recorded⟩ := recorded_of_append (r.rowBytes groups) asked (mapError_eq_ok.mp done) rfl
        exact .written recorded
    next cause _ => exact .untouched _
    next left cause fault => exact tear_ends asked (.written fault) (.inr ⟨_, rfl⟩)
    next left cause fault => exact tear_ends asked (.flushed fault) (.inl ⟨_, _, rfl⟩)

theorem record_records (done : r.record site before groups = (opened, .ok ())) :
    ∃ table, r.Recorded before opened (r.rowBytes groups) table := by
  have ends := record_ends r site before groups
  rw [done] at ends
  cases ends with
  | written recorded => exact ⟨_, recorded⟩

theorem Recorded.changes (recorded : r.Recorded before opened added table) :
    ChangesOnly before table.toList opened :=
  ⟨recorded.workDir, fun location away => .inl (recorded.items location (mt Option.mem_toList.mpr away))⟩

theorem Grows.of_same {location : Location} (grows : r.Grows before opened added location)
    (same : after.itemAt? location = opened.itemAt? location) : r.Grows before after added location := by
  obtain ⟨goes, old, was, is⟩ := grows
  exact ⟨goes, old, was, same.trans is⟩

theorem Grows.isFile {location : Location} (grows : r.Grows before opened added location) :
    ∃ content, opened.itemAt? location = some (.file content) :=
  let ⟨_, _, _, is⟩ := grows
  ⟨_, is⟩

theorem prepared_changes (r : Request) (site : Site) (opened : FileSystem) :
    ChangesOnly opened [] (r.prepared site opened) :=
  FileSystem.makeDirs_changes opened _ _

theorem Recorded.link (recorded : r.Recorded before opened added table) {location : Location} {target : Bytes}
    (link : (r.prepared site opened).itemAt? location = some (.link target)) :
    before.itemAt? location = some (.link target) := by
  have linked : opened.itemAt? location = some (.link target) := by
    obtain same | ⟨-, made⟩ := (r.prepared_changes site opened).items location List.not_mem_nil
    · exact same.symm.trans link
    · cases made.symm.trans link
  by_cases mem : location ∈ table
  · obtain ⟨content, file⟩ := (recorded.grows location mem).isFile
    cases file.symm.trans linked
  · exact (recorded.items location mem).symm.trans linked

theorem Recorded.apart (recorded : r.Recorded before opened added table) (apart : r.WritesApart site before)
    {location : Location} (mem : location ∈ table) : ¬ (r.prepared site opened).LeadsTo r.outputPath location := by
  obtain ⟨path, named, bytes, written, leads⟩ := recorded.written location mem
  exact apart path named bytes opened written location ((r.prepared_changes site opened).leadsTo leads)

end Table

section Stages

variable {fs : FileSystem}

theorem run_of_load_error {failure : Failure} (accepted : r.accept = .ok ())
    (failed : r.loadResults fs = .error failure) : r.runAt site fs = ⟨fs, "", .error failure⟩ := by
  simp only [runAt, accepted, execute, failed]

theorem run_of_draw_error {merged : MergeReport} {failure : Failure} (accepted : r.accept = .ok ())
    (loaded : r.loadResults fs = .ok merged) (failed : r.draw site merged.records = .error failure) :
    r.runAt site fs = ⟨fs, "", .error failure⟩ := by
  simp only [runAt, accepted, execute, loaded, failed]

theorem run_of_draw {merged : MergeReport} {figure : Figure} {drawing : String} (accepted : r.accept = .ok ())
    (loaded : r.loadResults fs = .ok merged) (drawn : r.draw site merged.records = .ok (figure, groups, drawing)) :
    r.runAt site fs = match r.record site fs groups with
      | (fs, .error failure) => ⟨fs, "", .error failure⟩
      | (fs, .ok ()) => r.write site fs merged figure groups.length drawing := by
  have ran : r.runAt site fs = r.execute site fs := by rw [runAt, accepted]
  rw [ran, execute, loaded]
  dsimp only
  rewrite [drawn]
  rfl

/-- Where a run has come to when it ends: nothing is touched, the table is not written in full, or the drawing was to
be written and all rows are there. -/
theorem run_cases (r : Request) (site : Site) (fs : FileSystem) (accepted : r.accept = .ok ()) :
    (∃ failure, r.runAt site fs = ⟨fs, "", .error failure⟩) ∨
      ∃ merged figure groups drawing, r.loadResults fs = .ok merged ∧
        r.draw site merged.records = .ok (figure, groups, drawing) ∧
        ((∃ torn failure added table, r.runAt site fs = ⟨torn, "", .error failure⟩ ∧
            r.Recorded fs torn added table ∧ r.Adds site groups added ∧ WriteFailure failure) ∨
          ∃ opened, r.record site fs groups = (opened, .ok ()) ∧
            r.runAt site fs = r.write site opened merged figure groups.length drawing) := by
  cases loaded : r.loadResults fs with
  | error failure => exact .inl ⟨failure, run_of_load_error accepted loaded⟩
  | ok merged =>
  cases drawn : r.draw site merged.records with
  | error failure => exact .inl ⟨failure, run_of_draw_error accepted loaded drawn⟩
  | ok drawn' =>
  obtain ⟨figure, groups, drawing⟩ := drawn'
  have run := run_of_draw accepted loaded drawn
  have ends := record_ends r site fs groups
  generalize done : r.record site fs groups = result at run ends
  cases ends with
  | untouched failure => exact .inl ⟨failure, run⟩
  | torn recorded adds kind =>
    exact .inr ⟨merged, figure, groups, drawing, rfl, drawn, .inl ⟨_, _, _, _, run, recorded, adds, kind⟩⟩
  | written => exact .inr ⟨merged, figure, groups, drawing, rfl, drawn, .inr ⟨_, done, run⟩⟩

theorem write_cases (r : Request) (site : Site) (opened : FileSystem) (merged : MergeReport) (figure : Figure)
    (count : Nat) (drawing : String) :
    (∃ directory name report, (r.write site opened merged figure count drawing).answer = .ok report ∧
      report.figure = figure ∧ Replaced (r.prepared site opened) r.outputPath (Bytes.ofText drawing)
        (r.write site opened merged figure count drawing).files directory name) ∨
    ∃ place cause, (r.write site opened merged figure count drawing).answer = .error (.io place cause) ∧
      Refused (r.prepared site opened) site.output r.outputPath
        (r.write site opened merged figure count drawing).files := by
  have outcome := FileSystem.replaceFile_cases opened site.output r.outputPath (Bytes.ofText drawing)
  unfold write prepared
  generalize opened.replaceFile site.output r.outputPath (Bytes.ofText drawing) = written at outcome
  obtain ⟨after, answer⟩ := written
  obtain ⟨directory, name, done, replaced⟩ | ⟨place, cause, failed, refused⟩ := outcome
  · cases done
    exact .inl ⟨directory, name, _, rfl, rfl, replaced⟩
  · cases failed
    exact .inr ⟨place, cause, rfl, refused⟩

end Stages

section Outcome

variable {added : Bool → Bytes} {table : Option Location}

theorem Recorded.others {bytes : Bytes} {directory : Location} {name : Bytes}
    (recorded : r.Recorded before opened added table)
    (replaced : Replaced (r.prepared site opened) r.outputPath bytes after directory name) :
    ChangesOnly before ((directory ++ [name]) :: table.toList) after := by
  have last : ChangesOnly (r.prepared site opened) ((directory ++ [name]) :: table.toList) after := by
    refine ⟨replaced.workDir, fun location away => .inl ?_⟩
    rw [replaced.items, if_neg fun same => away (List.mem_cons.mpr (.inl same))]
  refine ((recorded.changes.mono fun _ => List.mem_cons_of_mem _).trans ?_).trans last
  exact (r.prepared_changes site opened).mono (by rintro _ ⟨⟩)

theorem Recorded.grows_after {bytes : Bytes} {directory location : Location} {name : Bytes}
    (recorded : r.Recorded before opened added table)
    (replaced : Replaced (r.prepared site opened) r.outputPath bytes after directory name) (mem : location ∈ table)
    (differ : location ≠ directory ++ [name]) : r.Grows before after added location := by
  have grows := recorded.grows location mem
  obtain ⟨content, file⟩ := grows.isFile
  refine grows.of_same ?_
  rw [replaced.items, if_neg differ, file]
  exact (r.prepared_changes site opened).keeps List.not_mem_nil file

end Outcome

end SweepPlot.Request
