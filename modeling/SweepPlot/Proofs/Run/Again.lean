import SweepPlot.Proofs.Run.Clear
set_option autoImplicit false

namespace SweepPlot

/-- Nothing fails here, but perhaps the drawing. -/
def Site.sound (draw : Figure → Except String String) : Site where
  draw := draw

namespace Request

open FileSystem (ChangesOnly KeepsNames Replaced directoryText)

variable {r : Request} {draw : Figure → Except String String} {before : FileSystem}

section Finished

variable {report : RunReport} {merged : MergeReport} {groups : List (Group Float)} {drawing : String}
  {opened : FileSystem} {directory : Location} {name : Bytes} {table : Option Location}

/-- What is known of a run that gave a report: what it loaded and drew, the tree with the new rows, the table that
got them, and the entry that is now the drawing. -/
structure Finished (r : Request) (draw : Figure → Except String String) (before : FileSystem) (report : RunReport)
    (merged : MergeReport) (groups : List (Group Float)) (drawing : String) (opened : FileSystem)
    (table : Option Location) (directory : Location) (name : Bytes) : Prop where
  loaded : r.loadResults before = .ok merged
  drawn : r.draw (.sound draw) merged.records = .ok (report.figure, groups, drawing)
  done : r.record (.sound draw) before groups = (opened, .ok ())
  written : r.runAt (.sound draw) before = r.write (.sound draw) opened merged report.figure groups.length drawing
  recorded : r.Recorded before opened (r.rowBytes groups) table
  replaced : Replaced (r.prepared {} opened) r.outputPath (Bytes.ofText drawing) (r.runAt (.sound draw) before).files
    directory name

theorem run_finished (accepted : r.accept = .ok ()) (answered : (r.runAt (.sound draw) before).answer = .ok report) :
    ∃ merged groups drawing opened table directory name,
      r.Finished draw before report merged groups drawing opened table directory name := by
  obtain ⟨failure, failed⟩ | ⟨merged, figure, groups, drawing, loaded, drawn,
    ⟨torn, failure, _, _, failed, -⟩ | ⟨opened, done, written⟩⟩ := run_cases r (.sound draw) before accepted
  · rw [failed] at answered
    cases answered
  · rw [failed] at answered
    cases answered
  rw [written] at answered
  obtain ⟨directory, name, _, answer, rfl, replaced⟩ | ⟨_, _, answer, -⟩ :=
    r.write_cases (.sound draw) opened merged figure groups.length drawing
  · cases answered.symm.trans answer
    obtain ⟨table, recorded⟩ := record_records done
    exact ⟨merged, groups, drawing, opened, table, directory, name, loaded, drawn, done, written, recorded,
      written ▸ replaced⟩
  · cases answered.symm.trans answer

theorem write_files (r : Request) (site : Site) (opened : FileSystem) (merged : MergeReport) (figure : Figure)
    (count : Nat) (drawing : String) : (r.write site opened merged figure count drawing).files =
      (opened.replaceFile site.output r.outputPath (Bytes.ofText drawing)).1 := by
  unfold write
  split
  next fs _ same => rw [same]
  next fs same => rw [same]

theorem write_answer_iff {site : Site} {figure : Figure} {count : Nat} :
    (r.write site opened merged figure count drawing).answer = .ok report ↔
      (opened.replaceFile site.output r.outputPath (Bytes.ofText drawing)).2 = .ok () ∧
        report = ⟨merged.loaded, merged.errors.length, merged.records.length, count, r.outputPath, figure⟩ := by
  unfold write
  split
  next fs failure same =>
    rw [same]
    exact iff_of_false (fun h => by cases h) (fun h => by cases h.1)
  next fs same =>
    rw [same]
    exact ⟨fun h => ⟨rfl, (Except.ok.inj h).symm⟩, fun h => congrArg Except.ok h.2.symm⟩

theorem write_shown {site : Site} {figure : Figure} {count : Nat}
    (answered : (r.write site opened merged figure count drawing).answer = .ok report) :
    (r.write site opened merged figure count drawing).shown = if r.showText then figure.summary else "" := by
  unfold write at answered ⊢
  split
  next fs failure same =>
    rw [same] at answered
    cases answered
  next => rfl

theorem record_eq_ok : r.record (.sound draw) before groups = (opened, .ok ()) ↔
    (r.summary = none ∧ opened = before) ∨ ∃ path ∈ r.summary,
      before.append path (r.rowBytes groups (!before.isThere path)) = .ok opened := by
  unfold record
  cases asked : r.summary with
  | none => simp [eq_comm]
  | some path =>
    have rows : SummaryTable.append before path r.aggregation r.sweep groups =
        (before.append path (r.rowBytes groups (!before.isThere path))).mapError (.io path) := rfl
    simp only [SummaryTable.record, Site.sound, rows]
    cases written : before.append path (r.rowBytes groups (!before.isThere path)) <;> simp [written, Except.mapError]

theorem tidy_record (tidy : before.root.Tidy) (done : r.record (.sound draw) before groups = (opened, .ok ())) :
    opened.root.Tidy := by
  obtain ⟨-, rfl⟩ | ⟨path, -, written⟩ := record_eq_ok.mp done
  · exact tidy
  · exact FileSystem.tidy_append tidy written

theorem keepsNames_record (done : r.record (.sound draw) before groups = (opened, .ok ())) :
    before.KeepsNames opened := by
  obtain ⟨-, rfl⟩ | ⟨path, -, written⟩ := record_eq_ok.mp done
  · exact .refl _
  · exact FileSystem.append_keepsNames written

namespace Finished

variable (finished : r.Finished draw before report merged groups drawing opened table directory name)
include finished

theorem changes : ChangesOnly before ((directory ++ [name]) :: table.toList) (r.runAt (.sound draw) before).files :=
  finished.recorded.others finished.replaced

theorem names : before.KeepsNames (r.runAt (.sound draw) before).files :=
  ((keepsNames_record finished.done).trans (FileSystem.makeDirs_keepsNames opened _ _)).trans finished.replaced.names

theorem tidy (tidy : before.root.Tidy) : (r.runAt (.sound draw) before).files.root.Tidy := by
  rw [finished.written, write_files]
  exact FileSystem.tidy_replaceFile _ _ _ (tidy_record tidy finished.done)

theorem solid (place : Location) (touched : place ∈ (directory ++ [name]) :: table.toList) (item : Item)
    (there : before.itemAt? place = some item) : item.isDirectory = false := by
  have ofTable : place ∈ table.toList → item.isDirectory = false := by
    intro mem
    obtain ⟨old, was, -⟩ := (finished.recorded.grows place (Option.mem_toList.mp mem)).content
    obtain ⟨content, -, rfl⟩ := Option.map_eq_some_iff.mp (was.symm.trans there)
    rfl
  by_cases mem : place ∈ table.toList
  · exact ofTable mem
  · obtain rfl | mem' := List.mem_cons.mp touched
    · refine finished.replaced.solid item ((r.prepared_changes {} opened).keeps List.not_mem_nil ?_)
      exact finished.recorded.changes.keeps mem there
    · exact ofTable mem'

theorem proper {up : Location} {last : Bytes} (away : up ++ [last] ∉ (directory ++ [name]) :: table.toList)
    (absent : before.itemAt? (up ++ [last]) = none)
    (there : (r.runAt (.sound draw) before).files.itemAt? (up ++ [last]) ≠ none) : Path.Proper last := by
  obtain ⟨notOutput, notTable⟩ := not_or.mp (mt List.mem_cons.mpr away)
  rw [finished.replaced.items, if_neg notOutput] at there
  have same := finished.recorded.items (up ++ [last]) (mt Option.mem_toList.mpr notTable)
  exact FileSystem.makeDirs_proper _ _ (same.trans absent) there

theorem leaves : r.Leaves before (r.runAt (.sound draw) before).files directory name := by
  have shape : (r.ready before).SameShape (r.prepared {} opened) := finished.recorded.withTable_shape.makeDirs _ _
  obtain ⟨ends, solid, workDir, items, -⟩ := finished.replaced
  refine ⟨ends.mono shape.symm.workDir shape.symm.keepsAt, fun item there => ?_, workDir.trans shape.workDir,
    ⟨_, (items _).trans (if_pos rfl)⟩, fun other apart => ?_⟩
  · obtain same | ⟨_, _, was, -⟩ := Item.shape_cases (shape.items (directory ++ [name]))
    · exact solid item (same.trans there)
    · cases was.symm.trans there
      rfl
  · rw [items, if_neg apart]
    exact shape.items other

theorem table_eq {path : String} {location : Location} (asked : path ∈ r.summary)
    (leads : (r.runAt (.sound draw) before).files.LeadsTo path location) (apart : location ≠ directory ++ [name]) :
    table = some location := by
  obtain ⟨found, isTable⟩ : ∃ found, table = some found := by
    have some := finished.recorded.asked
    rw [Option.mem_def.mp asked] at some
    exact Option.isSome_iff_exists.mp some
  obtain ⟨path', asked', bytes, -, goes⟩ := finished.recorded.written found isTable
  cases asked.symm.trans asked'
  have goes' := (r.prepared_changes {} opened).leadsTo goes
  cases goes'.symm.trans (finished.replaced.leadsTo_before apart leads)
  exact isTable

variable (clear : r.KeepsClear before)
include clear

theorem leadsTo_output : (r.runAt (.sound draw) before).files.LeadsTo r.outputPath (directory ++ [name]) :=
  finished.leaves.fills.leadsTo_filled (clear.entry finished.leaves).1

theorem leadsTo_table {path : String} (asked : path ∈ r.summary) : ∃ location,
    (r.runAt (.sound draw) before).files.LeadsTo path location ∧ location ≠ directory ++ [name] ∧
      table = some location ∧ r.Unsought (r.cleared before) location := by
  obtain ⟨location, leads, unsought⟩ := clear.table path asked
  have leads' := finished.leaves.fills.leadsTo leads
  have apart : location ≠ directory ++ [name] := by
    rintro rfl
    obtain ⟨node, there⟩ := leads.there
    cases finished.leaves.fills.absent.symm.trans (congrArg (Option.map Node.item) there)
  exact ⟨location, leads', apart, finished.table_eq asked leads' apart, unsought⟩

theorem spares (tidy : before.root.Tidy) (spelled : before.root.Spelled) :
    r.Spares before ((directory ++ [name]) :: table.toList) (r.runAt (.sound draw) before).files := by
  have tidy' := finished.tidy tidy
  refine ⟨finished.changes, finished.names, tidy, tidy', spelled, finished.solid, finished.proper, ?_, fun path =>
    clear.listsNew_after finished.leaves tidy tidy'⟩
  intro place touched
  refine clear.unsought finished.leaves tidy tidy' ?_
  obtain rfl | isTable := List.mem_cons.mp touched
  · exact (clear.entry finished.leaves).2
  · obtain ⟨path, asked, -⟩ := finished.recorded.written place (Option.mem_toList.mp isTable)
    obtain ⟨location, -, -, same, unsought⟩ := finished.leadsTo_table clear asked
    cases (Option.mem_toList.mp isTable).symm.trans same
    exact unsought

theorem rows {path : String} (asked : path ∈ r.summary) :
    ∃ place, (r.runAt (.sound draw) before).files.LeadsTo path place ∧ place ≠ directory ++ [name] ∧
      (r.runAt (.sound draw) before).files.itemAt? place = some (.file (((before.readFile path).toOption.getD []) ++
        r.rowBytes groups (before.readFile path).toOption.isNone)) := by
  obtain ⟨place, leads, differ, isTable, -⟩ := finished.leadsTo_table clear asked
  obtain ⟨⟨path', asked', content, goes⟩, old, was, is⟩ :=
    finished.recorded.grows_after finished.replaced isTable differ
  cases asked.symm.trans asked'
  refine ⟨place, leads, differ, ?_⟩
  rw [FileSystem.readFile_of_writable goes was]
  exact is

end Finished

end Finished

section Second

/-- Rows are added to the table at the summary path, and nothing else is different. -/
structure Extends (r : Request) (fs opened : FileSystem) (groups : List (Group Float)) : Prop where
  workDir : opened.workDir = fs.workDir
  keeps : ∀ place, Trail.KeepsAt fs.itemAt? opened.itemAt? place
  rows : ∀ path ∈ r.summary, ∀ place content, fs.LeadsTo path place → fs.itemAt? place = some (.file content) →
    opened.itemAt? place = some (.file (content ++ r.rowBytes groups false))
  others : ∀ place, (∀ path ∈ r.summary, ¬ fs.LeadsTo path place) → opened.itemAt? place = fs.itemAt? place

variable {after : FileSystem} {groups : List (Group Float)}

theorem record_extends (draw : Figure → Except String String) (groups : List (Group Float))
    (there : ∀ path ∈ r.summary, ∃ place content, after.LeadsTo path place ∧
      after.itemAt? place = some (.file content)) :
    ∃ opened, r.record (.sound draw) after groups = (opened, .ok ()) ∧ r.Extends after opened groups := by
  simp only [record_eq_ok]
  cases asked : r.summary with
  | none =>
    refine ⟨after, .inl ⟨rfl, rfl⟩, rfl, fun _ => .of_same fun _ => id, fun path mem => ?_, fun _ _ => rfl⟩
    cases asked.symm.trans mem
  | some path =>
    obtain ⟨place, content, leads, file⟩ := there path asked
    obtain ⟨opened, done, appended⟩ :=
      FileSystem.append_of_file leads file (r.rowBytes groups (!after.isThere path))
    refine ⟨opened, .inr ⟨path, rfl, done⟩, appended.workDir,
      FileSystem.keepsAt_of_file appended.before appended.items, ?_, ?_⟩
    · intro path' mem place' content' leads' file'
      cases asked.symm.trans mem
      cases leads.symm.trans leads'
      cases file.symm.trans file'
      rw [appended.items, if_pos rfl, appended.known]
      rfl
    · intro other away
      rw [appended.items, if_neg]
      rintro rfl
      exact away path asked leads

variable {report : RunReport} {merged : MergeReport} {drawing : String} {opened : FileSystem} {directory : Location}
  {name : Bytes} {table : Option Location}

/-- What the second run writes: more rows, and then the same drawing in the same place. -/
structure Rewrites (r : Request) (draw : Figure → Except String String) (after opened' : FileSystem)
    (drawing : String) (groups : List (Group Float)) (directory : Location) (name : Bytes) : Prop where
  done : r.record (.sound draw) after groups = (opened', .ok ())
  extends_ : r.Extends after opened' groups
  written : (opened'.replaceFile {} r.outputPath (Bytes.ofText drawing)).2 = .ok ()
  file : ∃ content, (r.prepared {} opened').itemAt? (directory ++ [name]) = some (.file content)
  replaced : Replaced (r.prepared {} opened') r.outputPath (Bytes.ofText drawing)
    (opened'.replaceFile {} r.outputPath (Bytes.ofText drawing)).1 directory name

theorem Finished.rewrites (finished : r.Finished draw before report merged groups drawing opened table directory name)
    (clear : r.KeepsClear before) :
    ∃ opened', r.Rewrites draw (r.runAt (.sound draw) before).files opened' drawing groups directory name := by
  have leads := finished.leadsTo_output clear
  obtain ⟨-, ends⟩ := finished.replaced.again leads
  have file := (finished.replaced.items (directory ++ [name])).trans (if_pos rfl)
  obtain ⟨opened', done, extended⟩ := record_extends draw groups fun path asked => by
    obtain ⟨place, goes, -, there⟩ := finished.rows clear asked
    exact ⟨place, _, goes, there⟩
  have file' : opened'.itemAt? (directory ++ [name]) = some (.file (Bytes.ofText drawing)) := by
    refine (extended.others _ fun path asked goes => ?_).trans file
    obtain ⟨place, goes', differ, -⟩ := finished.rows clear asked
    cases goes.symm.trans goes'
    exact differ rfl
  obtain ⟨written, replaced⟩ := FileSystem.replaceFile_of_file (ends.mono extended.workDir extended.keeps)
    (leads.mono extended.workDir extended.keeps) file' (Bytes.ofText drawing)
  exact ⟨opened', done, extended, written, ⟨_, (r.prepared_changes {} opened').keeps List.not_mem_nil file'⟩,
    replaced⟩

namespace Rewrites

variable {opened' : FileSystem} (rewrites : r.Rewrites draw after opened' drawing groups directory name)
include rewrites

theorem readFile_output : (opened'.replaceFile {} r.outputPath (Bytes.ofText drawing)).1.readFile r.outputPath =
    .ok (Bytes.ofText drawing) := by
  refine rewrites.replaced.readFile fun target link => ?_
  obtain ⟨content, file⟩ := rewrites.file
  cases file.symm.trans link

theorem readFile_table {path : String} (asked : path ∈ r.summary) {place : Location} {content : Bytes}
    (leads : after.LeadsTo path place) (there : after.itemAt? place = some (.file content))
    (differ : place ≠ directory ++ [name]) :
    (opened'.replaceFile {} r.outputPath (Bytes.ofText drawing)).1.readFile path =
      .ok (content ++ r.rowBytes groups false) := by
  have made := r.prepared_changes {} opened'
  obtain ⟨content', file⟩ := rewrites.file
  have goes := made.leadsTo (leads.mono rewrites.extends_.workDir rewrites.extends_.keeps)
  refine FileSystem.readFile_eq_ok_iff.mpr ⟨place, ?_, ?_⟩
  · exact goes.mono rewrites.replaced.workDir (rewrites.replaced.keepsAt file)
  · rw [rewrites.replaced.items, if_neg differ]
    exact made.keeps List.not_mem_nil (rewrites.extends_.rows path asked place content leads there)

end Rewrites

end Second

/-- A run that keeps clear of its results can be repeated, however figures are drawn. -/
theorem run_reproduces (r : Request) (draw : Figure → Except String String) (before : FileSystem) (report : RunReport)
    (tidy : before.root.Tidy) (spelled : before.root.Spelled) (accepted : r.accept = .ok ())
    (clear : r.KeepsClear before) (answered : (r.runAt (.sound draw) before).answer = .ok report) :
    let after := (r.runAt (.sound draw) before).files
    (r.runAt (.sound draw) after).answer = .ok report ∧
    (r.runAt (.sound draw) after).shown = (r.runAt (.sound draw) before).shown ∧
    ∃ merged groups drawing, r.loadResults before = .ok merged ∧
      r.draw (.sound draw) merged.records = .ok (report.figure, groups, drawing) ∧
      after.readFile r.outputPath = .ok (Bytes.ofText drawing) ∧
      (r.runAt (.sound draw) after).files.readFile r.outputPath = .ok (Bytes.ofText drawing) ∧
      ∀ path ∈ r.summary, ∃ content,
        after.readFile path = .ok content ∧
        content = (before.readFile path).toOption.getD [] ++
          r.rowBytes groups (before.readFile path).toOption.isNone ∧
        (r.runAt (.sound draw) after).files.readFile path = .ok (content ++ r.rowBytes groups false) := by
  intro after
  obtain ⟨merged, groups, drawing, opened, table, directory, name, finished⟩ := run_finished accepted answered
  have undisturbed := clear.undisturbed finished.leaves tidy (finished.tidy tidy)
  have refinds := (finished.spares clear tidy spelled).refinds undisturbed
  obtain ⟨merged', loaded, agrees⟩ := refinds.loadResults_repeats (sound_of_accept accepted) merged finished.loaded
  obtain ⟨opened', rewrites⟩ := finished.rewrites clear
  have first := finished.written
  have second : r.runAt (.sound draw) after =
      r.write (.sound draw) opened' merged' report.figure groups.length drawing := by
    rw [run_of_draw accepted loaded (agrees.records ▸ finished.drawn), rewrites.done]
  have answered' : (r.runAt (.sound draw) after).answer = .ok report := by
    rw [second]
    refine write_answer_iff.mpr ⟨rewrites.written, ?_⟩
    rw [agrees.loaded, agrees.failed, agrees.records]
    rw [first] at answered
    exact (write_answer_iff.mp answered).2
  have shown : (r.runAt (.sound draw) after).shown = (r.runAt (.sound draw) before).shown := by
    rw [second] at answered' ⊢
    rw [first] at answered ⊢
    rw [write_shown answered', write_shown answered]
  have files := (congrArg RunResult.files second).trans (write_files ..)
  refine ⟨answered', shown, merged, groups, drawing, finished.loaded, finished.drawn, ?_, ?_, fun path asked => ?_⟩
  · exact FileSystem.readFile_eq_ok_iff.mpr ⟨_, finished.leadsTo_output clear,
      (finished.replaced.items _).trans (if_pos rfl)⟩
  · rw [files]
    exact rewrites.readFile_output
  · obtain ⟨place, leads, differ, there⟩ := finished.rows clear asked
    refine ⟨_, FileSystem.readFile_eq_ok_iff.mpr ⟨place, leads, there⟩, rfl, ?_⟩
    rw [files]
    exact rewrites.readFile_table asked leads there differ

def collecting : Request where
  roots := ["results"]
  mode := .subfolder
  output := some "plots/out.svg"
  summary := some "summary.csv"

def collection : FileSystem where
  root := .dir [("results", .dir [("run",
      .dir [("a.csv", .file (Bytes.ofText "Queuetype,Thread Count,Throughput\nA,2,3.5\n"))])]),
    ("summary.csv", .file (Bytes.ofText "Variant\n"))]

theorem collection_spelled : collection.root.Spelled := by
  refine Node.spelled_dir (by decide) ?_
  simp only [List.forall_mem_cons, List.not_mem_nil, false_implies, implies_true, and_true]
  refine ⟨Node.spelled_dir (by decide) ?_, Node.spelled_file _⟩
  simp only [List.forall_mem_cons, List.not_mem_nil, false_implies, implies_true, and_true]
  exact Node.spelled_dir (by decide) (by simp [Node.spelled_file])

theorem unsought_of_forall {fs : FileSystem} {location : Location}
    (away : ∀ path ∈ r.sought fs, (fs.place false path).toOption.all fun place => !place.location.isPrefixOf location) :
    r.Unsought fs location := by
  intro path place sought found above
  have clear := away path (seeks_iff.mp sought)
  rw [found] at clear
  simp [Except.toOption, List.isPrefixOf_iff_prefix.mpr above] at clear

theorem collecting_keepsClear : collecting.KeepsClear collection := by
  have there : ∀ path ∈ collecting.sought (collecting.cleared collection),
      collection.isThere path = true ∧ ((collecting.cleared collection).place false path).toOption.all fun place =>
        [Bytes.ofText "results"].isPrefixOf place.location := by decide +kernel
  refine ⟨⟨["plots"], "out.svg", by decide +kernel, unsought_of_forall (by decide +kernel)⟩, ?_, ?_, ?_, ?_, ?_⟩
  · rintro _ ⟨⟩
    exact ⟨["summary.csv"], by decide +kernel, unsought_of_forall (by decide +kernel)⟩
  · have kept : ∀ path ∈ collecting.sought collection, (collecting.cleared collection).isThere path = true := by
      decide +kernel
    exact fun path sought _ => kept path (seeks_iff.mp sought)
  · exact fun root given _ => (there root (seeks_iff.mp (.inl given))).1
  · exact fun path place below _ => .inl (there path (seeks_iff.mp (.inr below))).1
  · -- Nothing is made in the root.
    have same : (collecting.cleared collection).root.at? ["results"] = collection.root.at? ["results"] := by rfl
    obtain ⟨node, old⟩ : ∃ node, collection.root.at? ["results"] = some node := ⟨_, rfl⟩
    intro path walks location leads steps absent made
    have inside := (there path (seeks_iff.mp (walks.imp_left fun flat => flat.2.2))).2
    rw [leads] at inside
    obtain ⟨more, rfl⟩ := List.isPrefixOf_iff_prefix.mp inside
    rw [List.append_assoc, FileSystem.itemAt?_append (same.trans old)] at made
    rw [List.append_assoc, FileSystem.itemAt?_append old] at absent
    exact absurd absent made

theorem run_reproduces_collecting :
    collection.root.Tidy ∧ collection.root.Spelled ∧ collecting.accept = .ok () ∧ collecting.KeepsClear collection ∧
      ∃ report, (collecting.runAt (.sound fun figure => .ok (Drawing.svg figure)) collection).answer = .ok report ∧
        report.records = 1 ∧
        (collecting.runAt (.sound fun figure => .ok (Drawing.svg figure))
          (collecting.runAt (.sound fun figure => .ok (Drawing.svg figure)) collection).files).answer = .ok report := by
  have tidy : collection.root.Tidy := by
    have apart : Bytes.ofText "results" ≠ Bytes.ofText "summary.csv" := by decide
    simp [collection, apart]
  have accepted : collecting.accept = .ok () := by rfl
  have counted : (collecting.runAt (.sound fun figure => .ok (Drawing.svg figure)) collection).answer.toOption.map
      (·.records) = some 1 := by decide +kernel
  obtain ⟨report, answered, one⟩ := Option.map_eq_some_iff.mp counted
  have answered := toOption_eq_some.mp answered
  exact ⟨tidy, collection_spelled, accepted, collecting_keepsClear, report, answered, one,
    (run_reproduces collecting _ collection report tidy collection_spelled accepted collecting_keepsClear answered).1⟩

/-- No table is written, the drawing is not where results are looked for, neither before a run nor after it, and yet
the same request answers otherwise after it. -/
structure Unreproduced (r : Request) (fs : FileSystem) : Prop where
  tidy : fs.root.Tidy
  spelled : fs.root.Spelled
  accepted : r.accept = .ok ()
  tableless : r.summary = none
  apart : ∃ directory name, (r.ready fs).Ends r.outputPath directory name false ∧ r.Unsought fs (directory ++ [name]) ∧
    r.Unsought (r.run fs).files (directory ++ [name])
  differs : ∃ report, (r.run fs).answer = .ok report ∧ (r.run (r.run fs).files).answer ≠ .ok report

def csv : Node :=
  .file (Bytes.ofText "Queuetype,Thread Count,Throughput\nA,2,3.5\n")

/-- The second root is missing, and the way to the output goes through it. -/
def reviving : Request where
  roots := ["a.csv", "new"]
  output := some "new/../out.svg"

def single : FileSystem where
  root := .dir [("a.csv", csv)]

/-- The root is found through a link, and the drawing takes the place of the link. -/
def relinking : Request where
  roots := ["link/a.csv"]
  output := some "link"

def linked : FileSystem where
  root := .dir [("data", .dir [("a.csv", csv)]), ("link", .link "data")]

/-- The way to the output goes over the link that the drawing replaces. -/
def crossing : Request where
  roots := ["data/a.csv"]
  output := some "link/../link"

/-- A link in the second root leads nowhere until the directory of the output is there. -/
def branching : Request where
  roots := ["one", "two"]
  variants := ["One", "Two"]
  mode := .variant
  output := some "plots/out.svg"

def dangling : FileSystem where
  root := .dir [("one", .dir [("run", .dir [("a.csv", csv)])]), ("two", .dir [("later", .link "../plots/../data")]),
    ("data", .dir [("b.csv", .file [])])]

theorem unreproduced_of_counts {fs : FileSystem} (directory : Location) (name : Bytes) (counts : Nat × Nat)
    (tidy : fs.root.Tidy) (spelled : fs.root.Spelled) (accepted : r.accept = .ok ()) (tableless : r.summary = none)
    (found : ((r.ready fs).target r.outputPath .deviceBusy).toOption.map
      (fun found => (found.1, found.2.1, found.2.2.2)) = some (directory, name, false))
    (away : ∀ tree ∈ [fs, (r.run fs).files], ∀ path ∈ r.sought tree,
      (tree.place false path).toOption.all fun place => !place.location.isPrefixOf (directory ++ [name]))
    (answered : (r.run fs).answer.toOption.map (fun report => (report.loaded, report.failed)) = some counts)
    (differ : (r.run (r.run fs).files).answer.toOption.map (fun report => (report.loaded, report.failed)) ≠
      some counts) : r.Unreproduced fs := by
  obtain ⟨report, first, rfl⟩ := Option.map_eq_some_iff.mp answered
  obtain ⟨⟨up, last, old, _⟩, goes, same⟩ := Option.map_eq_some_iff.mp found
  cases same
  have ends := (FileSystem.target_eq_ok_iff.mp (toOption_eq_some.mp goes)).1
  refine ⟨tidy, spelled, accepted, tableless, ⟨up, last, ends,
    unsought_of_forall (away fs List.mem_cons_self),
    unsought_of_forall (away _ (List.mem_cons_of_mem _ List.mem_cons_self))⟩, report, toOption_eq_some.mp first, ?_⟩
  intro same
  rw [same] at differ
  exact differ rfl

theorem linked_spelled : linked.root.Spelled := by
  refine Node.spelled_dir (by decide) ?_
  simp only [List.forall_mem_cons, List.not_mem_nil, false_implies, implies_true, and_true]
  exact ⟨Node.spelled_dir (by decide) (by simp [csv, Node.spelled_file]), Node.spelled_link _⟩

theorem dangling_spelled : dangling.root.Spelled := by
  refine Node.spelled_dir (by decide) ?_
  simp only [List.forall_mem_cons, List.not_mem_nil, false_implies, implies_true, and_true]
  refine ⟨Node.spelled_dir (by decide) ?_, Node.spelled_dir (by decide) (by simp [Node.spelled_link]),
    Node.spelled_dir (by decide) (by simp [Node.spelled_file])⟩
  simp only [List.forall_mem_cons, List.not_mem_nil, false_implies, implies_true, and_true]
  exact Node.spelled_dir (by decide) (by simp [csv, Node.spelled_file])

/-- A missing root that the first run makes is no failure of the second one; a root that is found through the link
that the drawing replaces is lost; an output path over the link that it replaces leads nowhere; and a subfolder comes
about where a link leads somewhere at last. -/
theorem run_not_reproduced : reviving.Unreproduced single ∧ relinking.Unreproduced linked ∧
    crossing.Unreproduced linked ∧ branching.Unreproduced dangling := by
  refine ⟨unreproduced_of_counts [] "out.svg" (1, 1) (by simp [single, csv]) ?_ (by rfl) rfl ?_ ?_ ?_ ?_,
    unreproduced_of_counts [] "link" (1, 0) (by simp [linked, csv, Node.Tidy.link]) linked_spelled (by rfl) rfl
      ?_ ?_ ?_ ?_,
    unreproduced_of_counts [] "link" (1, 0) (by simp [linked, csv, Node.Tidy.link]) linked_spelled (by rfl) rfl
      ?_ ?_ ?_ ?_,
    unreproduced_of_counts ["plots"] "out.svg" (1, 0) (by simp [dangling, csv, Node.Tidy.link]) dangling_spelled
      (by rfl) rfl ?_ ?_ ?_ ?_⟩
  · exact Node.spelled_dir (by decide) (by simp [csv, Node.spelled_file])
  all_goals decide +kernel

end Request

end SweepPlot
