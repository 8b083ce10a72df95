import SweepPlot.CommandLine.Tool
import SweepPlot.Proofs.Run.Answer
import SweepPlot.Proofs.Run.Effects
set_option autoImplicit false

namespace SweepPlot

namespace Request

variable {r : Request} {fs : FileSystem}

/-- The failure is one of the run, and not one of the request by itself. -/
def PastAcceptance (failure : Failure) : Prop :=
  ∀ fault, failure ≠ .misconfigured (.request fault)

theorem io_pastAcceptance (path : Bytes) (cause : IoCause) : PastAcceptance (.io path cause) := by
  rintro fault ⟨⟩

theorem LoadFailure.pastAcceptance {failure : Failure} (h : LoadFailure failure) : PastAcceptance failure := by
  rintro fault rfl
  obtain ofFile | ⟨_, other⟩ := h
  · cases ofFile
  · cases other

theorem checkList_pastAcceptance (d : Dataset) (name : String) (queues : List String) :
    FailsOnly PastAcceptance (checkList d name queues) := by
  unfold checkList
  dsimp only
  split
  · exact .ok ()
  · exact .error fun fault h => by cases h

theorem figure_pastAcceptance (r : Request) (d : Dataset) : FailsOnly PastAcceptance (r.figure d) := by
  have named : FailsOnly PastAcceptance (r.checkQueues d) :=
    (checkList_pastAcceptance d _ _).bind fun _ =>
      (checkList_pastAcceptance d _ _).bind fun _ => checkList_pastAcceptance d _ _
  have rendered : FailsOnly PastAcceptance ((r.view d).render (r.figureLayout d) (r.aggregation.groups d)) := by
    refine (View.render_fails (r.view_styled d) _).mono ?_
    rintro failure ⟨_, rfl⟩ fault h
    cases h
  refine named.bind fun _ => rendered.bind fun figure => ?_
  split
  · exact .error fun fault h => by cases h
  · exact .ok _

theorem draw_pastAcceptance (r : Request) (site : Site) (d : Dataset) : FailsOnly PastAcceptance (r.draw site d) := by
  refine (r.figure_pastAcceptance d).bind fun (figure, groups) => ?_
  have drawn : FailsOnly PastAcceptance ((site.draw figure).mapError Failure.render) :=
    FailsOnly.mapError fun cause fault h => by cases h
  exact drawn.bind fun drawing => .ok _

theorem tear_pastAcceptance (path left : Bytes) {failure : Failure} (past : PastAcceptance failure) :
    FailsOnly PastAcceptance (SummaryTable.tear fs path left failure).2 := by
  unfold SummaryTable.tear
  split
  · exact .error (io_pastAcceptance path _)
  · exact .error past

theorem record_pastAcceptance (r : Request) (site : Site) (fs : FileSystem) (groups : List (Group Float)) :
    FailsOnly PastAcceptance (r.record site fs groups).2 := by
  unfold record
  split
  · exact .ok ()
  · unfold SummaryTable.record
    split
    · split
      next failure failed => exact .error (FailsOnly.mapError (io_pastAcceptance _) failure failed)
      next => exact .ok ()
    · exact .error (io_pastAcceptance _ _)
    · exact tear_pastAcceptance _ _ fun fault h => by cases h
    · exact tear_pastAcceptance _ _ (io_pastAcceptance _ _)

theorem write_pastAcceptance (r : Request) (site : Site) (opened : FileSystem) (merged : MergeReport) (figure : Figure)
    (count : Nat) (drawing : String) : FailsOnly PastAcceptance (r.write site opened merged figure count drawing).answer := by
  obtain ⟨_, _, report, answer, -⟩ | ⟨path, cause, answer, -⟩ := r.write_cases site opened merged figure count drawing
  · rw [answer]
    exact .ok report
  · rw [answer]
    exact .error (io_pastAcceptance path cause)

theorem accept_eq_error_iff {fault : RequestFault} :
    r.accept = .error (.misconfigured (.request fault)) ↔ r.validate = .error fault := by
  unfold accept
  cases r.validate <;> simp [Except.mapError]

theorem execute_pastAcceptance (accepted : r.accept = .ok ()) (site : Site) (fs : FileSystem) :
    FailsOnly PastAcceptance (r.execute site fs).answer := by
  unfold execute
  split
  next failure failed =>
    exact .error ((sound_of_accept accepted).loadResults_fails failure failed).pastAcceptance
  next merged loaded =>
    split
    next failure failed => exact .error (r.draw_pastAcceptance site _ failure failed)
    next figure groups drawing drawn =>
      have recorded := r.record_pastAcceptance site fs groups
      split
      next failure failed => exact .error (recorded failure (by rw [failed]))
      next => exact r.write_pastAcceptance site _ merged figure _ drawing

/-- A run answers that the request is at fault exactly if the request is not valid. -/
theorem run_rejects_iff (r : Request) (fs : FileSystem) (fault : RequestFault) :
    (r.run fs).answer = .error (.misconfigured (.request fault)) ↔ r.validate = .error fault := by
  rw [← accept_eq_error_iff]
  unfold run runAt
  cases accepted : r.accept with
  | error failure => simp
  | ok => exact iff_of_false (fun h => r.execute_pastAcceptance accepted {} fs _ h fault rfl) (fun h => by cases h)

end Request

namespace CommandLine

/-- The request is the base with every field replaced whose flag is given; a list is given if it has items, and a
switch can only be turned on. -/
structure Overrides (f : Flags) (base r : Request) : Prop where
  roots : r.roots = if f.roots = [] then base.roots else f.roots
  variants : r.variants = if f.variants = [] then base.variants else f.variants
  sweep : r.sweep = f.sweep.getD base.sweep
  layout : r.layout = f.layout.getD base.layout
  mode : r.mode = f.mode.getD base.mode
  metric : r.metric = f.metric.getD base.metric
  recursive : r.recursive = true ↔ base.recursive = true ∨ f.recursive = true
  allow : r.filter.allow = if f.queues = [] then base.filter.allow else f.queues
  highlight : r.filter.highlight = if f.highlight = [] then base.filter.highlight else f.highlight
  ignore : r.filter.ignore = if f.ignore = [] then base.filter.ignore else f.ignore
  right : r.right = if f.right = [] then base.right else f.right
  ticks : r.ticks = if f.ticks = [] then base.ticks else f.ticks
  perTrial : r.perTrial = true ↔ base.perTrial = true ∨ f.perTrial = true
  exclude : r.choice.exclude = base.choice.exclude
  start : r.choice.start = if f.start = none then base.choice.start else f.start
  errorMode : r.errorMode = if f.failFast = true then .failFast else base.errorMode
  output : r.output = if f.output = none then base.output else f.output
  showText : r.showText = true ↔ base.showText = true ∨ f.showText = true
  summary : r.summary = if f.summary = none then base.summary else f.summary

section Override

variable {fs : FileSystem} {f : Flags} {base r : Request}

theorem given_eq {α : Type} (flag standard : List α) [DecidableEq α] :
    given flag standard = if flag = [] then standard else flag := by
  cases flag <;> rfl

theorem or_eq {α : Type} (flag standard : Option α) [DecidableEq α] :
    flag.or standard = if flag = none then standard else flag := by
  cases flag <;> rfl

theorem overridden_overrides (f : Flags) (base : Request) : Overrides f base (overridden f base) where
  roots := given_eq _ _
  variants := given_eq _ _
  sweep := rfl
  layout := rfl
  mode := rfl
  metric := rfl
  recursive := Bool.or_eq_true_iff
  allow := given_eq _ _
  highlight := given_eq _ _
  ignore := given_eq _ _
  right := given_eq _ _
  ticks := given_eq _ _
  perTrial := Bool.or_eq_true_iff
  exclude := rfl
  start := or_eq _ _
  errorMode := rfl
  output := or_eq _ _
  showText := Bool.or_eq_true_iff
  summary := or_eq _ _

theorem eq_or_of_iff {new old given : Bool} (h : new = true ↔ old = true ∨ given = true) : new = (old || given) :=
  Bool.eq_iff_iff.mpr (h.trans (Bool.or_eq_true_iff).symm)

theorem overrides_iff : Overrides f base r ↔ r = overridden f base := by
  constructor
  · intro h
    obtain ⟨roots, variants, sweep, layout, mode, metric, recursive, ⟨allow, highlight, ignore⟩, right, ticks, perTrial,
      ⟨exclude, start⟩, errorMode, output, showText, summary⟩ := r
    simp only [overridden, Request.mk.injEq, Filter.mk.injEq, FileChoice.mk.injEq, given_eq, or_eq]
    exact ⟨h.roots, h.variants, h.sweep, h.layout, h.mode, h.metric, eq_or_of_iff h.recursive,
      ⟨h.allow, h.highlight, h.ignore⟩, h.right, h.ticks, eq_or_of_iff h.perTrial, ⟨h.exclude, h.start⟩,
      h.errorMode, h.output, eq_or_of_iff h.showText, h.summary⟩
  · rintro rfl
    exact overridden_overrides f base

theorem load_of_parsed {path text : String} {format : RequestFormat} (found : fs.readText path = .ok text)
    (parsed : Request.ofText? format text = some base) :
    Request.load fs format path = (base.validate.mapError .invalid).map fun _ => base := by
  unfold Request.load
  rw [found]
  dsimp only
  rw [parsed]
  dsimp only
  cases base.validate <;> rfl

/-- With a request file the flags act on what the file holds, once that is found valid. -/
theorem run_config {args : List String} {path text : String} (given : read {} args = .flags f) (runs : f.sample = none)
    (config : f.config = some path) (found : fs.readText path = .ok text)
    (parsed : Request.ofText? (formatOf path) text = some base) :
    run fs args = match base.validate with
      | .error fault => failed fs fault.message
      | .ok () => runRequest fs (overridden f base) := by
  unfold run
  rw [given]
  dsimp only
  unfold runFlags requestOf baseRequest
  rw [runs, config]
  dsimp only
  rw [load_of_parsed found parsed]
  cases base.validate <;> rfl

theorem runRequest_of_invalid {fault : RequestFault} (invalid : r.validate = .error fault) :
    runRequest fs r = failed fs (Failure.misconfigured (.request fault)).message := by
  have refused : r.run fs = ⟨fs, "", .error (.misconfigured (.request fault))⟩ := by
    unfold Request.run Request.runAt
    rw [Request.accept_eq_error_iff.mpr invalid]
  unfold runRequest
  rw [refused]

end Override

theorem run_overrides (fs : FileSystem) (args : List String) (f : Flags) (path text : String) (base : Request)
    (given : read {} args = .flags f) (runs : f.sample = none) (config : f.config = some path)
    (found : fs.readText path = .ok text) (parsed : Request.ofText? (formatOf path) text = some base) :
    ∃ r, (∀ other, Overrides f base other ↔ other = r) ∧
      (base.validate = .ok () → run fs args = runRequest fs r ∧
        ∀ fault, ((r.run fs).answer = .error (.misconfigured (.request fault)) ↔ r.validate = .error fault) ∧
          (r.validate = .error fault →
            run fs args = failed fs (Failure.misconfigured (.request fault)).message)) ∧
      (∀ fault, base.validate = .error fault → run fs args = failed fs fault.message) := by
  have answer := run_config given runs config found parsed
  refine ⟨overridden f base, fun other => overrides_iff, fun valid => ?_, fun fault invalid => ?_⟩
  · rw [valid] at answer
    refine ⟨answer, fun fault => ⟨Request.run_rejects_iff _ fs fault, fun invalid => ?_⟩⟩
    exact answer.trans (runRequest_of_invalid invalid)
  · rw [invalid] at answer
    exact answer

def withRequestFiles : FileSystem where
  root := .dir [("whole.toml", .file (Bytes.ofText "roots = [\"run.csv\"]\nlayout = \"combined\"\n")),
    ("part.toml", .file (Bytes.ofText "layout = \"combined\"\n")),
    ("run.csv", .file (Bytes.ofText "Queuetype,Thread Count,Throughput\nmq,2,3\n"))]

theorem run_overrides_whole :
    ∃ r, (∀ other, Overrides { layout := some .single, showText := true, config := some "whole.toml" }
        { roots := ["run.csv"], layout := .combined } other ↔ other = r) ∧
      run withRequestFiles ["--config", "whole.toml", "--layout", "single", "--show"] = runRequest withRequestFiles r := by
  obtain ⟨r, settled, accepted, -⟩ := run_overrides withRequestFiles
    ["--config", "whole.toml", "--layout", "single", "--show"]
    { layout := some .single, showText := true, config := some "whole.toml" } "whole.toml"
    "roots = [\"run.csv\"]\nlayout = \"combined\"\n" { roots := ["run.csv"], layout := .combined } (by decide +kernel) rfl rfl
    (toOption_eq_some.mp (by decide +kernel)) (by decide +kernel)
  exact ⟨r, settled, (accepted (by rfl)).1⟩

/-- Flags name the roots that the request file lacks, and the tool refuses the file all the same; asked for a sample
it runs nothing. -/
theorem run_overrides_not_always :
    (∃ f base r, read {} ["--config", "part.toml", "run.csv"] = .flags f ∧ f.config = some "part.toml" ∧
      (∃ text, withRequestFiles.readText "part.toml" = .ok text ∧
        Request.ofText? (formatOf "part.toml") text = some base) ∧
      Overrides f base r ∧ r.validate = .ok () ∧ (runRequest withRequestFiles r).code = 0 ∧
      run withRequestFiles ["--config", "part.toml", "run.csv"] =
        failed withRequestFiles "at least one input root is required") ∧
    (run withRequestFiles ["--config", "whole.toml", "--generate-config", "sample.toml"]).out =
      "Sample request written to sample.toml\n" := by
  have given : read {} ["--config", "part.toml", "run.csv"] =
      .flags { roots := ["run.csv"], config := some "part.toml" } := by decide +kernel
  have found : withRequestFiles.readText "part.toml" = .ok "layout = \"combined\"\n" :=
    toOption_eq_some.mp (by decide +kernel)
  have parsed : Request.ofText? (formatOf "part.toml") "layout = \"combined\"\n" = some { layout := .combined } := by
    decide +kernel
  exact ⟨⟨_, _, _, given, rfl, ⟨_, found, parsed⟩, overridden_overrides _ _, by rfl, by decide +kernel,
    run_config given rfl rfl found parsed⟩, by decide +kernel⟩

end CommandLine

end SweepPlot
