import SweepPlot.Proofs.Merge.Collecting
import SweepPlot.Proofs.Table.Text
set_option autoImplicit false

namespace SweepPlot

/-- A chosen file with the label of its root and the displayed name of its directory in the root. -/
structure Reading where
  variant : String
  subfolder : String
  path : Bytes
  deriving DecidableEq, Repr

namespace Reading

variable (required : List Field) (fs : FileSystem) (reading : Reading)

def stamp (r : Record Float) : Record Float :=
  { r with
    source := some reading.path
    subfolder := some reading.subfolder
    variant := some reading.variant }

def records : Dataset :=
  match ResultFile.parse fs required reading.path with
  | .error _ => []
  | .ok d => d.map reading.stamp

def failure? : Option FileFailure :=
  match ResultFile.parse fs required reading.path with
  | .error failure => some ⟨reading.path, failure⟩
  | .ok _ => none

end Reading

namespace FileSystem

/-- A root that can be listed, with every directory that is shown in it and all that is visible below. -/
def WalksFreely (fs : FileSystem) (root : Bytes) : Prop :=
  ∃ entries, fs.lookup root = .ok (.dir entries) ∧
    ∀ name node, name ∈ entries.map Prod.fst → Path.isHidden name.shown = false →
      fs.lookup (Path.join root name) = .ok node → node.Open (Path.join root name)

def folders (fs : FileSystem) (root : Bytes) : List Subfolder :=
  match fs.subfolders root with
  | .error _ => []
  | .ok subs => subs

end FileSystem

namespace Merger

variable (m : Merger) (fs : FileSystem)

def folderPlan (label : String) (sub : Subfolder) : List Reading :=
  (m.below fs sub).map fun steps => ⟨label, sub.name, Path.joinAll sub.path steps⟩

def rootPlan (root : Bytes) (label : String) : List Reading :=
  (fs.folders root).flatMap (m.folderPlan fs label)

def plan (roots : List Bytes) (labels : List String) : List Reading :=
  (roots.zip labels).flatMap fun pair => m.rootPlan fs pair.1 pair.2

/-- The directories of a root without a chosen file. -/
def barren (root : Bytes) : List Bytes :=
  ((fs.folders root).filter fun sub => m.below fs sub = []).map (·.path)

def hasChosen (root : Bytes) : Bool :=
  (fs.folders root).any fun sub => m.below fs sub ≠ []

end Merger

namespace MergeOutcome

def records : MergeOutcome → Dataset
  | loaded report => report.records
  | empty _ => []

end MergeOutcome

namespace Merger

variable {m : Merger} {fs : FileSystem}

/-- What a loaded report of labelled roots holds. -/
structure Gathers (m : Merger) (fs : FileSystem) (roots : List Bytes) (labels : List String)
    (report : MergeReport) : Prop where
  records : report.records = (m.plan fs roots labels).flatMap (Reading.records m.required fs)
  errors : report.errors = (m.plan fs roots labels).filterMap (Reading.failure? m.required fs)
  counted : report.loaded + report.errors.length = (m.plan fs roots labels).length
  emptySubfolders : report.emptySubfolders = (roots.filter (m.hasChosen fs)).flatMap (m.barren fs)
  variants : ∀ (i : Nat) (root : Bytes) (label : String), roots[i]? = some root → labels[i]? = some label →
    ∃ own, m.mergeSubfolders fs root = .ok own ∧
      report.records.filter (fun r => r.variant = some label) = own.records.stampVariant label

end Merger

namespace FileSystem

variable {fs : FileSystem}

theorem WalksFreely.subfolders {root : Bytes} (free : fs.WalksFreely root) :
    fs.subfolders root = .ok (fs.folders root) := by
  obtain ⟨entries, h, -⟩ := free
  unfold folders FileSystem.subfolders
  rw [readDir_eq_ok_iff.mpr h]
  rfl

theorem WalksFreely.lookup_folder {root : Bytes} (free : fs.WalksFreely root) (tidy : fs.root.Tidy)
    {sub : Subfolder} (mem : sub ∈ fs.folders root) :
    ∃ node, fs.lookup sub.path = .ok node ∧ node.Open sub.path ∧ node.Tidy := by
  obtain ⟨name, ⟨_, hl, hm⟩, shown, isDir, rfl⟩ := ((lists_subfolders tidy free.subfolders).mem_iff sub).mp mem
  obtain ⟨entries, h, opens⟩ := free
  obtain ⟨node, hnode, -⟩ := isDir_iff.mp isDir
  cases h.symm.trans hl
  exact ⟨node, hnode, opens name node hm shown hnode, lookup_tidy tidy hnode⟩

end FileSystem

namespace Merger

open MergeReport

variable {m : Merger} {fs : FileSystem}

theorem walkFailures_eq_nil {dir : Bytes} {node : Node} (found : fs.lookup dir = .ok node) (free : node.Open dir)
    (tidy : node.Tidy) (deep : Bool) : walkFailures fs deep dir = [] := by
  unfold walkFailures FileSystem.findings
  rw [found]
  refine List.filterMap_eq_nil_iff.mpr fun found mem => ?_
  rw [walkFailure?, (free.openTo deep).clean tidy mem]
  rfl

/-- The report has the records and the failures of the readings, one or the other for each. -/
structure Follows (m : Merger) (fs : FileSystem) (readings : List Reading) (report : MergeReport) :
    Prop where
  records : report.records = readings.flatMap (Reading.records m.required fs)
  errors : report.errors = readings.filterMap (Reading.failure? m.required fs)
  counted : report.loaded + report.errors.length = readings.length

theorem Follows.absorb {first second : List Reading} {a b : MergeReport} (ha : m.Follows fs first a)
    (hb : m.Follows fs second b) : m.Follows fs (first ++ second) (a.absorb b) := by
  constructor
  · rw [MergeReport.absorb, ha.records, hb.records, List.flatMap_append]
  · rw [MergeReport.absorb, ha.errors, hb.errors, List.filterMap_append]
  · have ca := ha.counted
    have cb := hb.counted
    simp only [MergeReport.absorb, List.length_append]
    omega

theorem Follows.concat {α : Type} {as : List α} {readings : α → List Reading} {part : α → MergeReport}
    (h : ∀ a ∈ as, m.Follows fs (readings a) (part a)) :
    m.Follows fs (as.flatMap readings) (concat (as.map part)) := by
  induction as with
  | nil => exact ⟨rfl, rfl, rfl⟩
  | cons a as ih =>
    rw [List.map_cons, concat_cons, List.flatMap_cons]
    exact (h a List.mem_cons_self).absorb (ih fun b hb => h b (List.mem_cons_of_mem a hb))

theorem fileReport_follows (reading : Reading) :
    m.Follows fs [reading]
      ((m.fileReport fs (some reading.subfolder) reading.path).labelled reading.variant) := by
  unfold fileReport
  rw [ResultFile.load_eq_parse]
  cases h : ResultFile.parse fs m.required reading.path with
  | error failure =>
    constructor <;> simp [Except.map, labelled, Dataset.stampVariant, Reading.records, Reading.failure?, h]
  | ok d =>
    constructor <;>
      simp [Except.map, labelled, stamped, Dataset.stampVariant, Dataset.stampSubfolder,
        Dataset.stampSource, Reading.records, Reading.failure?, Reading.stamp, h]

theorem emptySubfolders_fileReport (subfolder : Option String) (path : Bytes) :
    (m.fileReport fs subfolder path).emptySubfolders = [] := by
  unfold fileReport
  split <;> rfl

theorem subfolderReport_follows {sub : Subfolder} (label : String) (clean : walkFailures fs true sub.path = []) :
    m.Follows fs (m.folderPlan fs label sub) ((m.subfolderReport fs sub).labelled label) := by
  unfold subfolderReport folderPlan
  rw [clean, empty_absorb]
  by_cases none : m.below fs sub = []
  · rw [if_pos none, none]
    exact ⟨rfl, rfl, rfl⟩
  · rw [if_neg none, labelled_concat, List.map_map, List.map_eq_flatMap]
    exact Follows.concat fun steps _ => fileReport_follows ⟨label, sub.name, Path.joinAll sub.path steps⟩

theorem emptySubfolders_subfolderReport (sub : Subfolder) :
    (m.subfolderReport fs sub).emptySubfolders = if m.below fs sub = [] then [sub.path] else [] := by
  unfold subfolderReport
  by_cases none : m.below fs sub = []
  · simp [none, MergeReport.absorb]
  · simp [none, MergeReport.absorb, concat_eq, emptySubfolders_fileReport]

def rootReport (m : Merger) (fs : FileSystem) (root : Bytes) : MergeReport :=
  concat ((fs.folders root).map (m.subfolderReport fs))

theorem rootReport_follows (tidy : fs.root.Tidy) {root : Bytes} (free : fs.WalksFreely root)
    (label : String) : m.Follows fs (m.rootPlan fs root label) ((m.rootReport fs root).labelled label) := by
  unfold rootReport rootPlan
  rw [labelled_concat, List.map_map]
  refine Follows.concat fun sub mem => subfolderReport_follows label ?_
  obtain ⟨node, found, opens, nodeTidy⟩ := free.lookup_folder tidy mem
  exact walkFailures_eq_nil found opens nodeTidy true

theorem emptySubfolders_rootReport (root : Bytes) :
    (m.rootReport fs root).emptySubfolders = m.barren fs root := by
  unfold rootReport barren
  induction fs.folders root with
  | nil => rfl
  | cons sub rest ih =>
    rw [List.map_cons, concat_cons]
    simp only [MergeReport.absorb, ih, emptySubfolders_subfolderReport]
    by_cases none : m.below fs sub = [] <;> simp [none]

theorem rootPlan_eq_nil_iff {root : Bytes} {label : String} :
    m.rootPlan fs root label = [] ↔ ∀ sub ∈ fs.folders root, m.below fs sub = [] := by
  simp [rootPlan, folderPlan, List.flatMap_eq_nil_iff]

theorem hasChosen_eq_false_iff {root : Bytes} {label : String} :
    m.hasChosen fs root = false ↔ m.rootPlan fs root label = [] := by
  rw [rootPlan_eq_nil_iff]
  simp [hasChosen]

def rootOutcome (m : Merger) (fs : FileSystem) (root : Bytes) : MergeOutcome :=
  m.outcomeBelow fs root (fs.folders root)

theorem mergeSubfolders_eq (collect : m.errorMode = .collectErrors) {root : Bytes}
    (free : fs.WalksFreely root) : m.mergeSubfolders fs root = .ok (m.rootOutcome fs root) := by
  have isDir : requireDir fs root = .ok () := by
    obtain ⟨entries, h, -⟩ := free
    unfold requireDir
    rw [h]
    rfl
  exact mergeSubfolders_collects collect isDir free.subfolders

theorem rootOutcome_cases (tidy : fs.root.Tidy) {root : Bytes} (free : fs.WalksFreely root) :
    (m.hasChosen fs root = false ∧ ∃ reason, m.rootOutcome fs root = .empty reason) ∨
      (m.hasChosen fs root = true ∧ m.rootOutcome fs root = .loaded (m.rootReport fs root)) := by
  have counted := (m.rootReport_follows tidy free "").counted
  -- Loaded and failed files add up to the plan, so a report without either belongs to an empty plan.
  have silent : (m.rootReport fs root).loaded = 0 ∧ (m.rootReport fs root).errors = [] ↔
      m.rootPlan fs root "" = [] := by
    rw [← List.length_eq_zero_iff, ← List.length_eq_zero_iff, ← counted]
    exact Nat.add_eq_zero_iff.symm
  have outcome : m.rootOutcome fs root =
      if fs.folders root = [] then .empty (.noSubfolders root)
      else if (m.rootReport fs root).loaded = 0 ∧ (m.rootReport fs root).errors = [] then
        .empty (.noUsableFiles root)
      else .loaded (m.rootReport fs root) := rfl
  have unplanned : m.hasChosen fs root = false ↔ m.rootPlan fs root "" = [] := hasChosen_eq_false_iff
  cases chosen : m.hasChosen fs root with
  | false =>
    refine .inl ⟨rfl, ?_⟩
    rw [outcome]
    split
    · exact ⟨_, rfl⟩
    · rw [if_pos (silent.mpr (unplanned.mp chosen))]
      exact ⟨_, rfl⟩
  | true =>
    have planned : m.rootPlan fs root "" ≠ [] := by
      intro none
      cases chosen.symm.trans (unplanned.mpr none)
    have folders : fs.folders root ≠ [] := by
      intro none
      exact planned (by simp [rootPlan, none])
    refine .inr ⟨rfl, ?_⟩
    rw [outcome, if_neg folders, if_neg (silent.not.mpr planned)]

/-- What a root adds to a merge of labelled roots, nothing if it is empty. -/
def addition? (own : Bytes → MergeOutcome) (pair : Bytes × String) : Option MergeReport :=
  match own pair.1 with
  | .loaded report => some (report.labelled pair.2)
  | .empty _ => none

theorem mergeLabelled_eq {own : Bytes → MergeOutcome} {pairs : List (Bytes × String)}
    (h : ∀ pair ∈ pairs, m.mergeSubfolders fs pair.1 = .ok (own pair.1)) (merged : Option MergeReport)
    (reason : Option EmptyReason) :
    ∃ why, m.mergeLabelled fs pairs merged reason =
      let parts := pairs.filterMap (addition? own)
      .ok (outcomeOf (if parts = [] then merged else some ((merged.getD {}).absorb (concat parts))) why) := by
  -- What was merged before and the reason noted so far stand at the front of the answer, so both vary.
  induction pairs generalizing merged reason with
  | nil => exact ⟨reason, rfl⟩
  | cons pair rest ih =>
    have atRest : ∀ pair ∈ rest, m.mergeSubfolders fs pair.1 = .ok (own pair.1) := fun pair hp =>
      h pair (List.mem_cons_of_mem _ hp)
    rw [mergeLabelled]
    simp only [h pair List.mem_cons_self]
    cases hown : own pair.1 with
    | empty why =>
      have skipped : addition? own pair = none := by rw [addition?, hown]
      obtain ⟨last, hl⟩ := ih atRest merged (reason.or (some why))
      refine ⟨last, hl.trans ?_⟩
      rw [List.filterMap_cons_none skipped]
    | loaded report =>
      have added : addition? own pair = some (report.labelled pair.2) := by rw [addition?, hown]
      obtain ⟨last, hl⟩ := ih atRest (some ((merged.getD {}).absorb (report.labelled pair.2))) reason
      refine ⟨last, hl.trans ?_⟩
      rw [List.filterMap_cons_some added, concat_cons, ← absorb_assoc]
      by_cases alone : rest.filterMap (addition? own) = []
      · simp [alone, concat, absorb_empty]
      · simp [alone]

theorem filter_flatMap_of_tag {α β : Type} {tag : β → Option String} {f : α × String → List β}
    (tagged : ∀ pair, ∀ b ∈ f pair, tag b = some pair.2) {pairs : List (α × String)}
    (apart : (pairs.map Prod.snd).Nodup) {pair : α × String} (h : pair ∈ pairs) :
    (pairs.flatMap f).filter (fun b => tag b = some pair.2) = f pair := by
  have whole : (f pair).filter (fun b => tag b = some pair.2) = f pair :=
    List.filter_eq_self.mpr fun b hb => decide_eq_true (tagged pair b hb)
  have others : ∀ ps : List (α × String), pair.2 ∉ ps.map Prod.snd →
      (ps.flatMap f).filter (fun b => tag b = some pair.2) = [] := by
    intro ps hps
    refine List.filter_eq_nil_iff.mpr fun b hb => ?_
    obtain ⟨p, hp, hb⟩ := List.mem_flatMap.mp hb
    have differ : p.2 ≠ pair.2 := fun same => hps (same ▸ List.mem_map_of_mem hp)
    simpa [tagged p b hb] using differ
  obtain ⟨before, after, rfl⟩ := List.append_of_mem h
  rw [List.map_append, List.map_cons, List.nodup_append, List.nodup_cons] at apart
  have early : pair.2 ∉ before.map Prod.snd := fun hb =>
    apart.2.2 _ hb _ List.mem_cons_self rfl
  rw [List.flatMap_append, List.flatMap_cons, List.filter_append, List.filter_append, whole,
    others before early, others after apart.2.1.1, List.nil_append, List.append_nil]

theorem flatMap_filter {α β : Type} (p : α → Bool) (f : α → List β) (as : List α) :
    (as.filter p).flatMap f = as.flatMap fun a => if p a then f a else [] := by
  induction as with
  | nil => rfl
  | cons a as ih => cases h : p a <;> simp [h, ih]

theorem addition?_rootOutcome (tidy : fs.root.Tidy) {root : Bytes} (free : fs.WalksFreely root)
    (label : String) : addition? (m.rootOutcome fs) (root, label) =
      if m.hasChosen fs root then some ((m.rootReport fs root).labelled label) else none := by
  obtain ⟨none, reason, h⟩ | ⟨some, h⟩ := m.rootOutcome_cases tidy free
  · simp [addition?, h, none]
  · simp [addition?, h, some]

theorem addition?_follows (tidy : fs.root.Tidy) {root : Bytes} (free : fs.WalksFreely root)
    (label : String) : m.Follows fs (m.rootPlan fs root label)
      ((addition? (m.rootOutcome fs) (root, label)).getD {}) := by
  rw [addition?_rootOutcome tidy free]
  split
  · exact rootReport_follows tidy free label
  next none =>
    rw [hasChosen_eq_false_iff.mp (Bool.eq_false_iff.mpr none)]
    exact ⟨rfl, rfl, rfl⟩

theorem variant_of_mem_rootPlan {root : Bytes} {label : String} {r : Record Float}
    (h : r ∈ (m.rootPlan fs root label).flatMap (Reading.records m.required fs)) :
    r.variant = some label := by
  obtain ⟨reading, hr, hrec⟩ := List.mem_flatMap.mp h
  obtain ⟨name, -, hf⟩ := List.mem_flatMap.mp hr
  obtain ⟨steps, -, rfl⟩ := List.mem_map.mp hf
  unfold Reading.records at hrec
  split at hrec
  · cases hrec
  · obtain ⟨r, -, rfl⟩ := List.mem_map.mp hrec
    rfl

theorem records_of_label (collect : m.errorMode = .collectErrors) (tidy : fs.root.Tidy)
    {pairs : List (Bytes × String)} (apart : (pairs.map Prod.snd).Nodup) {root : Bytes}
    {label : String} (h : (root, label) ∈ pairs) (free : fs.WalksFreely root) :
    ∃ own, m.mergeSubfolders fs root = .ok own ∧
      ((pairs.flatMap fun pair => m.rootPlan fs pair.1 pair.2).flatMap
        (Reading.records m.required fs)).filter (fun r => r.variant = some label) =
        own.records.stampVariant label := by
  refine ⟨_, mergeSubfolders_eq collect free, ?_⟩
  rw [List.flatMap_assoc]
  refine (filter_flatMap_of_tag (fun _ _ => variant_of_mem_rootPlan) apart h).trans ?_
  obtain ⟨none, reason, ho⟩ | ⟨some, ho⟩ := m.rootOutcome_cases tidy free
  · rw [hasChosen_eq_false_iff.mp none, ho]
    rfl
  · rw [ho]
    exact (rootReport_follows tidy free label).records.symm

theorem additions_eq_nil_iff (tidy : fs.root.Tidy) {pairs : List (Bytes × String)}
    (free : ∀ pair ∈ pairs, fs.WalksFreely pair.1) :
    pairs.filterMap (addition? (m.rootOutcome fs)) = [] ↔
      ∀ root ∈ pairs.map Prod.fst, ∀ sub ∈ fs.folders root, m.below fs sub = [] := by
  rw [List.filterMap_eq_nil_iff, List.forall_mem_map]
  refine forall₂_congr fun pair hp => ?_
  have planned : m.hasChosen fs pair.1 = false ↔ m.rootPlan fs pair.1 pair.2 = [] :=
    hasChosen_eq_false_iff
  rw [addition?_rootOutcome tidy (free pair hp) pair.2, ← rootPlan_eq_nil_iff, ← planned]
  cases m.hasChosen fs pair.1 <;> simp

theorem emptySubfolders_additions (tidy : fs.root.Tidy) {pairs : List (Bytes × String)}
    (free : ∀ pair ∈ pairs, fs.WalksFreely pair.1) :
    (concat (pairs.filterMap (addition? (m.rootOutcome fs)))).emptySubfolders =
      ((pairs.map Prod.fst).filter (m.hasChosen fs)).flatMap (m.barren fs) := by
  rw [concat_filterMap]
  simp only [concat_eq, flatMap_filter, List.flatMap_map]
  refine List.flatMap_congr fun pair hp => ?_
  rw [addition?_rootOutcome tidy (free pair hp) pair.2]
  cases m.hasChosen fs pair.1 with
  | false => rfl
  | true => exact emptySubfolders_rootReport pair.1

/-- A merge of labelled roots that can be walked gathers exactly what its plan lists. -/
theorem mergeVariants_gathers (m : Merger) (fs : FileSystem) (roots : List Bytes) (labels : List String)
    (collect : m.errorMode = .collectErrors) (tidy : fs.root.Tidy) (sizes : roots.length = labels.length)
    (apart : labels.Nodup) (free : ∀ root ∈ roots, fs.WalksFreely root) :
    (∀ root ∈ roots, fs.ListsSubfolders root (fs.folders root) ∧
      ∀ sub ∈ fs.folders root, ∃ node, fs.lookup sub.path = .ok node ∧ (m.below fs sub).Pairwise (· < ·) ∧
        ∀ steps, steps ∈ m.below fs sub ↔
          m.choice.accepts (Path.joinAll sub.path steps) = true ∧ node.HasFile steps) ∧
    ∃ outcome, m.mergeVariants fs roots labels = .ok outcome ∧
      ((∃ reason, outcome = .empty reason) ↔
        ∀ root ∈ roots, ∀ sub ∈ fs.folders root, m.below fs sub = []) ∧
      ∀ report, outcome = .loaded report → m.Gathers fs roots labels report := by
  have fsts : (roots.zip labels).map Prod.fst = roots := List.map_fst_zip (Nat.le_of_eq sizes)
  have snds : (roots.zip labels).map Prod.snd = labels := List.map_snd_zip (Nat.le_of_eq sizes.symm)
  have walks : ∀ pair ∈ roots.zip labels, fs.WalksFreely pair.1 := fun pair hp =>
    free pair.1 (List.of_mem_zip hp).1
  refine ⟨fun root hr => ⟨FileSystem.lists_subfolders tidy (free root hr).subfolders, fun sub mem => ?_⟩, ?_⟩
  · obtain ⟨node, found, opens, -⟩ := (free root hr).lookup_folder tidy mem
    refine ⟨node, found, (chosen_lists tidy true sub.path).rising, fun steps => ?_⟩
    refine (mem_chosen_of_openTo tidy found (opens.openTo true)).trans (and_congr_right fun _ => ?_)
    exact and_iff_left (.inl rfl)
  have merges : ∀ pair ∈ roots.zip labels, m.mergeSubfolders fs pair.1 = .ok (m.rootOutcome fs pair.1) :=
    fun pair hp => mergeSubfolders_eq collect (walks pair hp)
  obtain ⟨why, merged⟩ := mergeLabelled_eq merges none none
  -- The checks of the labels pass, which leaves the walk over the pairs.
  have accepted : m.mergeVariants fs roots labels = m.mergeLabelled fs (roots.zip labels) none none := by
    unfold mergeVariants
    rw [if_neg (not_not.mpr sizes), firstRepeat?_eq_none.mpr apart]
  have empty := m.additions_eq_nil_iff tidy walks
  rw [fsts] at empty
  refine ⟨_, accepted.trans merged, ?_, ?_⟩
  · rw [← empty]
    split
    next none => simp [outcomeOf, none]
    next some => simp [outcomeOf, some]
  · intro report loaded
    have gathered : report = concat ((roots.zip labels).filterMap (addition? (m.rootOutcome fs))) := by
      split at loaded
      next => cases loaded
      next =>
        cases loaded
        exact empty_absorb _
    have follows : m.Follows fs (m.plan fs roots labels) report := by
      rw [gathered, concat_filterMap]
      exact Follows.concat fun pair hp => addition?_follows tidy (walks pair hp) pair.2
    refine ⟨follows.records, follows.errors, follows.counted, ?_, fun i root label hr hl => ?_⟩
    · rw [gathered, emptySubfolders_additions tidy walks, fsts]
    · have member : (root, label) ∈ roots.zip labels :=
        List.mem_of_getElem? (List.getElem?_zip_eq_some.mpr ⟨hr, hl⟩)
      rw [follows.records]
      exact records_of_label collect tidy (snds.symm ▸ apart) member (walks _ member)

def twoRoots : FileSystem where
  root := .dir [
    ("new", .dir [("runs", .dir [("broken.csv", .file [])])]),
    ("old", .dir [("bare", .dir []),
      ("runs", .dir [("notes.txt", .file []), ("r.csv", .file (Bytes.ofText "Queuetype\nA\n"))])])]

theorem twoRoots_tidy : twoRoots.root.Tidy := by
  simp [twoRoots]

theorem twoRoots_walks : ∀ root ∈ [Bytes.ofText "old", Bytes.ofText "new"], twoRoots.WalksFreely root := by
  simp only [List.forall_mem_cons, List.not_mem_nil, false_implies, implies_true, and_true]
  constructor
  · refine ⟨_, rfl, fun name node hn _ hl => ?_⟩
    simp only [List.map_cons, List.map_nil, List.mem_cons, List.not_mem_nil, or_false] at hn
    obtain rfl | rfl := hn <;> cases hl <;> exact Node.open_dir (by decide) (by simp [Node.open_file])
  · refine ⟨_, rfl, fun name node hn _ hl => ?_⟩
    simp only [List.map_cons, List.map_nil, List.mem_cons, List.not_mem_nil, or_false] at hn
    subst hn
    cases hl
    exact Node.open_dir (by decide) (by simp [Node.open_file])

theorem plan_twoRoots : ({} : Merger).plan twoRoots [Bytes.ofText "old", Bytes.ofText "new"] ["Old", "New"] =
    [⟨"Old", "runs", "old/runs/r.csv"⟩, ⟨"New", "runs", "new/runs/broken.csv"⟩] := by
  cbv

theorem mergeVariants_gathers_twoRoots :
    let m : Merger := {}
    let roots := [Bytes.ofText "old", Bytes.ofText "new"]
    m.errorMode = .collectErrors ∧ twoRoots.root.Tidy ∧ roots.length = ["Old", "New"].length ∧
      ["Old", "New"].Nodup ∧ (∀ root ∈ roots, twoRoots.WalksFreely root) ∧
      ∃ report, m.mergeVariants twoRoots roots ["Old", "New"] = .ok (.loaded report) ∧
        m.Gathers twoRoots roots ["Old", "New"] report ∧
        report.records.map (fun r => (r.queue, r.source, r.subfolder, r.variant)) =
          [("A", some (Bytes.ofText "old/runs/r.csv"), some "runs", some "Old")] ∧
        report.errors.map (·.path) = [Bytes.ofText "new/runs/broken.csv"] := by
  intro m roots
  obtain ⟨-, outcome, merged, empty, gathers⟩ := mergeVariants_gathers m twoRoots roots ["Old", "New"] rfl
    twoRoots_tidy rfl (by decide) twoRoots_walks
  refine ⟨rfl, twoRoots_tidy, rfl, by decide, twoRoots_walks, ?_⟩
  cases outcome with
  | empty reason =>
    have unplanned : m.plan twoRoots roots ["Old", "New"] = [] := List.flatMap_eq_nil_iff.mpr fun pair mem =>
      rootPlan_eq_nil_iff.mpr (empty.mp ⟨reason, rfl⟩ pair.1 (List.of_mem_zip mem).1)
    cases unplanned.symm.trans plan_twoRoots
  | loaded report =>
    have gathered := gathers report rfl
    refine ⟨report, merged, gathered, ?_, ?_⟩
    · rw [gathered.records, plan_twoRoots]
      decide +kernel
    · rw [gathered.errors, plan_twoRoots]
      decide +kernel

/-- A name with a byte that no text has, of a subdirectory in one root and of a directory further down in the next. -/
def brokenNames : FileSystem where
  root := .dir [
    ("old", .dir [([0x61, 0xFF], .dir [("r.csv", .file (Bytes.ofText "Queuetype\nA\n"))])]),
    ("new", .dir [("runs", .dir [([0x61, 0xFF], .dir [("r.csv", .file (Bytes.ofText "Queuetype\nA\n"))])])]),
    ("on", .dir [("runs", .dir [("r.csv", .file (Bytes.ofText "Queuetype\nA\n"))])])]

def windingWay : Bytes :=
  Bytes.ofText "on" ++ (List.replicate 2046 (Bytes.ofText "/.")).flatten

/-- A subdirectory is tagged as its name is displayed, a file below a name that is no text is not read, and neither is
one in a subdirectory whose path is too long. -/
theorem mergeVariants_not_gathered :
    let loads (root : Bytes) := (({} : Merger).mergeVariants brokenNames [root] ["R"]).toOption.map fun outcome =>
      outcome.records.map fun r => (r.source, r.subfolder)
    loads "old" = some [(some (Path.joinAll "old" [[0x61, 0xFF], "r.csv"]), some "a\uFFFD")] ∧
      Bytes.ofText "a\uFFFD" ≠ [0x61, 0xFF] ∧
      (brokenNames.readFile (Path.joinAll "new" ["runs", [0x61, 0xFF], "r.csv"])).isOk = true ∧
      loads "new" = some [] ∧
      loads "on" = some [(some (Bytes.ofText "on/runs/r.csv"), some "runs")] ∧ loads windingWay = some [] := by
  refine ⟨?_, ?_, ?_, ?_, ?_, ?_⟩ <;> decide +kernel

end Merger

end SweepPlot
