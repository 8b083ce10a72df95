import SweepPlot.Proofs.Files.Replace
import SweepPlot.Proofs.Json.RoundTrip
import SweepPlot.Proofs.Outcome
import SweepPlot.Proofs.Request.Reading
import SweepPlot.Proofs.Table.Text
import SweepPlot.Proofs.Toml.RoundTrip
import SweepPlot.Request.File
set_option autoImplicit false

namespace SweepPlot

namespace Document

def entries : Document → List (String × Document)
  | .table entries => entries
  | _ => []

/-- The document without the entries of its tables that hold no value. -/
def withoutNulls : Document → Document
  | .table entries => .table (keptEntries entries)
  | plain => plain
termination_by structural document => document
where
  keptEntries : List (String × Document) → List (String × Document)
    | [] => []
    | entry :: rest => (keptEntry entry).toList ++ keptEntries rest
  termination_by structural entries => entries
  keptEntry : String × Document → Option (String × Document)
    | (key, value) => if value.isNull then none else some (key, withoutNulls value)
  termination_by structural entry => entry

def without (names : List String) : Document → Document
  | .table entries => .table (entries.filter fun entry => !names.contains entry.1)
  | plain => plain

section Kept

variable {entries : List (String × Document)}

theorem keptEntries_cons (key : String) (value : Document) (rest : List (String × Document)) :
    withoutNulls.keptEntries ((key, value) :: rest) =
      if value.isNull then withoutNulls.keptEntries rest
      else (key, value.withoutNulls) :: withoutNulls.keptEntries rest := by
  simp only [withoutNulls.keptEntries, withoutNulls.keptEntry]
  split <;> rfl

theorem keys_keptEntries (entries : List (String × Document)) :
    ((withoutNulls.keptEntries entries).map Prod.fst).Sublist (entries.map Prod.fst) := by
  induction entries with
  | nil => exact .slnil
  | cons entry entries ih =>
    rw [keptEntries_cons]
    split
    · exact ih.cons _
    · exact ih.cons_cons _

theorem lookup_keptEntries (once : (entries.map Prod.fst).Nodup) (name : String) :
    (withoutNulls.keptEntries entries).lookup name =
      ((entries.lookup name).filter fun value => !value.isNull).map withoutNulls := by
  induction entries with
  | nil => rfl
  | cons entry entries ih =>
    obtain ⟨key, value⟩ := entry
    obtain ⟨apart, once⟩ := List.nodup_cons.mp once
    rw [keptEntries_cons, Keyed.lookup_cons]
    by_cases same : name = key
    · subst same
      rw [if_pos rfl]
      by_cases null : value.isNull = true
      · rw [if_pos null]
        have absent : name ∉ (withoutNulls.keptEntries entries).map Prod.fst :=
          fun mem => apart ((keys_keptEntries entries).subset mem)
        rw [Keyed.lookup_eq_none_iff_not_mem.mpr absent]
        simp [null]
      · rw [if_neg null, Keyed.lookup_cons, if_pos rfl]
        simp [null]
    · rw [if_neg same, ← ih once]
      split
      · rfl
      · rw [Keyed.lookup_cons, if_neg same]

theorem withoutNulls_of_simple {document : Document} (simple : Toml.Simple document) :
    document.isNull = false ∧ document.withoutNulls = document := by
  cases simple with
  | scalar scalar => cases scalar <;> exact ⟨rfl, rfl⟩
  | list => exact ⟨rfl, rfl⟩

theorem keptEntries_simple (simple : ∀ entry ∈ entries, entry.2.isNull = true ∨ Toml.Simple entry.2) :
    withoutNulls.keptEntries entries = Toml.plainEntries entries := by
  induction entries with
  | nil => rfl
  | cons entry entries ih =>
    obtain ⟨key, document⟩ := entry
    obtain ⟨first, others⟩ := List.forall_mem_cons.mp simple
    rw [keptEntries_cons, ih others]
    obtain null | simple := first
    · rw [if_pos null]
      exact (List.filter_cons_of_neg (by simp [null])).symm
    · obtain ⟨solid, same⟩ := withoutNulls_of_simple simple
      have plain : Toml.plainEntries ((key, document) :: entries) = (key, document) :: Toml.plainEntries entries :=
        List.filter_cons_of_pos simple.plain
      rw [if_neg (by simp [solid]), same, plain]

/-- What TOML text says are the entries with values, those with tables after the others. -/
theorem keptEntries_perm (sectioned : Toml.Sectioned entries) : (withoutNulls.keptEntries entries).Perm
    (Toml.plainEntries entries ++
      (Toml.tableEntries entries).map fun entry => (entry.1, .table (Toml.sectionEntries entry.2))) := by
  have held := sectioned.held
  clear sectioned
  induction entries with
  | nil => exact .nil
  | cons entry entries ih =>
    obtain ⟨key, document⟩ := entry
    obtain ⟨first, others⟩ := List.forall_mem_cons.mp held
    rw [keptEntries_cons]
    obtain null | simple | ⟨inner, rfl, flat⟩ := first
    · have plain : Toml.plainEntries ((key, document) :: entries) = Toml.plainEntries entries :=
        List.filter_cons_of_neg (by simp [null])
      have table : Toml.tableEntries ((key, document) :: entries) = Toml.tableEntries entries := by
        refine List.filter_cons_of_neg ?_
        cases document <;> cases null
        exact Bool.false_ne_true
      rw [if_pos null, plain, table]
      exact ih others
    · obtain ⟨solid, same⟩ := withoutNulls_of_simple simple
      have plain : Toml.plainEntries ((key, document) :: entries) = (key, document) :: Toml.plainEntries entries :=
        List.filter_cons_of_pos simple.plain
      have table : Toml.tableEntries ((key, document) :: entries) = Toml.tableEntries entries := by
        refine List.filter_cons_of_neg fun table => ?_
        have plain := simple.plain
        simp [table] at plain
      rw [if_neg (by simp [solid]), same, plain, table]
      exact (ih others).cons _
    · have inside : withoutNulls (.table inner) = .table (Toml.plainEntries inner) :=
        congrArg Document.table (keptEntries_simple flat.simple)
      rw [if_neg (show ¬ (table inner).isNull = true from Bool.false_ne_true), inside]
      exact ((ih others).cons _).trans List.perm_middle.symm

theorem without_nil (document : Document) : document.without [] = document := by
  cases document <;> simp [without]

end Kept

end Document

namespace RequestFormat

/-- What the format can say of a document: TOML has no null. -/
def stated : RequestFormat → Document → Document
  | toml, document => document.withoutNulls
  | json, document => document

def kept : RequestFormat → List (String × Document) → List (String × Document)
  | toml, entries => Document.withoutNulls.keptEntries entries
  | json, entries => entries

theorem stated_table (format : RequestFormat) (entries : List (String × Document)) :
    format.stated (.table entries) = .table (format.kept entries) := by
  cases format <;> rfl

theorem keys_kept (format : RequestFormat) (entries : List (String × Document)) :
    ((format.kept entries).map Prod.fst).Sublist (entries.map Prod.fst) := by
  cases format with
  | toml => exact Document.keys_keptEntries entries
  | json => exact .refl _

theorem lookup_kept (format : RequestFormat) {entries : List (String × Document)} {name : String} {value : Document}
    (once : (entries.map Prod.fst).Nodup) (found : entries.lookup name = some value) :
    (format.kept entries).lookup name = some (format.stated value) ∨
      (value.isNull = true ∧ (format.kept entries).lookup name = none) := by
  cases format with
  | json => exact .inl found
  | toml =>
    unfold kept stated
    rw [Document.lookup_keptEntries once, found, Option.filter_some]
    by_cases null : value.isNull = true
    · exact .inr ⟨null, by simp [null]⟩
    · exact .inl (by simp [null])

/-- What is written is read back, but for the order of entries. -/
def Carries (format : RequestFormat) (document : Document) : Prop :=
  ∃ back, format.read (format.write document) = some back ∧ Document.Alike (format.stated document) back

end RequestFormat

namespace Request

open Document (Alike Steady)

def standard : Request := {}

/-- The request with the fields of these names as they are by default. -/
def reset (names : List String) (r : Request) : Request where
  roots := if "roots" ∈ names then standard.roots else r.roots
  variants := if "variants" ∈ names then standard.variants else r.variants
  sweep := if "kind" ∈ names then standard.sweep else r.sweep
  layout := if "layout" ∈ names then standard.layout else r.layout
  mode := if "mode" ∈ names then standard.mode else r.mode
  metric := if "metric" ∈ names then standard.metric else r.metric
  recursive := if "recursive" ∈ names then standard.recursive else r.recursive
  filter := if "filter" ∈ names then standard.filter else r.filter
  right := if "right" ∈ names then standard.right else r.right
  ticks := if "x_ticks" ∈ names then standard.ticks else r.ticks
  perTrial := if "per_trial" ∈ names then standard.perTrial else r.perTrial
  choice := if "selection" ∈ names then standard.choice else r.choice
  errorMode := if "error_mode" ∈ names then standard.errorMode else r.errorMode
  output := if "output" ∈ names then standard.output else r.output
  showText := if "show" ∈ names then standard.showText else r.showText
  summary := if "summary_csv" ∈ names then standard.summary else r.summary

@[simp]
theorem reset_nil (r : Request) : r.reset [] = r := by
  simp [reset]

section Fields

variable {format : RequestFormat} {entries : List (String × Document)} {removed : List String} {name : String}

/-- The fields that a stored table has after some are removed. -/
def storedFields (format : RequestFormat) (entries : List (String × Document)) (removed : List String) : Fields :=
  fun name => ((format.kept entries).filter fun entry => !removed.contains entry.1).lookup name

theorem countKey_le_one (once : (entries.map Prod.fst).Nodup) (name : String) : countKey name entries ≤ 1 := by
  have counted := List.nodup_iff_count_le_one.mp once name
  rwa [List.count, List.countP_map] at counted

theorem fieldsOf_stored (rules : DocumentRules) (names : List String) (once : (entries.map Prod.fst).Nodup) :
    fieldsOf rules names ((format.stated (.table entries)).without removed) =
      some (storedFields format entries removed) := by
  rw [format.stated_table]
  refine fieldsOf_table rules fun name _ => countKey_le_one ?_ name
  exact once.sublist ((List.filter_sublist.map _).trans (format.keys_kept entries))

theorem storedFields_eq (removed : List String) (name : String) : storedFields format entries removed name =
    if name ∈ removed then none else (format.kept entries).lookup name := by
  unfold storedFields
  rw [Keyed.lookup_filter fun key => !removed.contains key]
  by_cases gone : name ∈ removed <;> simp [gone]

theorem get_some {α : Type} {fields : Fields} {standard : α} {read : Document → Option α} {value : Document}
    (found : fields name = some value) : fields.get name standard read = read value := by
  rw [Fields.get, found]

theorem get_none {α : Type} {fields : Fields} {standard : α} {read : Document → Option α}
    (absent : fields name = none) : fields.get name standard read = some standard := by
  rw [Fields.get, absent]

/-- What is saved under a name is read back if the name is not removed; a null stands for the default. -/
theorem get_stored {α : Type} {read : Document → Option α} {value : Document} {standard back : α}
    (once : (entries.map Prod.fst).Nodup) (found : entries.lookup name = some value)
    (reads : read (format.stated value) = some back) (null : value.isNull = true → back = standard) :
    (storedFields format entries removed).get name standard read =
      some (if name ∈ removed then standard else back) := by
  by_cases gone : name ∈ removed
  · rw [if_pos gone]
    exact get_none ((storedFields_eq removed name).trans (if_pos gone))
  rw [if_neg gone]
  have same : storedFields format entries removed name = (format.kept entries).lookup name :=
    (storedFields_eq removed name).trans (if_neg gone)
  obtain kept | ⟨isNull, dropped⟩ := format.lookup_kept once found
  · exact (get_some (same.trans kept)).trans reads
  · exact (get_none (same.trans dropped)).trans (congrArg some (null isNull).symm)

theorem get_path {path : Option String} (once : (entries.map Prod.fst).Nodup)
    (found : entries.lookup name = path.map .text) :
    (storedFields format entries removed).get name none readOptText =
      some (if name ∈ removed then none else path) := by
  cases path with
  | some path =>
    have reads : readOptText (format.stated (.text path)) = some (some path) := by cases format <;> rfl
    exact get_stored once found reads fun null => by cases null
  | none =>
    have absent : (format.kept entries).lookup name = none := by
      rw [Option.map_none, Keyed.lookup_eq_none_iff_not_mem] at found
      exact Keyed.lookup_eq_none_iff_not_mem.mpr fun mem => found ((format.keys_kept entries).subset mem)
    rw [get_none ((storedFields_eq removed name).trans (by rw [absent, ite_self])), ite_self]

end Fields

section Values

variable {rules : DocumentRules}

theorem stated_text (format : RequestFormat) (text : String) : format.stated (.text text) = .text text := by
  cases format <;> rfl

theorem stated_flag (format : RequestFormat) (flag : Bool) : format.stated (.flag flag) = .flag flag := by
  cases format <;> rfl

theorem stated_list (format : RequestFormat) (items : List Document) : format.stated (.list items) = .list items := by
  cases format <;> rfl

theorem read_texts (format : RequestFormat) (items : List String) :
    readList readText (format.stated (.texts items)) = some items := by
  rw [Document.texts, stated_list]
  exact mapM_map_eq_some readText Document.text (fun _ => rfl) items

theorem read_ints (format : RequestFormat) (items : List Int) :
    readList readInt (format.stated (.ints items)) = some items := by
  rw [Document.ints, stated_list]
  exact mapM_map_eq_some readInt Document.int (fun _ => rfl) items

theorem read_flag (format : RequestFormat) (flag : Bool) : readFlag (format.stated (.flag flag)) = some flag := by
  rw [stated_flag]
  rfl

theorem read_word {α : Type} (format : RequestFormat) {ofToken? : String → Option α} {word : String} {a : α}
    (known : ofToken? word = some a) : readWord rules ofToken? (format.stated (.text word)) = some a := by
  rw [stated_text]
  exact known

theorem read_filter (format : RequestFormat) (filter : Filter) :
    readFilter rules (format.stated (filterDocument filter)) = some filter := by
  have once : ((filterDocument filter).entries.map Prod.fst).Nodup := by
    change filterNames.Nodup
    decide
  have texts : ∀ name items, (filterDocument filter).entries.lookup name = some (.texts items) →
      (storedFields format (filterDocument filter).entries []).get name [] (readList readText) = some items := by
    intro name items found
    rw [get_stored once found (read_texts format items) (fun null => by cases null), if_neg List.not_mem_nil]
  rw [← Document.without_nil (format.stated _)]
  change (fieldsOf rules filterNames ((format.stated (.table (filterDocument filter).entries)).without [])).bind _ = _
  rw [fieldsOf_stored rules filterNames once]
  dsimp only [Option.bind_some]
  rw [texts "allow" filter.allow rfl, texts "highlight" filter.highlight rfl, texts "ignore" filter.ignore rfl]
  rfl

theorem read_choice (format : RequestFormat) (choice : FileChoice) :
    readChoice rules (format.stated (choiceDocument choice)) = some choice := by
  have once : ((choiceDocument choice).entries.map Prod.fst).Nodup := by
    change choiceNames.Nodup
    decide
  have exclude : (storedFields format (choiceDocument choice).entries []).get "exclude_extensions" ["txt"]
      (readList readText) = some choice.exclude := by
    rw [get_stored once rfl (read_texts format choice.exclude) (fun null => by cases null), if_neg List.not_mem_nil]
  have start : (storedFields format (choiceDocument choice).entries []).get "name_prefix" none readOptText =
      some choice.start := by
    have reads : readOptText (format.stated (.optText choice.start)) = some choice.start := by
      cases choice.start <;> cases format <;> rfl
    have null : (Document.optText choice.start).isNull = true → choice.start = none := by
      cases choice.start with
      | none => exact fun _ => rfl
      | some start => exact fun null => by cases null
    rw [get_stored once rfl reads null, if_neg List.not_mem_nil]
  rw [← Document.without_nil (format.stated _)]
  change (fieldsOf rules choiceNames ((format.stated (.table (choiceDocument choice).entries)).without [])).bind _ = _
  rw [fieldsOf_stored rules choiceNames once]
  dsimp only [Option.bind_some]
  rw [exclude]
  dsimp only [Option.bind_eq_bind, Option.bind_some]
  rw [start]
  rfl

end Values

section Whole

variable {r : Request} {format : RequestFormat}

theorem keys_toDocument (r : Request) : (r.toDocument.entries.map Prod.fst).Sublist names := by
  unfold toDocument pathEntry
  cases r.output <;> cases r.summary <;>
    simp only [Document.entries, List.map_cons, List.map_nil, Option.toList, List.append_nil, List.nil_append,
      List.cons_append] <;>
    decide

theorem ofDocument_without (r : Request) (format : RequestFormat) (removed : List String) :
    ofDocument format.rules ((format.stated r.toDocument).without removed) = some (r.reset removed) := by
  have once : (r.toDocument.entries.map Prod.fst).Nodup := (by decide : names.Nodup).sublist r.keys_toDocument
  have doc : r.toDocument = .table r.toDocument.entries := rfl
  unfold ofDocument
  rw [doc, fieldsOf_stored format.rules names once]
  dsimp only [Option.bind_eq_bind, Option.bind_some]
  have get {α : Type} (name : String) {read : Document → Option α} {value : Document} {standard back : α}
      (found : r.toDocument.entries.lookup name = some value) (solid : value.isNull = false)
      (reads : read (format.stated value) = some back) :
      (storedFields format r.toDocument.entries removed).get name standard read =
        some (if name ∈ removed then standard else back) :=
    get_stored once found reads fun null => by cases null.symm.trans solid
  have shown : r.toDocument.entries.lookup "show" = some (.flag r.showText) := by
    unfold toDocument pathEntry
    cases r.output <;> rfl
  have output : r.toDocument.entries.lookup "output" = r.output.map .text := by
    unfold toDocument pathEntry
    cases r.output <;> cases r.summary <;> rfl
  have summary : r.toDocument.entries.lookup "summary_csv" = r.summary.map .text := by
    unfold toDocument pathEntry
    cases r.output <;> cases r.summary <;> rfl
  rw [get "roots" (by rfl) rfl (read_texts format r.roots), get "variants" (by rfl) rfl (read_texts format r.variants),
    get "kind" (by rfl) rfl (read_word format r.sweep.ofToken?_token),
    get "layout" (by rfl) rfl (read_word format r.layout.ofToken?_token),
    get "mode" (by rfl) rfl (read_word format r.mode.ofToken?_token),
    get "metric" (by rfl) rfl (read_word format r.metric.ofToken?_token),
    get "recursive" (by rfl) rfl (read_flag format r.recursive),
    get "filter" (by rfl) rfl (read_filter format r.filter), get "right" (by rfl) rfl (read_texts format r.right),
    get "x_ticks" (by rfl) rfl (read_ints format r.ticks), get "per_trial" (by rfl) rfl (read_flag format r.perTrial),
    get "selection" (by rfl) rfl (read_choice format r.choice),
    get "error_mode" (by rfl) rfl (read_word format r.errorMode.ofToken?_token), get_path once output,
    get "show" shown rfl (read_flag format r.showText), get_path once summary]
  rfl

theorem steady_isBare (format : RequestFormat) : Steady format.rules.isBare := by
  cases format with
  | toml => exact steady_isEmpty
  | json => exact steady_isNull

/-- Whatever text says what was saved, less some fields, is read as the request with these fields reset. -/
theorem ofText?_of_alike {removed : List String} {text : String} {document : Document}
    (read : format.read text = some document)
    (alike : Alike ((format.stated r.toDocument).without removed) document) :
    ofText? format text = some (r.reset removed) := by
  rw [ofText?, read, Option.bind_some, ← steady_ofDocument (steady_isBare format) alike]
  exact r.ofDocument_without format removed

theorem load_of_read {fs : FileSystem} {path : String} (valid : r.validate = .ok ()) {text : String}
    (found : fs.readText path = .ok text) (parsed : ofText? format text = some r) :
    load fs format path = .ok r := by
  unfold load
  rw [found]
  dsimp only
  rw [parsed]
  dsimp only
  rw [valid]

/-- JSON carries every request, as the ticks have 64 bits. -/
theorem carries_json (ticks : ∀ v ∈ r.ticks, Number.inInt64 v = true) : RequestFormat.json.Carries r.toDocument := by
  have filter : Json.Plain (filterDocument r.filter) := .table (by simp [Json.Plain.texts])
  have choice : Json.Plain (choiceDocument r.choice) := .table (by simp [Json.Plain.texts, Json.Plain.optText])
  have plain : Json.Plain r.toDocument := .table (by
    simp only [List.forall_mem_append, List.forall_mem_cons]
    simp [Json.Plain.texts, Json.Plain.ints ticks, Json.Plain.text, Json.Plain.flag, filter, choice, pathEntry])
  exact ⟨r.toDocument, Json.read_write plain, .refl _⟩

theorem bareKey_of_mem_names {name : String} (mem : name ∈ names ++ filterNames ++ choiceNames) :
    Toml.BareKey name := by
  have bare : ∀ name ∈ names ++ filterNames ++ choiceNames,
      name.toList ≠ [] ∧ ∀ c ∈ name.toList, Toml.isBare c = true := by
    simp [names, filterNames, choiceNames, Toml.isBare, Number.isDigit]
  exact ⟨(bare name mem).1, (bare name mem).2⟩

theorem flat_filterDocument (filter : Filter) : Toml.Flat (filterDocument filter).entries where
  once := (by decide : filterNames.Nodup)
  bare := by simp [filterDocument, Document.entries, bareKey_of_mem_names, filterNames]
  simple := by simp [filterDocument, Document.entries, Toml.Simple.texts]

theorem flat_choiceDocument (choice : FileChoice) : Toml.Flat (choiceDocument choice).entries where
  once := (by decide : choiceNames.Nodup)
  bare := by simp [choiceDocument, Document.entries, bareKey_of_mem_names, choiceNames]
  simple := by
    have start : (Document.optText choice.start).isNull = true ∨ Toml.Simple (.optText choice.start) := by
      cases choice.start with
      | none => exact .inl rfl
      | some start => exact .inr (.text start)
    simp [choiceDocument, Document.entries, Toml.Simple.texts, start]

theorem sectioned_toDocument (ticks : ∀ v ∈ r.ticks, Number.inInt64 v = true) :
    Toml.Sectioned r.toDocument.entries where
  once := (by decide : names.Nodup).sublist r.keys_toDocument
  bare entry mem := by
    have known := r.keys_toDocument.subset (List.mem_map_of_mem mem)
    exact bareKey_of_mem_names (List.mem_append_left _ (List.mem_append_left _ known))
  held := by
    have filter : ∃ inner, filterDocument r.filter = .table inner ∧ Toml.Flat inner :=
      ⟨_, rfl, flat_filterDocument r.filter⟩
    have choice : ∃ inner, choiceDocument r.choice = .table inner ∧ Toml.Flat inner :=
      ⟨_, rfl, flat_choiceDocument r.choice⟩
    simp only [toDocument, Document.entries, List.forall_mem_append, List.forall_mem_cons]
    simp [Toml.Simple.texts, Toml.Simple.ints ticks, Toml.Simple.text, Toml.Simple.flag, filter, choice, pathEntry]

/-- So does TOML, in which tables come last and nothing is said of a prefix that is not there. -/
theorem carries_toml (ticks : ∀ v ∈ r.ticks, Number.inInt64 v = true) : RequestFormat.toml.Carries r.toDocument :=
  ⟨_, Toml.read_write (sectioned_toDocument ticks), .order (Document.keptEntries_perm (sectioned_toDocument ticks))⟩

theorem carries (format : RequestFormat) (ticks : ∀ v ∈ r.ticks, Number.inInt64 v = true) :
    format.Carries r.toDocument := by
  cases format with
  | toml => exact carries_toml ticks
  | json => exact carries_json ticks

end Whole

theorem load_save (fs saved : FileSystem) (format : RequestFormat) (path : String) (r : Request)
    (valid : r.validate = .ok ()) (carried : format.Carries r.toDocument)
    (done : Request.save fs format path r = .ok saved) :
    Request.load saved format path = .ok r ∧
      ∀ removed text document, format.read text = some document →
        Alike ((format.stated r.toDocument).without removed) document →
          ofText? format text = some (r.reset removed) := by
  refine ⟨?_, fun removed text document read alike => ofText?_of_alike read alike⟩
  obtain ⟨back, read, alike⟩ := carried
  have whole : Alike ((format.stated r.toDocument).without []) back := by
    rw [Document.without_nil]
    exact alike
  have parsed : ofText? format (r.text format) = some r := by
    rw [Request.text, ofText?_of_alike read whole, reset_nil]
  refine load_of_read valid ?_ parsed
  unfold FileSystem.readText
  rw [FileSystem.readFile_overwrite done]
  dsimp only
  rw [Bytes.text?_ofText]

def versus : Request where
  roots := ["base", "tuned"]
  variants := ["50", "a \"b\""]
  layout := .sixPanel
  mode := .variant
  right := ["lcrq_rust"]
  ticks := [-2, 4]
  filter := { highlight := ["lcrq_rust"] }
  choice := { exclude := [], start := some "run" }
  output := some "plots/versus.svg"

theorem load_save_versus :
    (∃ saved, Request.save ⟨.empty, []⟩ .json "versus.json" versus = .ok saved ∧
      Request.load saved .json "versus.json" = .ok versus ∧
      ofText? .json "\x7b\"show\": false, \"roots\": [\"base\", \"tuned\"]\x7d" =
        some (versus.reset (names.filter fun name => name ∉ ["roots", "show"]))) ∧
    ∃ saved, Request.save ⟨.empty, []⟩ .toml "versus.toml" versus = .ok saved ∧
      Request.load saved .toml "versus.toml" = .ok versus ∧
      ofText? .toml "show = false\nroots = ['base', 'tuned']" =
        some (versus.reset (names.filter fun name => name ∉ ["roots", "show"])) := by
  have swapped : ∀ format : RequestFormat, Alike ((format.stated versus.toDocument).without
      (names.filter fun name => name ∉ ["roots", "show"]))
      (.table [("show", .flag false), ("roots", .texts ["base", "tuned"])]) := by
    rintro (_ | _) <;> exact .order (.swap ..)
  constructor
  · obtain ⟨saved, done⟩ := exists_eq_ok (x := Request.save ⟨.empty, []⟩ .json "versus.json" versus) (by decide +kernel)
    have carried : RequestFormat.json.Carries versus.toDocument := carries .json (by decide)
    obtain ⟨loaded, reset⟩ := load_save ⟨.empty, []⟩ saved .json "versus.json" versus (by rfl) carried done
    exact ⟨saved, done, loaded, reset _ _ _ (by cbv) (swapped .json)⟩
  · obtain ⟨saved, done⟩ := exists_eq_ok (x := Request.save ⟨.empty, []⟩ .toml "versus.toml" versus) (by decide +kernel)
    have carried : RequestFormat.toml.Carries versus.toDocument := carries .toml (by decide)
    obtain ⟨loaded, reset⟩ := load_save ⟨.empty, []⟩ saved .toml "versus.toml" versus (by rfl) carried done
    exact ⟨saved, done, loaded, reset _ _ _ (by cbv) (swapped .toml)⟩

end Request

end SweepPlot
