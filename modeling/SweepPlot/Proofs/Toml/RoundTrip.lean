import SweepPlot.Proofs.Keyed
import SweepPlot.Proofs.Number.Digits
import SweepPlot.Proofs.Toml.Strings
set_option autoImplicit false

namespace SweepPlot.Toml

section Words

variable {rest : List Char}

/-- As much is taken as can be, if what follows does not begin with more of it. -/
theorem span_append {p : Char → Bool} {front : List Char} (inside : ∀ c ∈ front, p c = true)
    (stops : ∀ c ∈ rest.head?, p c = false) :
    (front ++ rest).takeWhile p = front ∧ (front ++ rest).dropWhile p = rest := by
  rw [List.takeWhile_append_of_pos inside, List.dropWhile_append_of_pos inside]
  cases rest with
  | nil => simp
  | cons c rest => simp [stops c rfl]

/-- Nothing follows, or what ends a value. -/
def Ends (rest : List Char) : Prop :=
  ∀ c ∈ rest.head?, c = ',' ∨ c = ']' ∨ c = '\n'

theorem Ends.apart (ends : Ends rest) {c : Char} (other : c ≠ ',' ∧ c ≠ ']' ∧ c ≠ '\n') : rest.head? ≠ some c := by
  intro same
  obtain rfl | rfl | rfl := ends c same <;> simp at other

theorem ends_cons {c : Char} (ending : c = ',' ∨ c = ']' ∨ c = '\n') (rest : List Char) : Ends (c :: rest) := by
  rintro _ ⟨⟩
  exact ending

theorem word_append (front : List Char) (word : ∀ c ∈ front, isWordChar c = true) (ends : Ends rest) :
    Toml.word (front ++ rest) = (classify front).map fun document => (document, rest) := by
  obtain ⟨taken, left⟩ := span_append word fun c first => by
    obtain rfl | rfl | rfl := ends c first <;> rfl
  have unspaced : ∀ more, rest ≠ ' ' :: more := by
    rintro more rfl
    exact ends.apart (c := ' ') (by decide) rfl
  unfold Toml.word
  rw [taken, left]
  dsimp only
  split
  next more _ => exact absurd rfl (unspaced more)
  next => rfl

theorem digits?_of_digits {cs : List Char} (given : cs ≠ []) (digits : ∀ c ∈ cs, Number.isDigit c = true) :
    digits? Number.isDigit cs = some cs := by
  have whole : Text.split '_' cs = [cs] :=
    Text.split_of_not_mem fun mem => absurd (digits '_' mem) (by decide)
  have all : cs.all Number.isDigit = true := List.all_eq_true.mpr digits
  simp [digits?, whole, given, all]

theorem plainDigits?_toDigits (n : Nat) : plainDigits? (Nat.toDigits 10 n) = some (Nat.toDigits 10 n) := by
  have leading : ¬ ((Nat.toDigits 10 n).head? = some '0' ∧ (Nat.toDigits 10 n).length ≠ 1) := by
    by_cases zero : n = 0
    · subst zero
      decide
    · exact fun both => Number.head?_toDigits (Nat.pos_of_ne_zero zero) both.1
  rw [plainDigits?, digits?_of_digits Nat.toDigits_ne_nil fun _ => Number.isDigit_of_mem_toDigits]
  exact if_neg leading

theorem integer?_toDigits (n : Nat) : integer? (Nat.toDigits 10 n) = some (n : Int) ∧
    integer? ('-' :: Nat.toDigits 10 n) = some (-(n : Int)) := by
  have unbased : ∀ c, Number.isDigit c = false → ∀ more, Nat.toDigits 10 n ≠ '0' :: c :: more := by
    intro c other more same
    have mem : c ∈ Nat.toDigits 10 n := by simp [same]
    cases (Number.isDigit_of_mem_toDigits mem).symm.trans other
  constructor
  · unfold integer?
    split
    next same => exact absurd same (unbased 'x' rfl _)
    next same => exact absurd same (unbased 'o' rfl _)
    next same => exact absurd same (unbased 'b' rfl _)
    next =>
      rw [Number.unsigned_toDigits]
      dsimp only
      rw [plainDigits?_toDigits, Option.map_some, Number.digitsValue_toDigits]
      rfl
  · rw [show integer? ('-' :: Nat.toDigits 10 n) = (plainDigits? (Nat.toDigits 10 n)).map fun ds =>
      -(Number.digitsValue ds : Int) from rfl, plainDigits?_toDigits, Option.map_some, Number.digitsValue_toDigits]

theorem toString_reads (v : Int) : (toString v).toList ≠ [] ∧
    (∀ c ∈ (toString v).toList, c = '-' ∨ Number.isDigit c = true) ∧ integer? (toString v).toList = some v := by
  cases v with
  | ofNat n =>
    have text : (toString (Int.ofNat n)).toList = Nat.toDigits 10 n := Number.toList_toString n
    rw [text]
    exact ⟨Nat.toDigits_ne_nil, fun c mem => .inr (Number.isDigit_of_mem_toDigits mem), (integer?_toDigits n).1⟩
  | negSucc n =>
    have text : (toString (Int.negSucc n)).toList = '-' :: Nat.toDigits 10 (n + 1) :=
      String.toList_append.trans (congrArg ('-' :: ·) (Number.toList_toString (n + 1)))
    rw [text]
    refine ⟨List.cons_ne_nil _ _, List.forall_mem_cons.mpr ⟨.inl rfl, fun c mem => ?_⟩, (integer?_toDigits (n + 1)).2⟩
    exact .inr (Number.isDigit_of_mem_toDigits mem)

theorem word_toString {v : Int} (fits : Number.inInt64 v = true) (ends : Ends rest) :
    word ((toString v).toList ++ rest) = some (.int v, rest) := by
  obtain ⟨-, chars, read⟩ := toString_reads v
  have word : ∀ c ∈ (toString v).toList, isWordChar c = true := by
    intro c mem
    obtain rfl | digit := chars c mem
    · rfl
    · simp [isWordChar, digit]
  have apart : ∀ c, c ≠ '-' → Number.isDigit c = false → c ∉ (toString v).toList := by
    intro c notSign notDigit mem
    obtain same | digit := chars c mem
    · exact notSign same
    · cases digit.symm.trans notDigit
  have classified : classify (toString v).toList = some (.int v) := by
    have unnamed : (toString v).toList ≠ ['t', 'r', 'u', 'e'] ∧ (toString v).toList ≠ ['f', 'a', 'l', 's', 'e'] := by
      constructor <;> intro same
      · exact apart 't' (by decide) rfl (by rw [same]; decide)
      · exact apart 'f' (by decide) rfl (by rw [same]; decide)
    rw [classify, if_neg unnamed.1, if_neg unnamed.2, read]
    exact if_pos fits
  rw [word_append _ word ends, classified]
  rfl

end Words

section Scalars

variable {rest : List Char} {document : Document}

/-- Values that are written in one word or string. -/
inductive Scalar : Document → Prop where
  | flag (value : Bool) : Scalar (.flag value)
  | int {v : Int} (fits : Number.inInt64 v = true) : Scalar (.int v)
  | text (s : String) : Scalar (.text s)

def Starts (c : Char) : Prop :=
  c = '"' ∨ c = '\'' ∨ c = 't' ∨ c = 'f' ∨ c = '-' ∨ Number.isDigit c = true

theorem Starts.ne {c d : Char} (starts : Starts c)
    (other : d ≠ '"' ∧ d ≠ '\'' ∧ d ≠ 't' ∧ d ≠ 'f' ∧ d ≠ '-' ∧ Number.isDigit d = false) : c ≠ d := by
  rintro rfl
  obtain rfl | rfl | rfl | rfl | rfl | digit := starts <;> simp_all

theorem stringText_starts (s : String) : ∃ c cs, (stringText s).toList = c :: cs ∧ (c = '"' ∨ c = '\'') := by
  unfold stringText
  dsimp only
  cases quotesFor s <;> simp

theorem Scalar.starts (scalar : Scalar document) : ∃ c cs, (scalarText document).toList = c :: cs ∧ Starts c := by
  cases scalar with
  | flag value =>
    cases value with
    | true => exact ⟨'t', _, rfl, by simp [Starts]⟩
    | false => exact ⟨'f', _, rfl, by simp [Starts]⟩
  | @int v fits =>
    obtain ⟨given, chars, -⟩ := toString_reads v
    obtain ⟨c, cs, text⟩ := List.exists_cons_of_ne_nil given
    have first := chars c (text ▸ List.mem_cons_self)
    exact ⟨c, cs, text, .inr (.inr (.inr (.inr first)))⟩
  | text s =>
    obtain ⟨c, cs, text, quote⟩ := stringText_starts s
    exact ⟨c, cs, text, quote.imp_right .inl⟩

theorem value_quoted {cs : List Char} {s : String} (steps room : Nat) (quoted : ∃ c ∈ cs.head?, c = '"' ∨ c = '\'')
    (read : string cs = some (s, rest)) : value (steps + 1) room cs = some (.text s, rest) := by
  obtain ⟨c, first, quote⟩ := quoted
  cases cs with
  | nil => cases first
  | cons d cs =>
    cases first
    obtain rfl | rfl := quote <;> rw [value, read] <;> rfl

theorem value_word {c : Char} {cs : List Char} (steps room : Nat) (other : c ≠ '"' ∧ c ≠ '\'' ∧ c ≠ '[' ∧ c ≠ '\x7b') :
    value (steps + 1) room (c :: cs) = word (c :: cs) := by
  obtain ⟨notQuote, notLiteral, notList, notTable⟩ := other
  rw [value]
  · exact fun _ same => notQuote (List.cons.inj same).1
  · exact fun _ same => notLiteral (List.cons.inj same).1
  · exact fun _ same => notList (List.cons.inj same).1
  · exact fun _ same => notTable (List.cons.inj same).1

theorem Scalar.value (scalar : Scalar document) (ends : Ends rest) (steps room : Nat) :
    value (steps + 1) room ((scalarText document).toList ++ rest) = some (document, rest) := by
  cases scalar with
  | flag value =>
    cases value with
    | true =>
      have read := word_append ['t', 'r', 'u', 'e'] (List.all_eq_true.mp rfl) ends
      exact (value_word steps room (by decide)).trans (read.trans rfl)
    | false =>
      have read := word_append ['f', 'a', 'l', 's', 'e'] (List.all_eq_true.mp rfl) ends
      exact (value_word steps room (by decide)).trans (read.trans rfl)
  | @int v fits =>
    obtain ⟨given, chars, -⟩ := toString_reads v
    obtain ⟨c, cs, text⟩ := List.exists_cons_of_ne_nil given
    have first := chars c (text ▸ List.mem_cons_self)
    have starts : Starts c := .inr (.inr (.inr (.inr first)))
    have other : c ≠ '"' ∧ c ≠ '\'' ∧ c ≠ '[' ∧ c ≠ '\x7b' := by
      refine ⟨?_, ?_, starts.ne (by decide), starts.ne (by decide)⟩ <;> rintro rfl <;> simp [Number.isDigit] at first
    have read := word_toString fits ends
    rw [text] at read
    rw [show (scalarText (.int v)).toList = c :: cs from text]
    exact (value_word steps room other).trans read
  | text s =>
    refine value_quoted steps room ?_ (string_stringText s (ends.apart (by decide)) (ends.apart (by decide)))
    obtain ⟨c, cs, text, quote⟩ := stringText_starts s
    exact ⟨c, by rw [show scalarText (.text s) = stringText s from rfl, text]; rfl, quote⟩

end Scalars

section Lists

variable {rest : List Char} {items : List Document}

theorem skipLines_solid {c : Char} (solid : c ≠ '\n' ∧ isBlank c = false ∧ c ≠ '#' ∧ c ≠ '\r') (cs : List Char) :
    skipLines false (c :: cs) = some (c :: cs) := by
  obtain ⟨notFeed, notBlank, notMark, notReturn⟩ := solid
  rw [skipLines, if_neg notFeed, if_neg Bool.false_ne_true, notBlank, if_neg Bool.false_ne_true, if_neg notMark]
  exact fun _ same _ => notReturn same

theorem Scalar.skipLines {document : Document} (scalar : Scalar document) (rest : List Char) :
    skipLines false ((scalarText document).toList ++ rest) = some ((scalarText document).toList ++ rest) := by
  obtain ⟨c, cs, text, starts⟩ := scalar.starts
  have solid : c ≠ '\n' ∧ isBlank c = false ∧ c ≠ '#' ∧ c ≠ '\r' := by
    refine ⟨starts.ne (by decide), ?_, starts.ne (by decide), starts.ne (by decide)⟩
    simp [isBlank, starts.ne (d := ' ') (by decide), starts.ne (d := '\t') (by decide)]
  rw [text, List.cons_append]
  exact skipLines_solid solid _

theorem items_closing (steps room : Nat) (rest : List Char) :
    Toml.items (steps + 1) room (']' :: rest) = some ([], rest) := by
  rw [Toml.items, skipLines_solid (by decide)]
  rfl

/-- The first item of a list, with what comes after it. -/
theorem items_cons {item : Document} (scalar : Scalar item) {blanks after : List Char}
    (skipped : ∀ more, Toml.skipLines false (blanks ++ more) = Toml.skipLines false more) (ends : Ends after)
    (steps room : Nat) :
    Toml.items (steps + 2) room (blanks ++ ((scalarText item).toList ++ after)) =
      match Toml.skipLines false after with
      | some (']' :: rest) => some ([item], rest)
      | some (',' :: rest) => (Toml.items (steps + 1) room rest).map fun (more, rest) => (item :: more, rest)
      | _ => none := by
  obtain ⟨c, cs, text, starts⟩ := scalar.starts
  have read := scalar.value ends steps room
  rw [Toml.items, skipped, scalar.skipLines]
  rw [text, List.cons_append] at read ⊢
  split
  next same => cases same
  next more same => exact absurd (List.cons.inj (Option.some.inj same)).1 (starts.ne (by decide))
  next cs' _ same =>
    cases same
    rewrite [read]
    rfl

def itemLines (items : List Document) : List Char :=
  items.flatMap fun item => ' ' :: ' ' :: ' ' :: ' ' :: ((scalarText item).toList ++ [',', '\n'])

theorem items_itemLines (each : ∀ item ∈ items, Scalar item) {steps : Nat} (room : items.length < steps)
    (deep : Nat) (rest : List Char) :
    Toml.items steps deep ('\n' :: (itemLines items ++ ']' :: rest)) = some (items, rest) := by
  induction items generalizing steps with
  | nil =>
    obtain _ | steps := steps
    · omega
    · exact items_closing steps deep rest
  | cons item items ih =>
    obtain ⟨first, others⟩ := List.forall_mem_cons.mp each
    rw [List.length_cons] at room
    obtain _ | _ | steps := steps
    · omega
    · omega
    have text : '\n' :: (itemLines (item :: items) ++ ']' :: rest) = ['\n', ' ', ' ', ' ', ' '] ++
        ((scalarText item).toList ++ ',' :: '\n' :: (itemLines items ++ ']' :: rest)) := by
      simp [itemLines]
    rw [text, items_cons first (fun _ => rfl) (ends_cons (.inl rfl) _), skipLines_solid (by decide)]
    change (Toml.items (steps + 1) deep ('\n' :: (itemLines items ++ ']' :: rest))).map _ = _
    rw [ih others (by omega)]
    rfl

theorem length_le_itemLines (items : List Document) : items.length ≤ (itemLines items).length := by
  induction items with
  | nil => exact Nat.zero_le _
  | cons item items ih =>
    rw [itemLines, List.flatMap_cons, List.length_append] at *
    simp only [List.length_cons]
    omega

theorem value_listText (each : ∀ item ∈ items, Scalar item) {steps : Nat}
    (room : (listText items).toList.length ≤ steps) (deep : Nat) (rest : List Char) :
    value (steps + 1) (deep + 1) ((listText items).toList ++ rest) = some (.list items, rest) := by
  have bracket : ∀ cs, value (steps + 1) (deep + 1) ('[' :: cs) =
      (Toml.items steps deep cs).map fun (items, rest) => (.list items, rest) := fun _ => rfl
  match items, each, room with
  | [], _, room =>
    obtain _ | steps := steps
    · cases room
    exact (bracket (']' :: rest)).trans (congrArg _ (items_closing steps deep rest))
  | [item], each, room =>
    have scalar := each item List.mem_cons_self
    have text : ∀ rest, (listText [item]).toList ++ rest = '[' :: ((scalarText item).toList ++ ']' :: rest) := by
      simp [listText]
    have length := congrArg List.length (text [])
    simp only [List.append_nil, List.length_cons, List.length_append] at length
    obtain _ | _ | steps := steps
    · omega
    · omega
    rw [text, bracket, ← List.nil_append ((scalarText item).toList ++ _),
      items_cons scalar (fun _ => rfl) (ends_cons (.inr (.inl rfl)) _), skipLines_solid (by decide)]
    rfl
  | first :: second :: items, each, room =>
    have text : ∀ rest, (listText (first :: second :: items)).toList ++ rest =
        '[' :: '\n' :: (itemLines (first :: second :: items) ++ ']' :: rest) := by
      simp [listText, itemLines, String.toList_join, List.flatMap_map]
    have length := congrArg List.length (text [])
    have lines := length_le_itemLines (first :: second :: items)
    simp only [List.append_nil, List.length_cons, List.length_append] at length lines
    rw [text, bracket, items_itemLines each (by simp only [List.length_cons]; omega)]
    rfl

end Lists

section Entries

variable {key : String} {document : Document} {state : Reading} {rest : List Char}

inductive Simple : Document → Prop where
  | scalar {document : Document} (scalar : Scalar document) : Simple document
  | list {items : List Document} (each : ∀ item ∈ items, Scalar item) : Simple (.list items)

theorem Simple.text (s : String) : Simple (.text s) :=
  .scalar (.text s)

theorem Simple.flag (value : Bool) : Simple (.flag value) :=
  .scalar (.flag value)

theorem Simple.texts (items : List String) : Simple (.texts items) := by
  refine .list fun item mem => ?_
  obtain ⟨s, -, rfl⟩ := List.mem_map.mp mem
  exact .text s

theorem Simple.ints {items : List Int} (fit : ∀ v ∈ items, Number.inInt64 v = true) : Simple (.ints items) := by
  refine .list fun item mem => ?_
  obtain ⟨v, given, rfl⟩ := List.mem_map.mp mem
  exact .int (fit v given)

def valueText : Document → String
  | .list items => listText items
  | document => scalarText document

theorem Simple.entryText (simple : Simple document) (key : String) :
    entryText key document = key ++ " = " ++ valueText document ++ "\n" := by
  cases simple with
  | scalar scalar => cases scalar <;> rfl
  | list => rfl

theorem Simple.value (simple : Simple document) (ends : Ends rest) (steps : Nat)
    (room : (valueText document).toList.length ≤ steps) :
    value (steps + 1) nestingLimit ((valueText document).toList ++ rest) = some (document, rest) := by
  cases simple with
  | scalar scalar =>
    have text : valueText document = scalarText document := by cases scalar <;> rfl
    rw [text]
    exact scalar.value ends steps nestingLimit
  | list each => exact value_listText each room 78 rest

theorem Simple.starts (simple : Simple document) :
    ∃ c cs, (valueText document).toList = c :: cs ∧ isBlank c = false := by
  cases simple with
  | scalar scalar =>
    obtain ⟨c, cs, text, starts⟩ := scalar.starts
    refine ⟨c, cs, ?_, ?_⟩
    · rw [← text]
      cases scalar <;> rfl
    · simp [isBlank, starts.ne (d := ' ') (by decide), starts.ne (d := '\t') (by decide)]
  | @list items each =>
    match items with
    | [] | [_] | _ :: _ :: _ => exact ⟨'[', _, by simp [valueText, listText]; rfl, rfl⟩

structure BareKey (key : String) : Prop where
  given : key.toList ≠ []
  bare : ∀ c ∈ key.toList, isBare c = true

theorem isBare_ne {c d : Char} (bare : isBare c = true) (other : isBare d = false) : c ≠ d := by
  rintro rfl
  cases bare.symm.trans other

theorem BareKey.first (bare : BareKey key) : ∃ c cs, key.toList = c :: cs ∧ isBare c = true := by
  obtain ⟨c, cs, text⟩ := List.exists_cons_of_ne_nil bare.given
  exact ⟨c, cs, text, bare.bare c (text ▸ List.mem_cons_self)⟩

theorem BareKey.skipBlanks (bare : BareKey key) (rest : List Char) :
    skipBlanks (key.toList ++ rest) = key.toList ++ rest := by
  obtain ⟨c, cs, text, first⟩ := bare.first
  have solid : isBlank c = false := by
    simp [isBlank, isBare_ne (d := ' ') first rfl, isBare_ne (d := '\t') first rfl]
  rw [text]
  exact List.dropWhile_cons_of_neg (by simp [solid])

/-- A key is read up to what cannot belong to it, if no dot follows. -/
theorem keyPath_bare (bare : BareKey key) (rest : List Char) (ends : ∀ c ∈ rest.head?, isBare c = false)
    (undotted : (skipBlanks rest).head? ≠ some '.') :
    keyPath nestingLimit (key.toList ++ rest) = some ([key], skipBlanks rest) := by
  obtain ⟨taken, left⟩ := span_append bare.bare ends
  obtain ⟨c, cs, text, first⟩ := bare.first
  have read : simpleKey (key.toList ++ rest) = some (key, rest) := by
    unfold simpleKey
    split
    next same =>
      rw [text] at same
      exact absurd (List.cons.inj same).1 (isBare_ne first rfl)
    next same =>
      rw [text] at same
      exact absurd (List.cons.inj same).1 (isBare_ne first rfl)
    next =>
      rw [taken, left, String.ofList_toList, if_neg (by simpa using bare.given)]
  rw [show nestingLimit = 78 + 1 from rfl, keyPath, bare.skipBlanks, read]
  dsimp only
  split
  next same => exact absurd (congrArg List.head? same) undotted
  next => rfl

/-- The value that is added to the open section, which a key does not make by itself. -/
def added (state : Reading) (key : String) (document : Document) : Option Reading :=
  (Entries.edit false (fun _ entries => entries.addKey [] key document) state.section_ .stated state.root).map
    fun root => { state with root }

theorem keyValue_entry (bare : BareKey key) (simple : Simple document) (state : Reading) (rest : List Char) :
    keyValue state (key.toList ++ ' ' :: '=' :: ' ' :: ((valueText document).toList ++ '\n' :: rest)) =
      (added state key document).map fun state => (state, '\n' :: rest) := by
  have path := keyPath_bare bare (' ' :: '=' :: ' ' :: ((valueText document).toList ++ '\n' :: rest))
    (by rintro _ ⟨⟩; rfl) (by simp [skipBlanks, isBlank])
  obtain ⟨c, cs, text, solid⟩ := simple.starts
  have skipped : skipBlanks (' ' :: ((valueText document).toList ++ '\n' :: rest)) =
      (valueText document).toList ++ '\n' :: rest := by
    rw [text, skipBlanks, List.dropWhile_cons_of_pos rfl, List.cons_append,
      List.dropWhile_cons_of_neg (by simp [solid])]
  have read := simple.value (ends_cons (.inr (.inr rfl)) rest)
    (' ' :: ((valueText document).toList ++ '\n' :: rest)).length (by simp; omega)
  unfold keyValue added
  rw [path]
  change (Toml.value ((' ' :: ((valueText document).toList ++ '\n' :: rest)).length + 1) nestingLimit
    (skipBlanks (' ' :: ((valueText document).toList ++ '\n' :: rest)))).bind (fun found =>
      (Entries.edit false (fun _ entries => entries.addKey [] key found.1) state.section_ .stated state.root).bind
        fun root => some ({ state with root }, found.2)) = _
  rw [skipped, read]
  change (Entries.edit false _ state.section_ .stated state.root).bind _ = _
  cases Entries.edit false (fun _ entries => entries.addKey [] key document) state.section_ .stated state.root <;> rfl

/-- The text is read as lines that lead from one reading to the other, each of them for one of its characters. -/
def Reads (text : List Char) (state state' : Reading) : Prop :=
  ∀ n rest, text.length ≤ n → ∃ m, n ≤ m + text.length ∧ lines n state (text ++ rest) = lines m state' rest

theorem Reads.nil (state : Reading) : Reads [] state state :=
  fun n _ _ => ⟨n, Nat.le_refl n, rfl⟩

theorem Reads.append {front back : List Char} {state' state'' : Reading} (first : Reads front state state')
    (second : Reads back state' state'') : Reads (front ++ back) state state'' := by
  intro n rest room
  rw [List.length_append] at room ⊢
  obtain ⟨m, enough, read⟩ := first n (back ++ rest) (by omega)
  obtain ⟨m', enough', read'⟩ := second m rest (by omega)
  exact ⟨m', by omega, by rw [List.append_assoc, read, read']⟩

theorem Reads.line {text : List Char} {state' : Reading}
    (read : ∀ rest, statement state (text ++ '\n' :: rest) = some (state', '\n' :: rest)) :
    Reads (text ++ ['\n']) state state' := by
  intro n rest room
  simp only [List.length_append, List.length_singleton] at room ⊢
  obtain _ | n := n
  · omega
  refine ⟨n, by omega, ?_⟩
  rw [List.append_assoc, List.singleton_append]
  have started : ∃ c cs, text ++ '\n' :: rest = c :: cs := by
    cases text <;> simp
  obtain ⟨c, cs, same⟩ := started
  rw [same, lines, ← same, read]
  · rfl
  · rintro ⟨⟩

theorem statement_bare (bare : BareKey key) (state : Reading) (rest : List Char) :
    statement state (key.toList ++ rest) = keyValue state (key.toList ++ rest) := by
  obtain ⟨c, cs, text, first⟩ := bare.first
  rw [statement, bare.skipBlanks, text]
  have apart : ∀ d, isBare d = false → c ≠ d := fun d => isBare_ne first
  simp only [List.cons_append]
  split
  next same => cases same
  next same => exact absurd (List.cons.inj same).1 (apart '#' rfl)
  next same => exact absurd (List.cons.inj same).1 (apart '\n' rfl)
  next same => exact absurd (List.cons.inj same).1 (apart '\r' rfl)
  next same => exact absurd (List.cons.inj same).1 (apart '[' rfl)
  next same => exact absurd (List.cons.inj same).1 (apart '[' rfl)
  next => rfl

theorem reads_entry (bare : BareKey key) (simple : Simple document) {state' : Reading}
    (adds : added state key document = some state') : Reads (entryText key document).toList state state' := by
  have text : (entryText key document).toList =
      (key.toList ++ ' ' :: '=' :: ' ' :: (valueText document).toList) ++ ['\n'] := by
    rw [simple.entryText]
    simp
  rw [text]
  refine .line fun rest => ?_
  rw [List.append_assoc, statement_bare bare]
  refine (keyValue_entry bare simple state rest).trans ?_
  rw [adds]
  rfl

theorem reads_header (bare : BareKey key) (absent : state.root.lookup key = none) :
    Reads ("\n[" ++ key ++ "]\n").toList state ⟨state.root ++ [(key, .table .stated [])], [key]⟩ := by
  have text : ("\n[" ++ key ++ "]\n").toList = ([] ++ ['\n']) ++ (('[' :: (key.toList ++ [']'])) ++ ['\n']) := by
    simp
  rw [text]
  refine Reads.append (.line fun rest => rfl) (.line fun rest => ?_)
  obtain ⟨c, cs, starts, first⟩ := bare.first
  have path := keyPath_bare bare (']' :: '\n' :: rest) (by rintro _ ⟨⟩; rfl) (by simp [skipBlanks, isBlank])
  have opened : Entries.openTable key state.root = some (state.root ++ [(key, .table .stated [])]) := by
    rw [Entries.openTable, absent]
  have headed : statement state ('[' :: (key.toList ++ [']']) ++ '\n' :: rest) =
      header [']'] Entries.openTable state (key.toList ++ ']' :: '\n' :: rest) := by
    simp only [starts, List.cons_append, List.append_assoc, List.nil_append]
    rw [statement, show skipBlanks ('[' :: c :: (cs ++ ']' :: '\n' :: rest)) = '[' :: c :: (cs ++ ']' :: '\n' :: rest)
      from rfl]
    split
    next same => cases same
    next same => cases same
    next same => cases same
    next same => cases same
    next same => exact absurd (List.cons.inj (List.cons.inj same).2).1 (isBare_ne first rfl)
    next same =>
      cases same
      rfl
    next other => exact absurd rfl (other _)
  rw [headed, header, path]
  change (do
    let root ← Entries.edit false (fun _ entries => Entries.openTable key entries) [] .stated state.root
    return ((⟨root, [key]⟩ : Reading), '\n' :: rest)) = _
  rw [show Entries.edit false (fun _ entries => Entries.openTable key entries) [] .stated state.root =
    Entries.openTable key state.root from rfl, opened]
  rfl

end Entries

section Tables

variable {entries : List (String × Document)}

def isTable : Document → Bool
  | .table _ => true
  | _ => false

/-- Entries with values of their own, which are written before the tables. -/
def plainEntries (entries : List (String × Document)) : List (String × Document) :=
  entries.filter fun entry => !entry.2.isNull && !isTable entry.2

def tableEntries (entries : List (String × Document)) : List (String × Document) :=
  entries.filter fun entry => isTable entry.2

def sectionEntries : Document → List (String × Document)
  | .table inner => plainEntries inner
  | _ => []

def values (entries : List (String × Document)) : Entries :=
  entries.map fun entry => (entry.1, .value entry.2)

def sectionTree (entry : String × Document) : String × Tree :=
  (entry.1, .table .stated (values (sectionEntries entry.2)))

/-- A table of values that stand in one entry, and of no value. -/
structure Flat (entries : List (String × Document)) : Prop where
  once : (entries.map Prod.fst).Nodup
  bare : ∀ entry ∈ entries, BareKey entry.1
  simple : ∀ entry ∈ entries, entry.2.isNull = true ∨ Simple entry.2

/-- A table that may also hold flat ones. -/
structure Sectioned (entries : List (String × Document)) : Prop where
  once : (entries.map Prod.fst).Nodup
  bare : ∀ entry ∈ entries, BareKey entry.1
  held : ∀ entry ∈ entries, entry.2.isNull = true ∨ Simple entry.2 ∨ ∃ inner, entry.2 = .table inner ∧ Flat inner

theorem Simple.plain {document : Document} (simple : Simple document) :
    (!document.isNull && !isTable document) = true := by
  cases simple with
  | scalar scalar => cases scalar <;> rfl
  | list => rfl

theorem added_root {root : Entries} {key : String} (absent : root.lookup key = none) (document : Document) :
    added ⟨root, []⟩ key document = some ⟨root ++ [(key, .value document)], []⟩ := by
  change (Entries.addPlain key document root).map _ = _
  rw [Entries.addPlain, absent]
  rfl

theorem set_last {front : Entries} {name : String} (apart : name ∉ front.map Prod.fst) (old new : Tree) :
    Entries.set name new (front ++ [(name, old)]) = front ++ [(name, new)] := by
  induction front with
  | nil => exact if_pos rfl
  | cons entry front ih =>
    rw [List.map_cons, List.mem_cons, not_or] at apart
    rw [List.cons_append, Entries.set, if_neg fun same => apart.1 same.symm, ih apart.2]
    rfl

theorem added_section {front child : Entries} {name key : String} (apart : name ∉ front.map Prod.fst)
    (absent : child.lookup key = none) (document : Document) :
    added ⟨front ++ [(name, .table .stated child)], [name]⟩ key document =
      some ⟨front ++ [(name, .table .stated (child ++ [(key, .value document)]))], [name]⟩ := by
  have found : (front ++ [(name, Tree.table .stated child)]).lookup name = some (.table .stated child) := by
    rw [List.lookup_append, Keyed.lookup_eq_none_iff_not_mem.mpr apart, Keyed.lookup_cons, if_pos rfl]
    rfl
  have added : Entries.addPlain key document child = some (child ++ [(key, .value document)]) := by
    rw [Entries.addPlain, absent]
  unfold Toml.added
  dsimp only
  rw [Entries.edit, found]
  change ((Entries.addPlain key document child).map _).map _ = _
  rw [added, Option.map_some, set_last apart]
  rfl

theorem reads_entries (grow : Entries → Reading)
    (grows : ∀ child key document, child.lookup key = none →
      added (grow child) key document = some (grow (child ++ [(key, .value document)])))
    (bare : ∀ entry ∈ entries, BareKey entry.1)
    (each : ∀ entry ∈ entries, (entry.2.isNull = true ∨ isTable entry.2 = true) ∨ Simple entry.2) (child : Entries)
    (once : (child.map Prod.fst ++ entries.map Prod.fst).Nodup) :
    Reads (entries.flatMap fun entry => (entryText entry.1 entry.2).toList) (grow child)
      (grow (child ++ values (plainEntries entries))) := by
  induction entries generalizing child with
  | nil =>
    rw [plainEntries, List.filter_nil, values, List.map_nil, List.append_nil]
    exact .nil _
  | cons entry entries ih =>
    obtain ⟨key, document⟩ := entry
    obtain ⟨own, others⟩ := List.forall_mem_cons.mp bare
    obtain ⟨first, rest⟩ := List.forall_mem_cons.mp each
    rw [List.flatMap_cons]
    obtain unwritten | simple := first
    · have blank : (entryText key document).toList = [] := by
        cases document <;> simp_all [entryText, isTable, Document.isNull]
      have dropped : plainEntries ((key, document) :: entries) = plainEntries entries := by
        refine List.filter_cons_of_neg ?_
        obtain null | table := unwritten <;> simp_all
      rw [blank, dropped]
      refine ih others rest child (once.sublist ?_)
      exact List.Sublist.append_left (List.sublist_cons_self ..) _
    · have kept : plainEntries ((key, document) :: entries) = (key, document) :: plainEntries entries :=
        List.filter_cons_of_pos simple.plain
      have absent : child.lookup key = none := by
        refine Keyed.lookup_eq_none_iff_not_mem.mpr fun mem => ?_
        exact (List.nodup_append.mp once).2.2 key mem key List.mem_cons_self rfl
      have next := ih others rest (child ++ [(key, .value document)]) (by simpa using once)
      rw [kept]
      refine (reads_entry own simple (grows child key document absent)).append ?_
      simpa [values] using next

theorem reads_sections (bare : ∀ entry ∈ entries, BareKey entry.1)
    (flat : ∀ entry ∈ entries, isTable entry.2 = true → ∃ inner, entry.2 = .table inner ∧ Flat inner) (state : Reading)
    (once : (state.root.map Prod.fst ++ (tableEntries entries).map Prod.fst).Nodup) :
    ∃ last, Reads (entries.flatMap fun entry => (sectionText entry.1 entry.2).toList) state
      ⟨state.root ++ (tableEntries entries).map sectionTree, last⟩ := by
  induction entries generalizing state with
  | nil =>
    refine ⟨state.section_, ?_⟩
    rw [tableEntries, List.filter_nil, List.map_nil, List.append_nil]
    exact .nil _
  | cons entry entries ih =>
    obtain ⟨name, document⟩ := entry
    obtain ⟨own, others⟩ := List.forall_mem_cons.mp bare
    obtain ⟨first, rest⟩ := List.forall_mem_cons.mp flat
    rw [List.flatMap_cons]
    by_cases table : isTable document = true
    · obtain ⟨inner, rfl, shallow⟩ := first table
      have kept : tableEntries ((name, .table inner) :: entries) = (name, .table inner) :: tableEntries entries :=
        List.filter_cons_of_pos rfl
      rw [kept] at once ⊢
      have apart : name ∉ state.root.map Prod.fst := fun mem =>
        (List.nodup_append.mp once).2.2 name mem name List.mem_cons_self rfl
      have header := reads_header own (Keyed.lookup_eq_none_iff_not_mem.mpr apart)
      have body := reads_entries (fun child => ⟨state.root ++ [(name, .table .stated child)], [name]⟩)
        (fun child key document absent => added_section apart absent document) shallow.bare
        (fun entry mem => (shallow.simple entry mem).imp_left .inl) [] shallow.once
      obtain ⟨last, following⟩ := ih others rest ⟨state.root ++ [sectionTree (name, .table inner)], [name]⟩
        (by simpa [sectionTree] using once)
      refine ⟨last, ?_⟩
      have text : (sectionText name (.table inner)).toList = ("\n[" ++ name ++ "]\n").toList ++
          inner.flatMap fun entry => (entryText entry.1 entry.2).toList := by
        simp [sectionText, String.toList_join, List.flatMap_map]
      rw [text]
      have whole := (header.append body).append following
      rw [List.append_assoc state.root] at whole
      exact whole
    · have blank : (sectionText name document).toList = [] := by
        cases document <;> simp_all [sectionText, isTable]
      have dropped : tableEntries ((name, document) :: entries) = tableEntries entries :=
        List.filter_cons_of_neg table
      rw [dropped] at once ⊢
      rw [blank]
      exact ih others rest state once

end Tables

section Whole

variable {entries : List (String × Document)}

theorem entryDocuments_eq (entries : Entries) :
    Tree.document.entryDocuments entries = entries.map fun entry => (entry.1, entry.2.document) := by
  induction entries with
  | nil => rfl
  | cons entry entries ih =>
    obtain ⟨key, tree⟩ := entry
    rw [Tree.document.entryDocuments, ih, List.map_cons]
    rfl

theorem entryDocuments_values (entries : List (String × Document)) :
    Tree.document.entryDocuments (values entries) = entries := by
  rw [entryDocuments_eq, values, List.map_map]
  exact List.map_id entries

/-- The entries of the root, once all lines are read. -/
theorem entryDocuments_sections (plain tables : List (String × Document)) :
    Tree.document.entryDocuments (values plain ++ tables.map sectionTree) =
      plain ++ tables.map fun entry => (entry.1, .table (sectionEntries entry.2)) := by
  have own : ∀ entry,
      (entry.1, (sectionTree entry).2.document) = (entry.1, Document.table (sectionEntries entry.2)) :=
    fun entry => congrArg (fun inner => (entry.1, Document.table inner)) (entryDocuments_values _)
  have values := entryDocuments_values plain
  rw [entryDocuments_eq] at values ⊢
  rw [List.map_append, values, List.map_map]
  exact congrArg _ (List.map_congr_left fun entry _ => own entry)

theorem toList_write (entries : List (String × Document)) : (write (.table entries)).toList =
    (entries.flatMap fun entry => (entryText entry.1 entry.2).toList) ++
      entries.flatMap fun entry => (sectionText entry.1 entry.2).toList := by
  simp [write, String.toList_join, List.flatMap_map]

theorem nodup_parts (once : (entries.map Prod.fst).Nodup) :
    ((plainEntries entries).map Prod.fst ++ (tableEntries entries).map Prod.fst).Nodup := by
  refine List.nodup_append.mpr ⟨once.sublist (List.filter_sublist.map _), once.sublist (List.filter_sublist.map _), ?_⟩
  rintro _ plain _ table rfl
  obtain ⟨entry, own, rfl⟩ := List.mem_map.mp plain
  obtain ⟨other, own', same⟩ := List.mem_map.mp table
  obtain ⟨mem, solid⟩ := List.mem_filter.mp own
  obtain ⟨mem', isTable⟩ := List.mem_filter.mp own'
  rw [Keyed.eq_of_mem_of_fst once mem' mem same] at isTable
  rw [isTable] at solid
  simp at solid

theorem dropMark_write (bare : ∀ entry ∈ entries, BareKey entry.1) :
    dropMark (write (.table entries)).toList = (write (.table entries)).toList := by
  have unmarked : (write (.table entries)).toList.head? ≠ some '\uFEFF' := by
    rw [toList_write, List.head?_append, List.head?_flatMap, List.head?_flatMap]
    intro marked
    obtain first | ⟨-, first⟩ := Option.or_eq_some_iff.mp marked
    · obtain ⟨entry, mem, starts⟩ := List.exists_of_findSome?_eq_some first
      obtain ⟨c, cs, key, own⟩ := (bare entry mem).first
      cases value : entry.2 <;> simp [entryText, value, key] at starts
      all_goals
        subst starts
        cases own
    · obtain ⟨entry, -, starts⟩ := List.exists_of_findSome?_eq_some first
      cases value : entry.2 <;> simp [sectionText, value] at starts
  unfold dropMark
  split
  next same => exact absurd (congrArg List.head? same) unmarked
  next => rfl

theorem Sectioned.unwritten_or_simple (sectioned : Sectioned entries) :
    ∀ entry ∈ entries, (entry.2.isNull = true ∨ isTable entry.2 = true) ∨ Simple entry.2 := by
  intro entry mem
  obtain null | simple | ⟨inner, table, -⟩ := sectioned.held entry mem
  · exact .inl (.inl null)
  · exact .inr simple
  · exact .inl (.inr (by rw [table]; rfl))

theorem Sectioned.flat (sectioned : Sectioned entries) :
    ∀ entry ∈ entries, isTable entry.2 = true → ∃ inner, entry.2 = .table inner ∧ Flat inner := by
  intro entry mem table
  obtain null | simple | flat := sectioned.held entry mem
  · cases own : entry.2 <;> simp_all [isTable, Document.isNull]
  · have plain := simple.plain
    rw [table] at plain
    simp at plain
  · exact flat

/-- What is written is read back, with the tables after the other entries and without what has no value. -/
theorem read_write (sectioned : Sectioned entries) : read (write (.table entries)) =
    some (.table (plainEntries entries ++
      (tableEntries entries).map fun entry => (entry.1, .table (sectionEntries entry.2)))) := by
  have start := reads_entries (fun root => ⟨root, []⟩) (fun root key document absent => added_root absent document)
    sectioned.bare sectioned.unwritten_or_simple [] sectioned.once
  have keys : (values (plainEntries entries)).map Prod.fst = (plainEntries entries).map Prod.fst := List.map_map
  have once := keys ▸ nodup_parts sectioned.once
  obtain ⟨last, sections⟩ := reads_sections sectioned.bare sectioned.flat ⟨values (plainEntries entries), []⟩ once
  obtain ⟨m, -, done⟩ := (start.append sections) (write (.table entries)).length []
    (Nat.le_of_eq (by rw [← toList_write, String.length_toList]))
  rw [← toList_write, List.append_nil] at done
  unfold read
  rw [dropMark_write sectioned.bare]
  change (lines (write (.table entries)).length ⟨[], []⟩ _).map _ = _
  rw [show lines _ ⟨[], []⟩ (write (.table entries)).toList = _ from done]
  have ended : ∀ state, lines m state [] = some state := fun state => by
    cases m <;> rfl
  rw [ended, Option.map_some]
  exact congrArg some (congrArg Document.table (entryDocuments_sections _ _))

end Whole

end SweepPlot.Toml
