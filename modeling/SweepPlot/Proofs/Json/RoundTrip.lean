import SweepPlot.Json.Reader
import SweepPlot.Json.Writer
import SweepPlot.Proofs.Number.Digits
import SweepPlot.Proofs.Outcome
set_option autoImplicit false

namespace SweepPlot.Json

section Strings

theorem units_plain {c : Char} (notQuote : c ≠ '"') (notSlash : c ≠ '\\') (printed : 0x20 ≤ c.toNat)
    (rest : List Char) : units (c :: rest) = (units rest).map fun (us, rest) => (c.toNat :: us, rest) := by
  rw [units]
  · exact if_neg (Nat.not_lt.mpr printed)
  · exact notQuote
  · rintro a b d e _ same
    exact absurd same notSlash
  · rintro _ _ same
    exact absurd same notSlash

theorem hexUnit?_hexPair : ∀ n < 0x20,
    hexUnit? ['0', '0', Text.hexDigit (n / 16), Text.hexDigit (n % 16)] = some n := by
  decide

theorem units_escapedChar (c : Char) (rest : List Char) :
    units ((escapedChar c).toList ++ rest) = (units rest).map fun (us, rest) => (c.toNat :: us, rest) := by
  unfold escapedChar
  split
  · rfl
  · rfl
  · rfl
  · rfl
  · rfl
  next notQuote notSlash _ _ _ =>
    split
    next back =>
      rw [back]
      rfl
    split
    next feed =>
      rw [feed]
      rfl
    split
    next control =>
      have digits := hexUnit?_hexPair c.toNat control
      have text : ("\\u00" ++ hexPair c.toNat).toList ++ rest =
          '\\' :: 'u' :: '0' :: '0' :: Text.hexDigit (c.toNat / 16) :: Text.hexDigit (c.toNat % 16) :: rest := by
        simp [hexPair]
      rw [text, units, digits]
    next printed =>
      rw [Char.toString_eq_singleton, String.toList_singleton]
      exact units_plain notQuote notSlash (Nat.not_lt.mp printed) rest

theorem units_escaped (cs rest : List Char) :
    units ((cs.flatMap fun c => (escapedChar c).toList) ++ '"' :: rest) = some (cs.map Char.toNat, rest) := by
  induction cs with
  | nil => rfl
  | cons c cs ih =>
    rw [List.flatMap_cons, List.append_assoc, units_escapedChar, ih]
    rfl

theorem isHigh_toNat (c : Char) : isHigh c.toNat = false ∧ isLow c.toNat = false := by
  have valid : c.toNat < 0xD800 ∨ 0xDFFF < c.toNat ∧ c.toNat < 0x110000 := c.valid
  constructor <;> refine decide_eq_false fun both => ?_ <;> omega

theorem joinUnits_toNat (cs : List Char) : joinUnits (cs.map Char.toNat) = some cs := by
  induction cs with
  | nil => rfl
  | cons c cs ih =>
    obtain ⟨high, low⟩ := isHigh_toNat c
    cases cs with
    | nil => simp [joinUnits, high, low]
    | cons d cs =>
      rw [List.map_cons] at ih
      rw [List.map_cons, List.map_cons, joinUnits, high, low, ih]
      simp

theorem text?_toNat (s : String) : text? (s.toList.map Char.toNat) = some s := by
  rw [text?, joinUnits_toNat, Option.map_some, String.ofList_toList]

theorem ofUnits_toNat (s : String) : ofUnits (s.toList.map Char.toNat) = .text s := by
  unfold ofUnits
  rw [text?_toNat]

theorem quoted_append (s : String) (rest : List Char) : (quoted s).toList ++ rest =
    '"' :: ((s.toList.flatMap fun c => (escapedChar c).toList) ++ '"' :: rest) := by
  simp [quoted, String.toList_join, List.flatMap_map]

end Strings

section Numbers

/-- Nothing follows, or what cannot belong to a number. -/
def Ends (rest : List Char) : Prop :=
  ∀ c ∈ rest.head?, c = ',' ∨ c = '\n'

theorem takeWhile_of_ends {rest : List Char} (ends : Ends rest) :
    rest.takeWhile Number.isDigit = [] ∧ rest.dropWhile Number.isDigit = rest ∧
      fraction? rest = some (false, rest) ∧ exponent? rest = some (false, rest) := by
  cases rest with
  | nil => exact ⟨rfl, rfl, rfl, rfl⟩
  | cons c rest =>
    obtain rfl | rfl := ends c rfl <;> exact ⟨rfl, rfl, rfl, rfl⟩

theorem number_toDigits (n : Nat) {rest : List Char} (ends : Ends rest) :
    number ('-' :: (Nat.toDigits 10 n ++ rest)) = some (ofInteger true n, rest) ∧
      number (Nat.toDigits 10 n ++ rest) = some (ofInteger false n, rest) := by
  obtain ⟨taken, dropped, fraction, exponent⟩ := takeWhile_of_ends ends
  obtain ⟨front, back⟩ := Number.takeWhile_of_digits (fun _ => Number.isDigit_of_mem_toDigits (n := n)) rest
  rw [taken, List.append_nil] at front
  rw [dropped] at back
  have leading : ((Nat.toDigits 10 n).head? == some '0' && (Nat.toDigits 10 n).length != 1) = false := by
    by_cases zero : n = 0
    · subst zero
      rfl
    · simp [Number.head?_toDigits (Nat.pos_of_ne_zero zero)]
  have unsigned : ∀ more, Nat.toDigits 10 n ++ rest ≠ '-' :: more := by
    intro more same
    obtain ⟨c, cs, text⟩ := List.exists_cons_of_ne_nil (Nat.toDigits_ne_nil (n := n) (b := 10))
    rw [text] at same
    have digit := Number.isDigit_of_mem_toDigits (text ▸ List.mem_cons_self : c ∈ Nat.toDigits 10 n)
    rw [(List.cons.inj same).1] at digit
    exact absurd digit (by decide)
  constructor
  · simp [number, front, back, leading, fraction, exponent, Nat.toDigits_ne_nil, Number.digitsValue_toDigits]
  · unfold number
    split
    next negative body sign =>
      split at sign
      next more same => exact absurd same (unsigned _)
      next =>
        cases sign
        simp [front, back, leading, fraction, exponent, Nat.toDigits_ne_nil, Number.digitsValue_toDigits]

theorem number_toString {v : Int} (fits : Number.inInt64 v = true) {rest : List Char} (ends : Ends rest) :
    number ((toString v).toList ++ rest) = some (.int v, rest) := by
  cases v with
  | ofNat n =>
    have text : (toString (Int.ofNat n)).toList = Nat.toDigits 10 n := Number.toList_toString n
    have value : ofInteger false n = .int (Int.ofNat n) := if_neg (by simpa using fits)
    rw [text, (number_toDigits n ends).2, value]
  | negSucc n =>
    have text : (toString (Int.negSucc n)).toList = '-' :: Nat.toDigits 10 (n + 1) :=
      String.toList_append.trans (congrArg ('-' :: ·) (Number.toList_toString (n + 1)))
    have value : ofInteger true (n + 1) = .int (Int.negSucc n) := by
      unfold ofInteger
      dsimp only
      rw [if_pos rfl, show -((n + 1 : Nat) : Int) = Int.negSucc n from rfl, fits]
      rfl
    rw [text, List.cons_append, (number_toDigits (n + 1) ends).1, value]

end Numbers

section Blanks

theorem skip_solid {c : Char} (solid : isSpace c = false) (cs : List Char) : skip (c :: cs) = c :: cs :=
  List.dropWhile_cons_of_neg (by simp [solid])

theorem skip_lineStart (depth : Nat) (cs : List Char) : skip ((lineStart depth).toList ++ cs) = skip cs := by
  refine List.dropWhile_append_of_pos fun c mem => ?_
  rw [lineStart, String.toList_append, List.mem_append] at mem
  obtain feed | indent := mem
  · rw [List.mem_singleton.mp feed]
    rfl
  · rw [String.toList_ofList] at indent
    rw [List.eq_of_mem_replicate indent]
    rfl

theorem ends_lineStart (depth : Nat) (cs : List Char) : Ends ((lineStart depth).toList ++ cs) := by
  rw [lineStart, String.toList_append]
  rintro _ ⟨⟩
  exact .inr rfl

theorem value_lineStart (steps depth : Nat) (cs : List Char) :
    value steps ((lineStart depth).toList ++ cs) = value steps cs := by
  cases steps with
  | zero => rfl
  | succ steps => rw [value, value, skip_lineStart]

theorem items_lineStart (steps depth : Nat) (cs : List Char) :
    items steps ((lineStart depth).toList ++ cs) = items steps cs := by
  cases steps with
  | zero => rfl
  | succ steps => rw [items, items, value_lineStart]

theorem members_lineStart (steps depth : Nat) (cs : List Char) :
    members steps ((lineStart depth).toList ++ cs) = members steps cs := by
  cases steps with
  | zero => rfl
  | succ steps => rw [members, members, skip_lineStart]

theorem value_space (steps : Nat) (cs : List Char) : value steps (' ' :: cs) = value steps cs := by
  cases steps with
  | zero => rfl
  | succ steps => rfl

theorem items_closing {cs rest : List Char} (closing : skip cs = ']' :: rest) (steps : Nat) :
    items steps cs = none := by
  obtain _ | _ | steps := steps
  · rfl
  · rfl
  · rw [items, value, closing]
    rfl

theorem members_closing {cs rest : List Char} (closing : skip cs = '\x7d' :: rest) (steps : Nat) :
    members steps cs = none := by
  cases steps with
  | zero => rfl
  | succ steps =>
    rw [members, closing]
    rfl

end Blanks

section Leaves

theorem value_word {cs rest : List Char} {document : Document} (read : word cs = some (document, rest))
    (steps : Nat) : value (steps + 1) cs = some (document, rest) := by
  unfold word at read
  split at read <;> cases read
  all_goals
    rw [value, skip_solid rfl]
    rfl

theorem number_first {c : Char} {cs : List Char} (read : number (c :: cs) ≠ none) :
    c = '-' ∨ Number.isDigit c = true := by
  refine Decidable.byContradiction fun other => read ?_
  obtain ⟨unsigned, noDigit⟩ := not_or.mp other
  unfold number
  split
  next negative body sign =>
    split at sign
    next same => exact absurd (List.cons.inj same).1 unsigned
    next =>
      cases sign
      simp [noDigit]

theorem value_number {cs rest : List Char} {document : Document} (read : number cs = some (document, rest))
    (steps : Nat) : value (steps + 1) cs = some (document, rest) := by
  cases cs with
  | nil => cases read
  | cons c cs =>
    have given : number (c :: cs) ≠ none := by
      simp [read]
    have first := number_first given
    have apart : ∀ d, d ≠ '-' ∧ Number.isDigit d = false → c ≠ d := by
      rintro _ ⟨unsigned, noDigit⟩ rfl
      obtain same | digit := first
      · exact unsigned same
      · cases noDigit.symm.trans digit
    have solid : isSpace c = false := by
      simp [isSpace, apart ' ' (by decide), apart '\n' (by decide), apart '\t' (by decide), apart '\r' (by decide)]
    have unnamed : word (c :: cs) = none := by
      unfold word
      split
      next same => exact absurd (List.cons.inj same).1 (apart 'n' (by decide))
      next same => exact absurd (List.cons.inj same).1 (apart 't' (by decide))
      next same => exact absurd (List.cons.inj same).1 (apart 'f' (by decide))
      next => rfl
    rw [value, skip_solid solid]
    split
    next same => exact absurd (List.cons.inj same).1 (apart '"' (by decide))
    next same => exact absurd (List.cons.inj same).1 (apart '[' (by decide))
    next same => exact absurd (List.cons.inj same).1 (apart '\x7b' (by decide))
    next => rw [unnamed, Option.none_or, read]

theorem value_quote (steps : Nat) (cs : List Char) :
    value (steps + 1) ('"' :: cs) = (units cs).map fun (us, rest) => (ofUnits us, rest) := by
  rw [value, skip_solid rfl]
  rfl

theorem value_text (s : String) (steps : Nat) (rest : List Char) :
    value (steps + 1) ((quoted s).toList ++ rest) = some (.text s, rest) := by
  rw [quoted_append, value_quote, units_escaped, Option.map_some]
  exact congrArg (fun document => some (document, rest)) (ofUnits_toNat s)

end Leaves

section Lines

variable {α : Type} {parse : Nat → Parse (List α)} {closing : Char} {depth steps : Nat}

def joined (depth : Nat) (lines : List String) : List Char :=
  (String.intercalate ("," ++ lineStart depth) lines).toList

theorem joined_cons_cons (depth : Nat) (line next : String) (lines : List String) :
    joined depth (line :: next :: lines) =
      line.toList ++ ',' :: ((lineStart depth).toList ++ joined depth (next :: lines)) := by
  rw [joined, joined, String.intercalate_cons_cons]
  simp

/-- The line is read as the entry, be it the last one before the bracket closes or not. -/
structure LineReads (parse : Nat → Parse (List α)) (closing : Char) (line : String) (a : α) : Prop where
  last : ∀ steps after rest, line.toList.length ≤ steps → Ends after → skip after = closing :: rest →
    parse (steps + 2) (line.toList ++ after) = some ([a], rest)
  more : ∀ steps rest, line.toList.length ≤ steps →
    parse (steps + 2) (line.toList ++ ',' :: rest) =
      (parse (steps + 1) rest).map fun (more, rest) => (a :: more, rest)

theorem joined_reads {line : String} {lines : List String} {a : α} {as : List α}
    (each : List.Forall₂ (LineReads parse closing) (line :: lines) (a :: as))
    (blank : ∀ steps cs, parse steps ((lineStart depth).toList ++ cs) = parse steps cs) {after rest : List Char}
    (ends : Ends after) (closed : skip after = closing :: rest)
    (room : (joined depth (line :: lines)).length ≤ steps) :
    parse (steps + 2) (joined depth (line :: lines) ++ after) = some (a :: as, rest) := by
  induction lines generalizing line a as steps with
  | nil =>
    obtain _ | ⟨first, others⟩ := each
    cases others
    have text : joined depth [line] = line.toList := by
      simp [joined]
    rw [text] at room ⊢
    exact first.last steps after rest room ends closed
  | cons next lines ih =>
    -- A line takes one of the steps, and the comma after it is one of the characters.
    obtain _ | ⟨first, others⟩ := each
    obtain _ | ⟨second, others⟩ := others
    rw [joined_cons_cons] at room ⊢
    simp only [List.length_append, List.length_cons] at room
    obtain _ | steps := steps
    · omega
    rw [List.append_assoc, List.cons_append, first.more _ _ (by omega), List.append_assoc, blank,
      ih (.cons second others) (by omega)]
    rfl

theorem bracketed_nil {opening close : String} {o : Char} (front : opening.toList = [o])
    (back : close.toList = [closing]) (depth : Nat) : (bracketed opening close depth []).toList = [o, closing] := by
  simp [bracketed, front, back]

/-- Lines in brackets are an opening bracket and what is read as their entries. -/
theorem bracketed_reads {opening close : String} {o : Char} (front : opening.toList = [o])
    (back : close.toList = [closing]) (depth : Nat) {line : String} {lines : List String} {a : α} {as : List α}
    (each : List.Forall₂ (LineReads parse closing) (line :: lines) (a :: as))
    (blank : ∀ steps depth cs, parse steps ((lineStart depth).toList ++ cs) = parse steps cs)
    (solid : isSpace closing = false) (rest : List Char)
    (room : (bracketed opening close depth (line :: lines)).toList.length ≤ steps) :
    ∃ cs, (bracketed opening close depth (line :: lines)).toList ++ rest = o :: cs ∧
      parse steps cs = some (a :: as, rest) := by
  have text : ∀ rest, (bracketed opening close depth (line :: lines)).toList ++ rest =
      o :: ((lineStart (depth + 1)).toList ++ (joined (depth + 1) (line :: lines) ++
        ((lineStart depth).toList ++ closing :: rest))) := fun rest => by
    simp [bracketed, joined, front, back]
  have length := congrArg List.length (text [])
  simp only [List.append_nil, List.length_append, List.length_cons] at length
  -- The lines need two steps more than they have characters, and the two brackets make up for these.
  obtain _ | _ | steps := steps
  · omega
  · omega
  refine ⟨_, text rest, (blank ..).trans ?_⟩
  have closed : skip ((lineStart depth).toList ++ closing :: rest) = closing :: rest := by
    rw [skip_lineStart, skip_solid solid]
  exact joined_reads each (blank · (depth + 1)) (ends_lineStart depth _) closed (by omega)

end Lines

section Brackets

variable {depth : Nat} {steps : Nat} {rest : List Char}

/-- The text of the document is read back, whatever may follow it, with one step more than it has characters. -/
def ReadsBack (depth : Nat) (document : Document) : Prop :=
  ∀ steps rest, (textAt depth document).toList.length ≤ steps → Ends rest →
    value (steps + 1) ((textAt depth document).toList ++ rest) = some (document, rest)

theorem ends_comma (rest : List Char) : Ends (',' :: rest) := by
  rintro _ ⟨⟩
  exact .inl rfl

theorem items_line {item : Document} (back : ReadsBack depth item) :
    LineReads items ']' (textAt depth item) item where
  last steps after rest room ends closed := by
    rw [items, back steps after room ends]
    dsimp only
    rw [closed]
    rfl
  more steps rest room := by
    rw [items, back steps _ room (ends_comma rest)]
    rfl

/-- A key as it is read, before its escapes are joined. -/
def unjoined (entry : String × Document) : List Nat × Document :=
  (entry.1.toList.map Char.toNat, entry.2)

theorem ofMembers_unjoined (entries : List (String × Document)) :
    ofMembers (entries.map unjoined) = .table entries := by
  have back : ∀ entry : String × Document,
      (text? (unjoined entry).1).map (fun key => (key, (unjoined entry).2)) = some entry := fun entry => by
    rw [unjoined, text?_toNat, Option.map_some]
  unfold ofMembers
  rw [mapM_map_eq_some _ unjoined back]

theorem entryText_append (depth : Nat) (entry : String × Document) (after : List Char) :
    (textAt.entryText depth entry).toList ++ after =
      (quoted entry.1).toList ++ ':' :: ' ' :: ((textAt depth entry.2).toList ++ after) := by
  obtain ⟨key, item⟩ := entry
  simp [textAt.entryText]

theorem members_entry {entry : String × Document} {after : List Char} (back : ReadsBack depth entry.2)
    (room : (textAt.entryText depth entry).toList.length ≤ steps) (ends : Ends after) :
    members (steps + 2) ((textAt.entryText depth entry).toList ++ after) =
      match skip after with
      | '\x7d' :: rest => some ([unjoined entry], rest)
      | ',' :: rest => (members (steps + 1) rest).map fun (more, rest) => (unjoined entry :: more, rest)
      | _ => none := by
  have shorter : (textAt depth entry.2).toList.length ≤ steps := by
    have split := congrArg List.length (entryText_append depth entry [])
    simp only [List.append_nil, List.length_append, List.length_cons] at split
    omega
  have read : value (steps + 1) (' ' :: ((textAt depth entry.2).toList ++ after)) = some (entry.2, after) :=
    (value_space ..).trans (back steps after shorter ends)
  rw [entryText_append, quoted_append, members, skip_solid rfl]
  simp only [units_escaped, skip_solid (c := ':') rfl, read]
  rfl

theorem members_line {entry : String × Document} (back : ReadsBack depth entry.2) :
    LineReads members '\x7d' (textAt.entryText depth entry) (unjoined entry) where
  last steps after rest room ends closed := by
    rw [members_entry back room ends, closed]
    rfl
  more steps rest room := by
    rw [members_entry back room (ends_comma rest)]
    rfl

theorem value_bracket (steps : Nat) (cs : List Char) : value (steps + 1) ('[' :: cs) =
    match skip cs with
    | ']' :: rest => some (.list [], rest)
    | _ => (items steps cs).map fun (items, rest) => (.list items, rest) := by
  rw [value, skip_solid rfl]
  rfl

theorem value_brace (steps : Nat) (cs : List Char) : value (steps + 1) ('\x7b' :: cs) =
    match skip cs with
    | '\x7d' :: rest => some (.table [], rest)
    | _ => (members steps cs).map fun (members, rest) => (ofMembers members, rest) := by
  rw [value, skip_solid rfl]
  rfl

theorem value_list {cs : List Char} {its : List Document} (read : items steps cs = some (its, rest)) :
    value (steps + 1) ('[' :: cs) = some (.list its, rest) := by
  rw [value_bracket]
  split
  next closing => cases (items_closing closing steps).symm.trans read
  next => rw [read, Option.map_some]

theorem value_table {cs : List Char} {entries : List (String × Document)}
    (read : members steps cs = some (entries.map unjoined, rest)) :
    value (steps + 1) ('\x7b' :: cs) = some (.table entries, rest) := by
  rw [value_brace]
  split
  next closing => cases (members_closing closing steps).symm.trans read
  next =>
    rw [read, Option.map_some]
    exact congrArg (fun document => some (document, rest)) (ofMembers_unjoined entries)

theorem itemTexts_eq (depth : Nat) (documents : List Document) :
    textAt.itemTexts depth documents = documents.map (textAt depth) := by
  induction documents with
  | nil => rfl
  | cons item documents ih => rw [textAt.itemTexts, ih, List.map_cons]

theorem entryTexts_eq (depth : Nat) (entries : List (String × Document)) :
    textAt.entryTexts depth entries = entries.map (textAt.entryText depth) := by
  induction entries with
  | nil => rfl
  | cons entry entries ih => rw [textAt.entryTexts, ih, List.map_cons]

theorem readsBack_list {documents : List Document} (each : ∀ item ∈ documents, ReadsBack (depth + 1) item) :
    ReadsBack depth (.list documents) := by
  intro steps rest room ends
  rw [textAt, itemTexts_eq] at room ⊢
  cases documents with
  | nil =>
    rw [List.map_nil, bracketed_nil rfl rfl] at room ⊢
    exact value_bracket steps (']' :: rest)
  | cons item documents =>
    have lines : List.Forall₂ (LineReads items ']') ((item :: documents).map (textAt (depth + 1)))
        (item :: documents) :=
      List.forall₂_map_left_iff.mpr (List.forall₂_same.mpr fun item mem => items_line (each item mem))
    rw [List.map_cons] at room lines ⊢
    obtain ⟨cs, text, read⟩ := bracketed_reads rfl rfl depth lines items_lineStart rfl rest room
    rw [text]
    exact value_list read

theorem readsBack_table {entries : List (String × Document)}
    (each : ∀ entry ∈ entries, ReadsBack (depth + 1) entry.2) : ReadsBack depth (.table entries) := by
  intro steps rest room ends
  rw [textAt, entryTexts_eq] at room ⊢
  cases entries with
  | nil =>
    rw [List.map_nil, bracketed_nil rfl rfl] at room ⊢
    exact value_brace steps ('\x7d' :: rest)
  | cons entry entries =>
    have lines : List.Forall₂ (LineReads members '\x7d') ((entry :: entries).map (textAt.entryText (depth + 1)))
        ((entry :: entries).map unjoined) :=
      List.forall₂_map_left_iff.mpr (List.forall₂_map_right_iff.mpr
        (List.forall₂_same.mpr fun entry mem => members_line (each entry mem)))
    rw [List.map_cons] at room lines ⊢
    obtain ⟨cs, text, read⟩ := bracketed_reads rfl rfl depth lines members_lineStart rfl rest room
    rw [text]
    exact value_table read

end Brackets

section Whole

/-- What JSON text can say: no dates, no integers beyond 64 bits, and nothing that is only passed over. -/
inductive Plain : Document → Prop where
  | null : Plain .null
  | flag (value : Bool) : Plain (.flag value)
  | int {v : Int} (fits : Number.inInt64 v = true) : Plain (.int v)
  | text (s : String) : Plain (.text s)
  | list {items : List Document} (each : ∀ item ∈ items, Plain item) : Plain (.list items)
  | table {entries : List (String × Document)} (each : ∀ entry ∈ entries, Plain entry.2) : Plain (.table entries)

theorem Plain.texts (items : List String) : Plain (.texts items) := by
  refine .list fun item mem => ?_
  obtain ⟨s, -, rfl⟩ := List.mem_map.mp mem
  exact .text s

theorem Plain.ints {items : List Int} (fits : ∀ v ∈ items, Number.inInt64 v = true) : Plain (.ints items) := by
  refine .list fun item mem => ?_
  obtain ⟨v, given, rfl⟩ := List.mem_map.mp mem
  exact .int (fits v given)

theorem Plain.optText : ∀ s : Option String, Plain (.optText s)
  | none => .null
  | some s => .text s

theorem readsBack {document : Document} (plain : Plain document) (depth : Nat) : ReadsBack depth document := by
  induction plain generalizing depth with
  | null => exact fun steps rest _ _ => value_word (by simp [textAt, word]) steps
  | flag value => cases value <;> exact fun steps rest _ _ => value_word (by simp [textAt, word]) steps
  | int fits => exact fun steps rest _ ends => value_number (number_toString fits ends) steps
  | text s => exact fun steps rest _ _ => value_text s steps rest
  | list each ih => exact readsBack_list fun item mem => ih item mem (depth + 1)
  | table each ih => exact readsBack_table fun entry mem => ih entry mem (depth + 1)

theorem read_write {document : Document} (plain : Plain document) : read (write document) = some document := by
  have back := readsBack plain 0 (write document).length [] (Nat.le_refl _) (by rintro _ ⟨⟩)
  rw [List.append_nil] at back
  unfold read
  rw [show value ((write document).length + 1) (write document).toList = some (document, []) from back]
  exact if_pos rfl

end Whole

end SweepPlot.Json
