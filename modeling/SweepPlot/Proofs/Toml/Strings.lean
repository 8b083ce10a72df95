import Mathlib.Tactic.SplitIfs
import SweepPlot.Toml.Reader
import SweepPlot.Toml.Writer
set_option autoImplicit false

namespace SweepPlot.Toml

section Escapes

/-- A character is written as it is, or as a backslash with a letter or a code. -/
inductive Escaped (c : Char) : List Char → Prop where
  | plain (printed : isPrintable c = true) (notQuote : c ≠ '"') (notSlash : c ≠ '\\') : Escaped c [c]
  | letter {e : Char} (read : simpleEscape? e = some c) (printed : isPrintable e = true) : Escaped c ['\\', e]
  | code (small : c.toNat < 0x80) :
      Escaped c ['\\', 'u', '0', '0', upperHex (c.toNat / 16), upperHex (c.toNat % 16)]

theorem isPrintable_of_not_needsCode {c : Char} (free : needsCode c = false) (notFeed : c ≠ '\n') :
    isPrintable c = true := by
  unfold needsCode at free
  unfold isPrintable
  by_cases tab : c = '\t'
  · simp [tab]
  · simp [notFeed, tab] at free ⊢
    exact free

theorem escaped_escapedChar (c : Char) : Escaped c (escapedChar c).toList := by
  unfold escapedChar
  split
  · exact .letter (e := 't') rfl rfl
  · exact .letter (e := 'n') rfl rfl
  · exact .letter (e := 'r') rfl rfl
  · exact .letter (e := '"') rfl rfl
  · exact .letter (e := '\\') rfl rfl
  next notTab notFeed _ notQuote notSlash =>
    dsimp only
    split
    next back =>
      obtain rfl : c = '\x08' := Char.toNat_inj.mp back
      exact .letter (e := 'b') rfl rfl
    split
    next feed =>
      obtain rfl : c = '\x0c' := Char.toNat_inj.mp feed
      exact .letter (e := 'f') rfl rfl
    split
    next coded =>
      have small : c.toNat < 0x80 := by
        simp [needsCode] at coded
        omega
      simpa using Escaped.code small
    next free =>
      rw [Char.toString_eq_singleton, String.toList_singleton]
      exact .plain (isPrintable_of_not_needsCode (by simpa using free) notFeed) notQuote notSlash

theorem upperHex_read : ∀ d < 16, Text.hexValue? (upperHex d) = some d ∧ isPrintable (upperHex d) = true ∧
    upperHex d ≠ '"' ∧ upperHex d ≠ '\\' := by
  decide

variable {c : Char} {text : List Char}

theorem Escaped.printed (escaped : Escaped c text) : ∀ d ∈ text, isPrintable d = true := by
  cases escaped with
  | plain printed => simpa using printed
  | letter _ printed => simpa using ⟨rfl, printed⟩
  | code small =>
    have high := (upperHex_read (c.toNat / 16) (by omega)).2.1
    have low := (upperHex_read (c.toNat % 16) (by omega)).2.1
    simp only [List.forall_mem_cons, List.not_mem_nil, false_implies, implies_true, and_true]
    exact ⟨rfl, rfl, rfl, rfl, high, low⟩

theorem Escaped.head (escaped : Escaped c text) (rest : List Char) :
    ∃ d more, text ++ rest = d :: more ∧ isPrintable d = true ∧ d ≠ '"' := by
  cases escaped with
  | plain printed notQuote => exact ⟨c, rest, rfl, printed, notQuote⟩
  | letter | code => exact ⟨'\\', _, rfl, rfl, by decide⟩

theorem Escaped.unescape (escaped : Escaped c text) (long : Bool) (rest : List Char) :
    unescape long .plain (text ++ rest) = (unescape long .plain rest).map (c :: ·) := by
  cases escaped with
  | plain _ _ notSlash => exact if_neg notSlash
  | @letter e read =>
    unfold simpleEscape? at read
    split at read <;> cases read <;> cases long <;> rfl
  | code small =>
    have high := (upperHex_read (c.toNat / 16) (by omega)).1
    have low := (upperHex_read (c.toNat % 16) (by omega)).1
    have value : 16 * (c.toNat / 16) + c.toNat % 16 = c.toNat := Nat.div_add_mod _ _
    have start : Toml.unescape long .plain
        (['\\', 'u', '0', '0', upperHex (c.toNat / 16), upperHex (c.toNat % 16)] ++ rest) =
        Toml.unescape long (.code 2 0) (upperHex (c.toNat / 16) :: upperHex (c.toNat % 16) :: rest) := by
      cases long <;> rfl
    rw [start, Toml.unescape, high]
    dsimp only
    rw [if_neg (by decide), Toml.unescape, low]
    dsimp only
    rw [Nat.mul_zero, Nat.zero_add, value, if_pos rfl, if_pos (Or.inl (by omega)), Char.ofNat_toNat]

theorem Escaped.cutBasic (escaped : Escaped c text) (rest : List Char) :
    cutBasic (text ++ rest) = (cutBasic rest).map fun (raw, rest) => (text ++ raw, rest) := by
  have plain : ∀ {d : Char} (more : List Char), d ≠ '"' → d ≠ '\\' →
      Toml.cutBasic (d :: more) = (Toml.cutBasic more).map fun (raw, rest) => (d :: raw, rest) := by
    intro d more notQuote notSlash
    rw [Toml.cutBasic]
    · exact notQuote
    · rintro _ _ same
      exact absurd same notSlash
  cases escaped with
  | plain _ notQuote notSlash => exact plain rest notQuote notSlash
  | letter => rfl
  | code small =>
    obtain ⟨-, -, highQuote, highSlash⟩ := upperHex_read (c.toNat / 16) (by omega)
    obtain ⟨-, -, lowQuote, lowSlash⟩ := upperHex_read (c.toNat % 16) (by omega)
    simp only [List.cons_append, List.nil_append]
    rw [Toml.cutBasic, plain _ (by decide) (by decide), plain _ (by decide) (by decide), plain _ highQuote highSlash,
      plain _ lowQuote lowSlash]
    simp only [Option.map_map]
    rfl

end Escapes

section Long

variable {quote c : Char} {escapes : Bool} {run : Nat}

/-- Another character settles how many quotes before it belong to the content. -/
theorem cutLong_other (few : run ≤ 2) (other : c ≠ quote) (rest : List Char) :
    cutLong quote escapes run false (c :: rest) = (cutLong quote escapes 0 (escapes && c == '\\') rest).map
      fun (raw, rest) => (List.replicate run quote ++ c :: raw, rest) := by
  rw [cutLong, if_neg (by decide), if_neg other, if_neg (by omega)]

theorem cutLong_quote (few : run ≤ 2) (rest : List Char) :
    cutLong quote escapes run false (quote :: rest) = cutLong quote escapes (run + 1) false rest := by
  rw [cutLong, if_neg (by decide), if_pos rfl, if_neg (by omega)]

theorem cutLong_closing (few : run ≤ 2) {rest : List Char} (ends : rest.head? ≠ some quote) :
    cutLong quote escapes run false (quote :: quote :: quote :: rest) = some (List.replicate run quote, rest) := by
  have closed : cutLong quote escapes (run + 3) false rest = some (List.replicate run quote, rest) := by
    cases rest with
    | nil =>
      rw [cutLong, if_pos (by omega)]
      rfl
    | cons d rest =>
      have other : d ≠ quote := fun same => ends (congrArg some same)
      rw [cutLong, if_neg (by decide), if_neg other, if_pos (by omega)]
      rfl
  have step : ∀ more, run + more ≠ 5 → ∀ rest, cutLong quote escapes (run + more) false (quote :: rest) =
      cutLong quote escapes (run + more + 1) false rest := fun more room rest => by
    rw [cutLong, if_neg (by decide), if_pos rfl, if_neg room]
  exact (step 0 (by omega) _).trans ((step 1 (by omega) _).trans ((step 2 (by omega) _).trans closed))

theorem le_longestRun (c : Char) (run : Nat) (cs : List Char) : run ≤ longestRun c run cs := by
  induction cs generalizing run with
  | nil => exact Nat.le_refl run
  | cons d cs ih =>
    rw [longestRun]
    split
    · exact Nat.le_trans (Nat.le_succ run) (ih _)
    · exact Nat.le_max_left _ _

/-- Between literal quotes content without three of them in a row is cut out as it is. -/
theorem cutLong_literal {cs : List Char} (few : longestRun quote run cs ≤ 2) {rest : List Char}
    (ends : rest.head? ≠ some quote) :
    cutLong quote false run false (cs ++ quote :: quote :: quote :: rest) =
      some (List.replicate run quote ++ cs, rest) := by
  induction cs generalizing run with
  | nil => simpa using cutLong_closing (show run ≤ 2 from few) ends
  | cons d cs ih =>
    have small := Nat.le_trans (le_longestRun quote run (d :: cs)) few
    rw [longestRun] at few
    by_cases same : d = quote
    · subst same
      rw [if_pos rfl] at few
      rw [List.cons_append, cutLong_quote small, ih few, List.replicate_succ', List.append_assoc]
      rfl
    · rw [if_neg same] at few
      rw [List.cons_append, cutLong_other small same, Bool.false_and, ih (Nat.le_trans (Nat.le_max_right _ _) few)]
      rfl

theorem Escaped.cutLong {text : List Char} (escaped : Escaped c text) (few : run ≤ 2) (rest : List Char) :
    cutLong '"' true run false (text ++ rest) = (cutLong '"' true 0 false rest).map
      fun (raw, rest) => (List.replicate run '"' ++ (text ++ raw), rest) := by
  have after : ∀ (e : Char) (more : List Char), Toml.cutLong '"' true 0 true (e :: more) =
      (Toml.cutLong '"' true 0 false more).map fun (raw, rest) => (e :: raw, rest) := fun _ _ => rfl
  cases escaped with
  | plain _ notQuote notSlash =>
    have flag : (true && c == '\\') = false := by simp [notSlash]
    rw [List.singleton_append, cutLong_other few notQuote, flag]
    rfl
  | letter =>
    rw [List.cons_append, cutLong_other few (by decide), List.singleton_append, Bool.true_and, beq_self_eq_true,
      after, Option.map_map]
    rfl
  | code small =>
    obtain ⟨-, -, highQuote, highSlash⟩ := upperHex_read (c.toNat / 16) (by omega)
    obtain ⟨-, -, lowQuote, lowSlash⟩ := upperHex_read (c.toNat % 16) (by omega)
    have plain : ∀ {d : Char} (more : List Char), d ≠ '"' → d ≠ '\\' → Toml.cutLong '"' true 0 false (d :: more) =
        (Toml.cutLong '"' true 0 false more).map fun (raw, rest) => (d :: raw, rest) := by
      intro d more notQuote notSlash
      have flag : (true && d == '\\') = false := by simp [notSlash]
      rw [cutLong_other (Nat.zero_le 2) notQuote, flag]
      rfl
    simp only [List.cons_append, List.nil_append]
    rw [cutLong_other few (by decide), Bool.true_and, beq_self_eq_true, after, plain _ (by decide) (by decide),
      plain _ (by decide) (by decide), plain _ highQuote highSlash, plain _ lowQuote lowSlash]
    simp only [Option.map_map]
    rfl

theorem toList_longBasicText_cons (run : Nat) (c : Char) (cs : List Char) :
    (longBasicText run (c :: cs)).toList =
      if c = '"' then
        if run < 2 then '"' :: (longBasicText (run + 1) cs).toList
        else '\\' :: '"' :: (longBasicText 0 cs).toList
      else if c = '\n' then '\n' :: (longBasicText 0 cs).toList
      else (escapedChar c).toList ++ (longBasicText 0 cs).toList := by
  rw [longBasicText]
  split_ifs <;> simp

/-- No three quotes stand in a row, so the content is cut out with its escapes. -/
theorem cutLong_longBasicText (few : run ≤ 2) (cs : List Char) {rest : List Char} (ends : rest.head? ≠ some '"') :
    cutLong '"' true run false ((longBasicText run cs).toList ++ '"' :: '"' :: '"' :: rest) =
      some (List.replicate run '"' ++ (longBasicText run cs).toList, rest) := by
  induction cs generalizing run with
  | nil => simpa [longBasicText] using cutLong_closing few ends
  | cons c cs ih =>
    rw [toList_longBasicText_cons]
    split_ifs with quoted room feed
    · rw [List.cons_append, cutLong_quote few, ih (by omega), List.replicate_succ', List.append_assoc]
      rfl
    · rw [List.cons_append, cutLong_other few (by decide), Bool.true_and, beq_self_eq_true, List.cons_append]
      rw [show ∀ more, cutLong '"' true 0 true ('"' :: more) =
        (cutLong '"' true 0 false more).map fun (raw, rest) => ('"' :: raw, rest) from fun _ => rfl, ih (Nat.zero_le 2)]
      rfl
    · rw [List.cons_append, cutLong_other few (by decide), show (true && '\n' == '\\') = false from rfl,
        ih (Nat.zero_le 2)]
      rfl
    · rw [List.append_assoc, (escaped_escapedChar c).cutLong few, ih (Nat.zero_le 2)]
      rfl

theorem unescape_longBasicText (run : Nat) (cs : List Char) :
    unescape true .plain (longBasicText run cs).toList = some cs := by
  induction cs generalizing run with
  | nil => rfl
  | cons c cs ih =>
    rw [toList_longBasicText_cons]
    split_ifs with quoted room feed
    · subst quoted
      rw [unescape, if_neg (by decide), ih]
      rfl
    · subst quoted
      rw [show ∀ more, unescape true .plain ('\\' :: '"' :: more) = (unescape true .plain more).map ('"' :: ·) from
        fun _ => rfl, ih]
      rfl
    · subst feed
      rw [unescape, if_neg (by decide), ih]
      rfl
    · rw [(escaped_escapedChar c).unescape, ih]
      rfl

theorem printed_longBasicText (run : Nat) (cs : List Char) :
    ∀ d ∈ (longBasicText run cs).toList, isPrintable d = true ∨ d = '\n' := by
  induction cs generalizing run with
  | nil => exact List.forall_mem_nil _
  | cons c cs ih =>
    rw [toList_longBasicText_cons]
    split_ifs
    · exact List.forall_mem_cons.mpr ⟨.inl rfl, ih _⟩
    · exact List.forall_mem_cons.mpr ⟨.inl rfl, List.forall_mem_cons.mpr ⟨.inl rfl, ih _⟩⟩
    · exact List.forall_mem_cons.mpr ⟨.inr rfl, ih _⟩
    · exact List.forall_mem_append.mpr ⟨fun d mem => .inl ((escaped_escapedChar c).printed d mem), ih _⟩

theorem unifyLines_of_printed {cs : List Char} (printed : ∀ c ∈ cs, isPrintable c = true ∨ c = '\n') :
    unifyLines cs = some cs := by
  induction cs with
  | nil => rfl
  | cons c cs ih =>
    obtain ⟨first, others⟩ := List.forall_mem_cons.mp printed
    rw [unifyLines, ih others]
    · have accepted : (isPrintable c || c == '\n') = true := by simpa using first
      exact if_pos accepted
    · rintro rest rfl
      simp [isPrintable] at first

end Long

section Strings

variable {s : String} {rest : List Char}

theorem dropFirstLineEnd_of_head {cs : List Char} (solid : ∀ c ∈ cs.head?, c ≠ '\n' ∧ c ≠ '\r') :
    dropFirstLineEnd cs = cs := by
  cases cs with
  | nil => rfl
  | cons c cs =>
    obtain ⟨notFeed, notReturn⟩ := solid c rfl
    unfold dropFirstLineEnd
    split
    next same => exact absurd (List.cons.inj same).1 notFeed
    next same => exact absurd (List.cons.inj same).1 notReturn
    next => rfl

/-- A line end after the opening quotes is dropped, and it is written where the text has line ends. -/
theorem dropFirstLineEnd_lead {body : List Char}
    (solid : '\n' ∉ s.toList → ∀ c ∈ body.head?, c ≠ '\n' ∧ c ≠ '\r') :
    dropFirstLineEnd ((if s.toList.contains '\n' then "\n" else "").toList ++ body) = body := by
  by_cases lines : '\n' ∈ s.toList
  · rw [if_pos (List.contains_iff_mem.mpr lines)]
    rfl
  · rw [if_neg (mt List.contains_iff_mem.mp lines)]
    exact dropFirstLineEnd_of_head (solid lines)

theorem shortString_basic (cs rest : List Char) :
    shortString ('"' :: ((cs.flatMap fun c => (escapedChar c).toList) ++ '"' :: rest)) =
      some (String.ofList cs, rest) := by
  have cut : cutBasic ((cs.flatMap fun c => (escapedChar c).toList) ++ '"' :: rest) =
      some (cs.flatMap fun c => (escapedChar c).toList, rest) := by
    induction cs with
    | nil => rfl
    | cons c cs ih =>
      rw [List.flatMap_cons, List.append_assoc, (escaped_escapedChar c).cutBasic, ih]
      rfl
  have printed : (cs.flatMap fun c => (escapedChar c).toList).all isPrintable = true := by
    simp only [List.all_eq_true, List.mem_flatMap]
    rintro d ⟨c, -, mem⟩
    exact (escaped_escapedChar c).printed d mem
  have content : unescape false .plain (cs.flatMap fun c => (escapedChar c).toList) = some cs := by
    clear cut printed
    induction cs with
    | nil => rfl
    | cons c cs ih =>
      rw [List.flatMap_cons, (escaped_escapedChar c).unescape, ih]
      rfl
  rw [shortString, cut]
  dsimp only [Option.bind_eq_bind, Option.bind_some]
  rw [if_pos printed, content]
  rfl

/-- Text in basic quotes is not taken for text in three of them. -/
theorem string_basic (cs : List Char) (ends : rest.head? ≠ some '"') :
    string ('"' :: ((cs.flatMap fun c => (escapedChar c).toList) ++ '"' :: rest)) = some (String.ofList cs, rest) := by
  have short : ∀ more,
      '"' :: ((cs.flatMap fun c => (escapedChar c).toList) ++ '"' :: rest) ≠ '"' :: '"' :: '"' :: more := by
    intro more same
    have same := (List.cons.inj same).2
    cases cs with
    | nil =>
      have same := (List.cons.inj same).2
      rw [same] at ends
      exact ends rfl
    | cons c cs =>
      rw [List.flatMap_cons, List.append_assoc] at same
      obtain ⟨d, after, starts, -, other⟩ := (escaped_escapedChar c).head
        ((cs.flatMap fun c => (escapedChar c).toList) ++ '"' :: rest)
      rw [starts] at same
      exact other (List.cons.inj same).1
  unfold string
  split
  next more same => exact absurd same (short more)
  next more same => cases (List.cons.inj same).1
  next => exact shortString_basic cs rest

theorem string_plain (given : s.toList ≠ []) (plain : ∀ c ∈ s.toList, isPrintable c = true ∧ c ≠ '\'') :
    string ('\'' :: (s.toList ++ '\'' :: rest)) = some (s, rest) := by
  have apart : ∀ c ∈ s.toList, (c != '\'') = true := fun c mem => bne_iff_ne.mpr (plain c mem).2
  have taken : (s.toList ++ '\'' :: rest).takeWhile (· != '\'') = s.toList :=
    (List.takeWhile_append_of_pos apart).trans (List.append_nil _)
  have dropped : (s.toList ++ '\'' :: rest).dropWhile (· != '\'') = '\'' :: rest := List.dropWhile_append_of_pos apart
  have printed : s.toList.all isPrintable = true := List.all_eq_true.mpr fun c mem => (plain c mem).1
  have short : string ('\'' :: (s.toList ++ '\'' :: rest)) = shortString ('\'' :: (s.toList ++ '\'' :: rest)) := by
    obtain ⟨c, cs, text⟩ := List.exists_cons_of_ne_nil given
    have other : c ≠ '\'' := (plain c (text ▸ List.mem_cons_self)).2
    rw [text]
    unfold string
    split
    next same => cases (List.cons.inj same).1
    next same => exact absurd (List.cons.inj (List.cons.inj same).2).1 other
    next => rfl
  rw [short, shortString, dropped, taken]
  dsimp only
  rw [if_pos printed, String.ofList_toList]

theorem string_longBasic (s : String) (ends : rest.head? ≠ some '"') :
    string ('"' :: '"' :: '"' :: ((if s.toList.contains '\n' then "\n" else "").toList ++
      ((longBasicText 0 s.toList).toList ++ '"' :: '"' :: '"' :: rest))) = some (s, rest) := by
  have solid : '\n' ∉ s.toList → ∀ c ∈ ((longBasicText 0 s.toList).toList ++ '"' :: '"' :: '"' :: rest).head?,
      c ≠ '\n' ∧ c ≠ '\r' := by
    intro whole c first
    cases text : s.toList with
    | nil =>
      rw [text] at first
      cases first
      decide
    | cons d cs =>
      rw [text, toList_longBasicText_cons, if_pos Nat.zero_lt_two] at first
      split_ifs at first with quoted feed
      · cases first
        decide
      · rw [text, feed] at whole
        exact absurd List.mem_cons_self whole
      · obtain ⟨e, after, starts, printed, -⟩ := (escaped_escapedChar d).head
          ((longBasicText 0 cs).toList ++ '"' :: '"' :: '"' :: rest)
        rw [List.append_assoc, starts] at first
        cases first
        constructor <;> rintro rfl <;> cases printed
  rw [string, longString, dropFirstLineEnd_lead solid]
  change (cutLong '"' true 0 false _).bind _ = _
  rw [cutLong_longBasicText (Nat.zero_le 2) s.toList ends, Option.bind_some, List.replicate_zero, List.nil_append]
  dsimp only [Option.bind_eq_bind]
  rw [unifyLines_of_printed (printed_longBasicText 0 s.toList), Option.bind_some,
    if_pos (beq_self_eq_true '"'), unescape_longBasicText]
  exact congrArg (fun text => some (text, rest)) String.ofList_toList

theorem string_longPlain (few : longestRun '\'' 0 s.toList ≤ 2) (plain : ∀ c ∈ s.toList, needsCode c = false)
    (ends : rest.head? ≠ some '\'') :
    string ('\'' :: '\'' :: '\'' :: ((if s.toList.contains '\n' then "\n" else "").toList ++
      (s.toList ++ '\'' :: '\'' :: '\'' :: rest))) = some (s, rest) := by
  have printed : ∀ c ∈ s.toList, isPrintable c = true ∨ c = '\n' := by
    intro c mem
    by_cases feed : c = '\n'
    · exact .inr feed
    · exact .inl (isPrintable_of_not_needsCode (plain c mem) feed)
  have solid : '\n' ∉ s.toList → ∀ c ∈ (s.toList ++ '\'' :: '\'' :: '\'' :: rest).head?, c ≠ '\n' ∧ c ≠ '\r' := by
    intro whole c first
    cases text : s.toList with
    | nil =>
      rw [text] at first
      cases first
      decide
    | cons d cs =>
      rw [text] at first
      cases first
      have mem : c ∈ s.toList := text ▸ List.mem_cons_self
      refine ⟨fun feed => whole (feed ▸ mem), fun back => ?_⟩
      have coded := plain c mem
      rw [back] at coded
      cases coded
  rw [string, longString, dropFirstLineEnd_lead solid]
  change (cutLong '\'' false 0 false _).bind _ = _
  rw [cutLong_literal few ends, Option.bind_some, List.replicate_zero, List.nil_append]
  dsimp only [Option.bind_eq_bind]
  rw [unifyLines_of_printed printed, Option.bind_some]
  exact congrArg (fun text => some (text, rest)) String.ofList_toList

theorem of_quotesFor_plain (chosen : quotesFor s = .plain) :
    s.toList ≠ [] ∧ ∀ c ∈ s.toList, isPrintable c = true ∧ c ≠ '\'' := by
  unfold quotesFor at chosen
  dsimp only at chosen
  split_ifs at chosen with simple literal
  constructor
  · intro empty
    rw [empty] at simple
    exact simple rfl
  · simp only [Bool.and_eq_true, Bool.not_eq_true', List.any_eq_false, List.contains_eq_mem, decide_eq_false_iff_not]
      at literal
    obtain ⟨⟨free, whole⟩, unquoted⟩ := literal
    intro c mem
    exact ⟨isPrintable_of_not_needsCode (by simpa using free c mem) fun feed => whole (feed ▸ mem),
      fun quote => unquoted (quote ▸ mem)⟩

theorem of_quotesFor_longPlain (chosen : quotesFor s = .longPlain) :
    longestRun '\'' 0 s.toList ≤ 2 ∧ ∀ c ∈ s.toList, needsCode c = false := by
  unfold quotesFor at chosen
  dsimp only at chosen
  split_ifs at chosen with _ _ _ literal
  simp only [Bool.and_eq_true, Bool.not_eq_true', List.any_eq_false, decide_eq_true_eq] at literal
  exact ⟨literal.2, fun c mem => by simpa using literal.1 c mem⟩

/-- Whatever quotes a text is written in, it is read back. -/
theorem string_stringText (s : String) (basic : rest.head? ≠ some '"') (plain : rest.head? ≠ some '\'') :
    string ((stringText s).toList ++ rest) = some (s, rest) := by
  unfold stringText
  dsimp only
  cases chosen : quotesFor s with
  | basic =>
    have text : ("\"" ++ String.join (s.toList.map escapedChar) ++ "\"").toList ++ rest =
        '"' :: ((s.toList.flatMap fun c => (escapedChar c).toList) ++ '"' :: rest) := by
      simp [String.toList_join, List.flatMap_map]
    rw [text, string_basic s.toList basic, String.ofList_toList]
  | plain =>
    obtain ⟨given, printed⟩ := of_quotesFor_plain chosen
    rw [← string_plain given printed]
    simp
  | longBasic =>
    rw [← string_longBasic s basic]
    simp
  | longPlain =>
    obtain ⟨few, free⟩ := of_quotesFor_longPlain chosen
    rw [← string_longPlain few free plain]
    simp

end Strings

end SweepPlot.Toml
