import Mathlib.Data.List.TakeWhile
import ReversePolish.SourceMap.Text

/-!
# JSON read back

A JSON value that is written, on one line or indented, is read back.  The reader goes from
token to token and keeps what is open on a stack, so the statement is about a reader in the
middle of its work: behind the text of a value it has delivered this value to what is open
around it (`ReadBack`).

Between the tokens the two layouts differ by blanks, and these the reader skips; within a
token they do not differ.  What may follow a number or a word must not prolong it, and what
the writer puts behind a value never does (`Stops`).

A source map is written as such a value, and read from it again with all its parts.

## Main results

* `Token.letters?_quote` — a text between quotes is read back, whatever its characters.
* `Legible.readBack` — the reader behind the text of a value.
* `read?_write` — a value is read back in both layouts.
* `SourceMap.ofJson?_toJson` — a source map is taken from its JSON value.
* `SourceMap.read_write` — a source map is read back from its text.
-/

namespace ReversePolish.Json

/-! ## Strings -/

namespace Token

/-- An escaped control character has four digits, which make up its code. -/
theorem controlEscape_eq {c : Char} (h : c.toNat < 0x20) :
    ∃ high low, controlEscape c = ['\\', 'u', '0', '0', high, low] ∧
      hexNumber? ['0', '0', high, low] = some c.toNat := by
  have hAll : ∀ code < 0x20, controlEscape (Char.ofNat code) =
      ['\\', 'u', '0', '0', Nat.digitChar (code / 16), Nat.digitChar (code % 16)] ∧
        hexNumber? ['0', '0', Nat.digitChar (code / 16), Nat.digitChar (code % 16)] =
          some code := by
    decide +kernel
  obtain ⟨hEscape, hCode⟩ := hAll c.toNat h
  rw [Char.ofNat_toNat] at hEscape
  exact ⟨_, _, hEscape, hCode⟩

/-- A character is written as an escape of one letter, as an escape of four digits, or as
itself. -/
theorem escapeChar_cases (c : Char) :
    (∃ e, e ≠ 'u' ∧ shortEscape? e = some c ∧ escapeChar c = ['\\', e]) ∨
      (c.toNat < 0x20 ∧ escapeChar c = controlEscape c) ∨
      (c ≠ '"' ∧ c ≠ '\\' ∧ 0x20 ≤ c.toNat ∧ escapeChar c = [c]) := by
  by_cases hShort : c ∈ ['"', '\\', '\x08', '\x0c', '\n', '\r', '\t']
  · left
    simp only [List.mem_cons, List.not_mem_nil, or_false] at hShort
    rcases hShort with rfl | rfl | rfl | rfl | rfl | rfl | rfl
    · exact ⟨'"', by decide, by decide, by decide⟩
    · exact ⟨'\\', by decide, by decide, by decide⟩
    · exact ⟨'b', by decide, by decide, by decide⟩
    · exact ⟨'f', by decide, by decide, by decide⟩
    · exact ⟨'n', by decide, by decide, by decide⟩
    · exact ⟨'r', by decide, by decide, by decide⟩
    · exact ⟨'t', by decide, by decide, by decide⟩
  · right
    simp only [List.mem_cons, List.not_mem_nil, or_false, not_or] at hShort
    obtain ⟨hQuote, hBackslash, hb, hf, hn, hr, ht⟩ := hShort
    unfold escapeChar
    simp only [hQuote, hBackslash, hb, hf, hn, hr, ht, if_false]
    by_cases hControl : c.toNat < 0x20
    · exact Or.inl ⟨hControl, if_pos hControl⟩
    · exact Or.inr ⟨hQuote, hBackslash, Nat.le_of_not_lt hControl, if_neg hControl⟩

/-- A character is read from what it is written as. -/
theorem letters?_escapeChar (c : Char) {rest behind : List Char} {letters : List Letter}
    (h : letters? rest = some (letters, behind)) :
    letters? (escapeChar c ++ rest) = some (.char c :: letters, behind) := by
  rcases escapeChar_cases c with ⟨e, hNot, hShort, hEscape⟩ | ⟨hControl, hEscape⟩ |
    ⟨_, hBackslash, hPlain, hEscape⟩
  · simp [hEscape, letters?, hNot, hShort, h]
  · obtain ⟨high, low, hDigits, hCode⟩ := controlEscape_eq hControl
    have hLetter : Letter.ofCode c.toNat = .char c := by
      rw [Letter.ofCode, if_neg (by omega), Char.ofNat_toNat]
    simp only [hEscape, hDigits, List.cons_append, List.nil_append, letters?, hCode, h,
      hLetter]
  · simp [hEscape, letters?, hBackslash, hPlain, h]

/-- A text is read up to the quote behind it. -/
theorem letters?_quote (text rest : List Char) :
    letters? (text.flatMap escapeChar ++ '"' :: rest) = some (text.map .char, rest) := by
  induction text with
  | nil => simp [letters?]
  | cons c text ih =>
      rw [List.flatMap_cons, List.append_assoc]
      exact letters?_escapeChar c ih

/-- Letters that are characters spell the text that they are. -/
theorem spell?_map_char (text : List Char) : spell? (text.map .char) = some text := by
  induction text with
  | nil => rfl
  | cons c text ih => simp [spell?, ih]

/-! ## Numbers -/

theorem isNumberChar_of_isDigit {c : Char} (h : c.isDigit = true) : isNumberChar c = true := by
  simp [isNumberChar, h]

theorem all_of_isDigits {cs : List Char} (h : isDigits cs = true) :
    cs.all isNumberChar = true := by
  simp only [isDigits, Bool.and_eq_true, List.all_eq_true] at h ⊢
  exact fun c hc => isNumberChar_of_isDigit (h.2 c hc)

theorem all_of_isExponent {cs : List Char} (h : isExponent cs = true) :
    cs.all isNumberChar = true := by
  cases cs with
  | nil => rfl
  | cons c rest =>
      simp only [isExponent, Bool.and_eq_true] at h
      obtain ⟨hMark, hRest⟩ := h
      have hFirst : isNumberChar c = true := by
        simp only [Bool.or_eq_true, beq_iff_eq] at hMark
        rcases hMark with rfl | rfl <;> decide
      rw [List.all_cons, hFirst, Bool.true_and]
      split at hRest
      · rw [List.all_cons, all_of_isDigits hRest]
        rfl
      · rw [List.all_cons, all_of_isDigits hRest]
        rfl
      · exact all_of_isDigits hRest

theorem all_of_isDigits_takeWhile {cs : List Char}
    (hDigits : isDigits (cs.takeWhile Char.isDigit) = true)
    (hRest : (cs.dropWhile Char.isDigit).all isNumberChar = true) :
    cs.all isNumberChar = true := by
  rw [← List.takeWhile_append_dropWhile (p := Char.isDigit) (l := cs), List.all_append,
    all_of_isDigits hDigits, hRest]
  rfl

theorem all_of_isFraction {cs : List Char} (h : isFraction cs = true) :
    cs.all isNumberChar = true := by
  unfold isFraction at h
  split at h
  · next rest =>
      obtain ⟨hDigits, hRest⟩ := Bool.and_eq_true_iff.1 h
      rw [List.all_cons, all_of_isDigits_takeWhile hDigits (all_of_isExponent hRest)]
      rfl
  · exact all_of_isExponent h

theorem all_of_isUnsigned {cs : List Char} (h : isUnsigned cs = true) :
    cs ≠ [] ∧ cs.all isNumberChar = true := by
  unfold isUnsigned at h
  split at h
  · next rest =>
      rw [List.all_cons, all_of_isFraction h]
      exact ⟨List.cons_ne_nil _ _, rfl⟩
  · obtain ⟨hDigits, hRest⟩ := Bool.and_eq_true_iff.1 h
    refine ⟨?_, all_of_isDigits_takeWhile hDigits (all_of_isFraction hRest)⟩
    rintro rfl
    exact absurd hDigits (by decide)

/-- A number is made of the characters that numbers are looked for in, and of at least
one. -/
theorem all_of_isNumber {cs : List Char} (h : isNumber cs = true) :
    cs ≠ [] ∧ cs.all isNumberChar = true := by
  unfold isNumber at h
  split at h
  · next rest =>
      rw [List.all_cons, (all_of_isUnsigned h).2]
      exact ⟨List.cons_ne_nil _ _, rfl⟩
  · exact all_of_isUnsigned h

/-! ## Tokens -/

/-- The text does not prolong a number or a word in front of it. -/
def Stops (rest : List Char) : Prop :=
  ∀ c ∈ rest.head?, isNumberChar c = false ∧ c.isAlpha = false

theorem stops_cons {c : Char} (h : isNumberChar c = false ∧ c.isAlpha = false)
    (rest : List Char) : Stops (c :: rest) := by
  intro d hd
  cases hd
  exact h

theorem not_prolongs_of_isBlank {c : Char} (h : isBlank c = true) :
    isNumberChar c = false ∧ c.isAlpha = false := by
  simp only [isBlank, Bool.or_eq_true, beq_iff_eq] at h
  rcases h with ((rfl | rfl) | rfl) | rfl <;> decide

/-- Blanks do not change whether a text stops what is in front of it. -/
theorem Stops.append_gap {gap rest : List Char} (hGap : gap.all isBlank = true)
    (h : Stops rest) : Stops (gap ++ rest) := by
  cases gap with
  | nil => exact h
  | cons c gap =>
      rw [List.all_cons, Bool.and_eq_true] at hGap
      exact stops_cons (not_prolongs_of_isBlank hGap.1) _

/-- What is taken while a test holds ends where the test fails. -/
theorem takeWhile_append_stop {p : Char → Bool} {cs rest : List Char} (hcs : cs.all p = true)
    (hRest : ∀ c ∈ rest.head?, p c = false) :
    (cs ++ rest).takeWhile p = cs ∧ (cs ++ rest).dropWhile p = rest := by
  rw [List.all_eq_true] at hcs
  rw [List.takeWhile_append_of_pos hcs, List.dropWhile_append_of_pos hcs]
  cases rest with
  | nil => simp
  | cons c rest =>
      have hc : p c = false := hRest c rfl
      simp [hc]

theorem read?_quote (text : String) (rest : List Char) :
    read? '"' (text.toList.flatMap escapeChar ++ '"' :: rest) =
      some (.string (some text), rest) := by
  unfold read?
  rw [if_pos rfl, letters?_quote]
  simp only [spell?_map_char, Option.map_some, String.ofList_toList]

theorem read?_number {c : Char} {cs rest : List Char} (h : isNumber (c :: cs) = true)
    (hStops : Stops rest) :
    read? c (cs ++ rest) = some (.number (String.ofList (c :: cs)), rest) := by
  have hAll := (all_of_isNumber h).2
  rw [List.all_cons, Bool.and_eq_true] at hAll
  have hQuote : c ≠ '"' := by
    rintro rfl
    exact absurd hAll.1 (by decide)
  obtain ⟨hTake, hDrop⟩ := takeWhile_append_stop hAll.2 fun d hd => (hStops d hd).1
  unfold read?
  simp only [if_neg hQuote, hAll.1, if_true, hTake, hDrop, h]

theorem read?_word {c : Char} {cs rest : List Char} {t : Token}
    (hFirst : c ≠ '"' ∧ isNumberChar c = false) (hAlpha : (c :: cs).all Char.isAlpha = true)
    (hWord : ofWord? (c :: cs) = some t) (hStops : Stops rest) :
    read? c (cs ++ rest) = some (t, rest) := by
  rw [List.all_cons, Bool.and_eq_true] at hAlpha
  obtain ⟨hTake, hDrop⟩ := takeWhile_append_stop hAlpha.2 fun d hd => (hStops d hd).2
  unfold read?
  simp only [if_neg hFirst.1, hFirst.2, Bool.false_eq_true, if_false, hAlpha.1, if_true, hTake,
    hDrop, hWord, Option.map_some]

/-- A sign is neither a blank nor part of another kind of token. -/
theorem apart_of_ofSign? {c : Char} {t : Token} (h : ofSign? c = some t) :
    c ≠ '"' ∧ isBlank c = false ∧ isNumberChar c = false ∧ c.isAlpha = false := by
  unfold ofSign? at h
  split_ifs at h with h₁ h₂ h₃ h₄ h₅ h₆ <;> subst c <;> decide

theorem read?_sign {c : Char} {t : Token} (h : ofSign? c = some t) (rest : List Char) :
    read? c rest = some (t, rest) := by
  obtain ⟨hQuote, -, hNumber, hAlpha⟩ := apart_of_ofSign? h
  unfold read?
  simp only [if_neg hQuote, hNumber, hAlpha, Bool.false_eq_true, if_false, h, Option.map_some]

theorem stops_sign {c : Char} {t : Token} (h : ofSign? c = some t) (rest : List Char) :
    Stops (c :: rest) :=
  stops_cons (apart_of_ofSign? h).2.2 rest

theorem readAll?_token {gap rest rest' : List Char} {c : Char} {t : Token}
    (hGap : gap.all isBlank = true) (hSolid : isBlank c = false)
    (h : read? c rest = some (t, rest')) :
    readAll? (gap ++ c :: rest) = (readAll? rest').map (t :: ·) := by
  have hDrop : (gap ++ c :: rest).dropWhile isBlank = c :: rest :=
    (takeWhile_append_stop hGap fun d hd => by cases hd; exact hSolid).2
  rw [readAll?]
  split
  · next hNone => simp [hDrop] at hNone
  · next d ds hSome =>
      rw [hDrop] at hSome
      cases hSome
      split
      · next hToken => simp [h] at hToken
      · next t' ds' hToken =>
          rw [h] at hToken
          cases hToken
          rfl

end Token

/-! ## Readers -/

open Token

/-- What a reader makes of a text. -/
def run (r : Reader) (cs : List Char) : Option Reader :=
  (readAll? cs).bind fun tokens => tokens.foldlM Reader.step? r

/-- A reader takes the first token, and then the others. -/
theorem run_token {gap rest rest' : List Char} {c : Char} {t : Token}
    (hGap : gap.all isBlank = true) (hSolid : isBlank c = false)
    (h : Token.read? c rest = some (t, rest')) (r : Reader) :
    run r (gap ++ c :: rest) = (r.step? t).bind fun r => run r rest' := by
  unfold run
  rw [readAll?_token hGap hSolid h]
  cases readAll? rest' with
  | none => cases r.step? t <;> rfl
  | some tokens => rfl

theorem run_nil (r : Reader) : run r [] = some r := by
  unfold run
  rw [readAll?]
  rfl

/-! ## Layouts -/

namespace Layout

theorem lineBreak_blank (layout : Layout) : layout.lineBreak.all isBlank = true := by
  cases layout with
  | compact => rfl
  | indented depth =>
      rw [List.all_eq_true]
      intro c hc
      rcases List.mem_cons.1 hc with rfl | hc
      · rfl
      · rw [List.eq_of_mem_replicate hc]
        rfl

/-- Behind the colon there are blanks only. -/
theorem exists_colon_eq (layout : Layout) :
    ∃ gap, layout.colon = ':' :: gap ∧ gap.all isBlank = true := by
  cases layout with
  | compact => exact ⟨[], rfl, rfl⟩
  | indented depth => exact ⟨[' '], rfl, rfl⟩

end Layout

/-! ## Values -/

/-- The values that are written as they are: numbers are numbers, and every string stands for
a text. -/
inductive Legible : Json → Prop where
  | null : Legible .null
  | bool (b : Bool) : Legible (.bool b)
  | number {literal : String} (h : Token.isNumber literal.toList = true) :
      Legible (.number literal)
  | string (text : String) : Legible (.string (some text))
  | array {items : List Json} (h : ∀ item ∈ items, Legible item) : Legible (.array items)
  | object {fields : List (Option String × Json)} (hKeys : ∀ f ∈ fields, f.1.isSome = true)
      (h : ∀ f ∈ fields, Legible f.2) : Legible (.object fields)

/-- The token that the text of a value starts with. -/
def firstToken : Json → Token
  | .null => .null
  | .bool b => .bool b
  | .number literal => .number literal
  | .string content => .string content
  | .array _ => .openBracket
  | .object _ => .openBrace

/-- The text of a value behind its first token. -/
def behindFirst (layout : Layout) : Json → List Char
  | .array [] => [']']
  | .array (item :: items) =>
    layout.inner.lineBreak ++ writeIn layout.inner item ++ writeItems layout.inner items ++
      layout.lineBreak ++ [']']
  | .object [] => ['}']
  | .object ((key, value) :: fields) =>
    layout.inner.lineBreak ++ quote (key.getD "") ++ layout.colon ++
      writeIn layout.inner value ++ writeFields layout.inner fields ++ layout.lineBreak ++ ['}']
  | .null | .bool _ | .number _ | .string _ => []

theorem Legible.read?_firstToken {v : Json} (h : Legible v) (layout : Layout)
    {rest : List Char} (hStops : Stops rest) :
    ∃ c cs, writeIn layout v ++ rest = c :: cs ∧ isBlank c = false ∧
      Token.read? c cs = some (firstToken v, behindFirst layout v ++ rest) := by
  cases h with
  | null => exact ⟨'n', "ull".toList ++ rest, rfl, rfl, read?_word (by decide) rfl rfl hStops⟩
  | bool b =>
      cases b with
      | true => exact ⟨'t', "rue".toList ++ rest, rfl, rfl,
          read?_word (by decide) rfl rfl hStops⟩
      | false => exact ⟨'f', "alse".toList ++ rest, rfl, rfl,
          read?_word (by decide) rfl rfl hStops⟩
  | @number literal h =>
      obtain ⟨hNil, hAll⟩ := all_of_isNumber h
      obtain ⟨c, cs, hText⟩ := List.exists_cons_of_ne_nil hNil
      have hLiteral : String.ofList (c :: cs) = literal := by
        rw [← hText, String.ofList_toList]
      rw [hText] at h hAll
      refine ⟨c, cs ++ rest, ?_, ?_, ?_⟩
      · rw [writeIn, hText, List.cons_append]
      · rw [← Bool.not_eq_true]
        intro hBlank
        rw [List.all_cons, (not_prolongs_of_isBlank hBlank).1] at hAll
        cases hAll
      · rw [read?_number h hStops, hLiteral]
        rfl
  | string text =>
      refine ⟨'"', text.toList.flatMap escapeChar ++ '"' :: rest, ?_, rfl, read?_quote _ _⟩
      simp [writeIn, quote]
  | @array items h =>
      cases items with
      | nil => exact ⟨'[', ']' :: rest, rfl, rfl, read?_sign rfl _⟩
      | cons item items => exact ⟨'[', _, rfl, rfl, read?_sign rfl _⟩
  | @object fields hKeys h =>
      cases fields with
      | nil => exact ⟨'{', '}' :: rest, rfl, rfl, read?_sign rfl _⟩
      | cons f fields => exact ⟨'{', _, rfl, rfl, read?_sign rfl _⟩

/-- A reader in front of a written value takes its first token. -/
theorem Legible.run_firstToken {v : Json} (h : Legible v) (layout : Layout)
    {gap rest : List Char} (hGap : gap.all isBlank = true) (hStops : Stops rest) (r : Reader) :
    run r (gap ++ (writeIn layout v ++ rest)) =
      (r.step? (firstToken v)).bind fun r => run r (behindFirst layout v ++ rest) := by
  obtain ⟨c, cs, hText, hSolid, hToken⟩ := h.read?_firstToken layout hStops
  rw [hText]
  exact run_token hGap hSolid hToken r

/-- Behind the text of the value, a reader that waited for a value has delivered it. -/
def ReadBack (v : Json) : Prop :=
  ∀ (layout : Layout) (outer : List Frame) (gap rest : List Char), gap.all isBlank = true →
    Stops rest →
      run (.value outer) (gap ++ (writeIn layout v ++ rest)) = run (.deliver v outer) rest

/-- The first item of an array is read like any other. -/
theorem ReadBack.run_firstItem {v : Json} (h : ReadBack v) (hLegible : Legible v)
    (layout : Layout) (outer : List Frame) {gap rest : List Char}
    (hGap : gap.all isBlank = true) (hStops : Stops rest) :
    run (.firstItem outer) (gap ++ (writeIn layout v ++ rest)) =
      run (.afterItem [v] outer) rest := by
  have hStep : Reader.step? (.firstItem outer) (firstToken v) =
      Reader.step? (.value (.array [] :: outer)) (firstToken v) := by
    cases v <;> rfl
  rw [hLegible.run_firstToken layout hGap hStops, hStep,
    ← hLegible.run_firstToken layout hGap hStops, h layout _ gap rest hGap hStops]
  rfl

/-- A reader takes a sign and skips the blanks in front of it. -/
theorem run_sign {gap : List Char} (hGap : gap.all isBlank = true) {c : Char} {t : Token}
    (h : ofSign? c = some t) {r r' : Reader} (hStep : r.step? t = some r') (rest : List Char) :
    run r (gap ++ c :: rest) = run r' rest := by
  rw [run_token hGap (apart_of_ofSign? h).2.1 (read?_sign h rest), hStep, Option.bind_some]

theorem run_cons_sign {c : Char} {t : Token} (h : ofSign? c = some t) {r r' : Reader}
    (hStep : r.step? t = some r') (rest : List Char) : run r (c :: rest) = run r' rest :=
  run_sign List.all_nil h hStep rest

/-- A comma or a closing bracket behind a value, with or without blanks in front. -/
theorem stops_writeItems (layout : Layout) (items : List Json) {gap : List Char}
    (hGap : gap.all isBlank = true) (rest : List Char) :
    Stops (writeItems layout items ++ (gap ++ ']' :: rest)) := by
  cases items with
  | nil =>
      rw [writeItems, List.nil_append]
      exact Stops.append_gap hGap (stops_sign rfl rest)
  | cons item items => exact stops_sign (c := ',') rfl _

theorem stops_writeFields (layout : Layout) (fields : List (Option String × Json))
    {gap : List Char} (hGap : gap.all isBlank = true) (rest : List Char) :
    Stops (writeFields layout fields ++ (gap ++ '}' :: rest)) := by
  cases fields with
  | nil =>
      rw [writeFields, List.nil_append]
      exact Stops.append_gap hGap (stops_sign rfl rest)
  | cons f fields => exact stops_sign (c := ',') rfl _

/-- Behind the further items of an array and its bracket, the array is delivered. -/
theorem run_writeItems {items : List Json} (h : ∀ item ∈ items, ReadBack item)
    (layout : Layout) (outer : List Frame) (got : List Json) {gap : List Char}
    (hGap : gap.all isBlank = true) (rest : List Char) :
    run (.afterItem got outer) (writeItems layout items ++ (gap ++ ']' :: rest)) =
      run (.deliver (.array (got.reverse ++ items)) outer) rest := by
  induction items generalizing got with
  | nil =>
      rw [writeItems, List.append_nil, List.nil_append]
      exact run_sign hGap rfl rfl rest
  | cons item items ih =>
      rw [List.forall_mem_cons] at h
      simp only [writeItems, List.cons_append, List.append_assoc]
      calc run (.afterItem got outer) (',' :: (layout.lineBreak ++ (writeIn layout item ++
            (writeItems layout items ++ (gap ++ ']' :: rest)))))
        _ = run (.value (.array got :: outer)) (layout.lineBreak ++ (writeIn layout item ++
            (writeItems layout items ++ (gap ++ ']' :: rest)))) :=
          run_cons_sign rfl rfl _
        _ = run (.afterItem (item :: got) outer)
            (writeItems layout items ++ (gap ++ ']' :: rest)) :=
          h.1 layout _ _ _ layout.lineBreak_blank (stops_writeItems layout items hGap rest)
        _ = run (.deliver (.array (got.reverse ++ item :: items)) outer) rest := by
          rw [ih h.2, List.reverse_cons, List.append_assoc, List.singleton_append]

/-- A reader that waits for a key takes a field. -/
theorem ReadBack.run_field {v : Json} (h : ReadBack v) (layout inner : Layout)
    (fields : List (Option String × Json)) (outer : List Frame) {key : Option String}
    (hKey : key.isSome = true) {gap rest : List Char} (hGap : gap.all isBlank = true)
    (hStops : Stops rest) {r : Reader}
    (hStep : r.step? (.string key) = some (.afterKey fields key outer)) :
    run r (gap ++ (quote (key.getD "") ++ (layout.colon ++ (writeIn inner v ++ rest)))) =
      run (.afterField ((key, v) :: fields) outer) rest := by
  obtain ⟨text, rfl⟩ := Option.isSome_iff_exists.1 hKey
  obtain ⟨colonGap, hColon, hColonGap⟩ := layout.exists_colon_eq
  simp only [quote, Option.getD_some, List.append_assoc, List.cons_append, hColon]
  calc run r (gap ++ '"' :: (text.toList.flatMap escapeChar ++ '"' :: ':' :: (colonGap ++
        (writeIn inner v ++ rest))))
    _ = run (.afterKey fields (some text) outer)
        (':' :: (colonGap ++ (writeIn inner v ++ rest))) := by
      rw [run_token hGap rfl (read?_quote text _), hStep, Option.bind_some]
    _ = run (.value (.object fields (some text) :: outer))
        (colonGap ++ (writeIn inner v ++ rest)) :=
      run_cons_sign rfl rfl _
    _ = run (.afterField ((some text, v) :: fields) outer) rest :=
      h inner _ _ _ hColonGap hStops

/-- Behind the further fields of an object and its brace, the object is delivered. -/
theorem run_writeFields {fields : List (Option String × Json)}
    (hKeys : ∀ f ∈ fields, f.1.isSome = true) (h : ∀ f ∈ fields, ReadBack f.2)
    (layout : Layout) (outer : List Frame) (got : List (Option String × Json))
    {gap : List Char} (hGap : gap.all isBlank = true) (rest : List Char) :
    run (.afterField got outer) (writeFields layout fields ++ (gap ++ '}' :: rest)) =
      run (.deliver (.object (got.reverse ++ fields)) outer) rest := by
  induction fields generalizing got with
  | nil =>
      rw [writeFields, List.append_nil, List.nil_append]
      exact run_sign hGap rfl rfl rest
  | cons f fields ih =>
      rw [List.forall_mem_cons] at h hKeys
      obtain ⟨key, value⟩ := f
      simp only [writeFields, List.cons_append, List.append_assoc]
      rw [run_cons_sign (t := .comma) rfl rfl,
        h.1.run_field layout layout got outer hKeys.1 layout.lineBreak_blank
          (stops_writeFields layout fields hGap rest) rfl,
        ih hKeys.2 h.2, List.reverse_cons, List.append_assoc, List.singleton_append]

theorem readBack_array {items : List Json} (hLegible : ∀ item ∈ items, Legible item)
    (h : ∀ item ∈ items, ReadBack item) : ReadBack (.array items) := by
  intro layout outer gap rest hGap hStops
  rw [(Legible.array hLegible).run_firstToken layout hGap hStops]
  cases items with
  | nil => exact run_cons_sign rfl rfl rest
  | cons item items =>
      rw [List.forall_mem_cons] at h hLegible
      simp only [behindFirst, List.append_assoc, List.singleton_append]
      exact (h.1.run_firstItem hLegible.1 layout.inner outer layout.inner.lineBreak_blank
        (stops_writeItems _ items layout.lineBreak_blank rest)).trans
          (run_writeItems h.2 _ outer [item] layout.lineBreak_blank rest)

theorem readBack_object {fields : List (Option String × Json)}
    (hKeys : ∀ f ∈ fields, f.1.isSome = true) (hLegible : ∀ f ∈ fields, Legible f.2)
    (h : ∀ f ∈ fields, ReadBack f.2) : ReadBack (.object fields) := by
  intro layout outer gap rest hGap hStops
  rw [(Legible.object hKeys hLegible).run_firstToken layout hGap hStops]
  cases fields with
  | nil => exact run_cons_sign rfl rfl rest
  | cons f fields =>
      rw [List.forall_mem_cons] at h hKeys
      obtain ⟨key, value⟩ := f
      simp only [behindFirst, List.append_assoc, List.singleton_append]
      exact (h.1.run_field layout layout.inner [] outer hKeys.1 layout.inner.lineBreak_blank
        (stops_writeFields _ fields layout.lineBreak_blank rest) rfl).trans
          (run_writeFields hKeys.2 h.2 _ outer [(key, value)] layout.lineBreak_blank rest)

/-- A legible value is read back, in every layout and between any others. -/
theorem Legible.readBack {v : Json} (h : Legible v) : ReadBack v := by
  induction h with
  | array h ih => exact readBack_array h ih
  | object hKeys h ih => exact readBack_object hKeys h ih
  | null | bool _ | number _ | string _ =>
      -- A value of one token is delivered as soon as this token is read.
      intro layout outer gap rest hGap hStops
      rw [Legible.run_firstToken (by constructor <;> assumption) layout hGap hStops]
      rfl

/-- A legible value is read back from its text, on one line and indented. -/
theorem read?_write {v : Json} (h : Legible v) (pretty : Bool) :
    read? (v.write pretty) = some v := by
  have hStops : Stops [] := by simp [Stops]
  have hRun := h.readBack (if pretty then .indented 0 else .compact) [] [] [] rfl hStops
  rw [run_nil, List.nil_append, List.append_nil] at hRun
  obtain ⟨tokens, hTokens, hFold⟩ := Option.bind_eq_some_iff.1 hRun
  simp only [read?, write, String.toList_ofList, hTokens, Option.bind_some, ofTokens?, hFold,
    Reader.deliver]

/-! ## Natural numbers -/

namespace Token

theorem head?_toDigits {n : Nat} (h : n ≠ 0) : (Nat.toDigits 10 n).head? ≠ some '0' := by
  induction n using Nat.strongRecOn with
  | ind n ih =>
      by_cases hSmall : n < 10
      · rw [Nat.toDigits_of_lt_base hSmall, List.head?_cons, Ne, Option.some_inj,
          Nat.digitChar_eq_zero]
        exact h
      · have hHead := ih (n / 10) (by omega) (by omega)
        obtain ⟨c, cs, hDigits⟩ := List.exists_cons_of_ne_nil
          (Nat.toDigits_ne_nil : Nat.toDigits 10 (n / 10) ≠ [])
        rw [Nat.toDigits_of_base_le (by decide) (by omega), hDigits]
        rwa [hDigits] at hHead

theorem isUnsigned_of_all_isDigit {cs : List Char} (h : cs.all Char.isDigit = true)
    (hNil : cs ≠ []) (hHead : cs.head? ≠ some '0') : isUnsigned cs = true := by
  obtain ⟨hTake, hDrop⟩ : (cs ++ []).takeWhile Char.isDigit = cs ∧
      (cs ++ []).dropWhile Char.isDigit = [] := takeWhile_append_stop h (by simp)
  rw [List.append_nil] at hTake hDrop
  unfold isUnsigned
  split
  · next rest => exact absurd rfl hHead
  · rw [hTake, hDrop, isDigits, h]
    cases cs with
    | nil => exact absurd rfl hNil
    | cons c cs => rfl

theorem all_isDigit_toDigits (n : Nat) : (Nat.toDigits 10 n).all Char.isDigit = true :=
  List.all_eq_true.2 fun _ hc => Nat.isDigit_of_mem_toDigits (by decide) (by decide) hc

theorem isNumber_toDigits (n : Nat) : isNumber (Nat.toDigits 10 n) = true := by
  by_cases hZero : n = 0
  · subst hZero
    rfl
  · have hDigits := all_isDigit_toDigits n
    have hUnsigned :=
      isUnsigned_of_all_isDigit hDigits Nat.toDigits_ne_nil (head?_toDigits hZero)
    unfold isNumber
    split
    · next cs hMinus =>
        rw [hMinus] at hDigits
        cases hDigits
    · exact hUnsigned

end Token

theorem natural?_toString {n largest : Nat} (h : n ≤ largest) :
    natural? largest (.number (toString n)) = some n := by
  have hValue : (Nat.toDigits 10 n).foldl
      (fun value c => 10 * value + (c.toNat - '0'.toNat)) 0 = n :=
    Nat.ofDigitChars_ten_toDigits
  simp only [natural?, Nat.toString_eq_ofList_toDigits, String.toList_ofList,
    all_isDigit_toDigits, if_true, hValue, if_pos h]

theorem list?_map {α : Type} {read : Json → Option α} {write : α → Json}
    (h : ∀ a, read (write a) = some a) (items : List α) :
    list? read (.array (items.map write)) = some items := by
  rw [list?]
  induction items with
  | nil => rfl
  | cons a items ih =>
      rw [List.map_cons, List.mapM_cons, h, ih]
      rfl

end ReversePolish.Json

namespace ReversePolish.SourceMap

open Json

theorem toJson_legible (map : SourceMap) : Legible map.toJson := by
  have hTexts (items : List String) : Legible (.array (items.map .ofText)) := by
    refine .array fun item hItem => ?_
    obtain ⟨text, -, rfl⟩ := List.mem_map.1 hItem
    exact .string text
  have hContents (contents : List (Option String)) :
      Legible (.array (contents.map fun content => content.elim .null .ofText)) := by
    refine .array fun item hItem => ?_
    obtain ⟨content, -, rfl⟩ := List.mem_map.1 hItem
    cases content with
    | none => exact .null
    | some text => exact .string text
  have hVersion : Legible (.number (toString map.version)) := by
    refine .number ?_
    rw [Nat.toString_eq_ofList_toDigits, String.toList_ofList]
    exact Token.isNumber_toDigits map.version
  unfold toJson
  generalize toString map.version = literal at hVersion ⊢
  cases map.sourcesContent with
  | none =>
      refine .object (by simp) ?_
      simp [hVersion, hTexts, Legible.string, ofText]
  | some contents =>
      refine .object (by simp) ?_
      simp [hVersion, hTexts, hContents, Legible.string, ofText]

/-- The values are found under their keys; without the texts of the sources, there is null in
their place. -/
theorem ofJson?_object (version file sources names mappings : Json) (contents : Option Json) :
    ofJson? (.object (
      [(some "version", version), (some "file", file), (some "sources", sources)] ++
      (contents.map fun contents => (some "sourcesContent", contents)).toList ++
        [(some "names", names), (some "mappings", mappings)])) =
      ofValues? version file sources (contents.getD .null) names mappings := by
  cases contents with
  | none => simp [ofJson?, fields?, required?, optional?, field]
  | some contents => simp [ofJson?, fields?, required?, optional?, field]

/-- A source map is taken from its JSON value, with all its parts. -/
theorem ofJson?_toJson (map : SourceMap) (h : map.version < 0x100000000) :
    ofJson? map.toJson = some map := by
  obtain ⟨version, file, sources, sourcesContent, names, mappings⟩ := map
  have hVersion := natural?_toString (Nat.le_of_lt_succ h)
  have hTexts : ∀ texts : List String, list? text? (.array (texts.map .ofText)) = some texts :=
    list?_map fun _ => rfl
  have hContents : ∀ contents : List (Option String), list? (nullable? text?)
      (.array (contents.map fun content => content.elim .null .ofText)) = some contents :=
    list?_map fun content => by cases content <;> rfl
  cases sourcesContent with
  | none =>
      refine (ofJson?_object _ _ _ _ _ none).trans ?_
      simp only [ofValues?, hVersion, hTexts]
      rfl
  | some contents =>
      refine (ofJson?_object _ _ _ _ _ (some _)).trans ?_
      simp only [ofValues?, hVersion, hTexts, nullable?, Option.getD_some, hContents]
      rfl

theorem ofJson?_read?_write (map : SourceMap) (pretty : Bool) (h : map.version < 0x100000000) :
    (Json.read? (map.write pretty)).bind ofJson? = some map := by
  rw [write, read?_write map.toJson_legible, Option.bind_some, ofJson?_toJson map h]

/-- The text of a source map, on one line or indented, is read back as this source map if its
version is the supported one.  Of another version, it is refused for its version.  Versions
are 32-bit numbers. -/
theorem read_write (map : SourceMap) (pretty : Bool) (hVersion : map.version < 0x100000000) :
    read (map.write pretty) =
      if map.version = 3 then .ok map else .error (.mapping (.version map.version)) := by
  rw [read, ofJson?_read?_write map pretty hVersion]
  rfl

/-- Quotes, control characters and characters beyond the first plane are kept, and a list of
missing texts is not a missing list. -/
theorem read_write_awkward_texts :
    let map : SourceMap :=
      ⟨3, "a\"\\\x01.rpn", ["é", "𝄞"], some [none, some "\n\t"], [], "AAAA"⟩
    map.version < 0x100000000 ∧ read (map.write true) = .ok map ∧
      read ({ map with version := 4 }.write false) = .error (.mapping (.version 4)) :=
  ⟨by decide, read_write _ true (by decide), read_write _ false (by decide)⟩

end ReversePolish.SourceMap
