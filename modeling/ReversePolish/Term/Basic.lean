import ReversePolish.SourceFault

/-!
# Terms

A source text is a row of terms with separators between them. A newline is a term
of its own; every other term is a longest run of characters that are neither
separators nor newlines.

A `Cursor` is what a reader has before it: the characters that remain, and where
the first of them stands. Reading a term skips the separators on both sides of it,
so after any term the cursor stands at the next term or at the end.
-/

namespace ReversePolish

/-- A term and the places where it starts and ends. -/
structure Term where
  text : String
  start : Position
  /-- The place right behind the last character. -/
  stop : Position
  deriving DecidableEq, Repr

namespace Term

/-- The characters that separate terms. -/
def isSeparator (c : Char) : Bool :=
  c == ' ' || c == '\t' || c == '\r'

/-- The characters of a word: neither separators nor newlines. -/
def isWordChar (c : Char) : Bool :=
  !isSeparator c && c != '\n'

/-- The term that ends a statement. -/
def newline : String := "\n"

def isNewline (t : Term) : Bool :=
  t.text == newline

end Term

/-- The characters that remain to be read, and the place of the first of them. -/
structure Cursor where
  position : Position
  rest : List Char
  deriving DecidableEq, Repr

namespace Cursor

/-- The cursor before the first character of a text. -/
def ofText (text : List Char) : Cursor := ⟨Position.start, text⟩

/-- The cursor behind the characters in front that pass a test. -/
def skip (keep : Char → Bool) (c : Cursor) : Cursor :=
  ⟨c.position.advanceOver (c.rest.takeWhile keep), c.rest.dropWhile keep⟩

/-- The cursor behind the separators in front. -/
def skipSeparators (c : Cursor) : Cursor :=
  c.skip Term.isSeparator

/-- The characters of the term in front, given that no separator is in front. -/
def word (c : Cursor) : List Char :=
  match c.rest with
  | '\n' :: _ => ['\n']
  | rest => rest.takeWhile Term.isWordChar

/-- The cursor behind the term in front, given that no separator is in front. -/
def skipWord (c : Cursor) : Cursor :=
  match c.rest with
  | '\n' :: rest => ⟨c.position.advance '\n', rest⟩
  | _ => c.skip Term.isWordChar

/-- Reads a term together with the separators around it. Only the end of the text has
none to offer. -/
def term (c : Cursor) : Except PlacedFault (Term × Cursor) :=
  let c := c.skipSeparators
  if c.rest.isEmpty then .error ⟨.unexpectedEnd, c.position⟩
  else
    let behind := c.skipWord
    .ok (⟨String.ofList c.word, c.position, behind.position⟩, behind.skipSeparators)

/-- Reads one character. -/
def char (c : Cursor) : Except PlacedFault (Char × Cursor) :=
  match c.rest with
  | [] => .error ⟨.unexpectedEnd, c.position⟩
  | ch :: rest => .ok (ch, ⟨c.position.advance ch, rest⟩)

theorem skip_length_le (keep : Char → Bool) (c : Cursor) :
    (c.skip keep).rest.length ≤ c.rest.length :=
  (List.dropWhile_sublist keep).length_le

/-- Where a word starts, skipping it leaves less to read. -/
theorem skipWord_shorter {c : Cursor} {ch : Char} {rest : List Char} (hRest : c.rest = ch :: rest)
    (hWord : Term.isSeparator ch = false) : c.skipWord.rest.length < c.rest.length := by
  unfold skipWord
  split
  · next tail hTail => simp [hTail]
  · next hNewline =>
    have hNe : ch ≠ '\n' := fun h => hNewline rest (h ▸ hRest)
    have hKeep : Term.isWordChar ch = true := by simp [Term.isWordChar, hWord, hNe]
    have hLe : (rest.dropWhile Term.isWordChar).length ≤ rest.length :=
      (List.dropWhile_sublist _).length_le
    simp only [skip, hRest, List.dropWhile_cons_of_pos hKeep, List.length_cons]
    omega

/-- A term read leaves less to read. -/
theorem term_shorter {c c' : Cursor} {t : Term} (h : c.term = .ok (t, c')) :
    c'.rest.length < c.rest.length := by
  unfold term at h
  dsimp only at h
  split at h
  · cases h
  · next hSome =>
    simp only [Except.ok.injEq, Prod.mk.injEq] at h
    cases hRest : c.skipSeparators.rest with
    | nil => simp [hRest] at hSome
    | cons ch rest =>
      have hHead : Term.isSeparator ch = false := by
        have hNot := List.head?_dropWhile_not Term.isSeparator c.rest
        have hDrop : c.rest.dropWhile Term.isSeparator = ch :: rest := hRest
        simpa [hDrop] using hNot
      have hWord := skipWord_shorter hRest hHead
      have hBehind := skip_length_le Term.isSeparator c.skipSeparators.skipWord
      have hFront := skip_length_le Term.isSeparator c
      rw [← h.2]
      simp only [skipSeparators] at hWord hBehind hFront ⊢
      omega

end Cursor

end ReversePolish
