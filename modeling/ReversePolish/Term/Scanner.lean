import ReversePolish.Term.Basic

/-!
# Scanners

A scanner reads the terms of one source text in turn. Besides its cursor it keeps
where the last term started, which is how the nodes made from that term are tagged,
and the text itself, so that it can look ahead from any place.

A call that fails, and a call that only looks, leaves the scanner as it was.
-/

namespace ReversePolish

structure Scanner where
  /-- The whole source. -/
  text : List Char
  /-- What is still to be read. -/
  cursor : Cursor
  /-- Where the last term started. -/
  mark : Position
  deriving DecidableEq, Repr

namespace Scanner

/-- A scanner before the first character of a source. -/
def ofSource (source : String) : Scanner :=
  ⟨source.toList, Cursor.ofText source.toList, Position.start⟩

/-- Where the next character stands. -/
def position (s : Scanner) : Position :=
  s.cursor.position

def atEnd (s : Scanner) : Bool :=
  s.cursor.rest.isEmpty

/-- The term found from a given place on, and the place behind it and its separators. -/
def lookahead (s : Scanner) (place : Position) : Except PlacedFault (Term × Position) :=
  (Cursor.term ⟨place, s.text.drop place.index⟩).map fun (term, behind) => (term, behind.position)

/-- The next term, which stays unread. -/
def peekTerm (s : Scanner) : Except PlacedFault Term :=
  s.cursor.term.map Prod.fst

/-- Reads the next term and marks where it started. -/
def nextTerm (s : Scanner) : Except PlacedFault (Term × Scanner) :=
  s.cursor.term.map fun (term, behind) =>
    (term, { s with cursor := behind, mark := term.start })

/-- The next character, which stays unread. -/
def peekChar? (s : Scanner) : Option Char :=
  s.cursor.rest.head?

/-- Reads one character. -/
def nextChar (s : Scanner) : Except PlacedFault (Char × Scanner) :=
  s.cursor.char.map fun (c, behind) => (c, { s with cursor := behind })

/-- Reads the separators in front. -/
def skipSeparators (s : Scanner) : Scanner :=
  { s with cursor := s.cursor.skipSeparators }

/-- Marks the next character as the start of a term. -/
def setMark (s : Scanner) : Scanner :=
  { s with mark := s.position }

/-- A term read leaves less to read. -/
theorem nextTerm_shorter {s s' : Scanner} {t : Term} (h : s.nextTerm = .ok (t, s')) :
    s'.cursor.rest.length < s.cursor.rest.length := by
  unfold nextTerm at h
  cases hTerm : s.cursor.term with
  | error f => simp [hTerm, Except.map] at h
  | ok read =>
    obtain ⟨term, behind⟩ := read
    simp only [hTerm, Except.map, Except.ok.injEq, Prod.mk.injEq] at h
    rw [← h.2]
    exact Cursor.term_shorter hTerm

/-- Reads terms up to the end of the source or a fault. Each term comes with the place
of the scanner behind it. -/
def terms (s : Scanner) : List (Term × Position) × Option PlacedFault :=
  if s.atEnd then ([], none)
  else
    match hTerm : s.nextTerm with
    | .error fault => ([], some fault)
    | .ok (term, s') =>
      have := nextTerm_shorter hTerm
      let (terms, fault) := s'.terms
      ((term, s'.position) :: terms, fault)
termination_by s.cursor.rest.length

end Scanner

end ReversePolish
