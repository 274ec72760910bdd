import Mathlib.Data.List.TakeWhile
import ReversePolish.Mapping
import ReversePolish.Term.Scanner

/-!
# The terms that remain

What a parser needs to know of a scanner is the row of terms that are still to be
read (`Scanner.remaining`).  This module reads `nextTerm`, `peekTerm` and `atEnd`
off that row, so that statements about parsers speak of lists of terms and never
of characters.

Reading a term also skips the separators behind it, so afterwards the scanner is
*settled*: it stands at the next term or at the end of the text, and being at the
end is the same as having no term left.  Only a fresh scanner may be unsettled.

## Main results

* `Scanner.nextTerm_ok`, `Scanner.nextTerm_error` — reading takes the first of the
  remaining terms, and fails when there is none.
* `Scanner.Placed.standsIn` — each remaining term is a piece of the text, and its
  start is the position behind the characters before it.
* `Scanner.remaining_pairwise` — the remaining terms start at increasing places.
-/

namespace ReversePolish

/-! ## The order of places -/

/-- Places are ordered by line, and on one line by column. -/
instance : LT LineColumn where
  lt p q := p.line < q.line ∨ p.line = q.line ∧ p.column < q.column

theorem LineColumn.lt_iff {p q : LineColumn} :
    p < q ↔ p.line < q.line ∨ p.line = q.line ∧ p.column < q.column :=
  Iff.rfl

theorem LineColumn.lt_trans {p q r : LineColumn} (hpq : p < q) (hqr : q < r) :
    p < r := by
  rw [lt_iff] at hpq hqr ⊢
  omega

namespace Position

/-- The line and the column of a position. -/
def lineColumn (p : Position) : LineColumn := ⟨p.line, p.column⟩

theorem lineColumn_lt_advance (p : Position) (c : Char) :
    p.lineColumn < (p.advance c).lineColumn := by
  have hUnits := Text.unitCount_pos c
  rw [LineColumn.lt_iff]
  unfold advance
  split
  · exact Or.inl (Nat.lt_succ_self p.line)
  · exact Or.inr ⟨rfl, Nat.lt_add_of_pos_right hUnits⟩

/-- Reading something moves a position on. -/
theorem lineColumn_lt_advanceOver (p : Position) {cs : List Char} (hcs : cs ≠ []) :
    p.lineColumn < (p.advanceOver cs).lineColumn := by
  induction cs generalizing p with
  | nil => exact absurd rfl hcs
  | cons c cs ih =>
      have hFirst := lineColumn_lt_advance p c
      by_cases hRest : cs = []
      · simpa [hRest] using hFirst
      · exact LineColumn.lt_trans hFirst (ih (p.advance c) hRest)

theorem after_append (cs ds : List Char) :
    after (cs ++ ds) = (after cs).advanceOver ds :=
  advanceOver_append start cs ds

end Position

/-! ## Reading one term -/

namespace Term

/-- What a scanner can give: a newline, or a word of at least one character. -/
def Spelled (t : Term) : Prop :=
  t.text = newline ∨ t.text.toList ≠ [] ∧ ∀ c ∈ t.text.toList, isWordChar c = true

/-- A term is a piece of a text and carries the positions of its two ends. -/
def StandsIn (t : Term) (text : List Char) : Prop :=
  ∃ front back, text = front ++ t.text.toList ++ back ∧
    t.start = Position.after front ∧ t.stop = Position.after (front ++ t.text.toList)

theorem Spelled.ne_nil {t : Term} (h : t.Spelled) : t.text.toList ≠ [] := by
  rcases h with hNewline | ⟨hWord, _⟩
  · rw [hNewline]
    decide
  · exact hWord

end Term

namespace Cursor

/-- No separator is in front. -/
def Settled (c : Cursor) : Prop :=
  ∀ ch ∈ c.rest.head?, Term.isSeparator ch = false

/-- The cursor `c` reads the term `t` and is left as `c'`; `gap` and `tail` are the
separators before and behind the term. -/
structure Reads (c : Cursor) (t : Term) (c' : Cursor) (gap tail : List Char) : Prop where
  rest : c.rest = gap ++ t.text.toList ++ tail ++ c'.rest
  start : t.start = c.position.advanceOver gap
  stop : t.stop = t.start.advanceOver t.text.toList
  position : c'.position = t.stop.advanceOver tail
  gapSeparates : ∀ ch ∈ gap, Term.isSeparator ch = true
  tailSeparates : ∀ ch ∈ tail, Term.isSeparator ch = true
  spelled : t.Spelled
  /-- A word goes as far as it can. -/
  whole : t.text ≠ Term.newline →
    ∀ ch ∈ (tail ++ c'.rest).head?, Term.isWordChar ch = false
  settled : c'.Settled

theorem skipSeparators_settled (c : Cursor) : c.skipSeparators.Settled := by
  intro ch hch
  have hNot := List.head?_dropWhile_not Term.isSeparator c.rest
  have hHead : (c.rest.dropWhile Term.isSeparator).head? = some ch := hch
  simpa [hHead] using hNot

/-- Without a separator in front there is nothing to skip. -/
theorem Settled.skipSeparators {c : Cursor} (h : c.Settled) : c.skipSeparators = c := by
  obtain ⟨position, rest⟩ := c
  cases rest with
  | nil => rfl
  | cons ch rest =>
      have hch : Term.isSeparator ch = false := h ch (by simp)
      simp [Cursor.skipSeparators, skip, hch]

theorem word_append_skipWord (c : Cursor) : c.word ++ c.skipWord.rest = c.rest := by
  unfold word skipWord
  split
  · next rest hRest => simp [hRest]
  · exact List.takeWhile_append_dropWhile

theorem skipWord_position (c : Cursor) :
    c.skipWord.position = c.position.advanceOver c.word := by
  unfold word skipWord
  split <;> rfl

/-- Where no separator is in front, the term in front is a newline or a word. -/
theorem Settled.word_spelled {c : Cursor} (h : c.Settled) (hSome : c.rest ≠ []) :
    c.word = ['\n'] ∨ c.word ≠ [] ∧ ∀ ch ∈ c.word, Term.isWordChar ch = true := by
  unfold word
  split
  · exact Or.inl rfl
  · next hNewline =>
      refine Or.inr ⟨?_, fun ch hch => List.mem_takeWhile_imp hch⟩
      cases hRest : c.rest with
      | nil => exact absurd hRest hSome
      | cons ch rest =>
          have hSeparator : Term.isSeparator ch = false := h ch (by simp [hRest])
          have hNe : ch ≠ '\n' := fun hch => hNewline rest (hch ▸ hRest)
          have hKeep : Term.isWordChar ch = true := by
            simp [Term.isWordChar, hSeparator, hNe]
          simp [hKeep]

/-- Behind a word stands no character that could belong to it. -/
theorem skipWord_head {c : Cursor} (h : c.word ≠ ['\n']) :
    ∀ ch ∈ c.skipWord.rest.head?, Term.isWordChar ch = false := by
  intro ch hch
  unfold skipWord at hch
  split at hch
  · next rest hRest => exact absurd (by simp [word, hRest]) h
  · have hNot := List.head?_dropWhile_not Term.isWordChar c.rest
    have hHead : (c.rest.dropWhile Term.isWordChar).head? = some ch := hch
    simpa [hHead] using hNot

/-- A term that is read is what stands between two rows of separators. -/
theorem term_reads {c c' : Cursor} {t : Term} (h : c.term = .ok (t, c')) :
    ∃ gap tail, c.Reads t c' gap tail := by
  unfold term at h
  dsimp only at h
  split at h
  · cases h
  · next hSome =>
      simp only [Except.ok.injEq, Prod.mk.injEq] at h
      obtain ⟨rfl, rfl⟩ := h
      have hRest : c.skipSeparators.rest ≠ [] := by simpa using hSome
      have hWord := (skipSeparators_settled c).word_spelled hRest
      have hTail : c.skipSeparators.skipWord.rest.takeWhile Term.isSeparator ++
          c.skipSeparators.skipWord.skipSeparators.rest =
            c.skipSeparators.skipWord.rest :=
        List.takeWhile_append_dropWhile
      refine ⟨c.rest.takeWhile Term.isSeparator,
        c.skipSeparators.skipWord.rest.takeWhile Term.isSeparator, ?_⟩
      refine
        { rest := ?_
          start := rfl
          stop := ?_
          position := rfl
          gapSeparates := fun ch hch => List.mem_takeWhile_imp hch
          tailSeparates := fun ch hch => List.mem_takeWhile_imp hch
          spelled := ?_
          whole := ?_
          settled := skipSeparators_settled _ }
      · have hGap : c.rest.takeWhile Term.isSeparator ++ c.skipSeparators.rest = c.rest :=
          List.takeWhile_append_dropWhile
        rw [String.toList_ofList, List.append_assoc, hTail, List.append_assoc,
          word_append_skipWord, hGap]
      · simpa using skipWord_position c.skipSeparators
      · rcases hWord with hNewline | hWord
        · exact Or.inl (by simp [hNewline, Term.newline])
        · exact Or.inr (by simpa using hWord)
      · intro hText
        rw [hTail]
        refine skipWord_head fun hNewline => hText ?_
        simp only [hNewline]
        rfl

/-- A cursor has no term to offer exactly when only separators remain. -/
theorem term_error_iff {c : Cursor} :
    (∃ f, c.term = .error f) ↔ ∀ ch ∈ c.rest, Term.isSeparator ch = true := by
  unfold term
  dsimp only
  have hEmpty : c.skipSeparators.rest.isEmpty = true ↔
      ∀ ch ∈ c.rest, Term.isSeparator ch = true := by
    simp [skipSeparators, skip, List.dropWhile_eq_nil_iff]
  split
  · next hSome => exact ⟨fun _ => hEmpty.1 hSome, fun _ => ⟨_, rfl⟩⟩
  · next hSome =>
      constructor
      · rintro ⟨f, hf⟩
        cases hf
      · intro hAll
        exact absurd (hEmpty.2 hAll) hSome

end Cursor

/-! ## The remaining terms of a scanner -/

namespace Scanner

/-- The terms that are still to be read. -/
def remaining (s : Scanner) : List Term :=
  s.terms.1.map Prod.fst

/-- No separator is in front of the scanner. -/
def Settled (s : Scanner) : Prop := s.cursor.Settled

theorem nextTerm_eq_ok {s s' : Scanner} {t : Term} (h : s.nextTerm = .ok (t, s')) :
    s.cursor.term = .ok (t, s'.cursor) ∧ s'.mark = t.start ∧ s'.text = s.text := by
  unfold nextTerm at h
  cases hTerm : s.cursor.term with
  | error f => simp [hTerm, Except.map] at h
  | ok read =>
      obtain ⟨term, behind⟩ := read
      simp only [hTerm, Except.map, Except.ok.injEq, Prod.mk.injEq] at h
      obtain ⟨rfl, rfl⟩ := h
      exact ⟨rfl, rfl, rfl⟩

theorem nextTerm_eq_error_iff {s : Scanner} :
    (∃ f, s.nextTerm = .error f) ↔
      ∀ ch ∈ s.cursor.rest, Term.isSeparator ch = true := by
  rw [← Cursor.term_error_iff, nextTerm]
  cases s.cursor.term with
  | error f => simp [Except.map]
  | ok read => simp [Except.map]

/-- Where a term can be read, the scanner is not at the end. -/
theorem atEnd_eq_false_of_nextTerm {s s' : Scanner} {t : Term}
    (h : s.nextTerm = .ok (t, s')) : s.atEnd = false := by
  have hShorter := nextTerm_shorter h
  unfold atEnd
  cases hRest : s.cursor.rest with
  | nil => simp [hRest] at hShorter
  | cons ch rest => rfl

theorem terms_of_ok {s s' : Scanner} {t : Term} (h : s.nextTerm = .ok (t, s')) :
    s.terms = ((t, s'.position) :: s'.terms.1, s'.terms.2) := by
  have hEnd := atEnd_eq_false_of_nextTerm h
  rw [terms]
  simp only [hEnd, Bool.false_eq_true, ↓reduceIte]
  split
  · next f hf => simp [h] at hf
  · next term s'' hTerm =>
      rw [h] at hTerm
      cases hTerm
      rfl

theorem terms_of_atEnd {s : Scanner} (h : s.atEnd = true) : s.terms = ([], none) := by
  rw [terms, if_pos h]

/-- Where there is something left but no term, reading fails at once. -/
theorem terms_of_error {s : Scanner} {f : PlacedFault} (hEnd : s.atEnd = false)
    (h : s.nextTerm = .error f) : s.terms = ([], some f) := by
  rw [terms]
  simp only [hEnd, Bool.false_eq_true, ↓reduceIte]
  split
  · next f' hf =>
      rw [h] at hf
      cases hf
      rfl
  · next term s' hTerm => simp [h] at hTerm

theorem remaining_of_ok {s s' : Scanner} {t : Term} (h : s.nextTerm = .ok (t, s')) :
    s.remaining = t :: s'.remaining := by
  unfold remaining
  rw [terms_of_ok h, List.map_cons]

theorem remaining_of_error {s : Scanner} {f : PlacedFault} (h : s.nextTerm = .error f) :
    s.remaining = [] := by
  unfold remaining
  by_cases hEnd : s.atEnd = true
  · rw [terms_of_atEnd hEnd, List.map_nil]
  · rw [terms_of_error (Bool.eq_false_iff.2 hEnd) h, List.map_nil]

/-- Reading takes the first of the remaining terms. -/
theorem nextTerm_ok {s : Scanner} {t : Term} {ts : List Term}
    (h : s.remaining = t :: ts) :
    ∃ s', s.nextTerm = .ok (t, s') ∧ s'.remaining = ts ∧ s'.Settled ∧
      s'.mark = t.start := by
  cases hTerm : s.nextTerm with
  | error f =>
      rw [remaining_of_error hTerm] at h
      cases h
  | ok read =>
      obtain ⟨t', s'⟩ := read
      rw [remaining_of_ok hTerm] at h
      simp only [List.cons.injEq] at h
      obtain ⟨rfl, rfl⟩ := h
      obtain ⟨hCursor, hMark, _⟩ := nextTerm_eq_ok hTerm
      obtain ⟨gap, tail, hReads⟩ := Cursor.term_reads hCursor
      exact ⟨s', rfl, rfl, hReads.settled, hMark⟩

/-- Reading fails when no term remains. -/
theorem nextTerm_error {s : Scanner} (h : s.remaining = []) :
    ∃ f, s.nextTerm = .error f := by
  cases hTerm : s.nextTerm with
  | error f => exact ⟨f, rfl⟩
  | ok read =>
      rw [remaining_of_ok hTerm] at h
      cases h

theorem remaining_eq_nil_iff {s : Scanner} :
    s.remaining = [] ↔ ∀ ch ∈ s.cursor.rest, Term.isSeparator ch = true := by
  rw [← nextTerm_eq_error_iff]
  exact ⟨nextTerm_error, fun ⟨_, hf⟩ => remaining_of_error hf⟩

/-- Where a term remains, the scanner is not at the end. -/
theorem atEnd_eq_false {s : Scanner} {t : Term} {ts : List Term}
    (h : s.remaining = t :: ts) : s.atEnd = false := by
  obtain ⟨s', hTerm, _⟩ := nextTerm_ok h
  exact atEnd_eq_false_of_nextTerm hTerm

theorem peekTerm_eq (s : Scanner) : s.peekTerm = s.nextTerm.map Prod.fst := by
  unfold peekTerm nextTerm
  cases s.cursor.term <;> rfl

/-- Looking ahead shows the first of the remaining terms. -/
theorem peekTerm_toOption (s : Scanner) :
    s.peekTerm.toOption = s.remaining.head? := by
  have hPeek := s.peekTerm_eq
  cases hTerm : s.nextTerm with
  | error f => simp [hPeek, hTerm, remaining_of_error hTerm, Except.map, Except.toOption]
  | ok read =>
      simp [hPeek, hTerm, remaining_of_ok hTerm, Except.map, Except.toOption]

/-- A settled scanner without terms is at the end of the text. -/
theorem Settled.atEnd_iff {s : Scanner} (h : s.Settled) :
    s.atEnd = true ↔ s.remaining = [] := by
  rw [remaining_eq_nil_iff, atEnd, List.isEmpty_iff]
  constructor
  · intro hRest ch hch
    simp [hRest] at hch
  · intro hAll
    cases hRest : s.cursor.rest with
    | nil => rfl
    | cons ch rest =>
        have hNot : Term.isSeparator ch = false := h ch (by simp [hRest])
        have hIs : Term.isSeparator ch = true := hAll ch (by simp [hRest])
        rw [hNot] at hIs
        cases hIs

/-- An induction over the remaining terms, one read at a time. -/
theorem remaining_induction {motive : Scanner → Prop}
    (done : ∀ s, s.remaining = [] → motive s)
    (read : ∀ s t s', s.nextTerm = .ok (t, s') → motive s' → motive s) (s : Scanner) :
    motive s := by
  cases hTerm : s.nextTerm with
  | error f => exact done s (remaining_of_error hTerm)
  | ok result =>
      obtain ⟨t, s'⟩ := result
      have hShorter := nextTerm_shorter hTerm
      exact read s t s' hTerm (remaining_induction done read s')
termination_by s.cursor.rest.length

/-! ## Where terms stand -/

/-- The scanner stands where the characters that it has read end. -/
def Placed (s : Scanner) : Prop :=
  ∃ front, s.text = front ++ s.cursor.rest ∧ s.cursor.position = Position.after front

theorem ofSource_placed (source : String) : (ofSource source).Placed :=
  ⟨[], rfl, rfl⟩

theorem Placed.nextTerm {s s' : Scanner} {t : Term} (h : s.Placed)
    (hTerm : s.nextTerm = .ok (t, s')) : s'.Placed ∧ t.StandsIn s.text := by
  obtain ⟨front, hText, hPosition⟩ := h
  obtain ⟨hCursor, _, hSame⟩ := nextTerm_eq_ok hTerm
  obtain ⟨gap, tail, hReads⟩ := Cursor.term_reads hCursor
  have hStart : t.start = Position.after (front ++ gap) := by
    rw [hReads.start, hPosition, Position.after_append]
  have hStop : t.stop = Position.after (front ++ gap ++ t.text.toList) := by
    rw [hReads.stop, hStart, Position.after_append (front ++ gap)]
  constructor
  · refine ⟨front ++ gap ++ t.text.toList ++ tail, ?_, ?_⟩
    · rw [hSame, hText, hReads.rest]
      simp only [List.append_assoc]
    · rw [hReads.position, hStop, Position.after_append _ tail]
  · refine ⟨front ++ gap, tail ++ s'.cursor.rest, ?_, hStart, hStop⟩
    rw [hText, hReads.rest]
    simp only [List.append_assoc]

/-- Each remaining term stands in the text. -/
theorem Placed.standsIn {s : Scanner} (h : s.Placed) :
    ∀ t ∈ s.remaining, t.StandsIn s.text := by
  induction s using remaining_induction with
  | done s hNone =>
      intro t ht
      simp [hNone] at ht
  | read s t s' hTerm ih =>
      obtain ⟨hPlaced, hStands⟩ := h.nextTerm hTerm
      obtain ⟨_, _, hSame⟩ := nextTerm_eq_ok hTerm
      intro u hu
      rw [remaining_of_ok hTerm, List.mem_cons] at hu
      rcases hu with rfl | hu
      · exact hStands
      · exact hSame ▸ ih hPlaced u hu

/-- Each remaining term is a newline or a word. -/
theorem remaining_spelled (s : Scanner) : ∀ t ∈ s.remaining, t.Spelled := by
  induction s using remaining_induction with
  | done s hNone =>
      intro t ht
      simp [hNone] at ht
  | read s t s' hTerm ih =>
      obtain ⟨gap, tail, hReads⟩ := Cursor.term_reads (nextTerm_eq_ok hTerm).1
      intro u hu
      rw [remaining_of_ok hTerm, List.mem_cons] at hu
      rcases hu with rfl | hu
      · exact hReads.spelled
      · exact ih u hu

/-- A remaining term starts at the scanner's place or behind it. -/
theorem start_of_mem_remaining (s : Scanner) :
    ∀ t ∈ s.remaining, ∃ cs, t.start = s.position.advanceOver cs := by
  induction s using remaining_induction with
  | done s hNone =>
      intro t ht
      simp [hNone] at ht
  | read s t s' hTerm ih =>
      obtain ⟨gap, tail, hReads⟩ := Cursor.term_reads (nextTerm_eq_ok hTerm).1
      intro u hu
      rw [remaining_of_ok hTerm, List.mem_cons] at hu
      rcases hu with rfl | hu
      · exact ⟨_, hReads.start⟩
      · obtain ⟨cs, hcs⟩ := ih u hu
        refine ⟨gap ++ t.text.toList ++ tail ++ cs, ?_⟩
        rw [hcs, position, hReads.position, hReads.stop, hReads.start, position]
        simp only [← Position.advanceOver_append]

/-- The remaining terms start at increasing places. -/
theorem remaining_pairwise (s : Scanner) :
    s.remaining.Pairwise fun t u => t.start.lineColumn < u.start.lineColumn := by
  induction s using remaining_induction with
  | done s hNone => simp [hNone]
  | read s t s' hTerm ih =>
      obtain ⟨gap, tail, hReads⟩ := Cursor.term_reads (nextTerm_eq_ok hTerm).1
      rw [remaining_of_ok hTerm, List.pairwise_cons]
      refine ⟨?_, ih⟩
      intro u hu
      obtain ⟨cs, hcs⟩ := start_of_mem_remaining s' u hu
      rw [hcs, position, hReads.position, hReads.stop, ← Position.advanceOver_append,
        ← Position.advanceOver_append]
      exact Position.lineColumn_lt_advanceOver _ (by simp [hReads.spelled.ne_nil])

end Scanner

end ReversePolish
