import ReversePolish.Proofs.Segmentation

/-!
# A scanner under any use

A scanner can be asked for terms and for single characters in any order, told to skip
separators or to set its mark, and asked what stands at any place, sensible or not.  This
module says what such a use cannot break: the cursor and the mark have the coordinates of
what has been read, and the mark is not behind the cursor.

Both facts follow from one cut of the text (`Scanner.Cut`).  In front is what was read before
the mark was set, then what was read since, then what is still to be read.  A request moves
characters from the last part to the second, or all that was read to the first.

A term can also be read by looking ahead: from the scanner's place the term and the place
behind it are found, and the scanner goes to the start of the term, sets its mark and goes to
that place (`Scanner.readAhead`).  That this reads the same as the cursor does rests on the
cut as well, for looking ahead starts from an index of the text and knows nothing of the
cursor.

## Main results

* `Scanner.Cut.answer` — one request keeps a cut of the text.
* `Scanner.Cut.readAhead_eq` — looking ahead and then going there reads a term.
* `scanner_consistent_under_any_use` — the coordinates of a scanner under any use.
-/

namespace ReversePolish

namespace Scanner

/-! ## Requests -/

/-- What can be asked of a scanner. -/
inductive Request where
  | nextTerm
  | peekTerm
  | nextChar
  | peekChar
  | atEnd
  | skipSeparators
  | setMark
  | lookahead (place : Position)
  deriving DecidableEq, Repr

/-- Requests that only look. -/
def Request.looks : Request → Bool
  | .peekTerm | .peekChar | .atEnd | .lookahead _ => true
  | .nextTerm | .nextChar | .skipSeparators | .setMark => false

/-- What a scanner answers. -/
inductive Reply where
  | term (t : Term)
  /-- A term and the place behind it and its separators. -/
  | found (t : Term) (behind : Position)
  | char (c : Char)
  /-- The next character, if there is one. -/
  | ahead (c : Option Char)
  | truth (b : Bool)
  | nothing
  deriving DecidableEq, Repr

/-- The reply of a step and the scanner that it leaves.  A step that fails leaves none, so the
scanner is the one before it. -/
def settle {α : Type} (s : Scanner) (reply : α → Reply)
    (step : Except PlacedFault (α × Scanner)) : Except PlacedFault Reply × Scanner :=
  match step with
  | .ok (a, s') => (.ok (reply a), s')
  | .error fault => (.error fault, s)

/-- The answer to a request, and the scanner that is left. -/
def answer (s : Scanner) : Request → Except PlacedFault Reply × Scanner
  | .nextTerm => s.settle .term s.nextTerm
  | .peekTerm => (s.peekTerm.map .term, s)
  | .nextChar => s.settle .char s.nextChar
  | .peekChar => (.ok (.ahead s.peekChar?), s)
  | .atEnd => (.ok (.truth s.atEnd), s)
  | .skipSeparators => (.ok .nothing, s.skipSeparators)
  | .setMark => (.ok .nothing, s.setMark)
  | .lookahead place => ((s.lookahead place).map fun found => .found found.1 found.2, s)

/-- The scanner that is left when requests have been made in order, each of them whether or
not those before it have failed. -/
def answerAll (s : Scanner) (requests : List Request) : Scanner :=
  requests.foldl (fun s request => (s.answer request).2) s

/-! ## The cut of a text -/

/-- The text of a scanner is cut in three: what was read before the mark was set, what was
read since, and what is still to be read. -/
structure Cut (s : Scanner) (before since : List Char) : Prop where
  text : s.text = before ++ since ++ s.cursor.rest
  mark : s.mark = Position.after before
  position : s.position = Position.after (before ++ since)

variable {s : Scanner} {before since : List Char}

theorem ofSource_cut (source : String) : (ofSource source).Cut [] [] :=
  ⟨rfl, rfl, rfl⟩

theorem Cut.index (h : s.Cut before since) : s.position.index = (before ++ since).length := by
  rw [h.position, Position.after_index]

theorem Cut.mark_index (h : s.Cut before since) : s.mark.index = before.length := by
  rw [h.mark, Position.after_index]

/-- What is still to be read is what stands in the text from the cursor's index on. -/
theorem Cut.rest_eq (h : s.Cut before since) : s.cursor.rest = s.text.drop s.position.index := by
  rw [h.index, h.text, List.drop_left]

/-- The scanner has read `cs` and has not set its mark. -/
theorem Cut.move (h : s.Cut before since) {cs rest : List Char}
    (hRest : s.cursor.rest = cs ++ rest) :
    Cut { s with cursor := ⟨s.position.advanceOver cs, rest⟩ } before (since ++ cs) where
  text := by
    show s.text = before ++ (since ++ cs) ++ rest
    rw [h.text, hRest]
    simp only [List.append_assoc]
  mark := h.mark
  position := by
    show s.position.advanceOver cs = Position.after (before ++ (since ++ cs))
    rw [h.position, ← Position.after_append, List.append_assoc]

theorem Cut.setMark (h : s.Cut before since) : s.setMark.Cut (before ++ since) [] where
  text := by
    rw [List.append_nil]
    exact h.text
  mark := h.position
  position := by
    rw [List.append_nil]
    exact h.position

theorem Cut.skipSeparators (h : s.Cut before since) :
    s.skipSeparators.Cut before (since ++ s.cursor.rest.takeWhile Term.isSeparator) := by
  apply h.move
  exact List.takeWhile_append_dropWhile.symm

theorem Cut.nextChar (h : s.Cut before since) {c : Char} {s' : Scanner}
    (hChar : s.nextChar = .ok (c, s')) : s'.Cut before (since ++ [c]) := by
  unfold Scanner.nextChar Cursor.char at hChar
  cases hRest : s.cursor.rest with
  | nil =>
      rw [hRest] at hChar
      cases hChar
  | cons first rest =>
      rw [hRest] at hChar
      cases hChar
      have hFirst : s.cursor.rest = [c] ++ rest := hRest
      exact h.move hFirst

/-- A term is read in two moves, with the mark set between them. -/
theorem Cut.nextTerm (h : s.Cut before since) {t : Term} {s' : Scanner}
    (hTerm : s.nextTerm = .ok (t, s')) :
    ∃ gap tail, s'.Cut (before ++ since ++ gap) (t.text.toList ++ tail) := by
  obtain ⟨hCursor, hMark, hText⟩ := nextTerm_eq_ok hTerm
  obtain ⟨gap, tail, hReads⟩ := Cursor.term_reads hCursor
  have hStart : t.start = Position.after (before ++ since ++ gap) := by
    rw [hReads.start, Position.after_append, ← h.position]
    rfl
  refine ⟨gap, tail, ?_, ?_, ?_⟩
  · rw [hText, h.text, hReads.rest]
    simp only [List.append_assoc]
  · rw [hMark, hStart]
  · show s'.cursor.position = _
    rw [hReads.position, hReads.stop, hStart, ← Position.after_append, ← Position.after_append,
      List.append_assoc]

/-! ## One request -/

/-- From `s` a scanner has come to `s'`: the text is the same and is cut again, and the cursor
has not gone back. -/
structure Follows (s s' : Scanner) : Prop where
  text : s'.text = s.text
  cut : ∃ before since, s'.Cut before since
  index_le : s.position.index ≤ s'.position.index

theorem Cut.follows (h : s.Cut before since) : Follows s s :=
  ⟨rfl, ⟨before, since, h⟩, Nat.le_refl _⟩

/-- More has been read, with the mark wherever it may be. -/
theorem Cut.follows_of_cut (h : s.Cut before since) {s' : Scanner} {before' since' : List Char}
    (h' : s'.Cut before' since') (hText : s'.text = s.text)
    (hMore : (before ++ since).length ≤ (before' ++ since').length) : Follows s s' := by
  refine ⟨hText, ⟨before', since', h'⟩, ?_⟩
  rw [h.index, h'.index]
  exact hMore

theorem settle_follows {α : Type} {reply : α → Reply}
    {step : Except PlacedFault (α × Scanner)} (hSelf : Follows s s)
    (hStep : ∀ a s', step = .ok (a, s') → Follows s s') : Follows s (s.settle reply step).2 := by
  cases step with
  | error fault => exact hSelf
  | ok result => exact hStep result.1 result.2 rfl

theorem settle_unchanged {α : Type} {reply : α → Reply}
    {step : Except PlacedFault (α × Scanner)}
    (h : ∃ fault, (s.settle reply step).1 = .error fault) : (s.settle reply step).2 = s := by
  obtain ⟨fault, hFault⟩ := h
  cases step with
  | error other => rfl
  | ok result => cases hFault

theorem nextChar_text {c : Char} {s' : Scanner} (h : s.nextChar = .ok (c, s')) :
    s'.text = s.text := by
  unfold nextChar at h
  cases hChar : s.cursor.char with
  | error fault =>
      rw [hChar] at h
      cases h
  | ok read =>
      rw [hChar] at h
      cases h
      rfl

/-- One request keeps a scanner cut, whether it fails or not. -/
theorem Cut.answer (h : s.Cut before since) (request : Request) :
    Follows s (s.answer request).2 := by
  cases request with
  | peekTerm => exact h.follows
  | peekChar => exact h.follows
  | atEnd => exact h.follows
  | lookahead place => exact h.follows
  | setMark =>
      apply h.follows_of_cut h.setMark rfl
      rw [List.append_nil]
  | skipSeparators =>
      apply h.follows_of_cut h.skipSeparators rfl
      simp only [List.length_append]
      omega
  | nextChar =>
      apply settle_follows h.follows
      intro c s' hChar
      apply h.follows_of_cut (h.nextChar hChar) (nextChar_text hChar)
      simp only [List.length_append]
      omega
  | nextTerm =>
      apply settle_follows h.follows
      intro t s' hTerm
      obtain ⟨gap, tail, hCut⟩ := h.nextTerm hTerm
      apply h.follows_of_cut hCut (nextTerm_eq_ok hTerm).2.2
      simp only [List.length_append]
      omega

/-- Requests keep a scanner cut, whether they fail or not. -/
theorem Cut.answerAll (h : s.Cut before since) (requests : List Request) :
    Follows s (s.answerAll requests) := by
  induction requests generalizing s before since with
  | nil => exact h.follows
  | cons request requests ih =>
      have hFirst := h.answer request
      obtain ⟨before', since', hCut⟩ := hFirst.cut
      have hRest := ih hCut
      exact
        { text := hRest.text.trans hFirst.text
          cut := hRest.cut
          index_le := Nat.le_trans hFirst.index_le hRest.index_le }

/-- A request that fails changes nothing, and neither does one that only looks. -/
theorem answer_unchanged {request : Request}
    (h : (∃ fault, (s.answer request).1 = .error fault) ∨ request.looks = true) :
    (s.answer request).2 = s := by
  cases request with
  | peekTerm => rfl
  | peekChar => rfl
  | atEnd => rfl
  | lookahead place => rfl
  | setMark => simp [Request.looks, answer] at h
  | skipSeparators => simp [Request.looks, answer] at h
  | nextChar => exact settle_unchanged (h.resolve_right Bool.false_ne_true)
  | nextTerm => exact settle_unchanged (h.resolve_right Bool.false_ne_true)

/-! ## Reading by looking ahead -/

/-- Goes to a place of the text. -/
def goTo (s : Scanner) (place : Position) : Scanner :=
  { s with cursor := ⟨place, s.text.drop place.index⟩ }

/-- Reads a term by looking ahead: goes to the start of the term, sets the mark there, and
goes to the place behind it. -/
def readAhead (s : Scanner) : Except PlacedFault Reply × Scanner :=
  match s.lookahead s.position with
  | .error fault => (.error fault, s)
  | .ok (t, behind) => (.ok (.term t), ((s.goTo t.start).setMark).goTo behind)

/-- From its own place a scanner finds what the cursor has before it. -/
theorem Cut.lookahead_position (h : s.Cut before since) :
    s.lookahead s.position =
      s.cursor.term.map fun read => (read.1, read.2.position) := by
  have hCursor : (⟨s.position, s.text.drop s.position.index⟩ : Cursor) = s.cursor := by
    rw [← h.rest_eq]
    rfl
  rw [lookahead, hCursor]

/-- Looking ahead and going there reads a term. -/
theorem Cut.readAhead_eq (h : s.Cut before since) : s.readAhead = s.answer .nextTerm := by
  show s.readAhead = s.settle .term s.nextTerm
  unfold readAhead
  rw [h.lookahead_position]
  cases hTerm : s.nextTerm with
  | error fault =>
      rw [nextTerm_eq_error hTerm]
      rfl
  | ok result =>
      obtain ⟨t, s'⟩ := result
      obtain ⟨hCursor, hMark, hText⟩ := nextTerm_eq_ok hTerm
      obtain ⟨gap, tail, hCut⟩ := h.nextTerm hTerm
      -- Going to an index gives the same rest as reading up to it.
      have hRest : s'.cursor.rest = s.text.drop s'.position.index := by
        rw [← hText]
        exact hCut.rest_eq
      have hLeft : (((s.goTo t.start).setMark).goTo s'.position) = s' := by
        show Scanner.mk s.text ⟨s'.position, s.text.drop s'.position.index⟩ t.start = s'
        rw [← hRest, ← hText, ← hMark]
        rfl
      rw [hCursor]
      show (Except.ok (Reply.term t), _) = (Except.ok (Reply.term t), s')
      rw [← hLeft]
      rfl

/-- Reading a term gives the reply that looking at it gives. -/
theorem answer_nextTerm_reply (s : Scanner) :
    (s.answer .nextTerm).1 = (s.answer .peekTerm).1 := by
  show (s.settle .term s.nextTerm).1 = s.peekTerm.map .term
  rw [peekTerm_eq]
  cases s.nextTerm with
  | error fault => rfl
  | ok result => rfl

theorem answer_nextTerm_mark {t : Term} (h : (s.answer .nextTerm).1 = .ok (.term t)) :
    (s.answer .nextTerm).2.mark = t.start := by
  have hSettled : (s.settle .term s.nextTerm).1 = .ok (.term t) := h
  show (s.settle .term s.nextTerm).2.mark = t.start
  cases hTerm : s.nextTerm with
  | error fault =>
      rw [hTerm] at hSettled
      cases hSettled
  | ok result =>
      rw [hTerm] at hSettled
      cases hSettled
      exact (nextTerm_eq_ok hTerm).2.1

/-! ## Coordinates -/

/-- The cursor and the mark of a scanner have the coordinates of the text in front of them,
and the mark is not behind the cursor. -/
structure Consistent (s : Scanner) (text : List Char) : Prop where
  index_le : s.position.index ≤ text.length
  position : s.position = Position.after (text.take s.position.index)
  mark : s.mark = Position.after (text.take s.mark.index)
  mark_le : s.mark.index ≤ s.position.index
  rest : s.cursor.rest = text.drop s.position.index

theorem Cut.consistent (h : s.Cut before since) : s.Consistent s.text := by
  refine
    { index_le := ?_
      position := ?_
      mark := ?_
      mark_le := ?_
      rest := h.rest_eq }
  · rw [h.index, h.text]
    simp only [List.length_append]
    omega
  · rw [h.index, h.text, List.take_left]
    exact h.position
  · rw [h.mark_index, h.text, List.append_assoc, List.take_left]
    exact h.mark
  · rw [h.index, h.mark_index, List.length_append]
    omega

end Scanner

/-- **A scanner under any use.**  Whatever was asked of a scanner, and whether it could be done
or not, its cursor and its mark have the coordinates that come from reading the text in front
of them, the cursor is within the text, and the mark is not behind the cursor.  A further
request does not move the cursor back.  If it fails, or if it only looks, it changes nothing.
Reading a term gives what looking at it gives, and is the same as looking ahead from the
cursor, going to the start of the term, setting the mark, and going to the place that was
found.  When a term was read, the mark is its start. -/
theorem scanner_consistent_under_any_use (source : String) (requests : List Scanner.Request)
    (request : Scanner.Request) :
    let s := (Scanner.ofSource source).answerAll requests
    s.Consistent source.toList ∧
      s.position.index ≤ (s.answer request).2.position.index ∧
      ((∃ fault, (s.answer request).1 = .error fault) ∨ request.looks = true →
        (s.answer request).2 = s) ∧
      (s.answer .nextTerm).1 = (s.answer .peekTerm).1 ∧
      s.answer .nextTerm = s.readAhead ∧
      ∀ t, (s.answer .nextTerm).1 = .ok (.term t) → (s.answer .nextTerm).2.mark = t.start := by
  intro s
  have hFollows : Scanner.Follows (Scanner.ofSource source) s :=
    (Scanner.ofSource_cut source).answerAll requests
  have hText : s.text = source.toList := hFollows.text
  obtain ⟨before, since, hCut⟩ := hFollows.cut
  refine ⟨?_, (hCut.answer request).index_le, Scanner.answer_unchanged,
    s.answer_nextTerm_reply, hCut.readAhead_eq.symm, fun t => Scanner.answer_nextTerm_mark⟩
  rw [← hText]
  exact hCut.consistent

end ReversePolish
