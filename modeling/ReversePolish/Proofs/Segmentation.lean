import Mathlib.Data.List.DropRight
import ReversePolish.Proofs.Language

/-!
# Terms cut a text without loss

Reading terms up to the end of a text cuts the text into its terms and the separators
between them.  Nothing else is left out, no word is cut in two, and each term says in
which line and at which column it starts and ends.

Coordinates are counted by the scanner one character at a time.  What they should be is
said without a scanner, by counting the newlines before an index and measuring what
stands behind the last of them (`Position.ofIndex`).

The scanner never stands inside a word.  This is what makes words maximal to the left,
where reading does not look; to the right a word is read as far as it goes.

## Main results

* `Position.after_eq_ofIndex` — counting character by character gives the coordinates
  of an index.
* `Scanner.Stands.nextTerm` — one term read keeps the invariant of the scanner.
* `Scanner.Stands.segmentation` — the terms that a scanner reads cut the rest of its
  text.
* `terms_segment` — the terms of a source, and when there are none to read.
-/

namespace ReversePolish

/-! ## Coordinates -/

theorem Text.unitLength_append (cs ds : List Char) :
    unitLength (cs ++ ds) = unitLength cs + unitLength ds := by
  induction cs with
  | nil => exact (Nat.zero_add _).symm
  | cons c cs ih =>
      show unitCount c + unitLength (cs ++ ds) = unitCount c + unitLength cs + unitLength ds
      omega

namespace Position

/-- The place of an index in a text: one line for each newline before it, and as its
column the UTF-16 length of what stands behind the last newline. -/
def ofIndex (text : List Char) (index : Nat) : Position where
  index := index
  line := 1 + (text.take index).count '\n'
  column := Text.unitLength ((text.take index).rtakeWhile (· != '\n'))

/-- A position is moved over a text by counting its newlines and measuring its last
line. -/
theorem after_eq (cs : List Char) :
    after cs = ⟨cs.length, 1 + cs.count '\n', Text.unitLength (cs.rtakeWhile (· != '\n'))⟩ := by
  induction cs using List.reverseRecOn with
  | nil => rfl
  | append_singleton cs c ih =>
      rw [after_append, ih, advanceOver_cons, advanceOver_nil, advance]
      by_cases hNewline : c = '\n'
      · have hCount : (cs ++ [c]).count '\n' = cs.count '\n' + 1 := by simp [hNewline]
        rw [if_pos hNewline, hCount, List.rtakeWhile_concat_neg _ _ _ (by simp [hNewline]),
          List.length_append]
        rfl
      · have hCount : (cs ++ [c]).count '\n' = cs.count '\n' := by
          simp [hNewline]
        rw [if_neg hNewline, hCount, List.rtakeWhile_concat_pos _ _ _ (by simp [hNewline]),
          List.length_append, Text.unitLength_append]
        rfl

/-- The position behind the beginning of a text is that of the beginning's length. -/
theorem after_eq_ofIndex (front back : List Char) :
    after front = ofIndex (front ++ back) front.length := by
  rw [after_eq, ofIndex, List.take_left]

theorem after_index (cs : List Char) : (after cs).index = cs.length := by
  rw [after_eq]

theorem advanceOver_index (p : Position) (cs : List Char) :
    (p.advanceOver cs).index = p.index + cs.length := by
  induction cs generalizing p with
  | nil => rfl
  | cons c cs ih =>
      rw [advanceOver_cons, ih, advance_index, List.length_cons]
      omega

end Position

/-! ## Terms at their places -/

/-- A term is what stands between its two ends, with the right coordinates for both; and
a word can be extended neither to the left nor to the right. -/
structure Term.Occurs (t : Term) (text : List Char) : Prop where
  start : t.start = Position.ofIndex text t.start.index
  stop : t.stop = Position.ofIndex text t.stop.index
  stop_le : t.stop.index ≤ text.length
  slice : t.text.toList = text.extract t.start.index t.stop.index
  spelled : t.Spelled
  left : t.text ≠ newline →
    ∀ c ∈ (text.take t.start.index).getLast?, isWordChar c = false
  right : t.text ≠ newline →
    ∀ c ∈ (text.drop t.stop.index).head?, isWordChar c = false

/-- A term that is written between two parts of a text occurs in it. -/
theorem Term.Occurs.of_append {t : Term} {front back : List Char}
    (hStart : t.start = Position.after front)
    (hStop : t.stop = Position.after (front ++ t.text.toList)) (hSpelled : t.Spelled)
    (hLeft : t.text ≠ newline → ∀ c ∈ front.getLast?, isWordChar c = false)
    (hRight : t.text ≠ newline → ∀ c ∈ back.head?, isWordChar c = false) :
    t.Occurs (front ++ t.text.toList ++ back) := by
  have hFirst : t.start.index = front.length := by rw [hStart, Position.after_index]
  have hLast : t.stop.index = (front ++ t.text.toList).length := by
    rw [hStop, Position.after_index]
  refine
    { start := ?_
      stop := ?_
      stop_le := ?_
      slice := ?_
      spelled := hSpelled
      left := ?_
      right := ?_ }
  · rw [hFirst, hStart, List.append_assoc]
    exact Position.after_eq_ofIndex _ _
  · rw [hLast, hStop]
    exact Position.after_eq_ofIndex _ _
  · rw [hLast]
    simp
  · rw [hFirst, hLast, List.extract_eq_take_drop, List.append_assoc, List.drop_left,
      List.length_append, Nat.add_sub_cancel_left, List.take_left]
  · intro hWord
    rw [hFirst, List.append_assoc, List.take_left]
    exact hLeft hWord
  · intro hWord
    rw [hLast, List.drop_left]
    exact hRight hWord

/-! ## One term more -/

namespace Scanner

/-- The scanner stands behind the characters `front`, and no word goes over its place. -/
structure Stands (s : Scanner) (front : List Char) : Prop where
  text : s.text = front ++ s.cursor.rest
  position : s.position = Position.after front
  apart : ∀ c ∈ front.getLast?, ∀ d ∈ s.cursor.rest.head?,
    Term.isWordChar c = true → Term.isWordChar d = false

theorem ofSource_stands (source : String) : (ofSource source).Stands [] :=
  ⟨rfl, rfl, by simp⟩

theorem not_isWordChar_of_isSeparator {c : Char} (h : Term.isSeparator c = true) :
    Term.isWordChar c = false := by
  simp [Term.isWordChar, h]

/-- Behind separators no word goes on. -/
theorem not_isWordChar_of_mem_getLast? {front gap : List Char} (hSome : gap ≠ [])
    (hGap : ∀ c ∈ gap, Term.isSeparator c = true) :
    ∀ c ∈ (front ++ gap).getLast?, Term.isWordChar c = false := by
  intro c hc
  rw [List.getLast?_append_of_ne_nil _ hSome] at hc
  exact not_isWordChar_of_isSeparator (hGap c (List.mem_of_getLast? hc))

/-- A word that is read starts where nothing can be put in front of it. -/
theorem Stands.left {s : Scanner} {front gap word back : List Char} (h : s.Stands front)
    (hRest : s.cursor.rest = gap ++ word ++ back)
    (hGap : ∀ c ∈ gap, Term.isSeparator c = true)
    (hWord : word ≠ [] ∧ ∀ c ∈ word, Term.isWordChar c = true) :
    ∀ c ∈ (front ++ gap).getLast?, Term.isWordChar c = false := by
  by_cases hNone : gap = []
  · obtain ⟨d, word', rfl⟩ := List.exists_cons_of_ne_nil hWord.1
    intro c hc
    rw [hNone, List.append_nil] at hc
    rw [Bool.eq_false_iff]
    intro hIs
    have hNot : Term.isWordChar d = false :=
      h.apart c hc d (by simp [hRest, hNone]) hIs
    rw [hWord.2 d (by simp)] at hNot
    cases hNot
  · exact not_isWordChar_of_mem_getLast? hNone hGap

/-- One term read keeps the invariant, and the term occurs in the text. -/
theorem Stands.nextTerm {s s' : Scanner} {t : Term} {front : List Char} (h : s.Stands front)
    (hTerm : s.nextTerm = .ok (t, s')) :
    ∃ gap tail, s.cursor.Reads t s'.cursor gap tail ∧
      s'.Stands (front ++ gap ++ t.text.toList ++ tail) ∧ s'.text = s.text ∧
      t.Occurs s.text := by
  obtain ⟨hCursor, _, hSame⟩ := nextTerm_eq_ok hTerm
  obtain ⟨gap, tail, hReads⟩ := Cursor.term_reads hCursor
  have hText : s.text = front ++ gap ++ t.text.toList ++ (tail ++ s'.cursor.rest) := by
    rw [h.text, hReads.rest]
    simp only [List.append_assoc]
  have hStart : t.start = Position.after (front ++ gap) := by
    rw [hReads.start, Position.after_append, ← h.position]
    rfl
  have hStop : t.stop = Position.after (front ++ gap ++ t.text.toList) := by
    rw [hReads.stop, hStart, Position.after_append (front ++ gap)]
  refine ⟨gap, tail, hReads, ⟨?_, ?_, ?_⟩, hSame, ?_⟩
  · rw [hSame, hText]
    simp only [List.append_assoc]
  · rw [Scanner.position, hReads.position, hStop, Position.after_append _ tail]
  · -- Where no separator follows, a word ended because it could not go on.
    intro c hc d hd hIs
    by_cases hNone : tail = []
    · rw [hNone, List.append_nil, List.getLast?_append_of_ne_nil _ hReads.spelled.ne_nil] at hc
      have hWord : t.text ≠ Term.newline := by
        intro hNewline
        rw [hNewline] at hc
        cases hc
        exact absurd hIs (by decide)
      exact hReads.whole hWord d (by rw [hNone]; exact hd)
    · have hNot := not_isWordChar_of_mem_getLast? hNone hReads.tailSeparates c hc
      rw [hNot] at hIs
      cases hIs
  · rw [hText]
    refine Term.Occurs.of_append hStart hStop hReads.spelled ?_ hReads.whole
    intro hNewline
    have hRest : s.cursor.rest = gap ++ t.text.toList ++ (tail ++ s'.cursor.rest) := by
      rw [hReads.rest, List.append_assoc]
    exact h.left hRest hReads.gapSeparates (hReads.spelled.resolve_left hNewline)

/-- A settled scanner stands at the term that it reads next. -/
theorem Settled.gap_eq_nil {s s' : Scanner} {t : Term} {gap tail : List Char}
    (h : s.Settled) (hReads : s.cursor.Reads t s'.cursor gap tail) : gap = [] := by
  cases gap with
  | nil => rfl
  | cons c gap =>
      have hNot : Term.isSeparator c = false := h c (by simp [hReads.rest])
      rw [hReads.gapSeparates c (by simp)] at hNot
      cases hNot

end Scanner

/-! ## All terms -/

/-- The place where the first of the terms starts, or else the end of the text. -/
def firstStart (text : List Char) : List (Term × Position) → Position
  | [] => Position.ofIndex text text.length
  | (t, _) :: _ => t.start

/-- The terms that are read from an index of a text on, each with the place of the
scanner behind it. -/
structure Segmentation (text : List Char) (index : Nat) (read : List (Term × Position)) :
    Prop where
  occurs : ∀ r ∈ read, r.1.Occurs text
  behind : ∀ r ∈ read, index ≤ r.1.start.index
  ordered : read.Pairwise fun r r' => r.1.stop.index ≤ r'.1.start.index
  /-- What belongs to no term is a separator. -/
  covers : ∀ i c, index ≤ i → text[i]? = some c →
    Term.isSeparator c = true ∨ ∃ r ∈ read, r.1.start.index ≤ i ∧ i < r.1.stop.index
  /-- Behind a term the scanner stands at the next one or at the end. -/
  cursors : ∀ front r back, read = front ++ r :: back → r.2 = firstStart text back

/-- A character of a text that stands in a range belongs to the part there. -/
theorem mem_of_getElem?_append {front part back : List Char} {i : Nat} {c : Char}
    (h : (front ++ part ++ back)[i]? = some c) (hLow : front.length ≤ i)
    (hHigh : i < front.length + part.length) : c ∈ part := by
  rw [List.append_assoc, List.getElem?_append_right hLow,
    List.getElem?_append_left (by omega)] at h
  exact List.mem_of_getElem? h

namespace Scanner

theorem nextTerm_eq_error {s : Scanner} {f : PlacedFault} (h : s.nextTerm = .error f) :
    s.cursor.term = .error f := by
  unfold nextTerm at h
  cases hTerm : s.cursor.term with
  | error f' =>
      rw [hTerm] at h
      exact congrArg Except.error (Except.error.inj h)
  | ok read =>
      rw [hTerm] at h
      cases h

/-- A settled scanner stands where the first of its terms starts, or at the end. -/
theorem Stands.position_eq_firstStart {s : Scanner} {front : List Char} (h : s.Stands front)
    (hSettled : s.Settled) : s.position = firstStart s.text s.terms.1 := by
  cases hTerm : s.nextTerm with
  | error f =>
      have hEnd : s.atEnd = true := hSettled.atEnd_iff.2 (remaining_of_error hTerm)
      have hRest : s.cursor.rest = [] := List.isEmpty_iff.1 hEnd
      rw [terms_of_atEnd hEnd, h.position, h.text, hRest]
      show _ = Position.ofIndex (front ++ []) (front ++ []).length
      rw [Position.after_eq_ofIndex front [], List.append_nil]
  | ok result =>
      obtain ⟨t, s'⟩ := result
      obtain ⟨gap, tail, hReads, _⟩ := h.nextTerm hTerm
      have hStart := hReads.start
      rw [hSettled.gap_eq_nil hReads, Position.advanceOver_nil] at hStart
      rw [terms_of_ok hTerm]
      exact hStart.symm

/-- The terms that a scanner reads cut the rest of its text, and reading them does not
fail, provided that the scanner is at the end when it has no term to read. -/
theorem Stands.segmentation {s : Scanner} {front : List Char} (h : s.Stands front)
    (hReady : s.remaining = [] → s.atEnd = true) :
    s.terms.2 = none ∧ Segmentation s.text front.length s.terms.1 := by
  induction s using remaining_induction generalizing front with
  | done s hNone =>
      have hEnd := hReady hNone
      have hRest : s.cursor.rest = [] := List.isEmpty_iff.1 hEnd
      rw [terms_of_atEnd hEnd]
      refine ⟨rfl, by simp, by simp, List.Pairwise.nil, ?_, by simp⟩
      intro i c hLow hc
      have hLess := (List.getElem?_eq_some_iff.1 hc).1
      rw [h.text, hRest, List.append_nil] at hLess
      omega
  | read s t s' hTerm ih =>
      obtain ⟨gap, tail, hReads, hStands, hSame, hOccurs⟩ := h.nextTerm hTerm
      have hSettled : s'.Settled := hReads.settled
      obtain ⟨hFault, hRest⟩ := ih hStands hSettled.atEnd_iff.2
      have hNext := hStands.position_eq_firstStart hSettled
      rw [hSame] at hRest hNext
      have hFront : s.cursor.position.index = front.length := by
        rw [← Position.after_index, ← h.position]
        rfl
      have hStart : t.start.index = front.length + gap.length := by
        rw [hReads.start, Position.advanceOver_index, hFront]
      have hStop : t.stop.index = t.start.index + t.text.toList.length := by
        rw [hReads.stop, Position.advanceOver_index]
      rw [terms_of_ok hTerm]
      refine ⟨hFault, ?_, ?_, ?_, ?_, ?_⟩
      · exact List.forall_mem_cons.2 ⟨hOccurs, hRest.occurs⟩
      · refine List.forall_mem_cons.2 ⟨by simp only [hStart]; omega, ?_⟩
        intro r hr
        have hBehind := hRest.behind r hr
        simp only [List.length_append] at hBehind
        omega
      · refine List.Pairwise.cons ?_ hRest.ordered
        intro r hr
        have hBehind := hRest.behind r hr
        simp only [List.length_append] at hBehind ⊢
        omega
      · -- An index is in the gap, in the term, in the separators behind it, or further on.
        intro i c hLow hc
        have hText : s.text = front ++ gap ++ t.text.toList ++ tail ++ s'.cursor.rest := by
          rw [← hSame, hStands.text]
        by_cases hGap : i < t.start.index
        · refine Or.inl (hReads.gapSeparates c ?_)
          rw [hText, List.append_assoc, List.append_assoc] at hc
          exact mem_of_getElem?_append hc hLow (by omega)
        · by_cases hInside : i < t.stop.index
          · exact Or.inr ⟨(t, s'.position), by simp, Nat.le_of_not_lt hGap, hInside⟩
          · by_cases hTail : i < t.stop.index + tail.length
            · refine Or.inl (hReads.tailSeparates c ?_)
              rw [hText] at hc
              refine mem_of_getElem?_append hc ?_ ?_
              · simp only [List.length_append]
                omega
              · simp only [List.length_append]
                omega
            · have hFurther := hRest.covers i c
                (by simp only [List.length_append]; omega) hc
              refine hFurther.imp_right ?_
              rintro ⟨r, hr, hRange⟩
              exact ⟨r, List.mem_cons_of_mem _ hr, hRange⟩
      · intro before r back hSplit
        rcases List.cons_eq_append_iff.1 hSplit with ⟨rfl, hCons⟩ | ⟨before', rfl, hTerms⟩
        · cases hCons
          exact hNext
        · exact hRest.cursors before' r back hTerms

end Scanner

/-! ## The terms of a source -/

/-- A cursor that has no term to offer fails at the end of the text. -/
theorem Cursor.term_eq_error {c : Cursor} {f : PlacedFault} (h : c.term = .error f) :
    f = ⟨.unexpectedEnd, c.position.advanceOver c.rest⟩ := by
  unfold term at h
  dsimp only at h
  split at h
  · next hEmpty =>
      have hDrop : c.rest.dropWhile Term.isSeparator = [] := List.isEmpty_iff.1 hEmpty
      have hTake : c.rest.takeWhile Term.isSeparator = c.rest := by
        conv_rhs => rw [← List.takeWhile_append_dropWhile (p := Term.isSeparator) (l := c.rest)]
        rw [hDrop, List.append_nil]
      cases h
      show _ = PlacedFault.mk _ _
      rw [skipSeparators, skip, hTake]
  · cases h

/-- **Terms cut a source without loss.**  Reading terms until the end either fails at the
first one, and this exactly when the source holds separators and nothing else, though at
least one; or it does not fail, and then the terms and the separators between them are
the whole source.  Each term is a newline or a word that cannot be extended, stands
where it says with the right line and column for both ends, and behind it the scanner
stands at the next term or at the end. -/
theorem terms_segment (source : String) :
    IsBlank source ∧ (Scanner.ofSource source).terms =
        ([], some ⟨.unexpectedEnd,
          Position.ofIndex source.toList source.toList.length⟩) ∨
      ¬ IsBlank source ∧ (Scanner.ofSource source).terms.2 = none ∧
        Segmentation source.toList 0 (Scanner.ofSource source).terms.1 := by
  by_cases hBlank : IsBlank source
  · obtain ⟨hSome, hAll⟩ := hBlank
    refine Or.inl ⟨⟨hSome, hAll⟩, ?_⟩
    have hEnd : (Scanner.ofSource source).atEnd = false := by
      simpa [Scanner.atEnd, Scanner.ofSource, Cursor.ofText] using hSome
    obtain ⟨f, hf⟩ := Scanner.nextTerm_eq_error_iff.2
      (show ∀ c ∈ (Scanner.ofSource source).cursor.rest, _ from hAll)
    rw [Scanner.terms_of_error hEnd hf, Cursor.term_eq_error (Scanner.nextTerm_eq_error hf)]
    have hPlace := Position.after_eq_ofIndex source.toList []
    rw [List.append_nil] at hPlace
    rw [← hPlace]
    rfl
  · have hReady := (ofSource_ready_iff source).2 hBlank
    exact Or.inr ⟨hBlank, (Scanner.ofSource_stands source).segmentation hReady⟩

end ReversePolish
