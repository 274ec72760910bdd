import ReversePolish.Proofs.Recognition

/-!
# Faults are found at the earliest term

A source is refused at the first term that no accepted source has behind the terms before it.
What stands in front of that term can be completed to an accepted source, and with the term it
cannot be.  A source that ends too early is not accepted, but it can be completed.

That terms cannot be completed follows from the readings, which are a function of the terms.
That they can be is shown by a completion: one sign for each value that waits for one.  It is
made a source by writing a blank behind each term (`layOut`), and reading that source gives back
the terms.

The fault carries the position of the scanner.  This is where the next term starts, or the end
of the source; and the term at fault has been read, except where it nests too deep.

## Main results

* `remaining_layOut` — terms that are laid out are read back.
* `viable_of_run`, `not_viable_of_refused` — which terms can be completed.
* `fault_is_earliest` — the place of every fault.
-/

namespace ReversePolish

/-! ## Laying out terms -/

/-- A text that a term can have. -/
def IsSpelling (text : String) : Prop :=
  text = Term.newline ∨
    text.toList ≠ [] ∧ ∀ c ∈ text.toList, Term.isWordChar c = true

/-- The texts of terms, each followed by a blank. -/
def layOut (texts : List String) : List Char :=
  texts.flatMap fun text => text.toList ++ [' ']

theorem layOut_cons (text : String) (texts : List String) :
    layOut (text :: texts) = text.toList ++ ' ' :: layOut texts := by
  rw [layOut, List.flatMap_cons, List.append_assoc]
  rfl

theorem not_isSeparator_of_isWordChar {c : Char} (h : Term.isWordChar c = true) :
    Term.isSeparator c = false := by
  cases hSeparator : Term.isSeparator c with
  | false => rfl
  | true => simp [Term.isWordChar, hSeparator] at h

/-- A spelling starts with a character that is no separator. -/
theorem IsSpelling.toList_eq_cons {text : String} (h : IsSpelling text) :
    ∃ c cs, text.toList = c :: cs ∧ Term.isSeparator c = false := by
  rcases h with rfl | ⟨hSome, hWord⟩
  · exact ⟨'\n', [], rfl, rfl⟩
  · obtain ⟨c, cs, hText⟩ := List.exists_cons_of_ne_nil hSome
    exact ⟨c, cs, hText, not_isSeparator_of_isWordChar (hWord c (by simp [hText]))⟩

theorem layOut_settled {texts : List String} (h : ∀ text ∈ texts, IsSpelling text)
    (place : Position) : (Cursor.mk place (layOut texts)).Settled := by
  intro c hc
  cases texts with
  | nil => cases hc
  | cons text texts =>
      obtain ⟨d, ds, hText, hFirst⟩ := (h text (by simp)).toList_eq_cons
      rw [layOut_cons, hText] at hc
      cases hc
      exact hFirst

/-- The term in front of a blank is the spelling that stands there. -/
theorem IsSpelling.word {text : String} (h : IsSpelling text) (place : Position)
    (back : List Char) :
    (Cursor.mk place (text.toList ++ ' ' :: back)).word = text.toList ∧
      (Cursor.mk place (text.toList ++ ' ' :: back)).skipWord.rest = ' ' :: back := by
  rcases h with rfl | ⟨hSome, hWord⟩
  · exact ⟨rfl, rfl⟩
  · have hTake : (text.toList ++ ' ' :: back).takeWhile Term.isWordChar = text.toList := by
      rw [List.takeWhile_append_of_pos hWord]
      exact List.append_nil _
    have hDrop : (text.toList ++ ' ' :: back).dropWhile Term.isWordChar = ' ' :: back := by
      rw [List.dropWhile_append_of_pos hWord]
      rfl
    have hNoNewline : ∀ rest, text.toList ++ ' ' :: back ≠ '\n' :: rest := by
      obtain ⟨c, cs, hText⟩ := List.exists_cons_of_ne_nil hSome
      intro rest hRest
      rw [hText] at hRest
      have hNewline := hWord '\n' (by rw [hText, (List.cons.inj hRest).1]; simp)
      exact absurd hNewline (by decide)
    constructor
    · unfold Cursor.word
      split
      · next rest hRest => exact absurd hRest (hNoNewline rest)
      · exact hTake
    · unfold Cursor.skipWord
      split
      · next rest hRest => exact absurd hRest (hNoNewline rest)
      · exact hDrop

theorem Cursor.Settled.term_eq {c : Cursor} (h : c.Settled) (hSome : c.rest ≠ []) :
    c.term = .ok (⟨String.ofList c.word, c.position, c.skipWord.position⟩,
      c.skipWord.skipSeparators) := by
  rw [Cursor.term]
  dsimp only
  rw [h.skipSeparators, if_neg (by simpa using hSome)]

/-- The first of the terms that are laid out is read, and the others remain. -/
theorem term_layOut {text : String} {texts : List String}
    (h : ∀ other ∈ text :: texts, IsSpelling other) (place : Position) :
    ∃ t behind, (Cursor.mk place (layOut (text :: texts))).term = .ok (t, behind) ∧
      t.text = text ∧ behind.rest = layOut texts := by
  have hSettled := layOut_settled h place
  obtain ⟨hWord, hSkip⟩ := (h text (by simp)).word place (layOut texts)
  rw [layOut_cons] at hSettled ⊢
  refine ⟨_, _, hSettled.term_eq (by simp), ?_, ?_⟩
  · show String.ofList (Cursor.word _) = text
    rw [hWord, String.ofList_toList]
  · -- the blank behind the term is skipped, and nothing else is
    have hOthers := layOut_settled (fun other hMem => h other (List.mem_cons_of_mem _ hMem)) place
    show (Cursor.skipWord _).rest.dropWhile Term.isSeparator = _
    rw [hSkip]
    exact congrArg Cursor.rest hOthers.skipSeparators

/-- Terms that are laid out are read back. -/
theorem remaining_layOut {texts : List String} (h : ∀ text ∈ texts, IsSpelling text)
    {s : Scanner} (hRest : s.cursor.rest = layOut texts) :
    s.remaining.map Term.text = texts := by
  induction texts generalizing s with
  | nil =>
      have hNone : s.remaining = [] := Scanner.remaining_eq_nil_iff.2 (by simp [hRest, layOut])
      rw [hNone, List.map_nil]
  | cons text texts ih =>
      obtain ⟨t, behind, hTerm, hText, hBehind⟩ := term_layOut h s.cursor.position
      rw [← hRest] at hTerm
      have hNext : s.nextTerm =
          .ok (t, { s with cursor := behind, mark := t.start }) := by
        rw [Scanner.nextTerm, hTerm]
        rfl
      rw [Scanner.remaining_of_ok hNext, List.map_cons, hText,
        ih (fun other hMem => h other (List.mem_cons_of_mem _ hMem)) hBehind]

/-! ## Completion -/

/-- Some accepted source has these terms. -/
def Accepted (depth : Nat) (texts : List String) : Prop :=
  ∃ source forest, (termsOf source).map Term.text = texts ∧
    Forest.ofSource source depth = .ok forest

/-- Some accepted source starts with these terms. -/
def Viable (depth : Nat) (texts : List String) : Prop :=
  ∃ more, Accepted depth (texts ++ more)

variable {depth : Nat} {texts : List String} {reading : Reading}

theorem Accepted.run (h : Accepted depth texts) :
    ∃ reading, Reading.run depth texts = .ok reading ∧ reading.pending = [] := by
  obtain ⟨source, forest, rfl, hForest⟩ := h
  have hBlank := (ofSource_eq_ok_iff.1 hForest).1
  exact (accepted_iff_reading hBlank depth).1 ⟨forest, hForest⟩

theorem accepted_of_run (h : ∀ text ∈ texts, IsSpelling text)
    (hRun : Reading.run depth texts = .ok reading) (hPending : reading.pending = []) :
    Accepted depth texts := by
  have hTerms : (termsOf (String.ofList (layOut texts))).map Term.text = texts :=
    remaining_layOut h (String.toList_ofList)
  have hBlank : ¬ IsBlank (String.ofList (layOut texts)) := by
    rintro ⟨hSome, hAll⟩
    have hNone : termsOf (String.ofList (layOut texts)) = [] :=
      Scanner.remaining_eq_nil_iff.2 hAll
    rw [hNone, List.map_nil] at hTerms
    rw [← hTerms] at hSome
    exact hSome rfl
  obtain ⟨forest, hForest⟩ := (accepted_iff_reading hBlank depth).2
    ⟨reading, by rw [hTerms, hRun], hPending⟩
  exact ⟨_, forest, hTerms, hForest⟩

/-- What can be read can be completed. -/
theorem viable_of_run (h : ∀ text ∈ texts, IsSpelling text)
    (hRun : Reading.run depth texts = .ok reading) : Viable depth texts := by
  obtain ⟨completed, hSigns, hPending⟩ := Reading.foldlM_completes depth reading
  refine ⟨List.replicate reading.pending.length "+", ?_⟩
  refine accepted_of_run ?_ ((Reading.run_append hRun _).trans hSigns) hPending
  intro text hMem
  rcases List.mem_append.1 hMem with hMem | hMem
  · exact h text hMem
  · rw [List.eq_of_mem_replicate hMem]
    exact Or.inr ⟨by decide, List.all_eq_true.1 (by decide)⟩

/-- What ends with a term that is refused cannot be completed. -/
theorem not_viable_of_refused (hRun : Reading.run depth texts = .ok reading) {text : String}
    {fault : SourceFault} (hStep : reading.step depth text = .error fault) :
    ¬ Viable depth (texts ++ [text]) := by
  rintro ⟨more, hAccepted⟩
  obtain ⟨completed, hCompleted, _⟩ := hAccepted.run
  rw [List.append_assoc, List.singleton_append, Reading.run_refused hRun hStep] at hCompleted
  cases hCompleted

/-! ## Where faults are found -/

theorem isSpelling_of_mem_termsOf {source : String} {front back : List Term}
    (h : termsOf source = front ++ back) : ∀ text ∈ front.map Term.text, IsSpelling text := by
  intro text hText
  obtain ⟨t, hMem, rfl⟩ := List.mem_map.1 hText
  have hSource : t ∈ termsOf source := by
    rw [h]
    exact List.mem_append_left back hMem
  exact Scanner.remaining_spelled (Scanner.ofSource source) t hSource

/-- A parser that is not at the end but has no term to read fails at once. -/
theorem Parser.statements_of_error {p : Parser} {f : PlacedFault}
    (hEnd : p.scanner.atEnd = false) (hTerm : p.scanner.nextTerm = .error f) :
    p.statements = (.error f, p) := by
  have hValue : p.value = (.error f, p) := by rw [Parser.value, Parser.withTerm, hTerm]
  have hExpression : p.expression = (.error f, p) := by
    rw [Parser.expression, Parser.expressionWithin, hValue]
  rw [Parser.statements_eq, hEnd, hExpression]
  rfl

/-- A source that holds only separators ends too early. -/
theorem Parser.run_of_isBlank {source : String} (h : IsBlank source) (depth : Nat) :
    ∃ place, Parser.run source depth =
      (.error ⟨.unexpectedEnd, place⟩, Parser.ofSource source depth) := by
  obtain ⟨hSome, hAll⟩ := h
  have hEnd : (Scanner.ofSource source).atEnd = false := by
    simpa [Scanner.atEnd, Scanner.ofSource, Cursor.ofText] using hSome
  obtain ⟨f, hf⟩ := Scanner.nextTerm_eq_error_iff.2
    (show ∀ c ∈ (Scanner.ofSource source).cursor.rest, _ from hAll)
  have hFault := Cursor.term_eq_error (Scanner.nextTerm_eq_error hf)
  rw [hFault] at hf
  exact ⟨_, Parser.statements_of_error hEnd hf⟩

/-- The terms of a source fall into those that can be completed, a term with which they cannot
be any more, and the rest. -/
structure Turns (depth : Nat) (source : String) (front : List Term) (t : Term)
    (back : List Term) : Prop where
  terms : termsOf source = front ++ t :: back
  viable : Viable depth (front.map Term.text)
  not_viable : ¬ Viable depth ((front ++ [t]).map Term.text)

/-- A fault is found as early as it can be.  `unread` are the terms that have not been read
then. -/
structure EarliestFault (source : String) (depth : Nat) (f : PlacedFault)
    (unread : List Term) : Prop where
  /-- A source that ends too early can be completed. -/
  atEnd : f.fault = .unexpectedEnd → ¬ IsBlank source →
    ¬ Accepted depth ((termsOf source).map Term.text) ∧
      Viable depth ((termsOf source).map Term.text) ∧
      f.position = Position.ofIndex source.toList source.toList.length
  /-- A term that nests too deep stays unread. -/
  tooDeep : ∀ limit, f.fault = .tooDeep limit → limit = depth ∧
    ∃ front t back, Turns depth source front t back ∧ unread = t :: back ∧
      f.position = t.start
  /-- Every other term at fault is the one read last. -/
  refused : f.fault ≠ .unexpectedEnd → (∀ limit, f.fault ≠ .tooDeep limit) →
    ∃ front t back, Turns depth source front t back ∧ unread = back ∧
      f.position = startOf source.toList back

/-- Where reading stops, the fault is found as early as it can be. -/
theorem Parser.Stopped.earliestFault {source : String} {f : PlacedFault} {p : Parser}
    (h : Stopped source depth f p) : EarliestFault source depth f p.scanner.remaining := by
  cases h with
  | atEnd hAt hPending =>
      have hSpelled := isSpelling_of_mem_termsOf (List.append_nil (termsOf source)).symm
      refine ⟨fun _ _ => ⟨?_, viable_of_run hSpelled hAt.run, rfl⟩, by simp, by simp⟩
      intro hAccepted
      obtain ⟨reading, hRun, hNone⟩ := hAccepted.run
      rw [hAt.run] at hRun
      cases hRun
      exact hPending hNone
  | @tooDeep p front reading t back hAt hRemaining hStep =>
      have hTerms : termsOf source = front ++ t :: back := by
        rw [hAt.behind.terms, hRemaining]
      refine ⟨by simp, ?_, fun _ hDeep => absurd rfl (hDeep depth)⟩
      rintro limit ⟨⟩
      refine ⟨rfl, front, t, back, ⟨hTerms, ?_, ?_⟩, hRemaining, rfl⟩
      · exact viable_of_run (isSpelling_of_mem_termsOf hTerms) hAt.run
      · rw [List.map_append, List.map_singleton]
        exact not_viable_of_refused hAt.run hStep
  | @refused p front reading t fault hRun hBehind hStep hEnd hDeep =>
      have hTerms : termsOf source = front ++ t :: p.scanner.remaining := by
        rw [hBehind.terms, List.append_assoc, List.singleton_append]
      refine ⟨fun h => absurd h hEnd, fun limit h => absurd h (hDeep limit), fun _ _ => ?_⟩
      refine ⟨front, t, p.scanner.remaining, ⟨hTerms, ?_, ?_⟩, rfl, rfl⟩
      · exact viable_of_run (isSpelling_of_mem_termsOf hTerms) hRun
      · rw [List.map_append, List.map_singleton]
        exact not_viable_of_refused hRun hStep

/-- **Faults are found at the earliest term.**  When a source is refused, the terms in front of
the term at fault can be completed to an accepted source, and no accepted source starts with
them and that term.  The term at fault is the one read last, and the position that is reported
is where the next term starts, or the end of the source; but a value that nests too deep stays
unread, and its start is reported.  A source that ends too early, other than one that holds
only separators, is not accepted but can be completed, and its end is reported. -/
theorem fault_is_earliest {source : String} {f : PlacedFault}
    (h : Forest.ofSource source depth = .error f) :
    EarliestFault source depth f (Parser.run source depth).2.scanner.remaining := by
  rw [Forest.ofSource] at h
  by_cases hBlank : IsBlank source
  · obtain ⟨place, hRun⟩ := Parser.run_of_isBlank hBlank depth
    rw [hRun] at h
    cases h
    exact ⟨fun _ hNot => absurd hBlank hNot, by simp, by simp⟩
  · have hMeets := Parser.run_meets hBlank depth
    generalize Parser.run source depth = result at h hMeets
    cases hMeets with
    | ok => cases h
    | error hStopped =>
        cases h
        exact hStopped.earliestFault

theorem fault_is_earliest_sample :
    Forest.ofSource "x 3 a = =" 2 = .error ⟨.illegalVariable "3", ⟨8, 1, 8⟩⟩ ∧
      EarliestFault "x 3 a = =" 2 ⟨.illegalVariable "3", ⟨8, 1, 8⟩⟩
        (Parser.run "x 3 a = =" 2).2.scanner.remaining := by
  have hFault : Forest.ofSource "x 3 a = =" 2 =
      .error ⟨.illegalVariable "3", ⟨8, 1, 8⟩⟩ := by
    decide +kernel
  exact ⟨hFault, fault_is_earliest hFault⟩

end ReversePolish
