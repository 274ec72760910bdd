import ReversePolish.Proofs.Layout

/-!
# Recognising sources term by term

Whether a source is accepted can be decided in one pass over its terms.  Between two terms all
that matters is which values still wait for a sign, and whether the term read last is a value,
behind which a further operand or the word that prints may follow (`Reading`).  One term either
leads to the next such state or is refused, with the fault that the parser reports for it
(`Reading.step`).

The parser goes through these states in step with its terms, though it keeps them in the
recursion of its expressions: an expression that is read with `n` values pending has room for
`depth - n` further ones.  So the outcome of the parser can be read off the states
(`Parser.run_meets`), and a source is accepted exactly when all its terms can be read and no
value is left waiting (`accepted_iff_reading`).

## Main results

* `Parser.ValueDue.expressionWithin` — an expression is read in step with the states.
* `Parser.run_meets` — how reading a whole source ends.
* `accepted_iff_reading` — acceptance, one term at a time.
-/

namespace ReversePolish

/-! ## Readings -/

/-- What has to be known of the terms read so far in order to go on. -/
inductive Reading where
  /-- A statement is due. -/
  | due
  /-- The value `last` has been read; the values `pending`, the latest first, wait for a sign. -/
  | behindValue (pending : List String) (last : String)
  /-- An operand has been read to its end; the values `pending` wait for a sign. -/
  | behindOperand (pending : List String)
  deriving DecidableEq, Repr

namespace Reading

/-- The values that wait for a sign, the latest first. -/
def pending : Reading → List String
  | .due => []
  | .behindValue pending _ => pending
  | .behindOperand pending => pending

/-- Reads the sign that the latest of the pending values waits for, or else the end of the
line. -/
def close : List String → String → Except SourceFault Reading
  | [], term => if term = Term.newline then .ok .due else .error (.expectedNewline term)
  | left :: pending, term =>
    if term = assignSign then
      if valueKind? left = some .variable then .ok (.behindOperand pending)
      else .error (.illegalVariable left)
    else if (Operator.ofSymbol? term).isSome then .ok (.behindOperand pending)
    else .error (.illegalOperator term)

/-- Reads one term. -/
def step (depth : Nat) : Reading → String → Except SourceFault Reading
  | .due, term =>
    if (valueKind? term).isSome then .ok (.behindValue [] term)
    else .error (.expectedValue term)
  | .behindValue pending last, term =>
    if (valueKind? term).isSome then
      if pending.length < depth then .ok (.behindValue (last :: pending) term)
      else .error (.tooDeep depth)
    else if term = printWord then .ok (.behindOperand pending)
    else close pending term
  | .behindOperand pending, term => close pending term

/-- Reads terms from the beginning of a source on. -/
def run (depth : Nat) (terms : List String) : Except SourceFault Reading :=
  terms.foldlM (step depth) .due

variable {depth : Nat} {terms : List String} {reading : Reading}

theorem run_append (h : run depth terms = .ok reading) (more : List String) :
    run depth (terms ++ more) = more.foldlM (step depth) reading := by
  rw [run, List.foldlM_append]
  rw [run] at h
  rw [h]
  rfl

theorem run_concat (h : run depth terms = .ok reading) (term : String) :
    run depth (terms ++ [term]) = step depth reading term := by
  rw [run_append h, List.foldlM_cons]
  cases step depth reading term <;> rfl

/-- Behind a term that is refused nothing more is read. -/
theorem run_refused (h : run depth terms = .ok reading) {term : String} {fault : SourceFault}
    (hStep : step depth reading term = .error fault) (more : List String) :
    run depth (terms ++ term :: more) = .error fault := by
  rw [run_append h, List.foldlM_cons, hStep]
  rfl

/-- Each of the pending values gets a sign. -/
theorem foldlM_signs (depth : Nat) (pending : List String) :
    (List.replicate pending.length "+").foldlM (step depth) (.behindOperand pending) =
      .ok (.behindOperand []) := by
  induction pending with
  | nil => rfl
  | cons left pending ih => exact ih

/-- Whatever has been read, enough signs complete it. -/
theorem foldlM_completes (depth : Nat) (reading : Reading) :
    ∃ completed, (List.replicate reading.pending.length "+").foldlM (step depth) reading =
      .ok completed ∧ completed.pending = [] := by
  cases reading with
  | due => exact ⟨.due, rfl, rfl⟩
  | behindOperand pending => exact ⟨_, foldlM_signs depth pending, rfl⟩
  | behindValue pending last =>
      cases pending with
      | nil => exact ⟨_, rfl, rfl⟩
      | cons left pending => exact ⟨_, foldlM_signs depth pending, rfl⟩

end Reading

/-! ## Scanners behind terms -/

/-- The place where the first of some terms starts; without a term, the end of the text. -/
def startOf (text : List Char) (terms : List Term) : Position :=
  (terms.head?.map Term.start).getD (Position.ofIndex text text.length)

namespace Scanner

/-- The scanner has read the terms `front` of a source. -/
structure Behind (s : Scanner) (source : String) (front : List Term) : Prop where
  terms : termsOf source = front ++ s.remaining
  text : s.text = source.toList
  stands : ∃ before, s.Stands before
  ready : s.Ready
  settled : front ≠ [] → s.Settled

variable {s : Scanner} {source : String} {front : List Term}

theorem ofSource_behind (hBlank : ¬ IsBlank source) : (ofSource source).Behind source [] :=
  { terms := rfl
    text := rfl
    stands := ⟨[], ofSource_stands source⟩
    ready := (ofSource_ready_iff source).2 hBlank
    settled := fun h => absurd rfl h }

/-- One term more. -/
theorem Behind.nextTerm (h : s.Behind source front) {t : Term} {ts : List Term}
    (hRemaining : s.remaining = t :: ts) :
    ∃ s', s.nextTerm = .ok (t, s') ∧ s'.mark = t.start ∧ s'.Behind source (front ++ [t]) := by
  obtain ⟨s', hTerm, hRest, hSettled, hMark⟩ := nextTerm_ok hRemaining
  obtain ⟨before, hStands⟩ := h.stands
  obtain ⟨gap, tail, _, hStands', hText, _⟩ := hStands.nextTerm hTerm
  refine ⟨s', hTerm, hMark, ?_⟩
  exact
    { terms := by rw [h.terms, hRemaining, hRest, List.append_assoc, List.singleton_append]
      text := hText.trans h.text
      stands := ⟨_, hStands'⟩
      ready := hSettled.ready
      settled := fun _ => hSettled }

/-- Without a term to read, the scanner fails at the end of the source. -/
theorem Behind.nextTerm_error (h : s.Behind source front) (hRemaining : s.remaining = []) :
    s.nextTerm = .error ⟨.unexpectedEnd,
      Position.ofIndex source.toList source.toList.length⟩ := by
  obtain ⟨f, hf⟩ := Scanner.nextTerm_error hRemaining
  obtain ⟨before, hStands⟩ := h.stands
  have hEnd : s.cursor.rest = [] := List.isEmpty_iff.1 (h.ready hRemaining)
  have hText : source.toList = before := by
    rw [← h.text, hStands.text, hEnd, List.append_nil]
  have hPlace := Position.after_eq_ofIndex before []
  rw [List.append_nil] at hPlace
  rw [hf, Cursor.term_eq_error (nextTerm_eq_error hf), hEnd, Position.advanceOver_nil, hText,
    ← hPlace, ← hStands.position]
  rfl

/-- Behind a term the scanner stands where the next one starts. -/
theorem Behind.position_eq (h : s.Behind source front) (hFront : front ≠ []) :
    s.position = startOf source.toList s.remaining := by
  obtain ⟨before, hStands⟩ := h.stands
  rw [hStands.position_eq_firstStart (h.settled hFront), h.text, remaining, startOf,
    List.head?_map]
  cases s.terms.1 <;> rfl

end Scanner

/-! ## Parsers in step with readings -/

namespace Parser

variable {source : String} {depth : Nat}

/-- The parser has read the terms `front` of a source, and they lead to `reading`. -/
structure At (source : String) (depth : Nat) (p : Parser) (front : List Term)
    (reading : Reading) : Prop where
  behind : p.scanner.Behind source front
  maxDepth : p.maxDepth = depth
  run : Reading.run depth (front.map Term.text) = .ok reading

/-- A fault with which reading stops, and the parser as it is then. -/
inductive Stopped (source : String) (depth : Nat) : PlacedFault → Parser → Prop where
  /-- The source ends while values wait for a sign. -/
  | atEnd {p : Parser} {reading : Reading} (h : At source depth p (termsOf source) reading)
      (hPending : reading.pending ≠ []) :
      Stopped source depth
        ⟨.unexpectedEnd, Position.ofIndex source.toList source.toList.length⟩ p
  /-- The next term is a value, and it stays unread. -/
  | tooDeep {p : Parser} {front : List Term} {reading : Reading} {t : Term} {back : List Term}
      (h : At source depth p front reading) (hRemaining : p.scanner.remaining = t :: back)
      (hStep : reading.step depth t.text = .error (.tooDeep depth)) :
      Stopped source depth ⟨.tooDeep depth, t.start⟩ p
  /-- The term read last is refused. -/
  | refused {p : Parser} {front : List Term} {reading : Reading} {t : Term}
      {fault : SourceFault} (hRun : Reading.run depth (front.map Term.text) = .ok reading)
      (hBehind : p.scanner.Behind source (front ++ [t]))
      (hStep : reading.step depth t.text = .error fault) (hEnd : fault ≠ .unexpectedEnd)
      (hDeep : ∀ limit, fault ≠ .tooDeep limit) :
      Stopped source depth ⟨fault, startOf source.toList p.scanner.remaining⟩ p

/-- A step makes something with a property, or reading stops with a fault. -/
inductive Step.Meets (source : String) (depth : Nat) {α : Type} (made : α → Parser → Prop) :
    Step α → Prop where
  | ok {a : α} {p : Parser} (h : made a p) : Meets source depth made (.ok a, p)
  | error {f : PlacedFault} {p : Parser} (h : Stopped source depth f p) :
      Meets source depth made (.error f, p)

theorem Step.Meets.andThen {α β : Type} {made : α → Parser → Prop} {made' : β → Parser → Prop}
    {r : Step α} {next : α → Parser → Step β} (h : Meets source depth made r)
    (hNext : ∀ a p, r = (.ok a, p) → made a p → Meets source depth made' (next a p)) :
    Meets source depth made' (r.andThen next) := by
  cases h with
  | ok h => exact hNext _ _ rfl h
  | error h => exact .error h

variable {p : Parser} {front : List Term} {reading : Reading}

/-- The parser reads a term and goes on with it. -/
theorem At.withTerm (h : At source depth p front reading) {t : Term} {ts : List Term}
    (hRemaining : p.scanner.remaining = t :: ts) :
    ∃ s : Scanner, s.Behind source (front ++ [t]) ∧ s.mark = t.start ∧
      ∀ {α : Type} (next : Parser → String → Step α),
        p.withTerm next = next { p with scanner := s } t.text := by
  obtain ⟨s, hTerm, hMark, hBehind⟩ := h.behind.nextTerm hRemaining
  refine ⟨s, hBehind, hMark, ?_⟩
  intro α next
  rw [Parser.withTerm, hTerm]

/-- What the parser leads to once it has read a term. -/
theorem At.concat (h : At source depth p front reading) {t : Term} {next : Reading}
    (hStep : reading.step depth t.text = .ok next) {s : Scanner}
    (hBehind : s.Behind source (front ++ [t])) (forest : Forest) :
    At source depth ⟨s, forest, p.maxDepth⟩ (front ++ [t]) next :=
  { behind := hBehind
    maxDepth := h.maxDepth
    run := by
      rw [List.map_append, List.map_singleton, Reading.run_concat h.run, hStep] }

/-- A term that is refused. -/
theorem At.fail (h : At source depth p front reading) {t : Term} {fault : SourceFault}
    (hStep : reading.step depth t.text = .error fault) {q : Parser}
    (hBehind : q.scanner.Behind source (front ++ [t])) (hEnd : fault ≠ .unexpectedEnd)
    (hDeep : ∀ limit, fault ≠ .tooDeep limit) {α : Type} {made : α → Parser → Prop} :
    Step.Meets source depth made (q.fail fault) := by
  rw [Parser.fail, hBehind.position_eq (List.concat_ne_nil t front)]
  exact .error (.refused h.run hBehind hStep hEnd hDeep)

/-- The end of the source is refused while values wait for a sign. -/
theorem At.withTerm_nil (h : At source depth p front reading)
    (hRemaining : p.scanner.remaining = []) (hPending : reading.pending ≠ []) {α : Type}
    (next : Parser → String → Step α) {made : α → Parser → Prop} :
    Step.Meets source depth made (p.withTerm next) := by
  have hFront : front = termsOf source := by
    rw [h.behind.terms, hRemaining, List.append_nil]
  rw [Parser.withTerm, h.behind.nextTerm_error hRemaining]
  exact .error (.atEnd (hFront ▸ h) hPending)

/-! ## Expressions -/

/-- The parser has read an expression to its end, with the values `pending` waiting for a sign:
the next term is taken for a sign, or for the end of the line. -/
def Complete (source : String) (depth : Nat) (pending : List String) (p : Parser) : Prop :=
  ∃ front reading, At source depth p front reading ∧ reading.pending = pending ∧
    ∀ t ∈ p.scanner.remaining.head?,
      reading.step depth t.text = Reading.close pending t.text

/-- With the values `pending` waiting for a sign, a value is due, and there is a next term. -/
def ValueDue (source : String) (depth : Nat) (pending : List String) (p : Parser) : Prop :=
  ∃ front reading t ts, At source depth p front reading ∧ p.scanner.remaining = t :: ts ∧
    reading.step depth t.text =
      if (valueKind? t.text).isSome then .ok (.behindValue pending t.text)
      else .error (.expectedValue t.text)

theorem At.complete {pending : List String}
    (h : At source depth p front (.behindOperand pending)) :
    Complete source depth pending p :=
  ⟨front, _, h, rfl, fun _ _ => rfl⟩

theorem ValueDue.value {pending : List String} (h : ValueDue source depth pending p) :
    Step.Meets source depth
      (fun left q => ∃ (v : ValueTerm) (id : Nat) (front : List Term), left = v.node id ∧
        At source depth q front (.behindValue pending v.term.text)) p.value := by
  obtain ⟨front, reading, t, ts, hAt, hRemaining, hStep⟩ := h
  obtain ⟨s, hBehind, hMark, hWith⟩ := hAt.withTerm hRemaining
  rw [Parser.value, hWith]
  cases hKind : valueKind? t.text with
  | none =>
      rw [hKind] at hStep
      exact hAt.fail hStep hBehind (by simp) (by simp)
  | some kind =>
      rw [hKind] at hStep
      refine .ok ⟨⟨t, kind, hKind⟩, p.forest.size, front ++ [t], ?_, ?_⟩
      · rw [ValueTerm.node, ← hMark]
      · exact hAt.concat hStep hBehind _

/-- A value can be assigned to exactly if it is a variable. -/
theorem ValueTerm.isTarget_node (v : ValueTerm) (id : Nat) :
    (v.node id).isTarget = decide (valueKind? v.term.text = some .variable) := by
  obtain ⟨t, kind, hValue⟩ := v
  rcases kind with _ | _
  · simp [ValueTerm.node, Node.isTarget, hValue]
  · simp [ValueTerm.node, Node.isTarget, hValue, Tag.at, isVariable_of_valueKind? hValue]

/-- The sign that a value waits for joins it with the expression that has been read. -/
theorem Complete.operator {v : ValueTerm} {pending : List String}
    (h : Complete source depth (v.term.text :: pending) p) (id : Nat) (right : Node) :
    Step.Meets source depth (fun _ q => Complete source depth pending q)
      (p.operator (v.node id) right) := by
  obtain ⟨front, reading, hAt, hPending, hClose⟩ := h
  cases hRemaining : p.scanner.remaining with
  | nil => exact hAt.withTerm_nil hRemaining (by simp [hPending]) _
  | cons t ts =>
      obtain ⟨s, hBehind, _, hWith⟩ := hAt.withTerm hRemaining
      have hStep := hClose t (by rw [hRemaining]; rfl)
      rw [Reading.close] at hStep
      rw [Parser.operator, hWith]
      by_cases hAssign : t.text = assignSign
      · rw [if_pos hAssign] at hStep
        rw [if_pos hAssign, assignment_eq, ValueTerm.isTarget_node]
        by_cases hVariable : valueKind? v.term.text = some .variable
        · rw [if_pos hVariable] at hStep
          simp only [hVariable, decide_true, ↓reduceIte]
          exact .ok (hAt.concat hStep hBehind _).complete
        · rw [if_neg hVariable] at hStep
          simp only [hVariable, decide_false, Bool.false_eq_true, ↓reduceIte]
          exact hAt.fail hStep hBehind (by simp) (by simp)
      · rw [if_neg hAssign] at hStep
        rw [if_neg hAssign]
        cases hOp : Operator.ofSymbol? t.text with
        | none =>
            rw [hOp] at hStep
            exact hAt.fail hStep hBehind (by simp) (by simp)
        | some op =>
            rw [hOp] at hStep
            exact .ok (hAt.concat hStep hBehind _).complete

/-- The word that prints completes an expression. -/
theorem At.print {pending : List String} {last : String}
    (h : At source depth p front (.behindValue pending last)) {t : Term} {ts : List Term}
    (hRemaining : p.scanner.remaining = t :: ts) (hPrint : t.text = printWord)
    (operand : Node) :
    Step.Meets source depth (fun _ q => Complete source depth pending q)
      (p.print operand) := by
  obtain ⟨s, hBehind, _, hWith⟩ := h.withTerm hRemaining
  have hStep : (Reading.behindValue pending last).step depth t.text =
      .ok (.behindOperand pending) := by
    rw [hPrint]
    rfl
  rw [Parser.print, hWith, if_pos hPrint]
  exact .ok (h.concat hStep hBehind _).complete

/-- A test of the next term, if there is one. -/
theorem peeks_eq_true_iff {test : String → Bool} :
    p.peeks test = true ↔
      ∃ t ts, p.scanner.remaining = t :: ts ∧ test t.text = true := by
  rw [peeks_eq]
  cases p.scanner.remaining with
  | nil => simp
  | cons t ts => simp

/-- An expression is read in step with the readings, if the one nested in it is. -/
theorem ValueDue.expressionWith {pending : List String} {nested : Parser → Step Node}
    (h : ValueDue source depth pending p)
    (hNested : ∀ (q : Parser) (front : List Term) (last : String) (t : Term) (ts : List Term),
      At source depth q front (.behindValue pending last) →
      q.scanner.remaining = t :: ts → (valueKind? t.text).isSome = true →
        Step.Meets source depth (fun _ r => Complete source depth (last :: pending) r)
          (nested q)) :
    Step.Meets source depth (fun _ q => Complete source depth pending q)
      (p.expressionWith nested) := by
  refine h.value.andThen ?_
  rintro left q - ⟨v, id, front, rfl, hAt⟩
  split
  · next hValue =>
      obtain ⟨t, ts, hRemaining, hIs⟩ := peeks_eq_true_iff.1 hValue
      refine (hNested q front v.term.text t ts hAt hRemaining hIs).andThen ?_
      intro right r _ hComplete
      exact hComplete.operator id right
  · next hNoValue =>
      split
      · next hPrint =>
          obtain ⟨t, ts, hRemaining, hIs⟩ := peeks_eq_true_iff.1 hPrint
          exact hAt.print hRemaining (eq_of_beq hIs) _
      · next hNoPrint =>
          -- the next term is neither of the two that may stand behind a value only
          refine .ok ⟨front, _, hAt, rfl, ?_⟩
          intro t ht
          obtain ⟨ts, hRemaining⟩ : ∃ ts, q.scanner.remaining = t :: ts := by
            cases hRemaining : q.scanner.remaining with
            | nil => simp [hRemaining] at ht
            | cons u us =>
                rw [hRemaining] at ht
                cases ht
                exact ⟨us, rfl⟩
          have hNot : ¬ (valueKind? t.text).isSome = true :=
            fun hIs => hNoValue (peeks_eq_true_iff.2 ⟨t, ts, hRemaining, hIs⟩)
          have hNotPrint : t.text ≠ printWord :=
            fun hIs => hNoPrint (peeks_eq_true_iff.2 ⟨t, ts, hRemaining, by simp [hIs]⟩)
          rw [Reading.step, if_neg hNot, if_neg hNotPrint]

/-- An expression is read in step with the readings.  The room that is left and the values
that wait for a sign make up the depth that is allowed. -/
theorem ValueDue.expressionWithin {pending : List String}
    (h : ValueDue source depth pending p) {room : Nat} (hRoom : pending.length + room = depth) :
    Step.Meets source depth (fun _ q => Complete source depth pending q)
      (expressionWithin room p) := by
  induction room generalizing p pending with
  | zero =>
      rw [expressionWithin_zero]
      refine h.expressionWith ?_
      intro q front last t ts hAt hRemaining hIs
      have hStep : (Reading.behindValue pending last).step depth t.text =
          .error (.tooDeep depth) := by
        rw [Reading.step, if_pos hIs, if_neg (by omega)]
      have hFront : front ≠ [] := by
        rintro rfl
        cases hAt.run
      have hStart : q.scanner.position = t.start := by
        rw [hAt.behind.position_eq hFront, hRemaining]
        rfl
      rw [Parser.fail, hAt.maxDepth, hStart]
      exact .error (.tooDeep hAt hRemaining hStep)
  | succ room ih =>
      rw [expressionWithin_succ]
      refine h.expressionWith ?_
      intro q front last t ts hAt hRemaining hIs
      refine ih ⟨front, _, t, ts, hAt, hRemaining, ?_⟩ (by simp only [List.length_cons]; omega)
      rw [Reading.step, if_pos hIs, if_pos hIs, if_pos (by omega)]

/-! ## Statements -/

/-- The parser stands between two statements, or behind the last one. -/
def Between (source : String) (depth : Nat) (p : Parser) : Prop :=
  ∃ front reading, At source depth p front reading ∧
    (reading = .due ∨ p.scanner.remaining = [] ∧ reading.pending = [])

theorem Complete.lineEnd (h : Complete source depth [] p) :
    Step.Meets source depth (fun _ q => Between source depth q) p.lineEnd := by
  obtain ⟨front, reading, hAt, hPending, hClose⟩ := h
  rw [Parser.lineEnd, hAt.behind.ready.atEnd_eq]
  cases hRemaining : p.scanner.remaining with
  | nil => exact .ok ⟨front, reading, hAt, Or.inr ⟨hRemaining, hPending⟩⟩
  | cons t ts =>
      obtain ⟨s, hBehind, _, hWith⟩ := hAt.withTerm hRemaining
      have hStep := hClose t (by rw [hRemaining]; rfl)
      rw [Reading.close] at hStep
      simp only [List.isEmpty_cons, Bool.false_eq_true, ↓reduceIte, hWith]
      by_cases hNewline : t.text = Term.newline
      · rw [if_pos hNewline] at hStep
        rw [if_pos hNewline]
        exact .ok ⟨_, _, hAt.concat hStep hBehind _, Or.inl rfl⟩
      · rw [if_neg hNewline] at hStep
        rw [if_neg hNewline]
        exact hAt.fail hStep hBehind (by simp) (by simp)

/-- All terms of the source have been read, and no value waits for a sign. -/
def Finished (source : String) (depth : Nat) (p : Parser) : Prop :=
  ∃ reading, At source depth p (termsOf source) reading ∧ reading.pending = []

/-- Statements are read in step with the readings. -/
theorem Between.statements {p : Parser} (h : Between source depth p) :
    Step.Meets source depth (fun _ q => Finished source depth q) p.statements := by
  obtain ⟨front, reading, hAt, hReading⟩ := h
  rw [statements_eq, hAt.behind.ready.atEnd_eq]
  cases hRemaining : p.scanner.remaining with
  | nil =>
      have hFront : front = termsOf source := by
        rw [hAt.behind.terms, hRemaining, List.append_nil]
      refine .ok ⟨reading, hFront ▸ hAt, ?_⟩
      rcases hReading with rfl | ⟨_, hPending⟩
      · rfl
      · exact hPending
  | cons t ts =>
      have hDue : reading = .due := hReading.resolve_right (by simp [hRemaining])
      have hValue : ValueDue source depth [] p :=
        ⟨front, reading, t, ts, hAt, hRemaining, by rw [hDue]; rfl⟩
      have hExpression : Step.Meets source depth (fun _ q => Complete source depth [] q)
          p.expression := by
        rw [expression, hAt.maxDepth]
        exact hValue.expressionWithin (Nat.zero_add depth)
      simp only [List.isEmpty_cons, Bool.false_eq_true, ↓reduceIte]
      refine hExpression.andThen fun root q hRoot hComplete => ?_
      have hStatement : Complete source depth [] (q.addStatement root) := by
        obtain ⟨front, reading, hAt, hClose⟩ := hComplete
        exact ⟨front, reading, ⟨hAt.behind, hAt.maxDepth, hAt.run⟩, hClose⟩
      refine hStatement.lineEnd.andThen fun _ r hLine hBetween => ?_
      have hShorter := lineEnd_shorter hRoot hLine
      exact hBetween.statements
termination_by p.unread

/-- How reading a source ends. -/
theorem run_meets (hBlank : ¬ IsBlank source) (depth : Nat) :
    Step.Meets source depth (fun _ q => Finished source depth q) (run source depth) :=
  Between.statements ⟨[], .due, ⟨Scanner.ofSource_behind hBlank, rfl, rfl⟩, Or.inl rfl⟩

end Parser

/-! ## Acceptance -/

/-- A source is accepted exactly when its terms can be read one after the other and leave no
value waiting for a sign. -/
theorem accepted_iff_reading {source : String} (hBlank : ¬ IsBlank source) (depth : Nat) :
    (∃ forest, Forest.ofSource source depth = .ok forest) ↔
      ∃ reading, Reading.run depth ((termsOf source).map Term.text) = .ok reading ∧
        reading.pending = [] := by
  have hMeets := Parser.run_meets hBlank depth
  rw [Forest.ofSource]
  generalize Parser.run source depth = result at hMeets
  cases hMeets with
  | ok hFinished =>
      obtain ⟨reading, hAt, hPending⟩ := hFinished
      exact ⟨fun _ => ⟨reading, hAt.run, hPending⟩, fun _ => ⟨_, rfl⟩⟩
  | error hStopped =>
      constructor
      · rintro ⟨forest, hForest⟩
        cases hForest
      · -- the readings are determined by the terms, and they end at the fault
        rintro ⟨reading, hRun, hPending⟩
        cases hStopped with
        | atEnd hAt hSome =>
            rw [hAt.run] at hRun
            cases hRun
            exact absurd hPending hSome
        | tooDeep hAt hRemaining hStep =>
            rw [hAt.behind.terms, hRemaining, List.map_append, List.map_cons,
              Reading.run_refused hAt.run hStep] at hRun
            cases hRun
        | refused hFront hBehind hStep =>
            rw [hBehind.terms, List.append_assoc, List.singleton_append, List.map_append,
              List.map_cons, Reading.run_refused hFront hStep] at hRun
            cases hRun

end ReversePolish
