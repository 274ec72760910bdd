import ReversePolish.Forest.Parser
import ReversePolish.Proofs.Scanning
import ReversePolish.Proofs.Sentence

/-!
# What a parser reads and makes

Each step of the parser takes terms off the scanner and puts nodes into the forest.
`Parser.Made p q ts ns` says that a step led from `p` to `q`, took the terms `ts` and
made the nodes `ns`.  For each step there are two lemmas: what it makes when the terms
of a sentence stand in front (`…_made`), and that it succeeds on nothing else
(`…_eq_ok`).

## Main results

* `expressionWithin_made`, `expressionWithin_eq_ok` — an expression is read exactly
  from the terms of a sentence with no more joints than there is room for.
* `statements_made`, `statements_eq_ok` — statements are read exactly from written
  sentences.
-/

namespace ReversePolish

theorem Operator.ofSymbol?_symbol (op : Operator) : ofSymbol? op.symbol = some op := by
  cases op <;> decide

theorem Operator.symbol_of_ofSymbol? {symbol : String} {op : Operator}
    (h : ofSymbol? symbol = some op) : symbol = op.symbol := by
  have hFound := List.find?_some h
  exact (eq_of_beq hFound).symm

theorem isVariable_of_valueKind? {text : String}
    (h : valueKind? text = some .variable) : isVariable text = true := by
  unfold valueKind? at h
  split at h
  · cases h
  · split at h
    · assumption
    · cases h

/-- A term behind which an expression that consists of a value ends. -/
def Term.Closes (t : Term) : Prop :=
  valueKind? t.text = none ∧ t.text ≠ printWord

theorem Term.closes_of_isNewline {t : Term} (h : t.isNewline = true) : t.Closes := by
  have hText : t.text = newline := eq_of_beq h
  unfold Closes
  rw [hText]
  decide

theorem SignTerm.closes (o : SignTerm) : o.term.Closes := by
  unfold Term.Closes
  rw [o.isSign]
  cases o.op? with
  | none => decide
  | some op => cases op <;> decide

namespace Parser

theorem peeks_eq (p : Parser) (test : String → Bool) :
    p.peeks test = p.scanner.remaining.head?.any fun t => test t.text := by
  rw [← Scanner.peekTerm_toOption]
  unfold peeks
  cases p.scanner.peekTerm <;> rfl

/-- From `p` to `q` the terms `ts` were read and the nodes `ns` were made. -/
structure Made (p q : Parser) (ts : List Term) (ns : List Node) : Prop where
  remaining : p.scanner.remaining = ts ++ q.scanner.remaining
  nodes : q.forest.nodes.toList = p.forest.nodes.toList ++ ns
  statements : q.forest.statements = p.forest.statements
  maxDepth : q.maxDepth = p.maxDepth
  settled : q.scanner.Settled

theorem Made.refl {p : Parser} (h : p.scanner.Settled) : Made p p [] [] :=
  { remaining := rfl
    nodes := by simp
    statements := rfl
    maxDepth := rfl
    settled := h }

theorem Made.trans {p q r : Parser} {ts us : List Term} {ns ms : List Node}
    (h : Made p q ts ns) (h' : Made q r us ms) : Made p r (ts ++ us) (ns ++ ms) :=
  { remaining := by rw [h.remaining, h'.remaining, List.append_assoc]
    nodes := by rw [h'.nodes, h.nodes, List.append_assoc]
    statements := h'.statements.trans h.statements
    maxDepth := h'.maxDepth.trans h.maxDepth
    settled := h'.settled }

theorem Made.size {p q : Parser} {ts : List Term} {ns : List Node}
    (h : Made p q ts ns) : q.forest.size = p.forest.size + ns.length := by
  have hLength := congrArg List.length h.nodes
  simpa [Forest.size] using hLength

/-- What remains behind terms that were expected in front. -/
theorem Made.rest {p q : Parser} {ts us : List Term} {ns : List Node}
    (h : Made p q ts ns) (hFront : p.scanner.remaining = ts ++ us) :
    q.scanner.remaining = us := by
  rw [h.remaining] at hFront
  exact List.append_cancel_left hFront

/-! ## Single terms -/

/-- The parser goes on with the first of the remaining terms. -/
theorem withTerm_cons {p : Parser} {t : Term} {ts : List Term}
    (h : p.scanner.remaining = t :: ts) :
    ∃ s : Scanner, s.remaining = ts ∧ s.Settled ∧ s.mark = t.start ∧
      ∀ {α : Type} (next : Parser → String → Step α),
        p.withTerm next = next { p with scanner := s } t.text := by
  obtain ⟨s, hTerm, hRest, hSettled, hMark⟩ := Scanner.nextTerm_ok h
  refine ⟨s, hRest, hSettled, hMark, ?_⟩
  intro α next
  rw [withTerm, hTerm]

/-- A step that starts with a term succeeds only if there is one. -/
theorem withTerm_eq_ok {α : Type} {p q : Parser} {next : Parser → String → Step α}
    {a : α} (h : p.withTerm next = (.ok a, q)) :
    ∃ t ts, p.scanner.remaining = t :: ts := by
  cases hRemaining : p.scanner.remaining with
  | nil =>
      obtain ⟨f, hf⟩ := Scanner.nextTerm_error hRemaining
      simp [withTerm, hf] at h
  | cons t ts => exact ⟨t, ts, rfl⟩

/-- Making a node for the term that was just read. -/
theorem add_made {p : Parser} {s : Scanner} {t : Term}
    (hRemaining : p.scanner.remaining = t :: s.remaining) (hSettled : s.Settled)
    (hMark : s.mark = t.start) (name : String) (make : Nat → Tag → Node) :
    ∃ q, ({ p with scanner := s } : Parser).add name make =
        (.ok (make p.forest.size (Tag.at t.start name)), q) ∧
      Made p q [t] [make p.forest.size (Tag.at t.start name)] := by
  rw [← hMark]
  exact ⟨_, rfl,
    { remaining := hRemaining
      nodes := by simp
      statements := rfl
      maxDepth := rfl
      settled := hSettled }⟩

theorem value_made {p : Parser} {v : ValueTerm} {ts : List Term}
    (h : p.scanner.remaining = v.term :: ts) :
    ∃ q, p.value = (.ok (v.node p.forest.size), q) ∧
      Made p q [v.term] [v.node p.forest.size] := by
  obtain ⟨s, hRest, hSettled, hMark, hNext⟩ := withTerm_cons h
  obtain ⟨q, hAdd, hMade⟩ := add_made (hRest ▸ h) hSettled hMark v.term.text
    fun id tag => .value id tag v.kind v.term.text
  refine ⟨q, ?_, hMade⟩
  rw [value, hNext]
  simp only [v.isValue]
  exact hAdd

theorem value_eq_ok {p q : Parser} {n : Node} (h : p.value = (.ok n, q)) :
    ∃ v : ValueTerm, n = v.node p.forest.size ∧ Made p q [v.term] [n] := by
  obtain ⟨t, ts, hRemaining⟩ := withTerm_eq_ok h
  cases hKind : valueKind? t.text with
  | none =>
      obtain ⟨s, _, _, _, hNext⟩ := withTerm_cons hRemaining
      rw [value, hNext] at h
      simp only [hKind, fail, Prod.mk.injEq, reduceCtorEq, false_and] at h
  | some kind =>
      obtain ⟨q', hValue, hMade⟩ := value_made (v := ⟨t, kind, hKind⟩) hRemaining
      rw [hValue] at h
      cases h
      exact ⟨_, rfl, hMade⟩

/-- The sign of a joint applies it to its two operands. -/
theorem operator_made {p : Parser} {j : Joint} {ts : List Term} (leftId : Nat)
    (right : Node) (h : p.scanner.remaining = j.sign.term :: ts) :
    ∃ q, p.operator (j.left.node leftId) right =
        (.ok (j.node leftId p.forest.size right), q) ∧
      Made p q [j.sign.term] [j.node leftId p.forest.size right] := by
  obtain ⟨s, hRest, hSettled, hMark, hNext⟩ := withTerm_cons h
  have hSign := j.sign.isSign
  rw [operator, hNext]
  unfold Joint.node Joint.name
  cases hOp : j.sign.op? with
  | some op =>
      rw [hOp, Option.elim_some] at hSign
      have hNot : op.symbol ≠ assignSign := by cases op <;> decide
      rw [hSign]
      simp only [hNot, ↓reduceIte, Operator.ofSymbol?_symbol]
      exact add_made (hRest ▸ h) hSettled hMark op.symbol
        fun id tag => .binary id tag op (j.left.node leftId) right
  | none =>
      have hValue := j.left.isValue
      rw [hOp, Option.elim_none] at hSign
      rw [j.isTarget hOp] at hValue
      have hVariable := isVariable_of_valueKind? hValue
      rw [if_pos hSign]
      simp only [assignment, ValueTerm.node, Node.tag, Tag.at, j.isTarget hOp, hVariable,
        ↓reduceIte]
      exact add_made (hRest ▸ h) hSettled hMark (j.left.term.text ++ assignSign)
        fun id tag => .assign id tag (.value leftId
          ⟨j.left.term.start.line, j.left.term.start.column, j.left.term.text⟩ .variable
          j.left.term.text) right

theorem operator_eq_ok {p q : Parser} {v : ValueTerm} {leftId : Nat} {right n : Node}
    (h : p.operator (v.node leftId) right = (.ok n, q)) :
    ∃ j : Joint, j.left = v ∧ n = j.node leftId p.forest.size right ∧
      Made p q [j.sign.term] [n] := by
  obtain ⟨t, ts, hRemaining⟩ := withTerm_eq_ok h
  -- it is enough to find the joint: what it makes is then known
  suffices hJoint : ∃ j : Joint, j.left = v ∧ j.sign.term = t by
    obtain ⟨j, rfl, rfl⟩ := hJoint
    obtain ⟨q', hOperator, hMade⟩ := operator_made leftId right hRemaining
    rw [hOperator] at h
    cases h
    exact ⟨j, rfl, rfl, hMade⟩
  obtain ⟨s, _, _, _, hNext⟩ := withTerm_cons hRemaining
  rw [operator, hNext] at h
  by_cases hAssign : t.text = assignSign
  · rw [if_pos hAssign] at h
    rcases hKind : v.kind with _ | _
    · simp [assignment, ValueTerm.node, hKind, fail] at h
    · exact ⟨⟨v, ⟨t, none, hAssign⟩, fun _ => hKind⟩, rfl, rfl⟩
  · rw [if_neg hAssign] at h
    cases hOp : Operator.ofSymbol? t.text with
    | none => simp [hOp, fail] at h
    | some op =>
        have hSymbol := Operator.symbol_of_ofSymbol? hOp
        exact ⟨⟨v, ⟨t, some op, hSymbol⟩, fun hNone => by cases hNone⟩, rfl, rfl⟩

theorem print_made {p : Parser} {t : Term} {ts : List Term} (operand : Node)
    (h : p.scanner.remaining = t :: ts) (hPrint : t.text = printWord) :
    ∃ q, p.print operand =
        (.ok (.print p.forest.size (Tag.at t.start t.text) operand), q) ∧
      Made p q [t] [.print p.forest.size (Tag.at t.start t.text) operand] := by
  obtain ⟨s, hRest, hSettled, hMark, hNext⟩ := withTerm_cons h
  rw [print, hNext, if_pos hPrint]
  exact add_made (hRest ▸ h) hSettled hMark t.text fun id tag => .print id tag operand

theorem print_eq_ok {p q : Parser} {operand n : Node}
    (h : p.print operand = (.ok n, q)) :
    ∃ t, t.text = printWord ∧ n = .print p.forest.size (Tag.at t.start t.text) operand ∧
      Made p q [t] [n] := by
  obtain ⟨t, ts, hRemaining⟩ := withTerm_eq_ok h
  by_cases hPrint : t.text = printWord
  · obtain ⟨q', hMake, hMade⟩ := print_made operand hRemaining hPrint
    rw [hMake] at h
    cases h
    exact ⟨t, hPrint, rfl, hMade⟩
  · obtain ⟨s, _, _, _, hNext⟩ := withTerm_cons hRemaining
    rw [print, hNext, if_neg hPrint] at h
    cases h

/-! ## Expressions -/

/-- An expression that consists of the last value of a sentence and what prints it. -/
theorem coreNode_made {p q : Parser} {last : ValueTerm} {print? : Option Term}
    {ts : List Term} (hPrint : ∀ t ∈ print?, t.text = printWord)
    (hRest : q.scanner.remaining = print?.toList ++ ts) (hClosed : ∀ t ∈ ts.head?, t.Closes)
    (hMade : Made p q [last.term] [last.node p.forest.size]) :
    ∃ r, (if q.peeks (· == printWord) then q.print (last.node p.forest.size)
        else (.ok (last.node p.forest.size), q)) =
          (.ok (Sentence.coreNode last print? p.forest.size), r) ∧
      Made p r (last.term :: print?.toList)
        (Sentence.coreNode last print? p.forest.size).subnodes := by
  rw [peeks_eq]
  cases print? with
  | none =>
      have hHead : (q.scanner.remaining.head?.any fun t => t.text == printWord) = false := by
        rw [hRest, Option.toList_none, List.nil_append, Option.any_eq_false]
        intro t ht
        simpa using (hClosed t ht).2
      rw [hHead]
      exact ⟨q, rfl, hMade⟩
  | some t =>
      have hWord : t.text = printWord := hPrint t rfl
      have hHead : (q.scanner.remaining.head?.any fun t => t.text == printWord) = true := by
        rw [hRest]
        simp [hWord]
      rw [hHead]
      obtain ⟨r, hMake, hMade'⟩ := print_made (last.node p.forest.size) hRest hWord
      have hSize := hMade.size
      rw [hSize] at hMake hMade'
      exact ⟨r, hMake, hMade.trans hMade'⟩

/-- The terms of a sentence are read as its node, if there is room for its joints. -/
theorem expressionWithin_made {p : Parser} {σ : Sentence} {ts : List Term} {room : Nat}
    (hRemaining : p.scanner.remaining = σ.terms ++ ts) (hRoom : σ.joints.length ≤ room)
    (hClosed : ∀ t ∈ ts.head?, t.Closes) :
    ∃ q, expressionWithin room p = (.ok (σ.node p.forest.size), q) ∧
      Made p q σ.terms (σ.node p.forest.size).subnodes := by
  induction σ using Sentence.induction generalizing p ts room with
  | alone last print? isPrint =>
      simp only [Sentence.terms, List.map_nil, List.nil_append, List.reverse_nil,
        List.append_nil, List.cons_append] at hRemaining ⊢
      obtain ⟨q, hValue, hMade⟩ := value_made hRemaining
      have hRest : q.scanner.remaining = print?.toList ++ ts := hMade.rest hRemaining
      -- neither the word that prints nor a closing term goes on as a further operand
      have hNoOperand : q.peeks (fun term => (valueKind? term).isSome) = false := by
        rw [peeks_eq, hRest, Option.any_eq_false]
        intro t ht
        cases print? with
        | none => simp [(hClosed t ht).1]
        | some u =>
            have hWord : u.text = printWord := isPrint u rfl
            have hSame : u = t := by simpa using ht
            rw [← hSame, hWord]
            decide
      obtain ⟨r, hCore, hMade'⟩ := coreNode_made isPrint hRest hClosed hMade
      refine ⟨r, ?_, hMade'⟩
      unfold expressionWithin
      rw [hValue]
      simp only [hNoOperand, Bool.false_eq_true, ↓reduceIte]
      exact hCore
  | joined j σ ih =>
      rw [Sentence.terms_within] at hRemaining ⊢
      rw [List.cons_append, List.append_assoc] at hRemaining
      obtain ⟨q, hValue, hMade⟩ := value_made hRemaining
      have hRest : q.scanner.remaining = σ.terms ++ j.sign.term :: ts :=
        hMade.rest hRemaining
      have hOperand : q.peeks (fun term => (valueKind? term).isSome) = true := by
        rw [peeks_eq, hRest]
        obtain ⟨v, us, hTerms⟩ : ∃ (v : ValueTerm) (us : List Term),
            σ.terms = v.term :: us := by
          cases hJoints : σ.joints with
          | nil => exact ⟨σ.last, _, by simp [Sentence.terms, hJoints]; rfl⟩
          | cons i joints => exact ⟨i.left, _, by simp [Sentence.terms, hJoints]; rfl⟩
        simp [hTerms, v.isValue]
      obtain ⟨room, rfl⟩ : ∃ less, room = less + 1 :=
        Nat.exists_eq_add_one.2 (Nat.lt_of_lt_of_le (Nat.succ_pos _) hRoom)
      obtain ⟨r, hNested, hMade'⟩ := ih hRest (Nat.le_of_succ_le_succ hRoom)
        fun t ht => by
          simp only [List.head?_cons, Option.mem_def, Option.some.injEq] at ht
          exact ht ▸ j.sign.closes
      have hSign : r.scanner.remaining = j.sign.term :: ts := hMade'.rest hRest
      obtain ⟨u, hOperator, hMade''⟩ :=
        operator_made p.forest.size (σ.node q.forest.size) hSign
      -- the sign's number is the next one behind the right operand's
      have hQ : q.forest.size = p.forest.size + 1 := hMade.size
      have hR : r.forest.size = (σ.node (p.forest.size + 1)).id + 1 := by
        rw [hMade'.size, σ.subnodes_length, hQ, σ.node_id_succ]
      rw [hQ] at hNested hMade' hOperator hMade''
      rw [hR] at hOperator hMade''
      refine ⟨u, ?_, ?_⟩
      · unfold expressionWithin
        rw [hValue]
        simp only [hOperand, ↓reduceIte, hNested]
        exact hOperator
      · rw [Sentence.node_within, Joint.node_subnodes]
        exact hMade.trans (hMade'.trans hMade'')

/-- What is read behind a value when no further operand is: nothing, or the word that
prints. -/
theorem core_eq_ok {room : Nat} {p q r : Parser} {v : ValueTerm} {n : Node}
    (hMade : Made p q [v.term] [v.node p.forest.size])
    (h : (if q.peeks (· == printWord) then q.print (v.node p.forest.size)
      else (.ok (v.node p.forest.size), q)) = (.ok n, r)) :
    ∃ σ : Sentence, σ.joints.length ≤ room ∧ n = σ.node p.forest.size ∧
      Made p r σ.terms n.subnodes := by
  split at h
  · obtain ⟨t, hPrint, rfl, hMade'⟩ := print_eq_ok h
    have hSize := hMade.size
    refine ⟨⟨[], v, some t, fun u hu => ?_⟩, Nat.zero_le room, ?_, hMade.trans hMade'⟩
    · cases hu
      exact hPrint
    · rw [hSize]
      rfl
  · cases h
    exact ⟨⟨[], v, none, fun u hu => by cases hu⟩, Nat.zero_le room, rfl, hMade⟩

/-- Only the terms of a sentence are read as an expression. -/
theorem expressionWithin_eq_ok {room : Nat} {p r : Parser} {n : Node}
    (h : expressionWithin room p = (.ok n, r)) :
    ∃ σ : Sentence, σ.joints.length ≤ room ∧ n = σ.node p.forest.size ∧
      Made p r σ.terms n.subnodes := by
  induction room generalizing p r n with
  | zero =>
      unfold expressionWithin at h
      rcases hValue : p.value with ⟨_ | left, q⟩
      · simp [hValue] at h
      · obtain ⟨v, rfl, hMade⟩ := value_eq_ok hValue
        simp only [hValue] at h
        split at h
        · cases h
        · exact core_eq_ok hMade h
  | succ room ih =>
      unfold expressionWithin at h
      rcases hValue : p.value with ⟨_ | left, q⟩
      · simp [hValue] at h
      · obtain ⟨v, rfl, hMade⟩ := value_eq_ok hValue
        simp only [hValue] at h
        split at h
        · rcases hNested : expressionWithin room q with ⟨_ | right, u⟩
          · simp [hNested] at h
          · simp only [hNested] at h
            obtain ⟨σ, hRoom, rfl, hMade'⟩ := ih hNested
            obtain ⟨j, rfl, rfl, hMade''⟩ := operator_eq_ok h
            have hQ : q.forest.size = p.forest.size + 1 := hMade.size
            have hU : u.forest.size = (σ.node (p.forest.size + 1)).id + 1 := by
              rw [hMade'.size, σ.subnodes_length, hQ, σ.node_id_succ]
            rw [hQ] at hMade' hMade''
            rw [hU] at hMade''
            refine ⟨Sentence.within j σ, Nat.succ_le_succ hRoom, ?_, ?_⟩
            · rw [Sentence.node_within, hQ, hU]
            · rw [Sentence.terms_within, hQ, hU, Joint.node_subnodes]
              exact hMade.trans (hMade'.trans hMade'')
        · exact core_eq_ok hMade h

/-! ## Lines -/

theorem lineEnd_made {p : Parser} {t : Term} {ts : List Term}
    (h : p.scanner.remaining = t :: ts) (hNewline : t.isNewline = true) :
    ∃ q, p.lineEnd = (.ok (), q) ∧ Made p q [t] [] := by
  obtain ⟨s, hRest, hSettled, _, hNext⟩ := withTerm_cons h
  have hText : t.text = Term.newline := eq_of_beq hNewline
  refine ⟨{ p with scanner := s }, ?_, ?_⟩
  · rw [lineEnd, Scanner.atEnd_eq_false h, hNext]
    simp only [Bool.false_eq_true, ↓reduceIte, hText]
  · exact
      { remaining := hRest ▸ h
        nodes := by simp
        statements := rfl
        maxDepth := rfl
        settled := hSettled }

/-- A line ends at a newline or, with nothing read, at the end of the source. -/
theorem lineEnd_eq_ok {p q : Parser} (hSettled : p.scanner.Settled)
    (h : p.lineEnd = (.ok (), q)) :
    p.scanner.remaining = [] ∧ q = p ∨ ∃ t, t.isNewline = true ∧ Made p q [t] [] := by
  cases hRemaining : p.scanner.remaining with
  | nil =>
      have hEnd := hSettled.atEnd_iff.2 hRemaining
      rw [lineEnd, if_pos hEnd] at h
      cases h
      exact Or.inl ⟨rfl, rfl⟩
  | cons t ts =>
      by_cases hNewline : t.isNewline = true
      · obtain ⟨q', hLine, hMade⟩ := lineEnd_made hRemaining hNewline
        rw [hLine] at h
        cases h
        exact Or.inr ⟨t, hNewline, hMade⟩
      · obtain ⟨s, _, _, _, hNext⟩ := withTerm_cons hRemaining
        have hText : t.text ≠ Term.newline := fun hText => hNewline (by simp [Term.isNewline, hText])
        rw [lineEnd, Scanner.atEnd_eq_false hRemaining, hNext] at h
        simp [hText, fail] at h

/-- One round of reading statements. -/
theorem statements_step {p q r : Parser} {root : Node} (hEnd : p.scanner.atEnd = false)
    (hRoot : p.expression = (.ok root, q))
    (hLine : (q.addStatement root).lineEnd = (.ok (), r)) :
    p.statements = r.statements := by
  rw [statements]
  simp only [hEnd, Bool.false_eq_true, ↓reduceIte]
  split
  · next f q' hError => simp [hRoot] at hError
  · next root' q' hRoot' =>
      rw [hRoot] at hRoot'
      cases hRoot'
      split
      · next f r' hError => simp [hLine] at hError
      · next r' hLine' =>
          rw [hLine] at hLine'
          cases hLine'
          rfl

/-- Statements are read up to the end, or one more is read and its line ends. -/
theorem statements_cases {p u : Parser} (h : p.statements = (.ok (), u)) :
    p.scanner.atEnd = true ∧ u = p ∨
      ∃ root q r, p.expression = (.ok root, q) ∧
        (q.addStatement root).lineEnd = (.ok (), r) ∧ r.statements = (.ok (), u) := by
  rw [statements] at h
  split at h
  · next hEnd =>
      cases h
      exact Or.inl ⟨hEnd, rfl⟩
  · split at h
    · cases h
    · next root q hRoot =>
        split at h
        · cases h
        · next r hLine => exact Or.inr ⟨root, q, r, hRoot, hLine, h⟩

end Parser

/-! ## Statements -/

/-- The forest `g` has the trees of `f` and, behind them, those with the given roots. -/
structure Forest.Extends (f g : Forest) (roots : List Node) : Prop where
  nodes : g.nodes.toList = f.nodes.toList ++ roots.flatMap Node.subnodes
  statements : g.statements.toList = f.statements.toList ++ roots

theorem Forest.Extends.refl (f : Forest) : f.Extends f [] :=
  ⟨by simp, by simp⟩

theorem Forest.Extends.trans {f g h : Forest} {roots more : List Node}
    (hfg : f.Extends g roots) (hgh : g.Extends h more) : f.Extends h (roots ++ more) :=
  ⟨by rw [hgh.nodes, hfg.nodes, List.flatMap_append, List.append_assoc],
    by rw [hgh.statements, hfg.statements, List.append_assoc]⟩

theorem Forest.Extends.size {f g : Forest} {σ : Sentence}
    (h : f.Extends g [σ.node f.size]) : g.size = f.size + σ.terms.length := by
  have hLength := congrArg List.length h.nodes
  simpa [Forest.size, σ.subnodes_length] using hLength

namespace Parser

/-- A node that was made and is then made a statement. -/
theorem Made.extends {p q r : Parser} {ts us : List Term} {root : Node}
    (h : Made p q ts root.subnodes) (h' : Made (q.addStatement root) r us []) :
    p.forest.Extends r.forest [root] :=
  { nodes := by
      rw [h'.nodes, List.append_nil]
      simpa [addStatement, Forest.addStatement] using h.nodes
    statements := by
      rw [h'.statements]
      simp [addStatement, Forest.addStatement, h.statements] }

/-- Written sentences are read as statements, one each. -/
theorem statements_made {p : Parser} {σs : List Sentence}
    (hWritten : Written σs p.scanner.remaining)
    (hReady : p.scanner.remaining = [] → p.scanner.atEnd = true)
    (hDepth : ∀ σ ∈ σs, σ.joints.length ≤ p.maxDepth) :
    ∃ q, p.statements = (.ok (), q) ∧
      p.forest.Extends q.forest (Sentence.roots p.forest.size σs) := by
  generalize hRemaining : p.scanner.remaining = ts at hWritten
  induction hWritten generalizing p with
  | none =>
      refine ⟨p, ?_, Forest.Extends.refl p.forest⟩
      rw [statements, if_pos (hReady hRemaining)]
  | last σ =>
      have hFront : p.scanner.remaining = σ.terms ++ [] := by simpa using hRemaining
      obtain ⟨q, hRoot, hMade⟩ := expressionWithin_made hFront (hDepth σ (by simp))
        fun t ht => by cases ht
      obtain ⟨t, us, hTerms⟩ := List.exists_cons_of_ne_nil σ.terms_ne_nil
      have hEnd : p.scanner.atEnd = false :=
        Scanner.atEnd_eq_false (hRemaining.trans hTerms)
      have hStop : (q.addStatement (σ.node p.forest.size)).scanner.atEnd = true :=
        hMade.settled.atEnd_iff.2 (hMade.rest hFront)
      have hLine : (q.addStatement (σ.node p.forest.size)).lineEnd =
          (.ok (), q.addStatement (σ.node p.forest.size)) := by
        rw [lineEnd, if_pos hStop]
      refine ⟨q.addStatement (σ.node p.forest.size), ?_, ?_⟩
      · rw [statements_step hEnd hRoot hLine, statements, if_pos hStop]
      · exact hMade.extends (Made.refl hMade.settled)
  | @line σ stop hStop σs ts hRest ih =>
      obtain ⟨q, hRoot, hMade⟩ := expressionWithin_made hRemaining (hDepth σ (by simp))
        fun t ht => by
          simp only [List.head?_cons, Option.mem_def, Option.some.injEq] at ht
          exact ht ▸ Term.closes_of_isNewline hStop
      obtain ⟨t, us, hTerms⟩ := List.exists_cons_of_ne_nil σ.terms_ne_nil
      have hEnd : p.scanner.atEnd = false := by
        rw [hTerms] at hRemaining
        exact Scanner.atEnd_eq_false hRemaining
      have hFront : (q.addStatement (σ.node p.forest.size)).scanner.remaining = stop :: ts :=
        hMade.rest hRemaining
      obtain ⟨r, hLine, hMade'⟩ := lineEnd_made hFront hStop
      have hExtends := hMade.extends hMade'
      have hDepth' : ∀ τ ∈ σs, τ.joints.length ≤ r.maxDepth := by
        intro τ hτ
        rw [hMade'.maxDepth]
        exact hMade.maxDepth ▸ hDepth τ (List.mem_cons_of_mem σ hτ)
      obtain ⟨u, hStatements, hMore⟩ := ih (fun h => hMade'.settled.atEnd_iff.2 h) hDepth'
        (hMade'.rest hFront)
      refine ⟨u, ?_, ?_⟩
      · rw [statements_step hEnd hRoot hLine, hStatements]
      · rw [hExtends.size] at hMore
        exact hExtends.trans hMore

/-- Only written sentences are read as statements. -/
theorem statements_eq_ok {p u : Parser} (h : p.statements = (.ok (), u)) :
    (p.scanner.remaining = [] → p.scanner.atEnd = true) ∧
      ∃ σs, Written σs p.scanner.remaining ∧ (∀ σ ∈ σs, σ.joints.length ≤ p.maxDepth) ∧
        p.forest.Extends u.forest (Sentence.roots p.forest.size σs) := by
  rcases statements_cases h with ⟨hEnd, rfl⟩ | ⟨root, q, r, hRoot, hLine, hMore⟩
  · have hNone : u.scanner.remaining = [] := by
      cases hRemaining : u.scanner.remaining with
      | nil => rfl
      | cons t ts => simp [Scanner.atEnd_eq_false hRemaining] at hEnd
    refine ⟨fun _ => hEnd, [], hNone ▸ .none, by simp, Forest.Extends.refl u.forest⟩
  · have hShorter := lineEnd_shorter hRoot hLine
    obtain ⟨σ, hRoom, rfl, hMade⟩ := expressionWithin_eq_ok hRoot
    obtain ⟨t, us, hTerms⟩ := List.exists_cons_of_ne_nil σ.terms_ne_nil
    have hSome : p.scanner.remaining ≠ [] := by simp [hMade.remaining, hTerms]
    refine ⟨fun hNone => absurd hNone hSome, ?_⟩
    have hSettled : (q.addStatement (σ.node p.forest.size)).scanner.Settled := hMade.settled
    rcases lineEnd_eq_ok hSettled hLine with ⟨hNone, rfl⟩ | ⟨stop, hStop, hMade'⟩
    · -- the source ends behind this sentence, so nothing more is read
      have hEnd : (q.addStatement (σ.node p.forest.size)).scanner.atEnd = true :=
        hMade.settled.atEnd_iff.2 hNone
      rw [statements, if_pos hEnd] at hMore
      cases hMore
      have hTaken : q.scanner.remaining = [] := hNone
      refine ⟨[σ], ?_, by simpa using hRoom, hMade.extends (Made.refl hMade.settled)⟩
      rw [hMade.remaining, hTaken, List.append_nil]
      exact .last σ
    · obtain ⟨_, σs, hWritten, hDepth, hExtends'⟩ := statements_eq_ok hMore
      have hExtends := hMade.extends hMade'
      have hBehind : q.scanner.remaining = stop :: r.scanner.remaining := hMade'.remaining
      have hMaxDepth : r.maxDepth = p.maxDepth := hMade'.maxDepth.trans hMade.maxDepth
      refine ⟨σ :: σs, ?_, ?_, ?_⟩
      · rw [hMade.remaining, hBehind]
        exact .line σ hStop hWritten
      · intro τ hτ
        rw [List.mem_cons] at hτ
        rcases hτ with rfl | hτ
        · exact hRoom
        · exact hMaxDepth ▸ hDepth τ hτ
      · rw [hExtends.size] at hExtends'
        exact hExtends.trans hExtends'
termination_by p.unread

end Parser

end ReversePolish
