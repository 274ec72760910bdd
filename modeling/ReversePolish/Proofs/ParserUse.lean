import ReversePolish.Emission
import ReversePolish.Proofs.Parsing
import ReversePolish.Proofs.Segmentation

/-!
# A parser under any use

The steps of a parser can be asked for one by one, in any order, with any nodes that it has
returned before, also after a step has failed in the middle of an expression.  This module
says what such a use cannot break.

Every step reads on and makes nodes, and changes nothing that was there
(`Parser.Advances`).  The nodes that it makes are linked to nodes of the forest with
smaller numbers (`Forest.Linked`), so whoever follows operands by their numbers comes to an
end, although later nodes may share operands as they like.

The parser says how deep an expression may still nest by an argument of
`expressionWithin`.  Here a counter stands in its place that goes up and down while
expressions are entered and left (`Parser.Counting`).  Both read the same, and the counter is
back where it was after every step.

## Main results

* `Parser.expressionWithin_keeps` — what reading an expression keeps.
* `Parser.Counting.expression_eq` — counting the depth and passing on the room are the same.
* `Forest.Linked.formulaAt?_eq`, `Forest.Linked.fragmentAt?_eq` — following numbers ends.
* `parser_sound_after_any_use` — the invariant of a parser under any use.
-/

namespace ReversePolish

/-! ## Linked forests -/

/-- A value is named by its text and is of its text's kind, and what is assigned to is a
variable other than the word that prints. -/
def Node.Legal : Node → Prop
  | .value _ tag kind text => tag.name = text ∧ valueKind? text = some kind
  | .assign _ _ target _ => ∃ id tag text,
      target = .value id tag .variable text ∧ tag.name = text ∧ text ≠ printWord
  | _ => True

namespace Forest

/-- The node stands in the forest at the place of its number. -/
def Holds (f : Forest) (n : Node) : Prop := f.nodes[n.id]? = some n

/-- Nodes stand in the order of their numbers, and operands stand in the forest before the
nodes that use them. -/
structure Linked (f : Forest) : Prop where
  id : ∀ (k : Nat) (n : Node), f.nodes[k]? = some n → n.id = k
  operand : ∀ n ∈ f.nodes, ∀ o ∈ n.operands, o.id < n.id ∧ f.Holds o
  legal : ∀ n ∈ f.nodes, n.Legal

theorem empty_linked : Forest.empty.Linked :=
  ⟨by simp [empty], by simp [empty], by simp [empty]⟩

theorem Holds.mem {f : Forest} {n : Node} (h : f.Holds n) : n ∈ f.nodes :=
  Array.mem_of_getElem? h

theorem Holds.id_lt {f : Forest} {n : Node} (h : f.Holds n) : n.id < f.size :=
  (Array.getElem?_eq_some_iff.1 h).1

/-- What a forest holds, it holds when more nodes have been made. -/
theorem Holds.mono {f g : Forest} {n : Node} (h : f.Holds n)
    (hNodes : f.nodes.toList <+: g.nodes.toList) : g.Holds n := by
  have hLess : n.id < f.nodes.toList.length := h.id_lt
  obtain ⟨more, hMore⟩ := hNodes
  unfold Holds at h ⊢
  rw [← Array.getElem?_toList] at h ⊢
  rw [← hMore, List.getElem?_append_left hLess, h]

/-- A node that uses nodes of a linked forest keeps it linked. -/
theorem Linked.add {f : Forest} (h : f.Linked) (make : Nat → Node)
    (hId : (make f.size).id = f.size) (hOperands : ∀ o ∈ (make f.size).operands, f.Holds o)
    (hLegal : (make f.size).Legal) :
    (f.add make).2.Linked ∧ (f.add make).2.Holds (f.add make).1 := by
  have hNodes : f.nodes.toList <+: (f.add make).2.nodes.toList := by simp [Forest.add]
  refine ⟨⟨?_, ?_, ?_⟩, ?_⟩
  · intro k n hn
    rw [Forest.add, Array.getElem?_push] at hn
    by_cases hLast : k = f.nodes.size
    · rw [if_pos hLast, Option.some.injEq] at hn
      rw [← hn, hId, hLast, size]
    · rw [if_neg hLast] at hn
      exact h.id k n hn
  · intro n hn o ho
    rw [Forest.add, Array.mem_push] at hn
    rcases hn with hn | rfl
    · obtain ⟨hLess, hHolds⟩ := h.operand n hn o ho
      exact ⟨hLess, hHolds.mono hNodes⟩
    · have hHolds := hOperands o ho
      exact ⟨Nat.lt_of_lt_of_eq hHolds.id_lt hId.symm, hHolds.mono hNodes⟩
  · intro n hn
    rw [Forest.add, Array.mem_push] at hn
    rcases hn with hn | rfl
    · exact h.legal n hn
    · exact hLegal
  · unfold Holds Forest.add
    rw [hId, size, Array.getElem?_push_size]

end Forest

/-! ## What a step keeps -/

namespace Parser

/-- From `p` to `q` a parser has read on and made nodes.  Nothing that was there before has
changed. -/
structure Advances (p q : Parser) : Prop where
  text : q.scanner.text = p.scanner.text
  read : ∃ cs, p.scanner.cursor.rest = cs ++ q.scanner.cursor.rest ∧
    q.scanner.position = p.scanner.position.advanceOver cs
  nodes : p.forest.nodes.toList <+: q.forest.nodes.toList
  statements : q.forest.statements = p.forest.statements
  maxDepth : q.maxDepth = p.maxDepth

/-- What a step with this outcome has kept, whether it succeeded or not: the forest is still
linked, and a node that is returned stands in it. -/
structure Keeps (p : Parser) (outcome : Step Node) : Prop where
  advances : Advances p outcome.2
  linked : outcome.2.forest.Linked
  holds : ∀ n, outcome.1 = .ok n → outcome.2.forest.Holds n

theorem Advances.refl (p : Parser) : Advances p p :=
  ⟨rfl, ⟨[], rfl, rfl⟩, List.prefix_rfl, rfl, rfl⟩

theorem Advances.trans {p q r : Parser} (h : Advances p q) (h' : Advances q r) :
    Advances p r := by
  obtain ⟨cs, hRest, hPosition⟩ := h.read
  obtain ⟨ds, hRest', hPosition'⟩ := h'.read
  refine
    { text := h'.text.trans h.text
      read := ⟨cs ++ ds, ?_, ?_⟩
      nodes := h.nodes.trans h'.nodes
      statements := h'.statements.trans h.statements
      maxDepth := h'.maxDepth.trans h.maxDepth }
  · rw [hRest, hRest', List.append_assoc]
  · rw [hPosition', hPosition, Position.advanceOver_append]

theorem Keeps.after {p q : Parser} {outcome : Step Node} (h : Keeps q outcome)
    (hBefore : Advances p q) : Keeps p outcome :=
  ⟨hBefore.trans h.advances, h.linked, h.holds⟩

theorem error_keeps {p : Parser} (h : p.forest.Linked) (f : PlacedFault) :
    Keeps p (.error f, p) :=
  ⟨Advances.refl p, h, fun n hn => by cases hn⟩

/-- A term that is read is passed over, with the separators around it. -/
theorem advances_of_nextTerm {p : Parser} {s : Scanner} {t : Term}
    (h : p.scanner.nextTerm = .ok (t, s)) : Advances p { p with scanner := s } := by
  obtain ⟨hCursor, _, hText⟩ := Scanner.nextTerm_eq_ok h
  obtain ⟨gap, tail, hReads⟩ := Cursor.term_reads hCursor
  refine
    { text := hText
      read := ⟨gap ++ t.text.toList ++ tail, hReads.rest, ?_⟩
      nodes := List.prefix_rfl
      statements := rfl
      maxDepth := rfl }
  show s.cursor.position = p.scanner.cursor.position.advanceOver _
  rw [hReads.position, hReads.stop, hReads.start, Position.advanceOver_append,
    Position.advanceOver_append]

theorem fail_keeps {p : Parser} (h : p.forest.Linked) (fault : SourceFault) :
    Keeps p (p.fail fault) :=
  error_keeps h _

theorem withTerm_keeps {p : Parser} {next : Parser → String → Step Node}
    (hLinked : p.forest.Linked)
    (hNext : ∀ (q : Parser) (term : String), q.forest = p.forest → Keeps q (next q term)) :
    Keeps p (p.withTerm next) := by
  unfold withTerm
  cases hTerm : p.scanner.nextTerm with
  | error f => exact error_keeps hLinked f
  | ok read =>
      have hAfter := hNext { p with scanner := read.2 } read.1.text rfl
      exact hAfter.after (advances_of_nextTerm hTerm)

/-- Making a node whose operands stand in the forest. -/
theorem add_keeps {p : Parser} (hLinked : p.forest.Linked) {name : String}
    {make : Nat → Tag → Node} (hId : ∀ id tag, (make id tag).id = id)
    (hOperands : ∀ id tag, ∀ o ∈ (make id tag).operands, p.forest.Holds o)
    (hLegal : ∀ id tag, tag.name = name → (make id tag).Legal) :
    Keeps p (p.add name make) := by
  have hAdded := hLinked.add (fun id => make id (Tag.at p.scanner.mark name)) (hId _ _)
    (hOperands _ _) (hLegal _ _ rfl)
  refine ⟨⟨rfl, ⟨[], rfl, rfl⟩, ?_, rfl, rfl⟩, hAdded.1, ?_⟩
  · simp [Parser.add, Forest.add]
  · intro n hn
    cases hn
    exact hAdded.2

theorem value_keeps {p : Parser} (hLinked : p.forest.Linked) : Keeps p p.value := by
  apply withTerm_keeps hLinked
  intro q term hForest
  rw [← hForest] at hLinked
  split
  · next kind hKind =>
      apply add_keeps hLinked
      · exact fun id tag => rfl
      · intro id tag o ho
        cases ho
      · exact fun id tag hName => ⟨hName, hKind⟩
  · exact fail_keeps hLinked _

theorem assignment_keeps {p : Parser} (hLinked : p.forest.Linked) {target body : Node}
    (hTarget : p.forest.Holds target) (hBody : p.forest.Holds body) :
    Keeps p (p.assignment target body) := by
  unfold assignment
  split
  · next id tag text =>
      have hLegal : tag.name = text ∧ _ := hLinked.legal _ hTarget.mem
      dsimp only
      split
      · next hVariable =>
          -- the name that is checked is the text of the variable
          have hWord : text ≠ printWord := by
            intro hText
            rw [Node.tag, hLegal.1, hText] at hVariable
            exact absurd hVariable (by decide)
          apply add_keeps hLinked
          · exact fun _ _ => rfl
          · intro _ _ o ho
            rw [Node.operands, List.mem_cons, List.mem_singleton] at ho
            rcases ho with rfl | rfl
            · exact hTarget
            · exact hBody
          · exact fun _ _ _ => ⟨id, tag, text, rfl, hLegal.1, hWord⟩
      · exact fail_keeps hLinked _
  · exact fail_keeps hLinked _

theorem operator_keeps {p : Parser} (hLinked : p.forest.Linked) {left right : Node}
    (hLeft : p.forest.Holds left) (hRight : p.forest.Holds right) :
    Keeps p (p.operator left right) := by
  apply withTerm_keeps hLinked
  intro q term hForest
  rw [← hForest] at hLinked hLeft hRight
  by_cases hAssign : term = assignSign
  · rw [if_pos hAssign]
    exact assignment_keeps hLinked hLeft hRight
  · rw [if_neg hAssign]
    split
    · apply add_keeps hLinked
      · exact fun _ _ => rfl
      · intro _ _ o ho
        rw [Node.operands, List.mem_cons, List.mem_singleton] at ho
        rcases ho with rfl | rfl
        · exact hLeft
        · exact hRight
      · exact fun _ _ _ => trivial
    · exact fail_keeps hLinked _

theorem print_keeps {p : Parser} (hLinked : p.forest.Linked) {operand : Node}
    (hOperand : p.forest.Holds operand) : Keeps p (p.print operand) := by
  apply withTerm_keeps hLinked
  intro q term hForest
  rw [← hForest] at hLinked hOperand
  by_cases hPrint : term = printWord
  · rw [if_pos hPrint]
    apply add_keeps hLinked
    · exact fun _ _ => rfl
    · intro _ _ o ho
      rw [Node.operands, List.mem_singleton] at ho
      exact ho ▸ hOperand
    · exact fun _ _ _ => trivial
  · rw [if_neg hPrint]
    exact fail_keeps hLinked _

theorem value_maxDepth (p : Parser) : p.value.2.maxDepth = p.maxDepth := by
  unfold value withTerm
  split
  · rfl
  · dsimp only
    split <;> rfl

/-- Reading an expression keeps what was there, wherever it breaks off. -/
theorem expressionWithin_keeps (room : Nat) {p : Parser} (hLinked : p.forest.Linked) :
    Keeps p (expressionWithin room p) := by
  have hFirst {p : Parser} (hLinked : p.forest.Linked) {outcome : Step Node}
      (hValue : p.value = outcome) : Keeps p outcome :=
    hValue ▸ value_keeps hLinked
  fun_induction expressionWithin room p with
  | case1 room p f q hValue => exact hFirst hLinked hValue
  | case2 p left q hValue _ =>
      have hLeft := hFirst hLinked hValue
      exact (fail_keeps hLeft.linked _).after hLeft.advances
  | case3 p left q hValue _ room f r hRight ih =>
      have hLeft := hFirst hLinked hValue
      exact (hRight ▸ ih hLeft.linked).after hLeft.advances
  | case4 p left q hValue _ room right r hRight ih =>
      have hLeft := hFirst hLinked hValue
      have hNested : Keeps q (.ok right, r) := hRight ▸ ih hLeft.linked
      -- the left operand is still there when the right one has been read
      have hHolds : r.forest.Holds left := (hLeft.holds left rfl).mono hNested.advances.nodes
      have hOperator := operator_keeps hNested.linked hHolds (hNested.holds right rfl)
      exact (hOperator.after hNested.advances).after hLeft.advances
  | case5 room p left q hValue _ _ =>
      have hLeft := hFirst hLinked hValue
      exact (print_keeps hLeft.linked (hLeft.holds left rfl)).after hLeft.advances
  | case6 room p left q hValue _ _ => exact hFirst hLinked hValue

/-! ## Counting the depth -/

/-- A parser and the number of expressions that it is inside of. -/
structure Counting where
  parser : Parser
  depth : Nat

namespace Counting

/-- A step that leaves the counter alone. -/
def lift (step : Parser → Step Node) (c : Counting) : Except PlacedFault Node × Counting :=
  ((step c.parser).1, ⟨(step c.parser).2, c.depth⟩)

/-- Reads an expression.  The counter goes up before a nested one is read and down behind
it, whether that one could be read or not, and a nested expression is refused when the
counter has reached the limit. -/
def expression (c : Counting) : Except PlacedFault Node × Counting :=
  match hValue : c.parser.value with
  | (.error f, p) => (.error f, ⟨p, c.depth⟩)
  | (.ok left, p) =>
    if p.peeks fun term => (valueKind? term).isSome then
      if p.maxDepth ≤ c.depth then lift (·.fail (.tooDeep p.maxDepth)) ⟨p, c.depth⟩
      else
        have := (value_unread c.parser).2 left (by rw [hValue])
        match expression ⟨p, c.depth + 1⟩ with
        | (.error f, inner) => (.error f, ⟨inner.parser, inner.depth - 1⟩)
        | (.ok right, inner) =>
          lift (·.operator left right) ⟨inner.parser, inner.depth - 1⟩
    else if p.peeks (· == printWord) then lift (·.print left) ⟨p, c.depth⟩
    else (.ok left, ⟨p, c.depth⟩)
termination_by c.parser.unread
decreasing_by simp_all

/-- Counting up to the limit and passing on the room below it read the same, and the counter
is back where it was. -/
theorem expression_eq (c : Counting) :
    c.expression = lift (expressionWithin (c.parser.maxDepth - c.depth)) c := by
  have hLimit {c : Counting} {left : Node} {p : Parser}
      (hValue : c.parser.value = (.ok left, p)) : p.maxDepth = c.parser.maxDepth := by
    have hSame := value_maxDepth c.parser
    rwa [hValue] at hSame
  fun_induction expression c with
  | case1 c f p hValue =>
      rw [lift, expressionWithin]
      simp only [hValue]
  | case2 c left p hValue hOperand hFull =>
      have hRoom : c.parser.maxDepth - c.depth = 0 := by
        rw [← hLimit hValue]
        omega
      rw [hRoom, lift, lift, expressionWithin]
      simp only [hValue, hOperand, ↓reduceIte]
  | case3 c left p hValue hOperand hFree _ f inner hInner ih =>
      have hRoom : c.parser.maxDepth - c.depth = p.maxDepth - (c.depth + 1) + 1 := by
        rw [← hLimit hValue]
        omega
      rcases hNested : expressionWithin (p.maxDepth - (c.depth + 1)) p with ⟨result, q⟩
      rw [hInner, lift, hNested] at ih
      cases ih
      rw [hRoom, lift, expressionWithin]
      simp only [hValue, hOperand, hNested, ↓reduceIte, Nat.add_sub_cancel]
  | case4 c left p hValue hOperand hFree _ right inner hInner ih =>
      have hRoom : c.parser.maxDepth - c.depth = p.maxDepth - (c.depth + 1) + 1 := by
        rw [← hLimit hValue]
        omega
      rcases hNested : expressionWithin (p.maxDepth - (c.depth + 1)) p with ⟨result, q⟩
      rw [hInner, lift, hNested] at ih
      cases ih
      rw [hRoom, lift, lift, expressionWithin]
      simp only [hValue, hOperand, hNested, ↓reduceIte, Nat.add_sub_cancel]
  | case5 c left p hValue hOperand hPrint =>
      rw [lift, lift, expressionWithin]
      simp only [hValue, hOperand, hPrint, Bool.false_eq_true, ↓reduceIte]
  | case6 c left p hValue hOperand hPrint =>
      rw [lift, expressionWithin]
      simp only [hValue, hOperand, hPrint, Bool.false_eq_true, ↓reduceIte]

end Counting

/-! ## Any use -/

/-- What can be asked of a parser. -/
inductive Request where
  | value
  | expression
  | operator (left right : Node)
  | assignment (target body : Node)
  | print (operand : Node)

/-- The nodes that a request refers to. -/
def Request.operands : Request → List Node
  | .value | .expression => []
  | .operator left right => [left, right]
  | .assignment target body => [target, body]
  | .print operand => [operand]

/-- The step that is asked for. -/
def answer (p : Parser) : Request → Step Node
  | .value => p.value
  | .expression => p.expression
  | .operator left right => p.operator left right
  | .assignment target body => p.assignment target body
  | .print operand => p.print operand

/-- The same step, with the counter. -/
def Counting.answer (c : Counting) : Request → Except PlacedFault Node × Counting
  | .expression => c.expression
  | request => lift (·.answer request) c

/-- The states that requests lead to from a fresh parser, with the nodes that it has returned
so far.  A request may refer to any of these. -/
inductive Used (source : String) (maxDepth : Nat) : Counting → List Node → Prop where
  | fresh : Used source maxDepth ⟨Parser.ofSource source maxDepth, 0⟩ []
  | ask {c : Counting} {returned : List Node} (h : Used source maxDepth c returned)
      (request : Request) (hOperands : ∀ o ∈ request.operands, o ∈ returned) :
      Used source maxDepth (c.answer request).2
        (returned ++ (c.answer request).1.toOption.toList)

theorem answer_keeps {p : Parser} (hLinked : p.forest.Linked) {request : Request}
    (hOperands : ∀ o ∈ request.operands, p.forest.Holds o) :
    Keeps p (p.answer request) := by
  cases request with
  | value => exact value_keeps hLinked
  | expression => exact expressionWithin_keeps p.maxDepth hLinked
  | operator left right =>
      exact operator_keeps hLinked (hOperands left (by simp [Request.operands]))
        (hOperands right (by simp [Request.operands]))
  | assignment target body =>
      exact assignment_keeps hLinked (hOperands target (by simp [Request.operands]))
        (hOperands body (by simp [Request.operands]))
  | print operand =>
      exact print_keeps hLinked (hOperands operand (by simp [Request.operands]))

/-- Outside of all expressions the counter makes no difference and stays at zero. -/
theorem Counting.answer_eq {c : Counting} (h : c.depth = 0) (request : Request) :
    c.answer request = lift (·.answer request) c := by
  cases request with
  | expression =>
      show c.expression = _
      rw [expression_eq, h, Nat.sub_zero]
      rfl
  | _ => rfl

/-- Behind what it has read, a parser stands where it should. -/
theorem Advances.placed {p q : Parser} (h : Advances p q) (hPlaced : p.scanner.Placed) :
    q.scanner.Placed := by
  obtain ⟨cs, hRest, hPosition⟩ := h.read
  obtain ⟨front, hText, hFront⟩ := hPlaced
  refine ⟨front ++ cs, ?_, ?_⟩
  · rw [h.text, hText, hRest, List.append_assoc]
  · show q.scanner.position = _
    rw [hPosition, Position.after_append, ← hFront]
    rfl

theorem Advances.index_le {p q : Parser} (h : Advances p q) :
    p.scanner.position.index ≤ q.scanner.position.index := by
  obtain ⟨cs, _, hPosition⟩ := h.read
  rw [hPosition, Position.advanceOver_index]
  omega

/-- What holds of a parser and of the nodes that it has returned. -/
structure Counting.Sound (source : String) (c : Counting) (returned : List Node) : Prop where
  depth : c.depth = 0
  text : c.parser.scanner.text = source.toList
  placed : c.parser.scanner.Placed
  linked : c.parser.forest.Linked
  holds : ∀ n ∈ returned, c.parser.forest.Holds n

/-- One request keeps a parser sound. -/
theorem Counting.Sound.answer {source : String} {c : Counting} {returned : List Node}
    (h : c.Sound source returned) {request : Request}
    (hOperands : ∀ o ∈ request.operands, o ∈ returned) :
    (c.answer request).2.Sound source (returned ++ (c.answer request).1.toOption.toList) := by
  have hKeeps := answer_keeps h.linked fun o ho => h.holds o (hOperands o ho)
  rw [answer_eq h.depth]
  refine
    { depth := h.depth
      text := hKeeps.advances.text.trans h.text
      placed := hKeeps.advances.placed h.placed
      linked := hKeeps.linked
      holds := ?_ }
  intro n hn
  rw [List.mem_append] at hn
  rcases hn with hn | hn
  · exact (h.holds n hn).mono hKeeps.advances.nodes
  · apply hKeeps.holds
    rw [lift, Option.mem_toList] at hn
    rcases hResult : (c.parser.answer request).1 with f | m
    · rw [hResult] at hn
      cases hn
    · rw [hResult] at hn
      cases hn
      rfl

/-- A parser is sound after any sequence of requests. -/
theorem Used.sound {source : String} {maxDepth : Nat} {c : Counting} {returned : List Node}
    (h : Used source maxDepth c returned) : c.Sound source returned := by
  induction h with
  | fresh =>
      exact
        { depth := rfl
          text := rfl
          placed := Scanner.ofSource_placed source
          linked := Forest.empty_linked
          holds := by simp }
  | ask _ request hOperands ih => exact ih.answer hOperands

end Parser

/-! ## Following numbers -/

namespace Forest

/-- Works something out for the node with a number, where operands are looked up by their
numbers.  At most the given number of calls are nested. -/
def workAt? {α : Type} (f : Forest) (work : Node → (Nat → Option α) → Option α) :
    (calls id : Nat) → Option α
  | 0, _ => none
  | calls + 1, id => f.nodes[id]?.bind fun n => work n (f.workAt? work calls)

/-- In a linked forest such work ends, if that for one node does once it is done for the
operands.  As numbers become smaller, no more calls are nested than the first number says. -/
theorem Linked.workAt?_eq {α : Type} {f : Forest} (h : f.Linked)
    {work : Node → (Nat → Option α) → Option α} {result : Node → α}
    (hWork : ∀ n found, (∀ o ∈ n.operands, f.Holds o ∧ found o.id = some (result o)) →
      work n found = some (result n))
    {n : Node} (hn : f.Holds n) {calls : Nat} (hCalls : n.id < calls) :
    f.workAt? work calls n.id = some (result n) := by
  induction calls generalizing n with
  | zero => omega
  | succ calls ih =>
      have hFound : f.nodes[n.id]? = some n := hn
      rw [workAt?, hFound, Option.bind_some]
      apply hWork
      intro o ho
      obtain ⟨hLess, hHolds⟩ := h.operand n hn.mem o ho
      exact ⟨hHolds, ih hHolds (by omega)⟩

end Forest

/-- The formula of a node from those of its operands. -/
def Node.formulaFrom (n : Node) (found : Nat → Option String) : Option String :=
  match n with
  | .value _ _ _ text => some text
  | .binary _ _ op left right => do
    let left ← found left.id
    let right ← found right.id
    return s!"({left} {op.symbol} {right})"
  | .assign _ _ target body => do
    let target ← found target.id
    let body ← found body.id
    return s!"{target} = {body}"
  | .print _ _ operand => do
    let operand ← found operand.id
    return s!"print({operand})"

/-- The code of a node from that of its operands.  The target of an assignment is looked up
for its name only. -/
def Node.fragmentFrom (f : Forest) (vm : String) (n : Node) (found : Nat → Option Fragment) :
    Option Fragment :=
  match n with
  | .value _ tag _ text => some (.group (some tag) [.text s!"{vm}.push( {text} );\n"])
  | .binary _ tag op left right => do
    let left ← found left.id
    let right ← found right.id
    return .group (some tag) [left, right, .text s!"{vm}.{op.method}();\n"]
  | .assign _ tag target body => do
    let target ← f.nodes[target.id]?
    let body ← found body.id
    return .group (some tag) [body, .text s!"var {target.tag.name} = {vm}.pop();\n"]
  | .print _ tag operand => do
    let operand ← found operand.id
    return .group (some tag) [operand, .text s!"{vm}.print();\n"]

namespace Forest

def formulaAt? (f : Forest) : (calls id : Nat) → Option String :=
  f.workAt? Node.formulaFrom

def fragmentAt? (f : Forest) (vm : String) : (calls id : Nat) → Option Fragment :=
  f.workAt? (Node.fragmentFrom f vm)

/-- Following operands by their numbers gives the formula of the tree. -/
theorem Linked.formulaAt?_eq {f : Forest} (h : f.Linked) {n : Node} (hn : f.Holds n)
    {calls : Nat} (hCalls : n.id < calls) : f.formulaAt? calls n.id = some n.formula := by
  refine h.workAt?_eq ?_ hn hCalls
  intro n found hFound
  cases n <;> simp_all [Node.operands, Node.formulaFrom, Node.formula]

/-- Following operands by their numbers gives the code of the tree. -/
theorem Linked.fragmentAt?_eq {f : Forest} (h : f.Linked) (vm : String) {n : Node}
    (hn : f.Holds n) {calls : Nat} (hCalls : n.id < calls) :
    f.fragmentAt? vm calls n.id = some (n.fragment vm) := by
  refine h.workAt?_eq ?_ hn hCalls
  intro n found hFound
  cases n <;> simp_all [Node.operands, Node.fragmentFrom, Node.fragment, Holds]

end Forest

/-! ## The parser and its forest -/

/-- A scanner that stands where it should has the coordinates of its index, and what is
left to read starts there. -/
theorem Scanner.Placed.position_eq {s : Scanner} (h : s.Placed) :
    s.position = Position.ofIndex s.text s.position.index ∧
      s.cursor.rest = s.text.drop s.position.index := by
  obtain ⟨front, hText, hFront⟩ := h
  have hPosition : s.position = Position.after front := hFront
  have hIndex : s.position.index = front.length := by rw [hPosition, Position.after_index]
  rw [hIndex, hText, List.drop_left]
  exact ⟨hPosition.trans (Position.after_eq_ofIndex front s.cursor.rest), rfl⟩

/-- **A parser under any use.**  Whatever was asked of a parser, and whether it could be done
or not: a further request is answered as by the parser without a counter, and leaves the
counter at zero.  All nodes that were there are unchanged, the forest is linked, and returned
nodes stand in it.  The cursor has not moved backwards and has the coordinates of what is
read.  Following the operands of any node by their numbers ends, both for its formula and for
its code. -/
theorem parser_sound_after_any_use {source : String} {maxDepth : Nat} {c c' : Parser.Counting}
    {returned : List Node} (h : Parser.Used source maxDepth c returned)
    {request : Parser.Request} (hOperands : ∀ o ∈ request.operands, o ∈ returned)
    {result : Except PlacedFault Node} (hAnswer : c.answer request = (result, c')) :
    c.parser.answer request = (result, c'.parser) ∧ c'.depth = 0 ∧
      c.parser.forest.nodes.toList <+: c'.parser.forest.nodes.toList ∧
      c'.parser.forest.Linked ∧
      (∀ n, result = .ok n ∨ n ∈ returned → c'.parser.forest.Holds n) ∧
      c.parser.scanner.position.index ≤ c'.parser.scanner.position.index ∧
      c'.parser.scanner.position =
        Position.ofIndex source.toList c'.parser.scanner.position.index ∧
      c'.parser.scanner.cursor.rest =
        source.toList.drop c'.parser.scanner.position.index ∧
      ∀ n ∈ c'.parser.forest.nodes,
        c'.parser.forest.formulaAt? (n.id + 1) n.id = some n.formula ∧
          ∀ vm, c'.parser.forest.fragmentAt? vm (n.id + 1) n.id = some (n.fragment vm) := by
  have hSound := h.sound
  have hKeeps := Parser.answer_keeps hSound.linked fun o ho => hSound.holds o (hOperands o ho)
  have hAfter := hSound.answer hOperands
  rw [hAnswer] at hAfter
  have hSame := Parser.Counting.answer_eq hSound.depth request
  rw [hAnswer, Parser.Counting.lift] at hSame
  obtain ⟨rfl, rfl⟩ := Prod.mk.inj hSame
  obtain ⟨hPosition, hRest⟩ := hAfter.placed.position_eq
  rw [hAfter.text] at hPosition hRest
  refine ⟨rfl, hAfter.depth, hKeeps.advances.nodes, hAfter.linked, ?_,
    hKeeps.advances.index_le, hPosition, hRest, ?_⟩
  · rintro n (hResult | hReturned)
    · exact hKeeps.holds n hResult
    · exact hAfter.holds n (List.mem_append_left _ hReturned)
  · intro n hn
    have hHolds : (c.parser.answer request).2.forest.Holds n := by
      obtain ⟨k, hk⟩ := Array.mem_iff_getElem?.1 hn
      rw [Forest.Holds, hAfter.linked.id k n hk]
      exact hk
    exact ⟨hAfter.linked.formulaAt?_eq hHolds (Nat.lt_succ_self _),
      fun vm => hAfter.linked.fragmentAt?_eq vm hHolds (Nat.lt_succ_self _)⟩

/-- An expression that is broken off two levels down, and then an assignment whose target
and body are one node. -/
theorem parser_sound_after_any_use_broken_off :
    ∃ (c c' : Parser.Counting) (returned : List Node) (x n : Node),
      Parser.Used "x a b c" 1 c returned ∧ returned = [x] ∧ c.parser.forest.size = 3 ∧
        c.answer (.assignment x x) = (.ok n, c') ∧ n.operands = [x, x] ∧ c'.depth = 0 ∧
        c'.parser.forest.Linked ∧ c'.parser.forest.Holds n ∧
        c'.parser.forest.formulaAt? (n.id + 1) n.id = some "x = x" := by
  let x : Node := .value 0 ⟨1, 0, "x"⟩ .variable "x"
  let n : Node := .assign 3 ⟨1, 4, "x="⟩ x x
  let fresh : Parser.Counting := ⟨Parser.ofSource "x a b c" 1, 0⟩
  let c := ((fresh.answer .value).2.answer .expression).2
  have hFirst : (fresh.answer .value).1.toOption.toList = [x] := by decide +kernel
  have hSecond : ((fresh.answer .value).2.answer .expression).1.toOption.toList = [] := by
    decide +kernel
  have hSize : c.parser.forest.size = 3 := by decide +kernel
  have hThird : (c.answer (.assignment x x)).1 = .ok n := by decide +kernel
  have hUsed : Parser.Used "x a b c" 1 c [x] := by
    have hFresh : Parser.Used "x a b c" 1 fresh [] := .fresh
    have hAsked := (hFresh.ask .value (by simp [Parser.Request.operands])).ask .expression
      (by simp [Parser.Request.operands])
    rwa [hFirst, hSecond] at hAsked
  have hOperands : ∀ o ∈ (Parser.Request.assignment x x).operands, o ∈ [x] := by
    simp [Parser.Request.operands]
  have hAnswer : c.answer (.assignment x x) = (.ok n, (c.answer (.assignment x x)).2) := by
    rw [← hThird]
  obtain ⟨_, hDepth, _, hLinked, hHolds, _, _, _, hEnds⟩ :=
    parser_sound_after_any_use hUsed hOperands hAnswer
  have hNode := hHolds n (Or.inl rfl)
  exact ⟨c, _, [x], x, n, hUsed, rfl, hSize, hAnswer, rfl, hDepth, hLinked, hNode,
    (hEnds n hNode.mem).1⟩

end ReversePolish
