import ReversePolish.Forest.Basic
import ReversePolish.Term.Scanner

/-!
# Reading statements

A statement stands on one line: a value, then nothing, or the word that prints, or a
further expression and the operator that joins the two. So the operands of a
statement nest to the right, and `c a b 1 - / =` reads as `c = (a / (b - 1))`.

A parser holds the scanner and the forest made so far. Its steps return what they
made or why they could not, and in both cases the parser as it is then: a step that
fails keeps the terms it has read and the nodes it has made.
-/

namespace ReversePolish

/-- The nesting that is allowed where nothing else is said. -/
def defaultMaxDepth : Nat := 256

structure Parser where
  scanner : Scanner
  forest : Forest
  /-- How many expressions may be nested inside one another. -/
  maxDepth : Nat
  deriving DecidableEq, Repr

namespace Parser

/-- The outcome of a step and the parser after it. -/
abbrev Step (α : Type) := Except PlacedFault α × Parser

/-- A parser before the first term of a source. -/
def ofSource (source : String) (maxDepth : Nat) : Parser :=
  ⟨Scanner.ofSource source, Forest.empty, maxDepth⟩

/-- Gives up at the place that the scanner has reached. -/
def fail {α : Type} (p : Parser) (fault : SourceFault) : Step α :=
  (.error ⟨fault, p.scanner.position⟩, p)

/-- Makes a node tagged with the term read last. -/
def add (p : Parser) (name : String) (make : Nat → Tag → Node) : Step Node :=
  let (node, forest) := p.forest.add fun id => make id (Tag.at p.scanner.mark name)
  (.ok node, { p with forest })

/-- Whether there is a next term and it passes a test. -/
def peeks (p : Parser) (test : String → Bool) : Bool :=
  match p.scanner.peekTerm with
  | .ok term => test term.text
  | .error _ => false

/-- Reads a term and goes on with it. -/
def withTerm {α : Type} (p : Parser) (next : Parser → String → Step α) : Step α :=
  match p.scanner.nextTerm with
  | .error f => (.error f, p)
  | .ok (term, scanner) => next { p with scanner } term.text

/-- Reads a number or a variable. -/
def value (p : Parser) : Step Node :=
  p.withTerm fun p term =>
    match valueKind? term with
    | some kind => p.add term fun id tag => .value id tag kind term
    | none => p.fail (.expectedValue term)

/-- Makes an assignment of a value to a variable; the sign has been read. -/
def assignment (p : Parser) (target body : Node) : Step Node :=
  let name := target.tag.name
  match target with
  | .value _ _ .variable _ =>
    if isVariable name then p.add (name ++ assignSign) fun id tag => .assign id tag target body
    else p.fail (.illegalVariable name)
  | _ => p.fail (.illegalVariable name)

/-- Reads an operator or the sign of assignment, and applies it to two operands. -/
def operator (p : Parser) (left right : Node) : Step Node :=
  p.withTerm fun p term =>
    if term = assignSign then p.assignment left right
    else
      match Operator.ofSymbol? term with
      | some op => p.add term fun id tag => .binary id tag op left right
      | none => p.fail (.illegalOperator term)

/-- Reads the word that prints, and applies it to an operand. -/
def print (p : Parser) (operand : Node) : Step Node :=
  p.withTerm fun p term =>
    if term = printWord then p.add term fun id tag => .print id tag operand
    else p.fail (.illegalOperator term)

/-- Reads an expression inside which `room` further ones may be nested. -/
def expressionWithin : (room : Nat) → Parser → Step Node
  | room, p =>
    match p.value with
    | (.error f, p) => (.error f, p)
    | (.ok left, p) =>
      if p.peeks fun term => (valueKind? term).isSome then
        match room with
        | 0 => p.fail (.tooDeep p.maxDepth)
        | room + 1 =>
          match expressionWithin room p with
          | (.error f, p) => (.error f, p)
          | (.ok right, p) => p.operator left right
      else if p.peeks (· == printWord) then p.print left
      else (.ok left, p)

/-- Reads an expression. -/
def expression (p : Parser) : Step Node :=
  expressionWithin p.maxDepth p

/-- Reads the end of a line. The end of the source ends its last line. -/
def lineEnd (p : Parser) : Step Unit :=
  if p.scanner.atEnd then (.ok (), p)
  else
    p.withTerm fun p term =>
      if term = Term.newline then (.ok (), p) else p.fail (.expectedNewline term)

/-- Makes a tree a statement of the forest. -/
def addStatement (p : Parser) (root : Node) : Parser :=
  { p with forest := p.forest.addStatement root }

/-! ## Statements, one after the other -/

/-- The number of characters that are still to be read. -/
def unread (p : Parser) : Nat :=
  p.scanner.cursor.rest.length

theorem withTerm_unread {α : Type} {p : Parser} {next : Parser → String → Step α}
    (hNext : ∀ q term, (next q term).2.unread ≤ q.unread) :
    (p.withTerm next).2.unread ≤ p.unread ∧
      (∀ a, (p.withTerm next).1 = .ok a → (p.withTerm next).2.unread < p.unread) := by
  unfold withTerm
  cases hTerm : p.scanner.nextTerm with
  | error f => simp
  | ok read =>
    have hShorter := Scanner.nextTerm_shorter hTerm
    have hLe := hNext { p with scanner := read.2 } read.1.text
    have hLess : ({ p with scanner := read.2 } : Parser).unread < p.unread := hShorter
    exact ⟨by simp only; omega, fun _ _ => by simp only; omega⟩

theorem value_unread (p : Parser) :
    p.value.2.unread ≤ p.unread ∧ (∀ n, p.value.1 = .ok n → p.value.2.unread < p.unread) := by
  apply withTerm_unread
  intro q term
  split <;> exact Nat.le_refl _

theorem assignment_unread (p : Parser) (target body : Node) :
    (p.assignment target body).2.unread = p.unread := by
  unfold assignment
  split
  · dsimp only
    split <;> rfl
  · rfl

theorem operator_unread (p : Parser) (left right : Node) :
    (p.operator left right).2.unread ≤ p.unread := by
  refine (withTerm_unread ?_).1
  intro q term
  split
  · exact Nat.le_of_eq (assignment_unread ..)
  · split <;> exact Nat.le_refl _

theorem print_unread (p : Parser) (operand : Node) : (p.print operand).2.unread ≤ p.unread := by
  refine (withTerm_unread ?_).1
  intro q term
  split <;> exact Nat.le_refl _

theorem lineEnd_unread (p : Parser) : p.lineEnd.2.unread ≤ p.unread := by
  unfold lineEnd
  split
  · exact Nat.le_refl _
  · refine (withTerm_unread ?_).1
    intro q term
    split <;> exact Nat.le_refl _

theorem expressionWithin_unread (room : Nat) (p : Parser) :
    (expressionWithin room p).2.unread ≤ p.unread ∧
      (∀ n, (expressionWithin room p).1 = .ok n →
        (expressionWithin room p).2.unread < p.unread) := by
  induction room generalizing p with
  | zero =>
    unfold expressionWithin
    obtain ⟨hLe, hLess⟩ := value_unread p
    rcases hValue : p.value with ⟨_ | left, q⟩
    · simp [hValue] at hLe
      simp [hLe]
    · have hq : q.unread < p.unread := by simpa [hValue] using hLess left
      have hPrint := print_unread q left
      simp only
      split
      · exact ⟨Nat.le_of_lt hq, fun _ h => by cases h⟩
      · split
        · exact ⟨by omega, fun _ _ => by omega⟩
        · exact ⟨by simp only; omega, fun _ _ => hq⟩
  | succ room ih =>
    unfold expressionWithin
    obtain ⟨hLe, hLess⟩ := value_unread p
    rcases hValue : p.value with ⟨_ | left, q⟩
    · simp [hValue] at hLe
      simp [hLe]
    · have hq : q.unread < p.unread := by simpa [hValue] using hLess left
      have hPrint := print_unread q left
      simp only
      split
      · obtain ⟨hNested, _⟩ := ih q
        rcases hRight : expressionWithin room q with ⟨_ | right, r⟩
        · simp only [hRight] at hNested
          exact ⟨by simp only; omega, fun _ h => by cases h⟩
        · simp only [hRight] at hNested
          have hOp := operator_unread r left right
          exact ⟨by simp only; omega, fun _ _ => by simp only; omega⟩
      · split
        · exact ⟨by omega, fun _ _ => by omega⟩
        · exact ⟨by simp only; omega, fun _ _ => hq⟩

/-- A statement read together with the end of its line leaves less to read. -/
theorem lineEnd_shorter {p q r : Parser} {root : Node} (hRoot : p.expression = (.ok root, q))
    (hLine : (q.addStatement root).lineEnd = (.ok (), r)) : r.unread < p.unread := by
  have hLess := (expressionWithin_unread p.maxDepth p).2 root
  have hLe := lineEnd_unread (q.addStatement root)
  have hSame : (q.addStatement root).unread = q.unread := rfl
  simp only [expression] at hRoot
  simp only [hRoot, forall_const] at hLess
  simp only [hLine] at hLe
  omega

/-- Reads statements, each with the end of its line, up to the end of the source. -/
def statements (p : Parser) : Step Unit :=
  if p.scanner.atEnd then (.ok (), p)
  else
    match hRoot : p.expression with
    | (.error f, q) => (.error f, q)
    | (.ok root, q) =>
      match hLine : (q.addStatement root).lineEnd with
      | (.error f, r) => (.error f, r)
      | (.ok (), r) =>
        have := lineEnd_shorter hRoot hLine
        statements r
termination_by p.unread

end Parser

/-- Reads a whole source, and gives the parser where reading ended. -/
def Parser.run (source : String) (maxDepth : Nat) : Parser.Step Unit :=
  (Parser.ofSource source maxDepth).statements

/-- The forest of a source. -/
def Forest.ofSource (source : String) (maxDepth : Nat) : Except PlacedFault Forest :=
  match Parser.run source maxDepth with
  | (.ok (), p) => .ok p.forest
  | (.error f, _) => .error f

end ReversePolish
