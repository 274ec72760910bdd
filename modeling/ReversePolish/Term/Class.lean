/-!
# Classes of terms

What a term can be in a statement: a number, a variable, an operator, the sign of
assignment, or the word that prints. Only the first character decides between
numbers and variables, so `7abc` is a number term and `x;` a variable.
-/

namespace ReversePolish

/-- The word that prints a value. It is never a variable. -/
def printWord : String := "print"

/-- The sign that assigns a value to a variable. -/
def assignSign : String := "="

/-- The operators on two values. -/
inductive Operator where
  | add
  | subtract
  | multiply
  | divide
  deriving DecidableEq, Repr

namespace Operator

/-- All operators. -/
def all : List Operator := [.add, .subtract, .multiply, .divide]

/-- The sign of an operator in a source. -/
def symbol : Operator → String
  | .add => "+"
  | .subtract => "-"
  | .multiply => "*"
  | .divide => "/"

/-- The method of an operator in the emitted code. -/
def method : Operator → String
  | .add => "add"
  | .subtract => "subtract"
  | .multiply => "multiply"
  | .divide => "divide"

/-- The operator with a given sign. -/
def ofSymbol? (symbol : String) : Option Operator :=
  all.find? (·.symbol == symbol)

end Operator

/-- The two kinds of value terms. -/
inductive ValueKind where
  | number
  | variable
  deriving DecidableEq, Repr

/-- Whether a term starts with a digit. -/
def isNumber (term : String) : Bool :=
  term.toList.head?.any Char.isDigit

/-- Whether a term starts with a letter and is not the word that prints. -/
def isVariable (term : String) : Bool :=
  term != printWord && term.toList.head?.any Char.isAlpha

/-- The kind of a value term. -/
def valueKind? (term : String) : Option ValueKind :=
  if isNumber term then some .number
  else if isVariable term then some .variable
  else none

/-- Whether a character can start an identifier of the emitted code. -/
def isIdentifierStart (c : Char) : Bool :=
  c.isAlpha || c == '_' || c == '$'

/-- Whether a text is an identifier of the emitted code, made of ASCII letters, digits,
`_` and `$`. -/
def isIdentifier (text : String) : Bool :=
  match text.toList with
  | [] => false
  | c :: rest => isIdentifierStart c && rest.all fun c => isIdentifierStart c || c.isDigit

end ReversePolish
