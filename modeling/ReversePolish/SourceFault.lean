import ReversePolish.Position
import ReversePolish.Text.Escaped

/-!
# Faults of a source text

Why a source text has no statements to offer, and where the reader stood when it
found out. The wording of each cause is in one place.
-/

namespace ReversePolish

/-- Why a source text is refused. -/
inductive SourceFault where
  /-- A term was needed and the source had ended. -/
  | unexpectedEnd
  /-- A number or a variable was needed. -/
  | expectedValue (term : String)
  /-- An operator was needed. -/
  | illegalOperator (term : String)
  /-- The target of an assignment is no variable. -/
  | illegalVariable (name : String)
  /-- A statement was complete and its line went on. -/
  | expectedNewline (term : String)
  /-- Operands were nested deeper than the limit. -/
  | tooDeep (limit : Nat)
  deriving DecidableEq, Repr

/-- The wording of a cause. A term is shown escaped, the name of a variable as it is. -/
def SourceFault.message : SourceFault → String
  | .unexpectedEnd => "fin de source inattendue"
  | .expectedValue term => s!"valeur attendue, reçu: `{Text.escaped term}`"
  | .illegalOperator term => s!"opérateur illégal: `{Text.escaped term}`"
  | .illegalVariable name => s!"nom de variable illégal pour l’affectation: `{name}`"
  | .expectedNewline term => s!"fin de ligne attendue, reçu: `{Text.escaped term}`"
  | .tooDeep limit => s!"imbrication trop profonde (limite {limit})"

/-- A fault with the position of the reader. -/
structure PlacedFault where
  fault : SourceFault
  position : Position
  deriving DecidableEq, Repr

def PlacedFault.message (f : PlacedFault) : String :=
  s!"{f.position.text}: {f.fault.message}"

end ReversePolish
