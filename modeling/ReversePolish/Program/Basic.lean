import ReversePolish.Machine.Basic
import ReversePolish.Text.Escaped

/-!
# Programs

A program is what emitted code asks of a stack machine: a row of instructions, each
with the line of the code on which it stands.
-/

namespace ReversePolish

inductive Operand where
  | number (value : Float)
  | reference (name : String)

/-- What a machine can be asked to do. -/
inductive Method where
  | calculate (op : Operator)
  | print
  | pop
  deriving DecidableEq, Repr

namespace Method

def all : List Method := Operator.all.map calculate ++ [.print, .pop]

def name : Method → String
  | .calculate op => op.method
  | .print => "print"
  | .pop => "pop"

def ofName? (name : String) : Option Method :=
  all.find? (·.name == name)

end Method

inductive Instruction where
  /-- Take the machine from a module. -/
  | takeModule
  /-- Give the machine a name. -/
  | nameMachine (name : String)
  | push (operand : Operand)
  | call (method : Method)
  /-- Pop a value and bind a variable to it. -/
  | bind (name : String)

/-- An instruction with its line. -/
structure PlacedInstruction where
  line : Nat
  instruction : Instruction

abbrev Program := List PlacedInstruction

/-- The text of an instruction in a journal. -/
def Instruction.journalText : Instruction → String
  | .takeModule => "Import"
  | .nameMachine name => s!"Instantiate \x7b instance: {Text.quoted name} \x7d"
  | .push (.number value) => s!"Push(Number({Number.inList.text value}))"
  | .push (.reference name) => s!"Push(Variable({Text.quoted name}))"
  | .call method => s!"Call({method.name.capitalize})"
  | .bind name => s!"Bind \x7b name: {Text.quoted name} \x7d"

/-! ## Faults -/

/-- Why code is no program, or a program stops. -/
inductive RunCause where
  | machine (fault : MachineFault)
  | unbound (name : String)
  | unsupported (text : String)
  | invalidLiteral (text : String)
  /-- More instructions were run than the limit. -/
  | stepLimit (limit : Nat)

def RunCause.message : RunCause → String
  | .machine fault => fault.message
  | .unbound name => s!"variable non liée `{name}`"
  | .unsupported text => s!"instruction non supportée `{text}`"
  | .invalidLiteral text => s!"littéral numérique invalide `{text}`"
  | .stepLimit limit => s!"limite d’instructions atteinte ({limit})"

/-- A cause with the line of the code. -/
structure RunFault where
  line : Nat
  cause : RunCause

def RunFault.message (f : RunFault) : String :=
  s!"ligne {f.line}: {f.cause.message}"

/-- The fault of the machine, if that is the cause. -/
def RunFault.machineFault? (f : RunFault) : Option MachineFault :=
  match f.cause with
  | .machine fault => some fault
  | _ => none

end ReversePolish
