import ReversePolish.Fragment
import ReversePolish.Settings.Basic

/-!
# Emitted code

A forest is emitted as calls of a stack machine: a value is pushed, an operation
follows its operands, and the target of an assignment is bound to the value that is
popped. In front stands a preamble that makes the machine.
-/

namespace ReversePolish

/-- The lines that make the stack machine. -/
def Settings.preamble (s : Settings) : String :=
  s!"import \x7b {s.runtimeClass} \x7d from '{s.runtimeModule}';\n" ++
    s!"let {s.runtimeInstance} = new {s.runtimeClass}();\n"

/-- The code of a tree. Each line is tagged with the term it is emitted for. -/
def Node.fragment (vm : String) : Node → Fragment
  | .value _ tag _ text => .group (some tag) [.text s!"{vm}.push( {text} );\n"]
  | .binary _ tag op left right =>
    .group (some tag) [left.fragment vm, right.fragment vm, .text s!"{vm}.{op.method}();\n"]
  | .assign _ tag target body =>
    .group (some tag) [body.fragment vm, .text s!"var {target.tag.name} = {vm}.pop();\n"]
  | .print _ tag operand => .group (some tag) [operand.fragment vm, .text s!"{vm}.print();\n"]

/-- The code of a forest. -/
def Forest.fragment (s : Settings) (f : Forest) : Fragment :=
  .group none (.text s.preamble :: f.statements.toList.map (Node.fragment s.runtimeInstance))

/-- Writes a fragment and the comment that names its source map. -/
def Fragment.emit (f : Fragment) (source mapFile : String) : Emitter :=
  ((Emitter.ofSource source).writeFragment f).finish mapFile

end ReversePolish
