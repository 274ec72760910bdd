import ReversePolish.Decimal.Reading
import ReversePolish.Program.Basic
import ReversePolish.Text.Blank
import ReversePolish.Text.Split

/-!
# Reading programs

Code is read line by line. Blank lines and comments are skipped; any other line has
to be one of the forms in which code is emitted, ended by a semicolon. Instructions
other than the first two forms start with the name that the machine was given last.
-/

namespace ReversePolish

/-- The operand of a push. -/
def Operand.read (text : List Char) : Except RunCause Operand :=
  let invalid := RunCause.invalidLiteral (String.ofList text)
  match text with
  | [] => .error invalid
  | c :: _ =>
    if c.isDigit then
      match Decimal.readDecimal text with
      | .ok value => .ok (.number value)
      | .error _ => .error invalid
    else if isIdentifierStart c then .ok (.reference (String.ofList text))
    else .error invalid

namespace Instruction

/-- What follows the word `import`: a module is named behind the word `from`. -/
def readImport? (rest : List Char) : Option Instruction :=
  if Text.occursIn " from ".toList rest then some .takeModule else none

/-- What follows the word `let`: a name and a new object. -/
def readLet? (rest : List Char) : Option Instruction := do
  let (name, value) ← Text.splitFirst? '=' rest
  let value := Text.trim value
  let _ ← Text.dropStart? "new ".toList value
  let _ ← Text.dropEnd? "()".toList value
  return .nameMachine (String.ofList (Text.trim name))

/-- What follows the word `var`: a name and a pop of the machine. -/
def readVar? (vm : String) (rest : List Char) : Option Instruction := do
  let (name, value) ← Text.splitFirst? '=' rest
  if Text.trim value = (vm ++ ".pop()").toList then
    some (.bind (String.ofList (Text.trim name)))
  else none

/-- The method of a call, and what stands between its brackets. -/
def call? (vm : String) (body : List Char) : Option (String × List Char) := do
  let rest ← Text.dropStart? (vm ++ ".").toList body
  let (method, rest) ← Text.splitFirst? '(' rest
  let argument ← Text.dropEnd? [')'] rest
  return (String.ofList method, Text.trim argument)

/-- A call of the machine. -/
def readCall (vm : String) (body : List Char) : Option (Except RunCause Instruction) :=
  match call? vm body with
  | none => none
  | some (method, argument) =>
    if method = "push" then some ((Operand.read argument).map .push)
    else if argument.isEmpty then (Method.ofName? method).map fun method => .ok (.call method)
    else none

/-- The instruction of a line without its semicolon, with the name that the machine has. -/
def readBody (vm? : Option String) (body : List Char) : Option (Except RunCause Instruction) :=
  match Text.dropStart? "import ".toList body with
  | some rest => (readImport? rest).map .ok
  | none =>
    match Text.dropStart? "let ".toList body with
    | some rest => (readLet? rest).map .ok
    | none =>
      match vm? with
      | none => none
      | some vm =>
        match Text.dropStart? "var ".toList body with
        | some rest => (readVar? vm rest).map .ok
        | none => readCall vm body

/-- The instruction of a line, if it has one. -/
def readLine (vm? : Option String) (line : List Char) : Except RunCause (Option Instruction) :=
  let text := Text.trim line
  if text.isEmpty || (Text.dropStart? "//".toList text).isSome then .ok none
  else
    match (Text.dropEnd? [';'] text).bind fun body => readBody vm? (Text.trimEnd body) with
    | some read => read.map some
    | none => .error (.unsupported (String.ofList text))

end Instruction

namespace Program

/-- Reads lines, of which the first has the given number. -/
def readLines (line : Nat) (vm? : Option String) : List (List Char) → Except RunFault Program
  | [] => .ok []
  | text :: texts =>
    match Instruction.readLine vm? text with
    | .error cause => .error ⟨line, cause⟩
    | .ok none => readLines (line + 1) vm? texts
    | .ok (some instruction) =>
      let vm? :=
        match instruction with
        | .nameMachine name => some name
        | _ => vm?
      (readLines (line + 1) vm? texts).map (⟨line, instruction⟩ :: ·)

/-- Reads a program. -/
def read (code : String) : Except RunFault Program :=
  readLines 1 none (Text.lines code.toList)

end Program

end ReversePolish
