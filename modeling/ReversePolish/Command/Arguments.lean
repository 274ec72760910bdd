import ReversePolish.Command.Basic

/-!
# Arguments

Arguments are read from left to right. An option that takes a value takes it from the
same argument, behind an equals sign, or from the next argument unless that starts
with a dash. A value is looked at only when the next option or operand is accepted, or
at the end; so a fault of the next argument itself comes first. After two dashes
everything is an operand.

The options `-v` and `--config` stand before or behind the name of the command; behind
it they count more.
-/

namespace ReversePolish

/-- What the arguments of one command have given so far. -/
structure Given where
  verbosity : Option Nat := none
  config : Option String := none
  operands : List String := []
  /-- The flags in the order of their use. -/
  flags : List Setting := []
  runtimeModule : Option String := none
  bindings : List (String × Float) := []
  options : RunDefaults := {}
  showStack : Bool := false

namespace Given

/-- Whether nothing was given. -/
def isVoid (g : Given) : Bool :=
  g.verbosity.isNone && g.config.isNone

/-- Gives an option that may be given once. -/
def once {α : Type} (present : Option α) (value : Except UsageFault α)
    (set : α → Given) : Except UsageFault Given :=
  match present with
  | some _ => .error .conflict
  | none => value.map set

/-- One more time to say more, up to 255 times. -/
def sayMore (g : Given) : Except UsageFault Given :=
  .ok { g with verbosity := some (min (g.verbosity.getD 0 + 1) 255) }

/-- Sets a flag that may be set once. -/
def setFlag (setting : Setting) (g : Given) : Except UsageFault Given :=
  if setting ∈ g.flags then .error .conflict else .ok { g with flags := g.flags ++ [setting] }

def setShowStack (g : Given) : Except UsageFault Given :=
  if g.showStack then .error .conflict else .ok { g with showStack := true }

end Given

/-! ## Values -/

/-- A number without sign. -/
def readCount (text : String) : Except UsageFault Nat :=
  match Decimal.readSize text.toList with
  | .ok n => .ok n
  | .error fault => .error (.unreadableValue fault.message)

/-- A name and a number with an equals sign between them. -/
def readBinding (text : String) : Except UsageFault (String × Float) :=
  match Text.splitFirst? '=' text.toList with
  | none => .error (.unreadableValue s!"attendu nom=valeur, reçu `{text}`")
  | some (name, value) =>
    let name := Text.trim name
    if name.head?.any Char.isAlpha then
      match Decimal.readDecimal (Text.trim value) with
      | .ok number => .ok (String.ofList name, number)
      | .error fault =>
        let value := String.ofList value
        .error (.unreadableValue s!"valeur `{value}`: {fault.message}")
    else
      let name := String.ofList name
      .error (.unreadableValue s!"nom de variable illégal: `{name}`")

def readPrintMode (text : String) : Except UsageFault PrintMode :=
  match PrintMode.ofName? text with
  | some mode => .ok mode
  | none => .error .invalidValue

/-! ## Options -/

/-- What an option does. -/
inductive OptionEffect where
  | fault (fault : UsageFault)
  | flag (set : Given → Except UsageFault Given)
  | value (set : String → Given → Except UsageFault Given)

structure OptionRule where
  name : String
  short : Option Char
  effect : OptionEffect

namespace OptionRule

def help : OptionRule := ⟨"help", some 'h', .fault .help⟩

def version : OptionRule := ⟨"version", some 'V', .fault .version⟩

def verbose : OptionRule := ⟨"verbose", some 'v', .flag Given.sayMore⟩

def config : OptionRule :=
  ⟨"config", none, .value fun path g =>
    Given.once g.config (.ok path) fun path => { g with config := some path }⟩

/-- A flag that switches a setting on. -/
def setting (name : String) (setting : Setting) : OptionRule :=
  ⟨name, none, .flag (Given.setFlag setting)⟩

def runtimeModule : OptionRule :=
  ⟨"runtime-module", none, .value fun name g =>
    Given.once g.runtimeModule (.ok name) fun name => { g with runtimeModule := some name }⟩

def bind : OptionRule :=
  ⟨"bind", none, .value fun text g =>
    (readBinding text).map fun binding => { g with bindings := g.bindings ++ [binding] }⟩

def printMode : OptionRule :=
  ⟨"print-mode", none, .value fun text g =>
    Given.once g.options.printMode (readPrintMode text) fun mode =>
      { g with options := { g.options with printMode := some mode } }⟩

def capacity : OptionRule :=
  ⟨"capacity", none, .value fun text g =>
    Given.once g.options.capacity (readCount text) fun n =>
      { g with options := { g.options with capacity := some n } }⟩

def repeatLimit : OptionRule :=
  ⟨"repeat-limit", none, .value fun text g =>
    Given.once g.options.repeatLimit (readCount text) fun n =>
      { g with options := { g.options with repeatLimit := some n } }⟩

def maxSteps : OptionRule :=
  ⟨"max-steps", none, .value fun text g =>
    Given.once g.options.maxSteps (readCount text) fun n =>
      { g with options := { g.options with maxSteps := some n } }⟩

def stack : OptionRule := ⟨"stack", none, .flag Given.setShowStack⟩

end OptionRule

/-! ## Commands -/

/-- How many operands a command takes. -/
inductive OperandRule where
  | zero
  | one
  | oneOrMore
  deriving DecidableEq, Repr

/-- What may stand behind the name of a command, or at the start of the line. -/
structure ArgumentRules where
  options : List OptionRule
  operands : OperandRule
  /-- The names that may stand in place of an operand. -/
  commands : List String

namespace ArgumentRules

/-- The rules at the start of the line. -/
def start : ArgumentRules where
  options := [.verbose, .config, .help, .version]
  operands := .zero
  commands := ["build", "run", "map", "help"]

def build : ArgumentRules where
  options := [.verbose, .config, .help, .setting "fail-fast" .failFast,
    .setting "embed-sources" .embedSources, .setting "pretty-map" .prettyMap, .runtimeModule]
  operands := .oneOrMore
  commands := []

def run : ArgumentRules where
  options := [.verbose, .config, .help, .bind, .printMode, .capacity, .repeatLimit, .maxSteps,
    .stack]
  operands := .one
  commands := []

def map : ArgumentRules where
  options := [.verbose, .config, .help]
  operands := .one
  commands := []

/-- Whether an operand may follow those given. -/
def takesOperand (rules : ArgumentRules) (g : Given) : Bool :=
  match rules.operands with
  | .zero => false
  | .one => g.operands.isEmpty
  | .oneOrMore => true

end ArgumentRules

/-! ## Reading -/

/-- An option that takes a value, and its value if that is known. -/
structure PendingOption where
  set : String → Given → Except UsageFault Given
  value : Option String

/-- Where reading stands. -/
structure ArgumentReader where
  given : Given := {}
  pending : Option PendingOption := none
  /-- Whether two dashes were read. -/
  operandsOnly : Bool := false

namespace ArgumentReader

/-- Looks at the value of the pending option. -/
def settle (r : ArgumentReader) : Except UsageFault ArgumentReader :=
  match r.pending with
  | none => .ok r
  | some ⟨_, none⟩ => .error .invalidValue
  | some ⟨set, some value⟩ =>
    (set value r.given).map fun given => { r with given := given, pending := none }

/-- Looks at the pending value, then changes what was given. -/
def change (r : ArgumentReader) (set : Given → Except UsageFault Given) :
    Except UsageFault ArgumentReader := do
  let r ← r.settle
  let given ← set r.given
  return { r with given := given }

/-- Whether an option waits for its value. -/
def awaitsValue (r : ArgumentReader) : Bool :=
  match r.pending with
  | some ⟨_, none⟩ => true
  | _ => false

/-- An option by its long name, with what stands behind its equals sign. -/
def long (rules : ArgumentRules) (r : ArgumentReader) (name : String) (value? : Option String) :
    Except UsageFault ArgumentReader :=
  match rules.options.find? (·.name == name) with
  | none => .error .unknownArgument
  | some rule =>
    match rule.effect, value? with
    | .value set, some value => r.change (set value)
    | .value set, none => r.settle.map fun r => { r with pending := some ⟨set, none⟩ }
    | .flag _, some _ | .fault _, some _ => .error .unexpectedValue
    | .flag set, none => r.change set
    | .fault fault, none => r.change fun _ => .error fault

/-- Options by their short names, which all take no value. -/
def shorts (rules : ArgumentRules) (r : ArgumentReader) :
    List Char → Except UsageFault ArgumentReader
  | [] => .ok r
  | c :: cs =>
    match rules.options.find? (·.short == some c) with
    | some ⟨_, _, .flag set⟩ => (r.change set).bind fun r => shorts rules r cs
    | some ⟨_, _, .fault fault⟩ => r.change fun _ => .error fault
    | _ => .error .unknownArgument

/-- An operand. -/
def operand (rules : ArgumentRules) (r : ArgumentReader) (text : String) :
    Except UsageFault ArgumentReader :=
  if rules.takesOperand r.given then
    r.change fun g => .ok { g with operands := g.operands ++ [text] }
  else if rules.commands.isEmpty || (r.operandsOnly && rules.commands.contains text) then
    .error .unknownArgument
  else .error .unknownCommand

/-- One argument, which is not the name of a command. -/
def argument (rules : ArgumentRules) (r : ArgumentReader) (text : String) :
    Except UsageFault ArgumentReader :=
  if r.operandsOnly then r.operand rules text
  else
    match text.toList, r.pending with
    | ['-', '-'], _ => .ok { r with operandsOnly := true }
    | '-' :: '-' :: body, _ =>
      match Text.splitFirst? '=' body with
      | some (name, value) => r.long rules (String.ofList name) (some (String.ofList value))
      | none => r.long rules (String.ofList body) none
    | '-' :: c :: cs, _ => r.shorts rules (c :: cs)
    | _, some ⟨set, none⟩ => .ok { r with pending := some ⟨set, some text⟩ }
    | _, _ => r.operand rules text

/-- Reads arguments up to the name of a command, and gives the name with what follows. -/
def readAll (rules : ArgumentRules) (r : ArgumentReader) :
    List String → Except UsageFault (ArgumentReader × Option (String × List String))
  | [] => .ok (r, none)
  | text :: rest =>
    if rules.commands.contains text && !r.operandsOnly && !r.awaitsValue then
      .ok (r, some (text, rest))
    else
      match r.argument rules text with
      | .error fault => .error fault
      | .ok r => readAll rules r rest

/-- Everything that the arguments of a command give. -/
def readCommand (rules : ArgumentRules) (arguments : List String) : Except UsageFault Given := do
  let (r, _) ← readAll rules {} arguments
  let r ← r.settle
  return r.given

end ArgumentReader

namespace Given

/-- The operand of a command that takes one. -/
def operand (g : Given) : Except UsageFault String :=
  match g.operands with
  | [] => .error .missingArgument
  | text :: _ => .ok text

/-- The settings that the arguments choose. -/
def choices (g : Given) : List (Setting × Literal) :=
  (g.runtimeModule.map fun name => (Setting.runtimeModule, Literal.text name)).toList ++
    g.flags.map fun setting => (setting, Literal.flag true)

def build (g : Given) : Except UsageFault Command := do
  let _ ← g.operand
  return .build ⟨g.operands, g.choices⟩

def run (g : Given) : Except UsageFault Command := do
  let file ← g.operand
  return .run ⟨file, g.bindings, g.options, g.showStack⟩

def map (g : Given) : Except UsageFault Command := do
  let file ← g.operand
  return .map file

end Given

namespace Command

/-- The command with a name, and what its arguments give. -/
def read (name : String) (arguments : List String) : Except UsageFault (Command × Given) := do
  match name with
  | "build" =>
    let given ← ArgumentReader.readCommand .build arguments
    return (← given.build, given)
  | "run" =>
    let given ← ArgumentReader.readCommand .run arguments
    return (← given.run, given)
  | "map" =>
    let given ← ArgumentReader.readCommand .map arguments
    return (← given.map, given)
  | _ =>
    -- Help may name one command.
    match arguments with
    | [] => .error .help
    | [topic] =>
      if ArgumentRules.start.commands.contains topic then .error .help else .error .unknownCommand
    | _ => .error .unknownCommand

end Command

/-- Reads all arguments. -/
def Invocation.read (arguments : List String) : Except UsageFault Invocation := do
  let (r, found) ← ArgumentReader.readAll .start {} arguments
  match found with
  | none =>
    let r ← r.settle
    .error (if r.given.isVoid then .nothingAsked else .missingCommand)
  | some (name, rest) =>
    let (command, inner) ← Command.read name rest
    let r ← r.settle
    let outer := r.given
    return { verbosity := (inner.verbosity.or outer.verbosity).getD 0
             config := inner.config.or outer.config
             command := command }

end ReversePolish
