import ReversePolish.Journal
import ReversePolish.Program.Reading

/-!
# Running programs

A session holds a machine, the variables that are bound and the number of
instructions run so far; programs are run in it one after the other. A run is a row
of events. What a program displays and what a journal tells of it are both read off
its events.
-/

namespace ReversePolish

/-! ## Bindings -/

/-- Variables with their values, sorted by name, each once. -/
abbrev Bindings := List (String × Float)

namespace Bindings

def empty : Bindings := []

/-- Binds a variable. -/
def insert (bindings : Bindings) (name : String) (value : Float) : Bindings :=
  match bindings with
  | [] => [(name, value)]
  | (other, old) :: rest =>
    if name < other then (name, value) :: (other, old) :: rest
    else if name = other then (name, value) :: rest
    else (other, old) :: insert rest name value

def find? (bindings : Bindings) (name : String) : Option Float :=
  bindings.lookup name

end Bindings

/-! ## Sessions -/

/-- What can be chosen about a session. -/
structure RunOptions where
  printMode : PrintMode := .peek
  capacity : Nat := 1024
  repeatLimit : Nat := 10000
  /-- How many instructions may be run. -/
  maxSteps : Option Nat := some 1000000
  deriving DecidableEq, Repr

structure Session where
  machine : Machine
  bindings : Bindings
  /-- The number of instructions run. -/
  steps : Nat
  maxSteps : Option Nat

/-- Something that happens in a run. -/
inductive Event where
  | entered (placed : PlacedInstruction)
  | calculated (calculation : Calculation)
  | displayed (line : String)
  /-- The program has come to its end. -/
  | finished (steps : Nat) (stack : List Float)

namespace Session

def ofOptions (options : RunOptions) : Session where
  machine :=
    { capacity := options.capacity, printMode := options.printMode,
      repeatLimit := options.repeatLimit }
  bindings := .empty
  steps := 0
  maxSteps := options.maxSteps

/-- Binds a variable. -/
def bind (s : Session) (name : String) (value : Float) : Session :=
  { s with bindings := s.bindings.insert name value }

/-- Binds variables in order. -/
def bindAll (s : Session) (bindings : List (String × Float)) : Session :=
  bindings.foldl (fun s (name, value) => s.bind name value) s

/-- The stack from the bottom to the top. -/
def stack (s : Session) : List Float :=
  s.machine.stack.reverse

/-- What happens at an instruction, and the session that is left. -/
abbrev Step := Except RunCause (List Event) × Session

/-- Makes a step of the machine a step of the session. -/
def lift {α : Type} (s : Session) (step : Machine.Step α) (events : α → List Event) : Step :=
  match step with
  | (.ok a, machine) => (.ok (events a), { s with machine := machine })
  | (.error fault, machine) => (.error (.machine fault), { s with machine := machine })

/-- Asks the machine to do something. -/
def call (s : Session) : Method → Step
  | .calculate op => s.lift (s.machine.calculate op) fun c => [.calculated c]
  | .print => s.lift s.machine.print fun lines => lines.map .displayed
  | .pop => s.lift s.machine.pop fun _ => []

/-- Follows an instruction. -/
def perform (s : Session) : Instruction → Step
  | .takeModule | .nameMachine _ => (.ok [], s)
  | .push (.number value) => s.lift (s.machine.push value) fun _ => []
  | .push (.reference name) =>
    match s.bindings.find? name with
    | none => (.error (.unbound name), s)
    | some value => s.lift (s.machine.push value) fun _ => []
  | .call method => s.call method
  | .bind name =>
    match s.machine.pop with
    | (.ok value, machine) => (.ok [], { s with machine := machine }.bind name value)
    | (.error fault, machine) => (.error (.machine fault), { s with machine := machine })

/-- The limit that one more instruction would pass. -/
def limitReached? (s : Session) : Option Nat :=
  s.maxSteps.filter (· < s.steps + 1)

end Session

/-- What happened in a run, the fault that ended it, and the session that is left. -/
structure Run where
  events : List Event
  fault : Option RunFault
  session : Session

/-- Runs a program. An instruction beyond the limit is counted and not followed. -/
def Session.run (s : Session) : Program → Run
  | [] => ⟨[.finished s.steps s.stack], none, s⟩
  | placed :: program =>
    let counted := { s with steps := s.steps + 1 }
    match s.limitReached? with
    | some limit => ⟨[], some ⟨placed.line, .stepLimit limit⟩, counted⟩
    | none =>
      match counted.perform placed.instruction with
      | (.error cause, left) => ⟨[.entered placed], some ⟨placed.line, cause⟩, left⟩
      | (.ok events, left) =>
        let run := left.run program
        { run with events := .entered placed :: events ++ run.events }

/-- Reads code and runs it in a session with the given bindings. -/
def execute (options : RunOptions) (bindings : List (String × Float)) (code : String) :
    Except RunFault Run :=
  (Program.read code).map ((Session.ofOptions options).bindAll bindings).run

namespace Event

/-- The line that is displayed. -/
def displayed? : Event → Option String
  | .displayed line => some line
  | _ => none

/-- The record of an event. -/
def record? : Event → Option Record
  | .entered placed =>
    some ⟨.trace, s!"ligne {placed.line}: {placed.instruction.journalText}"⟩
  | .calculated calculation => some ⟨.trace, calculation.text⟩
  | .displayed _ => none
  | .finished steps stack =>
    some ⟨.debug, s!"{steps} instruction(s) exécutée(s), pile = {Number.listText stack}"⟩

end Event

namespace Run

/-- The lines that the program displayed. -/
def lines (r : Run) : List String :=
  r.events.filterMap Event.displayed?

/-- What the program displayed, each line ended by a newline. -/
def output (r : Run) : String :=
  String.join (r.lines.map (· ++ "\n"))

def journal (r : Run) : Journal :=
  r.events.filterMap Event.record?

end Run

end ReversePolish
