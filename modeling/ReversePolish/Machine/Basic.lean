import ReversePolish.Machine.Number
import ReversePolish.Term.Class

/-!
# The stack machine

A machine holds a bounded stack of numbers. Operations on it either give a result or
a fault, and in both cases the machine that is left: operands that were popped before
a fault stay popped. An operation takes its right operand from the top.

A print displays the top and leaves it there, or pops a number of repetitions and a
value and displays the value that many times.
-/

namespace ReversePolish

inductive PrintMode where
  /-- Display the top. -/
  | peek
  /-- Pop the number of repetitions, then the value. -/
  | repetition
  deriving DecidableEq, Repr

namespace PrintMode

def name : PrintMode → String
  | .peek => "peek"
  | .repetition => "repeat"

def ofName? (name : String) : Option PrintMode :=
  [peek, repetition].find? (·.name == name)

end PrintMode

/-- Why a machine stops. -/
inductive MachineFault where
  | emptyStack
  | overflow (capacity : Nat)
  | divisionByZero
  /-- Only integers are displayed. -/
  | notIntegral (value : Float)
  | notPositive (repetitions : Float)
  | tooManyRepetitions (repetitions : Float) (limit : Nat)

def MachineFault.message : MachineFault → String
  | .emptyStack => "impossible de dépiler : pile vide"
  | .overflow capacity => s!"débordement de pile (capacité {capacity})"
  | .divisionByZero => "division par 0"
  | .notIntegral value =>
    s!"la valeur affichée doit être entière, reçu {Number.inMessage.text value}"
  | .notPositive repetitions =>
    s!"le nombre de répétitions doit être > 0, reçu {Number.inMessage.text repetitions}"
  | .tooManyRepetitions repetitions limit =>
    s!"trop de répétitions : {Number.inMessage.text repetitions} (limite {limit})"

structure Machine where
  /-- The stack, from the top to the bottom. -/
  stack : List Float := []
  capacity : Nat := 1024
  printMode : PrintMode := .peek
  /-- How often a print may repeat a value. -/
  repeatLimit : Nat := 10000

/-- An operation and its operands. -/
structure Calculation where
  left : Float
  right : Float
  result : Float

/-- The result of an operation of two numbers. -/
def Operator.apply (op : Operator) (left right : Float) : Except MachineFault Float :=
  match op with
  | .add => .ok (left + right)
  | .subtract => .ok (left - right)
  | .multiply => .ok (left * right)
  | .divide => if right == 0.0 then .error .divisionByZero else .ok (left / right)

namespace Machine

/-- What a step gives, and the machine that is left. -/
abbrev Step (α : Type) := Except MachineFault α × Machine

/-- Goes on with the result of a step. -/
def andThen {α β : Type} (step : Step α) (next : α → Machine → Step β) : Step β :=
  match step with
  | (.ok a, m) => next a m
  | (.error fault, m) => (.error fault, m)

def push (m : Machine) (value : Float) : Step Unit :=
  if m.capacity ≤ m.stack.length then (.error (.overflow m.capacity), m)
  else (.ok (), { m with stack := value :: m.stack })

def pop (m : Machine) : Step Float :=
  match m.stack with
  | [] => (.error .emptyStack, m)
  | value :: stack => (.ok value, { m with stack := stack })

/-- The value on top, which stays there. -/
def top (m : Machine) : Except MachineFault Float :=
  match m.stack with
  | [] => .error .emptyStack
  | value :: _ => .ok value

/-- Replaces two values by the result of an operation. -/
def calculate (m : Machine) (op : Operator) : Step Calculation :=
  andThen m.pop fun right m =>
  andThen m.pop fun left m =>
  match op.apply left right with
  | .error fault => (.error fault, m)
  | .ok result => andThen (m.push result) fun _ m => (.ok ⟨left, right, result⟩, m)

/-! ## Printing -/

/-- A value that may be displayed. -/
def integral (value : Float) : Except MachineFault Float :=
  if value.floor == value then .ok value else .error (.notIntegral value)

/-- Adds to a count how many times one can be taken from a number until nothing is left,
if there is room for so many. A part of one counts as one. -/
def countDown (count : Nat) (left : Float) : (room : Nat) → Option Nat
  | 0 => if left > 0.0 then none else some count
  | room + 1 => if left > 0.0 then countDown (count + 1) (left - 1.0) room else some count

/-- The number of copies that a print displays. -/
def copies (limit : Nat) (repetitions : Float) : Except MachineFault Nat :=
  if repetitions.isNaN || repetitions ≤ 0.0 then .error (.notPositive repetitions)
  else
    match countDown 0 repetitions limit with
    | some count => .ok count
    | none => .error (.tooManyRepetitions repetitions limit)

/-- Displays the top. -/
def printTop (m : Machine) : Step (List String) :=
  match m.top.bind integral with
  | .error fault => (.error fault, m)
  | .ok value => (.ok [Number.displayed.text value], m)

/-- Pops a number of repetitions and a value, and displays the value that many times. -/
def printRepeated (m : Machine) : Step (List String) :=
  andThen m.pop fun repetitions m =>
  match copies m.repeatLimit repetitions with
  | .error fault => (.error fault, m)
  | .ok count =>
    andThen m.pop fun value m =>
    match integral value with
    | .error fault => (.error fault, m)
    | .ok value => (.ok (List.replicate count (Number.displayed.text value)), m)

/-- The lines that a print displays. -/
def print (m : Machine) : Step (List String) :=
  match m.printMode with
  | .peek => m.printTop
  | .repetition => m.printRepeated

end Machine

/-- The record of an operation. -/
def Calculation.text (c : Calculation) : String :=
  let number := Number.inMessage.text
  s!"{number c.left} ∘ {number c.right} = {number c.result}"

end ReversePolish
