/-!
# Journals

A journal is a row of records that say what was done. It is not written while the
work goes on: each kind of work has a function that gives the journal of its result.
-/

namespace ReversePolish

/-- How much a record matters, most first. -/
inductive Level where
  | error
  | warn
  | info
  | debug
  | trace
  deriving DecidableEq, Repr

namespace Level

def all : List Level := [.error, .warn, .info, .debug, .trace]

/-- The place of a level in the order of all levels. -/
def rank : Level → Nat
  | .error => 0
  | .warn => 1
  | .info => 2
  | .debug => 3
  | .trace => 4

def name : Level → String
  | .error => "ERROR"
  | .warn => "WARN"
  | .info => "INFO"
  | .debug => "DEBUG"
  | .trace => "TRACE"

/-- The level of a command that is asked so many times to say more. -/
def ofVerbosity : Nat → Level
  | 0 => .warn
  | 1 => .info
  | 2 => .debug
  | _ => .trace

end Level

structure Record where
  level : Level
  text : String
  deriving DecidableEq, Repr

def Record.line (r : Record) : String :=
  s!"{r.level.name} {r.text}"

abbrev Journal := List Record

/-- The records that matter at least as much as a level. -/
def Journal.upTo (level : Level) (journal : Journal) : Journal :=
  journal.filter (·.level.rank ≤ level.rank)

end ReversePolish
