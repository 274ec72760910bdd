/-!
# Mappings

A mapping ties a place in the emitted code to the place and the name of the source
term that it was emitted for. A table of mappings is what a source map encodes.
-/

namespace ReversePolish

/-- A line, counted from 1, and a column, counted from 0 in UTF-16 units. Neither has a bound
here; they are what 32-bit counters hold as long as the code and its sources have less than
2^32 lines and less than 2^32 UTF-16 units on each. -/
structure LineColumn where
  line : Nat
  column : Nat
  deriving DecidableEq, Repr

def LineColumn.text (p : LineColumn) : String :=
  s!"{p.line}:{p.column}"

/-- From a place in the emitted code to a term of a source. -/
structure Mapping where
  /-- The place in the emitted code. -/
  generated : LineColumn
  /-- The place of the term. -/
  origin : LineColumn
  /-- The name of the source. -/
  source : String
  /-- The name of the term. -/
  name : String
  deriving DecidableEq, Repr

def Mapping.text (m : Mapping) : String :=
  s!"{m.generated.text} -> {m.source}:{m.origin.text} `{m.name}`"

end ReversePolish
