import ReversePolish.SourceMap.Vlq

/-!
# Source maps

A source map of version 3 lists the sources that a piece of code was emitted from
and the names that occur in them, and encodes a table of mappings as one text.
-/

namespace ReversePolish

structure SourceMap where
  version : Nat
  /-- The name of the file that holds the code. -/
  file : String
  sources : List String
  /-- The texts of the sources, in the same order. -/
  sourcesContent : Option (List (Option String))
  names : List String
  /-- The encoded table. -/
  mappings : String
  deriving DecidableEq, Repr

/-- The version that this library writes and reads. -/
def SourceMap.supportedVersion : Nat := 3

/-- Why a source map cannot be read or its table not be decoded. -/
inductive MapFault where
  | version (found : Nat)
  | vlq (fault : Vlq.Fault)
  /-- A segment has a number of fields other than one, four and five. -/
  | fieldCount (count : Nat) (segment : String)
  /-- A line or a column outside the 32-bit range. -/
  | position (value : Int)
  | sourceIndex (index : Int)
  | nameIndex (index : Int)
  /-- There are more lines than a 32-bit number counts. -/
  | tooManyLines
  /-- A running sum leaves the signed 64-bit range. No answer is made of this fault: the
  work is broken off. -/
  | overflow (sum : Int)
  deriving DecidableEq, Repr

def MapFault.message : MapFault → String
  | .version found => s!"version {found} non supportée"
  | .vlq fault => fault.message
  | .fieldCount count segment => s!"segment à {count} champs: `{segment}`"
  | .position value => s!"position négative ou trop grande: {value}"
  | .sourceIndex index => s!"index de source hors bornes: {index}"
  | .nameIndex index => s!"index de name hors bornes: {index}"
  | .tooManyLines => "trop de lignes"
  | .overflow _ => "attempt to add with overflow"

end ReversePolish
