import ReversePolish.Mapping
import ReversePolish.SourceMap.Basic
import ReversePolish.Text.Split

/-!
# The encoded table

The table of a source map is a text in which a semicolon ends a line of the code and
a comma separates the segments of a line. A segment has five fields: the column in
the code, the source, the line and the column in the source, and the name. Each
field is written as its difference from the segment before; the column in the code
starts again at zero on each line. A segment may lack the name, or everything but
the column.

The decoder adds the differences up in the signed 64-bit range.
-/

namespace ReversePolish

/-- The five fields of a segment, with lines counted from 0 and with sources and names
as indices. -/
structure Segment where
  column : Int
  source : Int
  originLine : Int
  originColumn : Int
  name : Int
  deriving DecidableEq, Repr

namespace Segment

/-- What the first segment is compared with. -/
def zero : Segment := ⟨0, 0, 0, 0, 0⟩

/-- What the first segment of a further line is compared with. -/
def atLineStart (s : Segment) : Segment :=
  { s with column := 0 }

/-- The fields as differences from the segment before. -/
def deltas (s previous : Segment) : List Int :=
  [s.column - previous.column, s.source - previous.source, s.originLine - previous.originLine,
    s.originColumn - previous.originColumn, s.name - previous.name]

/-- The text of a segment behind another one. -/
def encode (s previous : Segment) : List Char :=
  (s.deltas previous).flatMap Vlq.encode

end Segment

namespace SourceMap

/-! ## Encoding -/

/-- A table in which no mapping follows an equal one. -/
def withoutRepeats : List Mapping → List Mapping
  | [] => []
  | [m] => [m]
  | m :: m' :: table =>
    if m = m' then withoutRepeats (m' :: table) else m :: withoutRepeats (m' :: table)

/-- The texts of a list, each once, in the order of their first use. -/
def distinct (texts : List String) : List String :=
  texts.foldl (fun found text => if text ∈ found then found else found ++ [text]) []

/-- The segment of a mapping, with the given sources and names. -/
def segment (sources names : List String) (m : Mapping) : Segment where
  column := m.generated.column
  source := sources.idxOf m.source
  originLine := (m.origin.line - 1 : Nat)
  originColumn := m.origin.column
  name := names.idxOf m.name

/-- Where the encoder stands: the line, whether a segment stands on it already, and the
segment to compare the next one with. -/
structure Pen where
  line : Nat
  started : Bool
  previous : Segment
  deriving DecidableEq, Repr

/-- The segments behind a pen, each with its line. A line that lies behind the pen's
counts as the pen's own. -/
def encodeFrom (pen : Pen) : List (Nat × Segment) → List Char
  | [] => []
  | (line, s) :: rest =>
    if pen.line < line then
      List.replicate (line - pen.line) ';' ++ s.encode pen.previous.atLineStart ++
        encodeFrom ⟨line, true, s⟩ rest
    else
      (if pen.started then [','] else []) ++ s.encode pen.previous ++
        encodeFrom ⟨pen.line, true, s⟩ rest

/-- The source map of a file with the given table. -/
def ofMappings (file : String) (table : List Mapping) : SourceMap :=
  let table := withoutRepeats table
  let sources := distinct (table.map Mapping.source)
  let names := distinct (table.map Mapping.name)
  let segments := table.map fun m => (m.generated.line, segment sources names m)
  { version := supportedVersion
    file := file
    sources := sources
    sourcesContent := none
    names := names
    mappings := String.ofList (encodeFrom ⟨1, false, .zero⟩ segments) }

/-- A source map that also holds the texts of its sources. -/
def withSourcesContent (map : SourceMap) (contents : List (Option String)) : SourceMap :=
  { map with sourcesContent := some contents }

/-! ## Decoding -/

/-- The numbers of the signed 64-bit range. -/
def IsWord (value : Int) : Prop :=
  -0x8000000000000000 ≤ value ∧ value ≤ 0x7FFFFFFFFFFFFFFF

instance (value : Int) : Decidable (IsWord value) :=
  inferInstanceAs (Decidable (_ ∧ _))

/-- A sum in the signed 64-bit range. -/
def addWord (a b : Int) : Except MapFault Int :=
  if IsWord (a + b) then .ok (a + b) else .error (.overflow (a + b))

/-- A line or a column in the 32-bit range. -/
def coordinate (value : Int) : Except MapFault Nat :=
  if 0 ≤ value ∧ value < 0x100000000 then .ok value.toNat else .error (.position value)

/-- The item of a list at an index. -/
def itemAt? (items : List String) (index : Int) : Option String :=
  if index < 0 then none else items[index.toNat]?

/-- The fields of a segment. -/
def fields (text : List Char) : Except MapFault (List Int) :=
  let reading := Vlq.decodeAll text
  match reading.fault with
  | some fault => .error (.vlq fault)
  | none => .ok reading.values

/-- The mapping of a segment on a line of the code. Its name is already looked up. -/
def mapping (map : SourceMap) (line : Nat) (s : Segment) (name : String) :
    Except MapFault Mapping := do
  let column ← coordinate s.column
  let originLine ← addWord s.originLine 1
  let originLine ← coordinate originLine
  let originColumn ← coordinate s.originColumn
  match itemAt? map.sources s.source with
  | some source => .ok ⟨⟨line, column⟩, ⟨originLine, originColumn⟩, source, name⟩
  | none => .error (.sourceIndex s.source)

/-- The segment at a column that lies behind another one by the given differences. Its name
is still the other one's. -/
def placeBehind (previous : Segment) (column source originLine originColumn : Int) :
    Except MapFault Segment := do
  let source ← addWord previous.source source
  let originLine ← addWord previous.originLine originLine
  let originColumn ← addWord previous.originColumn originColumn
  .ok ⟨column, source, originLine, originColumn, previous.name⟩

/-- Reads a segment behind another one: its fields, and its mapping unless it has a
column only. -/
def decodeSegment (map : SourceMap) (line : Nat) (previous : Segment) (text : List Char) :
    Except MapFault (Segment × Option Mapping) := do
  let found ← fields text
  let column ← addWord previous.column (found.headD 0)
  match found with
  | [_] => .ok ({ previous with column }, none)
  | [_, source, originLine, originColumn] =>
    let s ← placeBehind previous column source originLine originColumn
    let m ← map.mapping line s ""
    .ok (s, some m)
  | [_, source, originLine, originColumn, name] =>
    let s ← placeBehind previous column source originLine originColumn
    let index ← addWord previous.name name
    match itemAt? map.names index with
    | none => .error (.nameIndex index)
    | some name =>
      let s := { s with name := index }
      let m ← map.mapping line s name
      .ok (s, some m)
  | found => .error (.fieldCount found.length (String.ofList text))

/-- Reads the segments of a line, and says with what a further line is compared. -/
def decodeLine (map : SourceMap) (line : Nat) (previous : Segment) :
    List (List Char) → Except MapFault (Segment × List Mapping)
  | [] => .ok (previous.atLineStart, [])
  | text :: texts => do
    let (s, found) ← map.decodeSegment line previous text
    let (last, table) ← map.decodeLine line s texts
    .ok (last, found.toList ++ table)

/-- Reads lines, of which the first has the given number. -/
def decodeLines (map : SourceMap) (line : Nat) (previous : Segment) :
    List (List Char) → Except MapFault (List Mapping)
  | [] => .ok []
  | text :: texts =>
    if line < 0x100000000 then do
      let segments := (Text.split ',' text).filter (!·.isEmpty)
      let (last, table) ← map.decodeLine line previous segments
      let tables ← map.decodeLines (line + 1) last texts
      .ok (table ++ tables)
    else .error .tooManyLines

/-- The table of a source map. -/
def decode (map : SourceMap) : Except MapFault (List Mapping) :=
  map.decodeLines 1 .zero (Text.split ';' map.mappings.toList)

/-! ## Looking up -/

/-- The later of two mappings unless its column is smaller. -/
def rightmost (best : Option Mapping) (m : Mapping) : Option Mapping :=
  match best with
  | none => some m
  | some b => if b.generated.column ≤ m.generated.column then some m else some b

/-- The mapping of a table that covers a place of the code: the last with the greatest
column, among those on the line that do not start to the right of the place. -/
def covering? (table : List Mapping) (place : LineColumn) : Option Mapping :=
  (table.filter fun m =>
    m.generated.line = place.line && m.generated.column ≤ place.column).foldl rightmost none

/-- The mapping of a source map that covers a place of the code. -/
def lookup (map : SourceMap) (place : LineColumn) : Except MapFault (Option Mapping) :=
  map.decode.map (covering? · place)

end SourceMap

end ReversePolish
