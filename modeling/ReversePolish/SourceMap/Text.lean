import ReversePolish.Fault
import ReversePolish.Json.Reader
import ReversePolish.Json.Writer

/-!
# Source maps as JSON

A source map is written as an object with its fields in a fixed order. It is read
from such an object, whatever the order of the fields and whatever other fields
there are, or from an array of the six values in that order.
-/

namespace ReversePolish.SourceMap

/-- The object of a source map. -/
def toJson (map : SourceMap) : Json :=
  let texts (items : List String) := Json.array (items.map .ofText)
  let contents :=
    match map.sourcesContent with
    | none => []
    | some contents =>
      [(some "sourcesContent",
        Json.array (contents.map fun content => content.elim .null .ofText))]
  .object ([(some "version", .number (toString map.version)), (some "file", .ofText map.file),
    (some "sources", texts map.sources)] ++ contents ++
    [(some "names", texts map.names), (some "mappings", .ofText map.mappings)])

/-- The text of a source map. -/
def write (map : SourceMap) (pretty : Bool) : String :=
  map.toJson.write pretty

/-- The source map with the given values. -/
def ofValues? (version file sources sourcesContent names mappings : Json) :
    Option SourceMap := do
  let version ← version.natural? 0xFFFFFFFF
  let file ← file.text?
  let sources ← sources.list? Json.text?
  let sourcesContent ← sourcesContent.nullable? (Json.list? (Json.nullable? Json.text?))
  let names ← names.list? Json.text?
  let mappings ← mappings.text?
  return ⟨version, file, sources, sourcesContent, names, mappings⟩

/-- The value of a field. -/
inductive Field where
  | missing
  | once (value : Json)
  | repeated

/-- Looks a field up. -/
def field (fields : List (String × Json)) (key : String) : Field :=
  match fields.filter (·.1 == key) with
  | [] => .missing
  | [(_, value)] => .once value
  | _ => .repeated

/-- The value of a field that stands exactly once. -/
def required? (fields : List (String × Json)) (key : String) : Option Json :=
  match field fields key with
  | .once value => some value
  | _ => none

/-- The value of a field that stands at most once; a missing one is null. -/
def optional? (fields : List (String × Json)) (key : String) : Option Json :=
  match field fields key with
  | .once value => some value
  | .missing => some .null
  | .repeated => none

/-- The source map that a JSON value stands for. -/
def ofJson? : Json → Option SourceMap
  | .array [version, file, sources, sourcesContent, names, mappings] =>
    ofValues? version file sources sourcesContent names mappings
  | value => do
    let fields ← value.fields?
    let version ← required? fields "version"
    let file ← required? fields "file"
    let sources ← required? fields "sources"
    let sourcesContent ← optional? fields "sourcesContent"
    let names ← required? fields "names"
    let mappings ← required? fields "mappings"
    ofValues? version file sources sourcesContent names mappings

/-- Reads a source map of the supported version. -/
def read (text : String) : Except Fault SourceMap :=
  match (Json.read? text).bind ofJson? with
  | none => .error .json
  | some map =>
    if map.version = supportedVersion then .ok map
    else .error (.mapping (.version map.version))

end ReversePolish.SourceMap
