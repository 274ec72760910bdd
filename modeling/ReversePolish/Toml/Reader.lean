import ReversePolish.Toml.Basic
import ReversePolish.Toml.Number
import ReversePolish.Toml.Token

/-!
# Reading TOML

A document is read token by token. The reader knows what may come next, the document
read so far, and, inside a value, the arrays and tables in braces that are open. What
may come next also says how the next token is to be read.
-/

namespace ReversePolish.Toml

/-! ## Words -/

/-- The name of a token that can be a key. -/
def name? : Token → Option String
  | .word letters => some (String.ofList letters)
  | .string false content => some (String.ofList content)
  | _ => none

/-- Keys have fewer names than this, and values are inside fewer brackets and braces. -/
def depthLimit : Nat := 80

/-- A dotted key with one more name. -/
def addName? (keys : List String) (token : Token) : Option (List String) :=
  if keys.length + 1 < depthLimit then (name? token).map fun name => keys ++ [name] else none

/-- The value of a single token. -/
def single? : Token → Option Toml
  | .string _ content => some (.text (String.ofList content))
  | .word letters =>
    if letters = "true".toList then some (.flag true)
    else if letters = "false".toList then some (.flag false)
    else
      ((integer? letters).map .integer).or
        (((float? letters).map .float).or ((Moment.read? letters).map .moment))
  | _ => none

/-! ## Documents -/

/-- An open array with its latest item first, or an open table in braces that waits for
the value of a dotted key. -/
inductive Frame where
  | array (items : List Toml)
  | table (entries : Entries) (keys : List String)

/-- What is around a value: the open arrays and tables, and the pair of the document
that the whole value belongs to. -/
structure Around where
  document : TomlDocument
  keys : List String
  frames : List Frame

/-- What may come next. -/
inductive Reader where
  /-- A line: a header, a pair or nothing. -/
  | line (d : TomlDocument)
  /-- The end of a line. -/
  | lineEnd (d : TomlDocument)
  /-- A name of a header, of which there may be a series. -/
  | headerName (d : TomlDocument) (inSeries : Bool) (keys : List String)
  /-- What follows a name of a header. -/
  | afterHeaderName (d : TomlDocument) (inSeries : Bool) (keys : List String)
  /-- A name of a dotted key. -/
  | pairName (d : TomlDocument) (keys : List String)
  /-- What follows a name of a dotted key. -/
  | afterPairName (d : TomlDocument) (keys : List String)
  | value (around : Around)
  /-- An item of an array, or its end. -/
  | item (around : Around) (items : List Toml)
  | afterItem (around : Around) (items : List Toml)
  /-- The first name in braces, or the closing brace. -/
  | firstField (around : Around)
  /-- A name of a dotted key in braces. -/
  | fieldName (around : Around) (entries : Entries) (keys : List String)
  | afterFieldName (around : Around) (entries : Entries) (keys : List String)
  | afterField (around : Around) (entries : Entries)

namespace Reader

/-- Hands a complete value to what is around it. -/
def deliver? (value : Toml) (around : Around) : Option Reader :=
  match around.frames with
  | [] => (around.document.addPair? around.keys value).map .lineEnd
  | .array items :: outer => some (.afterItem { around with frames := outer } (value :: items))
  | .table entries keys :: outer =>
    (addPair? keys value entries).map (.afterField { around with frames := outer })

/-- Goes one bracket or brace deeper, if that is not too deep. -/
def deeper? (around : Around) (r : Reader) : Option Reader :=
  if around.frames.length + 1 < depthLimit then some r else none

/-- A token where a value must start. -/
def start? (around : Around) : Token → Option Reader
  | .openBracket => deeper? around (.item around [])
  | .openBrace => deeper? around (.firstField around)
  | token => (single? token).bind fun value => deliver? value around

/-- A value inside one more bracket. -/
def inside (around : Around) (frame : Frame) : Around :=
  { around with frames := frame :: around.frames }

/-- How the next token is to be read. -/
def place : Reader → Place
  | .value _ | .item _ _ | .afterItem _ _ => .values
  | _ => .names

/-- Takes one token. -/
def step? : Reader → Token → Option Reader
  | .line d, .lineEnd => some (.line d)
  | .line d, .openBracket => some (.headerName d false [])
  | .line d, .openDouble => some (.headerName d true [])
  | .line d, token => (addName? [] token).map (.afterPairName d)
  | .lineEnd d, .lineEnd => some (.line d)
  | .headerName d inSeries keys, token =>
    (addName? keys token).map (.afterHeaderName d inSeries)
  | .afterHeaderName d inSeries keys, .dot => some (.headerName d inSeries keys)
  | .afterHeaderName d false keys, .closeBracket => (d.addHeader? false keys).map .lineEnd
  | .afterHeaderName d true keys, .closeDouble => (d.addHeader? true keys).map .lineEnd
  | .pairName d keys, token => (addName? keys token).map (.afterPairName d)
  | .afterPairName d keys, .dot => some (.pairName d keys)
  | .afterPairName d keys, .equals => some (.value ⟨d, keys, []⟩)
  | .value around, token => start? around token
  | .item around items, .lineEnd => some (.item around items)
  | .item around items, .closeBracket => deliver? (.array items.reverse) around
  | .item around items, token => start? (inside around (.array items)) token
  | .afterItem around items, .lineEnd => some (.afterItem around items)
  | .afterItem around items, .comma => some (.item around items)
  | .afterItem around items, .closeBracket => deliver? (.array items.reverse) around
  | .firstField around, .closeBrace => deliver? (.table .braces []) around
  | .firstField around, token => (addName? [] token).map (.afterFieldName around [])
  | .fieldName around entries keys, token =>
    (addName? keys token).map (.afterFieldName around entries)
  | .afterFieldName around entries keys, .dot => some (.fieldName around entries keys)
  | .afterFieldName around entries keys, .equals =>
    some (.value (inside around (.table entries keys)))
  | .afterField around entries, .comma => some (.fieldName around entries [])
  | .afterField around entries, .closeBrace => deliver? (.table .braces entries) around
  | _, _ => none

/-- Reads on to the end of a text. -/
def readAll? (r : Reader) (cs : List Char) : Option Reader :=
  match hRest : Token.skip cs with
  | [] => some r
  | c :: rest =>
    match hToken : Token.read? r.place c rest with
    | none => none
    | some (token, rest') =>
      have hLess : rest'.length < cs.length := by
        have hToken := Token.read?_shorter hToken
        have hSkip := Token.skip_length_le cs
        rw [hRest] at hSkip
        omega
      match r.step? token with
      | none => none
      | some r => r.readAll? rest'
termination_by cs.length
decreasing_by exact hLess

/-- The document that is read, if it may end here. -/
def document? : Reader → Option TomlDocument
  | .line d | .lineEnd d => some d
  | _ => none

end Reader

/-- The entries of the document of a text, which may start with a byte order mark. -/
def read? (text : String) : Option Entries :=
  let cs :=
    match text.toList with
    | '\ufeff' :: rest => rest
    | cs => cs
  ((Reader.line .empty).readAll? cs).bind fun r => r.document?.map (·.entries)

end ReversePolish.Toml
