import ReversePolish.Json.Token

/-!
# Reading JSON

A JSON text is read token by token. What the reader still owes is a stack: the
arrays and objects that are open, each with the part it has received. Depth of
nesting is a matter of the stack's length alone.
-/

namespace ReversePolish.Json

/-- An open array or object, with its latest part first. An open object here is one
that waits for the value of a key. -/
inductive Frame where
  | array (items : List Json)
  | object (fields : List (Option String × Json)) (key : Option String)

/-- What may come next, with the open arrays and objects around it. -/
inductive Reader where
  /-- A value. -/
  | value (outer : List Frame)
  /-- The first item of an array, or its end. -/
  | firstItem (outer : List Frame)
  /-- A comma or the end of an array. -/
  | afterItem (items : List Json) (outer : List Frame)
  /-- The first key of an object, or its end. -/
  | firstKey (outer : List Frame)
  /-- A further key of an object. -/
  | nextKey (fields : List (Option String × Json)) (outer : List Frame)
  /-- The colon behind a key. -/
  | afterKey (fields : List (Option String × Json)) (key : Option String) (outer : List Frame)
  /-- A comma or the end of an object. -/
  | afterField (fields : List (Option String × Json)) (outer : List Frame)
  /-- Nothing: the text is complete. -/
  | done (value : Json)

namespace Reader

/-- Hands a complete value to what is open around it. -/
def deliver (v : Json) : List Frame → Reader
  | [] => .done v
  | .array items :: outer => .afterItem (v :: items) outer
  | .object fields key :: outer => .afterField ((key, v) :: fields) outer

/-- A token where a value must start. -/
def start? (outer : List Frame) : Token → Option Reader
  | .openBracket => some (.firstItem outer)
  | .openBrace => some (.firstKey outer)
  | .null => some (deliver .null outer)
  | .bool b => some (deliver (.bool b) outer)
  | .number literal => some (deliver (.number literal) outer)
  | .string content => some (deliver (.string content) outer)
  | _ => none

/-- Takes one token. -/
def step? : Reader → Token → Option Reader
  | .value outer, token => start? outer token
  | .firstItem outer, .closeBracket => some (deliver (.array []) outer)
  | .firstItem outer, token => start? (.array [] :: outer) token
  | .afterItem items outer, .comma => some (.value (.array items :: outer))
  | .afterItem items outer, .closeBracket => some (deliver (.array items.reverse) outer)
  | .firstKey outer, .closeBrace => some (deliver (.object []) outer)
  | .firstKey outer, .string key => some (.afterKey [] key outer)
  | .nextKey fields outer, .string key => some (.afterKey fields key outer)
  | .afterKey fields key outer, .colon => some (.value (.object fields key :: outer))
  | .afterField fields outer, .comma => some (.nextKey fields outer)
  | .afterField fields outer, .closeBrace => some (deliver (.object fields.reverse) outer)
  | _, _ => none

end Reader

/-- The value of a row of tokens. -/
def ofTokens? (tokens : List Token) : Option Json :=
  match tokens.foldlM Reader.step? (.value []) with
  | some (.done v) => some v
  | _ => none

/-- The value of a JSON text. -/
def read? (text : String) : Option Json :=
  (Token.readAll? text.toList).bind ofTokens?

end ReversePolish.Json
