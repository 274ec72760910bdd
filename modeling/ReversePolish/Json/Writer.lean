import ReversePolish.Json.Basic

/-!
# Writing JSON

JSON text in two layouts: on one line without blanks, or with one item or field a
line, indented by two blanks for each open bracket. In strings only the double
quote, the backslash and the control characters are escaped.
-/

namespace ReversePolish.Json

/-- A four-digit escape of a control character. -/
def controlEscape (c : Char) : List Char :=
  let digits := Nat.toDigits 16 c.toNat
  ['\\', 'u'] ++ List.replicate (4 - digits.length) '0' ++ digits

/-- A character of a string. -/
def escapeChar (c : Char) : List Char :=
  if c = '"' then ['\\', '"']
  else if c = '\\' then ['\\', '\\']
  else if c = '\x08' then ['\\', 'b']
  else if c = '\x0c' then ['\\', 'f']
  else if c = '\n' then ['\\', 'n']
  else if c = '\r' then ['\\', 'r']
  else if c = '\t' then ['\\', 't']
  else if c.toNat < 0x20 then controlEscape c
  else [c]

/-- A text between quotes. -/
def quote (text : String) : List Char :=
  ['"'] ++ text.toList.flatMap escapeChar ++ ['"']

/-- Where lines break. -/
inductive Layout where
  /-- Nowhere. -/
  | compact
  /-- After each bracket, item and field, with the given number of open brackets around. -/
  | indented (depth : Nat)
  deriving DecidableEq, Repr

namespace Layout

/-- The layout inside one more bracket. -/
def inner : Layout → Layout
  | .compact => .compact
  | .indented depth => .indented (depth + 1)

/-- The line break before an item, a field or a closing bracket. -/
def lineBreak : Layout → List Char
  | .compact => []
  | .indented depth => '\n' :: List.replicate (2 * depth) ' '

/-- What stands between a key and its value. -/
def colon : Layout → List Char
  | .compact => [':']
  | .indented _ => [':', ' ']

end Layout

mutual

/-- The text of a value. -/
def writeIn (layout : Layout) : Json → List Char
  | .null => "null".toList
  | .bool true => "true".toList
  | .bool false => "false".toList
  | .number literal => literal.toList
  | .string content => quote (content.getD "")
  | .array [] => ['[', ']']
  | .array (item :: items) =>
    '[' :: layout.inner.lineBreak ++ writeIn layout.inner item ++
      writeItems layout.inner items ++ layout.lineBreak ++ [']']
  | .object [] => ['{', '}']
  | .object ((key, value) :: fields) =>
    '{' :: layout.inner.lineBreak ++ quote (key.getD "") ++ layout.colon ++
      writeIn layout.inner value ++ writeFields layout.inner fields ++ layout.lineBreak ++ ['}']

/-- The text of the further items of an array. -/
def writeItems (layout : Layout) : List Json → List Char
  | [] => []
  | item :: items => ',' :: layout.lineBreak ++ writeIn layout item ++ writeItems layout items

/-- The text of the further fields of an object. -/
def writeFields (layout : Layout) : List (Option String × Json) → List Char
  | [] => []
  | (key, value) :: fields =>
    ',' :: layout.lineBreak ++ quote (key.getD "") ++ layout.colon ++ writeIn layout value ++
      writeFields layout fields

end

/-- The text of a value, on one line or indented. -/
def write (pretty : Bool) (v : Json) : String :=
  String.ofList (v.writeIn (if pretty then .indented 0 else .compact))

end ReversePolish.Json
