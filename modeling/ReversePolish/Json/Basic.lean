/-!
# JSON values

The values that a JSON text stands for. Numbers keep their literal text, since the
readers of this library accept integer literals only. A string whose escapes name
half of a surrogate pair stands for no text; it may occur where a value is skipped.
-/

namespace ReversePolish

inductive Json where
  | null
  | bool (b : Bool)
  | number (literal : String)
  | string (content : Option String)
  | array (items : List Json)
  | object (fields : List (Option String × Json))
  deriving Repr

namespace Json

/-- The string that stands for a text. -/
def ofText (text : String) : Json :=
  .string (some text)

/-- The text of a string. -/
def text? : Json → Option String
  | .string content => content
  | _ => none

def bool? : Json → Option Bool
  | .bool b => some b
  | _ => none

/-- The value of an integer literal without sign, at most a given number. -/
def natural? (largest : Nat) : Json → Option Nat
  | .number literal =>
    let digits := literal.toList
    if digits.all Char.isDigit then
      let value := digits.foldl (fun value c => 10 * value + (c.toNat - '0'.toNat)) 0
      if value ≤ largest then some value else none
    else none
  | _ => none

/-- The items of an array, each read in the same way. -/
def list? {α : Type} (read : Json → Option α) : Json → Option (List α)
  | .array items => items.mapM read
  | _ => none

/-- A value that may be null. -/
def nullable? {α : Type} (read : Json → Option α) : Json → Option (Option α)
  | .null => some none
  | value => (read value).map some

/-- The fields of an object whose keys are all texts. -/
def fields? : Json → Option (List (String × Json))
  | .object fields => fields.mapM fun (key, value) => key.map fun key => (key, value)
  | _ => none

end Json

end ReversePolish
