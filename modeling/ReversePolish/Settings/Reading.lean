import ReversePolish.Decimal.Reading
import ReversePolish.Json.Reader
import ReversePolish.Settings.Basic
import ReversePolish.Text.Escaped

/-!
# Where settings come from

Settings are read as fields by key, or as a sequence in the order of all settings;
what is not given keeps its default. Later layers change some of them: variables of
the environment, and choices made for one run.
-/

namespace ReversePolish

namespace Literal

/-- The value of a setting in JSON. -/
def ofJson? : Json → Option Literal
  | .bool b => some (.flag b)
  | .string content => content.map .text
  | value => (value.natural? Decimal.largestSize).map .count

/-- The text of a value in a journal. -/
def journalText : Literal → String
  | .text content => Text.quoted content
  | .flag true => "true"
  | .flag false => "false"
  | .count n => toString n

end Literal

namespace Settings

/-- Settings with fields by key. Each key is known and stands once. -/
def ofFields? (fields : List (String × Literal)) : Option Settings :=
  if (fields.map Prod.fst).Nodup then
    fields.foldlM (fun s (key, value) => (Setting.ofKey? key).bind fun setting =>
      s.set? setting value) {}
  else none

/-- The settings that a JSON value stands for: an object, or an array of the values in
order, of which the last may be missing. -/
def ofJson? (value : Json) : Option Settings := do
  let fields ←
    match value with
    | .array items =>
      if items.length ≤ Setting.all.length then some ((Setting.all.map Setting.key).zip items)
      else none
    | value => value.fields?
  let fields ← fields.mapM fun (key, value) => (Literal.ofJson? value).map fun v => (key, v)
  ofFields? fields

/-- The settings that a JSON text stands for. -/
def read? (text : String) : Option Settings :=
  (Json.read? text).bind ofJson?

/-! ## Layers -/

/-- The words for yes and no. -/
def flagWord? (text : String) : Option Bool :=
  let word := String.ofList ((Text.trim text.toList).map Char.toLower)
  if ["1", "true", "yes", "y", "on"].contains word then some true
  else if ["0", "false", "no", "n", "off"].contains word then some false
  else none

/-- The value that a variable gives to a setting whose present value is of a certain kind. -/
def variableValue? (present : Literal) (text : String) : Option Literal :=
  match present with
  | .text _ => some (.text text)
  | .flag _ => (flagWord? text).map .flag
  | .count _ => (Decimal.readSize (Text.trim text.toList)).toOption.map .count

/-- Takes over what the environment says. Variables without a usable value are ignored. -/
def withEnvironment (s : Settings) (lookup : String → Option String) : Settings :=
  Setting.all.foldl (fun s setting =>
    match (lookup setting.environmentName).bind (variableValue? (s.get setting)) with
    | some value => s.set setting value
    | none => s) s

/-- Takes over the choices made for one run. -/
def withChoices (s : Settings) (choices : List (Setting × Literal)) : Settings :=
  choices.foldl (fun s (setting, value) => s.set setting value) s

/-- The text of all settings in a journal. -/
def journalText (s : Settings) : String :=
  let fields := Setting.all.map fun setting => s!"{setting.key}: {(s.get setting).journalText}"
  let all := ", ".intercalate fields
  s!"Config \x7b {all} \x7d"

end Settings

end ReversePolish
