import ReversePolish.Program.Session
import ReversePolish.Settings.Reading
import ReversePolish.Toml.Reader

/-!
# Settings of the command

The file of settings is a TOML document with two tables, `compiler` and `run`. Each
may also be an array of its values in order. What is not given keeps its default.
-/

namespace ReversePolish

/-- What `rpnc run` takes where its arguments say nothing. -/
structure RunDefaults where
  printMode : Option PrintMode := none
  capacity : Option Nat := none
  repeatLimit : Option Nat := none
  maxSteps : Option Nat := none
  deriving DecidableEq, Repr

structure ToolSettings where
  compiler : Settings := {}
  run : RunDefaults := {}
  deriving DecidableEq, Repr

namespace Toml

/-- A number that is not negative. -/
def natural? : Toml → Option Nat
  | .integer n => if 0 ≤ n then some n.toNat else none
  | _ => none

/-- Whether a value is an array or a table with nothing in it. -/
def isVoid : Toml → Bool
  | .array [] | .table _ [] => true
  | _ => false

/-- A choice among names: the name, or a table that holds only the name, with nothing
under it. -/
def choice? : Toml → Option String
  | .text name => some name
  | .table _ [(name, value)] => if value.isVoid then some name else none
  | _ => none

/-- The fields of a table, or the items of an array or a series under the given keys. -/
def fields? (keys : List String) : Toml → Option (List (String × Toml))
  | .table _ entries => some entries
  | .array items => some (keys.zip items)
  | .series latest earlier => some (keys.zip ((latest :: earlier).reverse.map (.table .header)))
  | _ => none

end Toml

/-- The value of a setting in TOML. -/
def Literal.ofToml? : Toml → Option Literal
  | .text content => some (.text content)
  | .flag b => some (.flag b)
  | value => value.natural?.map .count

/-- The settings that a TOML value stands for. -/
def Settings.ofToml? (value : Toml) : Option Settings := do
  let fields ← value.fields? (Setting.all.map Setting.key)
  let fields ← fields.mapM fun (key, value) => (Literal.ofToml? value).map fun v => (key, v)
  ofFields? fields

namespace RunDefaults

/-- The keys of the table in order. -/
def keys : List String :=
  ["print_mode", "capacity", "repeat_limit", "max_steps"]

def set? (r : RunDefaults) (key : String) (value : Toml) : Option RunDefaults :=
  match key with
  | "print_mode" =>
    (value.choice?.bind PrintMode.ofName?).map fun mode => { r with printMode := some mode }
  | "capacity" => value.natural?.map fun n => { r with capacity := some n }
  | "repeat_limit" => value.natural?.map fun n => { r with repeatLimit := some n }
  | "max_steps" => value.natural?.map fun n => { r with maxSteps := some n }
  | _ => none

/-- The defaults that a TOML value stands for. -/
def ofToml? (value : Toml) : Option RunDefaults := do
  let fields ← value.fields? keys
  fields.foldlM (fun r (key, value) => r.set? key value) {}

end RunDefaults

namespace ToolSettings

def set? (s : ToolSettings) (key : String) (value : Toml) : Option ToolSettings :=
  match key with
  | "compiler" => (Settings.ofToml? value).map fun compiler => { s with compiler := compiler }
  | "run" => (RunDefaults.ofToml? value).map fun run => { s with run := run }
  | _ => none

/-- The settings that a TOML text stands for. -/
def read? (text : String) : Option ToolSettings := do
  let entries ← Toml.read? text
  entries.foldlM (fun s (key, value) => s.set? key value) {}

end ToolSettings

end ReversePolish
