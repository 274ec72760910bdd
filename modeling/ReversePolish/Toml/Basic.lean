import ReversePolish.Toml.Moment

/-!
# TOML values

The values of a TOML document: texts, flags, numbers, moments, arrays and tables. A
table remembers how it came about, since that decides who may add to it: a header may
open a table that is only on the way to another, dotted keys may add to a table that
dotted keys made, and a table written in braces is complete. Headers in double brackets
make a series of tables, which grows at its end.
-/

namespace ReversePolish

/-- How a table came about. -/
inductive TableOrigin where
  /-- It has a header of its own. -/
  | header
  /-- It stands on the way to a table with a header. -/
  | passage
  /-- It stands on the way to a value with a dotted key. -/
  | dotted
  /-- It is written in braces. -/
  | braces
  deriving DecidableEq, Repr

inductive Toml where
  | text (content : String)
  | flag (b : Bool)
  | integer (n : Int)
  | float (x : Float)
  | moment (m : Moment)
  | array (items : List Toml)
  | table (origin : TableOrigin) (entries : List (String × Toml))
  /-- The tables of the headers in double brackets with one name, the latest first. -/
  | series (latest : List (String × Toml)) (earlier : List (List (String × Toml)))
  deriving Repr

namespace Toml

/-- The keys of a table with their values, in the order of their first use. -/
abbrev Entries := List (String × Toml)

/-- Gives a key a value. -/
def put (entries : Entries) (key : String) (value : Toml) : Entries :=
  match entries with
  | [] => [(key, value)]
  | (other, old) :: rest =>
    if other = key then (key, value) :: rest else (other, old) :: put rest key value

/-- Changes the table at the end of a path. Tables that are missing on the way come about
as given, and those that are there have to let one in. A series lets one into its latest
table. -/
def descend? (missing : TableOrigin) (letsIn : TableOrigin → Bool)
    (change? : TableOrigin → Entries → Option Entries) :
    (path : List String) → TableOrigin → Entries → Option Entries
  | [], origin, entries => change? origin entries
  | key :: path, _, entries => do
    let child ←
      match entries.lookup key with
      | none => (descend? missing letsIn change? path missing []).map (.table missing)
      | some (.table there inner) =>
        if letsIn there then (descend? missing letsIn change? path there inner).map (.table there)
        else none
      | some (.series latest earlier) =>
        (descend? missing letsIn change? path .header latest).map (.series · earlier)
      | some _ => none
    some (put entries key child)

/-- Adds a value under a key that is not in use. -/
def addValue? (key : String) (value : Toml) (entries : Entries) : Option Entries :=
  if (entries.lookup key).isSome then none else some (put entries key value)

/-- Adds a value under a dotted key. A key with more than one name adds to a table that
dotted keys made; on the way there it passes no table that is written out. -/
def addPair? (keys : List String) (value : Toml) (entries : Entries) : Option Entries :=
  match keys.getLast?, keys.dropLast with
  | none, _ => none
  | some key, [] => addValue? key value entries
  | some key, path =>
    descend? .dotted (fun there => there == .dotted || there == .passage)
      (fun origin inner => if origin = .dotted then addValue? key value inner else none)
      path .header entries

/-- Opens the table of a header, which is new or stood on the way to others. -/
def openTable? (key : String) (entries : Entries) : Option Entries :=
  match entries.lookup key with
  | none => some (put entries key (.table .header []))
  | some (.table .passage inner) => some (put entries key (.table .header inner))
  | some _ => none

/-- Opens one more table of a series, which may be its first. -/
def openItem? (key : String) (entries : Entries) : Option Entries :=
  match entries.lookup key with
  | none => some (put entries key (.series [] []))
  | some (.series latest earlier) => some (put entries key (.series [] (latest :: earlier)))
  | some _ => none

end Toml

/-- A document as read so far: its table, and the header that the next pairs belong to. -/
structure TomlDocument where
  entries : Toml.Entries
  header : List String
  deriving Repr

namespace TomlDocument

def empty : TomlDocument := ⟨[], []⟩

/-- Changes the table at the end of a path of headers. -/
def change? (d : TomlDocument) (path : List String)
    (change? : Toml.Entries → Option Toml.Entries) : Option TomlDocument :=
  (Toml.descend? .passage (· != TableOrigin.braces) (fun _ => change?) path .header
    d.entries).map fun entries => { d with entries := entries }

/-- Adds a pair to the table of the present header. -/
def addPair? (d : TomlDocument) (keys : List String) (value : Toml) : Option TomlDocument :=
  d.change? d.header (Toml.addPair? keys value)

/-- Starts the table of a header, which may belong to a series. -/
def addHeader? (d : TomlDocument) (inSeries : Bool) (keys : List String) :
    Option TomlDocument :=
  match keys.getLast? with
  | none => none
  | some key =>
    { d with header := keys }.change? keys.dropLast
      (if inSeries then Toml.openItem? key else Toml.openTable? key)

end TomlDocument

end ReversePolish
