import ReversePolish.Files.Basic
import ReversePolish.Settings.Basic
import ReversePolish.SourceFault
import ReversePolish.SourceMap.Basic

/-!
# Faults

Everything that can go wrong when sources are compiled and source maps are read.
-/

namespace ReversePolish

inductive Fault where
  /-- A source text is refused. -/
  | source (name : String) (line column : Nat) (fault : SourceFault)
  /-- A file cannot be read or written. -/
  | file (path : String) (fault : FileFault)
  /-- A text is no JSON, or JSON of another shape. -/
  | json
  | mapping (fault : MapFault)
  | settings (fault : SettingsFault)
  deriving DecidableEq, Repr

/-- The fault of a source that is known under a name. -/
def PlacedFault.inFile (f : PlacedFault) (name : String) : Fault :=
  .source name f.position.line f.position.column f.fault

def Fault.message : Fault → String
  | .source name line column fault =>
    s!"File: {name}, line: {line}, col: {column}: {fault.message}"
  | .file path fault => s!"io: {path}: {fault.message}"
  | .json => "json: texte invalide"
  | .mapping fault => s!"mappings invalides: {fault.message}"
  | .settings fault => s!"config: {fault.message}"

end ReversePolish
