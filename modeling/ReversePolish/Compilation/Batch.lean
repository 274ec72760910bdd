import ReversePolish.Compilation.Basic
import ReversePolish.SourceMap.Text

/-!
# Compiling files

Each file of a batch is compiled on its own and gives one outcome. A batch goes on
after a failure unless its settings say that it stops there.
-/

namespace ReversePolish

/-- What was written for a source file. -/
structure Artifacts where
  input : String
  paths : ArtifactPaths
  /-- The size of the table of mappings. -/
  mappings : Nat
  deriving DecidableEq, Repr

/-- What became of one file. -/
structure FileOutcome where
  input : String
  /-- The text of the file, if it could be read. -/
  text : Option String
  result : Except Fault Artifacts

namespace FileOutcome

def succeeded (o : FileOutcome) : Bool :=
  match o.result with
  | .ok _ => true
  | .error _ => false

def artifacts? (o : FileOutcome) : Option Artifacts :=
  match o.result with
  | .ok artifacts => some artifacts
  | .error _ => none

/-- The file with its fault, if there was one. -/
def failure? (o : FileOutcome) : Option (String × Fault) :=
  match o.result with
  | .ok _ => none
  | .error fault => some (o.input, fault)

/-- The journal of one file of a batch. -/
def journal (s : Settings) (o : FileOutcome) : Journal :=
  (o.text.elim [] (Compiled.journal s o.input)) ++
    match o.result with
    | .ok a =>
      [⟨.debug, s!"{a.input}: {a.mappings} mapping(s) → {a.paths.map}"⟩,
        ⟨.info, s!"compilé {a.input} → {a.paths.code}"⟩]
    | .error fault => [⟨.warn, fault.message⟩]

end FileOutcome

variable {m : Type → Type} [Monad m]

/-- Writes the code, then the source map. -/
def writeArtifacts (s : Settings) (files : FileAccess m) (paths : ArtifactPaths)
    (compiled : Compiled) : m (Except Fault Unit) := do
  match ← files.write paths.code compiled.code with
  | .error fault => return .error (.file paths.code fault)
  | .ok () =>
    match ← files.write paths.map (compiled.map.write s.prettyMap) with
    | .error fault => return .error (.file paths.map fault)
    | .ok () => return .ok ()

/-- Reads a file, compiles it and writes its artifacts. -/
def compileFile (s : Settings) (files : FileAccess m) (input : String) : m FileOutcome := do
  match ← files.read input with
  | .error fault => return ⟨input, none, .error (.file input fault)⟩
  | .ok text =>
    match Compiled.ofText s input (Path.fileName input) text with
    | .error fault => return ⟨input, some text, .error fault⟩
    | .ok compiled =>
      let paths := ArtifactPaths.ofInput s input
      match ← writeArtifacts s files paths compiled with
      | .error fault => return ⟨input, some text, .error fault⟩
      | .ok () => return ⟨input, some text, .ok ⟨input, paths, compiled.table.length⟩⟩

/-- Compiles files in order. -/
def compileFiles (s : Settings) (files : FileAccess m) : List String → m (List FileOutcome)
  | [] => return []
  | input :: inputs => do
    let outcome ← compileFile s files input
    if s.failFast && !outcome.succeeded then return [outcome]
    let outcomes ← compileFiles s files inputs
    return outcome :: outcomes

end ReversePolish
