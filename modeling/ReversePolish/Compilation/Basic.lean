import ReversePolish.Artifact
import ReversePolish.Emission
import ReversePolish.Fault
import ReversePolish.Journal
import ReversePolish.SourceMap.Table

/-!
# Compiling a text

A source text is parsed, emitted as code and described by a source map. The journal
of a compilation lists the statements that were read and counts them.
-/

namespace ReversePolish

/-- What a source text is compiled to. -/
structure Compiled where
  code : String
  map : SourceMap
  /-- The table that the source map encodes. -/
  table : List Mapping
  deriving DecidableEq, Repr

/-- The statements that a parser has read. -/
def Parser.journal (p : Parser) : Journal :=
  p.forest.statements.toList.map fun root => ⟨.trace, s!"instruction: {root.formula}"⟩

namespace Compiled

/-- What a forest is compiled to. -/
def ofForest (s : Settings) (source text : String) (forest : Forest) : Compiled :=
  let paths := ArtifactPaths.ofInput s source
  let emitted := (forest.fragment s).emit source (Path.fileName paths.map)
  let table := emitted.mappings.toList
  let map := SourceMap.ofMappings (Path.fileName paths.code) table
  ⟨emitted.code, if s.embedSources then map.withSourcesContent [some text] else map, table⟩

/-- Compiles a text. Faults show the label, the source map names the source. -/
def ofText (s : Settings) (label source text : String) : Except Fault Compiled :=
  match Forest.ofSource text s.maxDepth with
  | .ok forest => .ok (ofForest s source text forest)
  | .error fault => .error (fault.inFile label)

/-- The journal of the compilation of a text. -/
def journal (s : Settings) (label text : String) : Journal :=
  let (result, parser) := Parser.run text s.maxDepth
  let statements := parser.forest.statements.size
  let nodes := parser.forest.size
  parser.journal ++
    match result with
    | .ok _ => [⟨.debug, s!"{label}: {statements} instruction(s), {nodes} nœud(s)"⟩]
    | .error _ => []

end Compiled

/-- Compiles a text with settings that are checked first. -/
def compile (s : Settings) (name text : String) : Except Fault Compiled :=
  match s.check with
  | .ok () => Compiled.ofText s name name text
  | .error fault => .error (.settings fault)

/-- The journal of `compile`. -/
def compileJournal (s : Settings) (name text : String) : Journal :=
  match s.check with
  | .ok () => Compiled.journal s name text
  | .error _ => []

end ReversePolish
