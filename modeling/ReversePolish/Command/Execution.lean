import ReversePolish.Command.Arguments
import ReversePolish.Compilation.Batch

/-!
# Carrying out commands

A command reads settings and files and gives a result: what it writes to the standard
output, the failure that ended it, and its journal. Files are reached through a
`FileAccess`, so the same commands work on a tree of files held as a value and on the
files of the system.
-/

namespace ReversePolish

/-! ## Failures -/

/-- One link of a chain of causes. -/
inductive Cause where
  | text (message : String)
  /-- A text is no TOML document of settings. -/
  | toml
  /-- A text is no JSON text of a source map. -/
  | json
  deriving DecidableEq, Repr

def Cause.message : Cause → String
  | .text message => message
  | .toml => "document TOML invalide"
  | .json => "texte JSON invalide"

/-- Why a command failed. -/
inductive Failure where
  /-- A file cannot be read. -/
  | unreadable (path : String) (fault : FileFault)
  /-- A file holds no settings. -/
  | invalidSettings (path : String)
  /-- A file holds no source map. -/
  | invalidMap (path : String) (fault : Fault)
  /-- Any other fault. -/
  | general (fault : Fault)
  /-- Some files of a batch failed. -/
  | batch (faults : List Fault) (total : Nat)
  /-- A run failed at a term of the source. -/
  | atTerm (term : Mapping) (fault : RunFault)
  /-- A run failed where no term stands. -/
  | run (path : String) (fault : RunFault)

namespace Failure

/-- The chain of causes, the last one first. -/
def causes : Failure → List Cause
  | .unreadable path fault => [.text s!"lecture de {path}", .text fault.message]
  | .invalidSettings path => [.text s!"config invalide: {path}", .toml]
  | .invalidMap path fault =>
    [.text s!"source map invalide: {path}",
      match fault with
      | .json => .json
      | fault => .text fault.message]
  | .general fault => [.text fault.message]
  | .batch faults total =>
    let details := String.join (faults.map fun fault => s!"\n  {fault.message}")
    [.text s!"{faults.length} fichier(s) en échec sur {total}{details}"]
  | .atTerm term fault =>
    [.text s!"{term.source}:{term.origin.text}: {fault.message} (terme `{term.name}`)"]
  | .run path fault =>
    [.text s!"exécution de {path}", .text fault.message] ++
      (fault.machineFault?.map fun fault => Cause.text fault.message).toList

/-- The exit code of a failure. Work that was broken off has one of its own. -/
def exitCode : Failure → UInt8
  | .general (.mapping (.overflow _)) => 101
  | _ => 1

end Failure

/-- What a command gives. -/
structure CommandResult where
  output : String
  failure : Option Failure
  journal : Journal

namespace CommandResult

/-- A result with records in front of its journal. -/
def after (records : Journal) (r : CommandResult) : CommandResult :=
  { r with journal := records ++ r.journal }

/-- A failure that wrote nothing. -/
def ofFailure (failure : Failure) : CommandResult :=
  ⟨"", some failure, []⟩

def exitCode (r : CommandResult) : UInt8 :=
  r.failure.elim 0 Failure.exitCode

end CommandResult

/-! ## Building -/

/-- The line that reports a compiled file. -/
def Artifacts.report (a : Artifacts) : String :=
  s!"{a.input} → {a.paths.code} + {a.paths.map} ({a.mappings} mapping(s))\n"

/-- The result of a batch. -/
def BuildArguments.result (arguments : BuildArguments) (s : Settings)
    (outcomes : List FileOutcome) : CommandResult :=
  let failed := outcomes.filterMap FileOutcome.failure?
  { output := String.join ((outcomes.filterMap FileOutcome.artifacts?).map Artifacts.report)
    failure :=
      if failed.isEmpty then none
      else some (.batch (failed.map Prod.snd) arguments.files.length)
    journal :=
      outcomes.flatMap (FileOutcome.journal s) ++
        failed.map fun (path, fault) => ⟨.error, s!"{path}: {fault.message}"⟩ }

/-! ## Running -/

/-- The options of a run: arguments before settings before defaults. -/
def RunDefaults.toOptions (arguments settings : RunDefaults) : RunOptions :=
  let defaults : RunOptions := {}
  { printMode := (arguments.printMode.or settings.printMode).getD defaults.printMode
    capacity := (arguments.capacity.or settings.capacity).getD defaults.capacity
    repeatLimit := (arguments.repeatLimit.or settings.repeatLimit).getD defaults.repeatLimit
    maxSteps := (arguments.maxSteps.or settings.maxSteps).or defaults.maxSteps }

/-- The column behind every other. -/
def lastColumn : Nat := 0xFFFFFFFF

/-- A fault of a run, at the term that the source map names for its line. -/
def Failure.ofRun (path : String) (map : SourceMap) (fault : RunFault) : Failure :=
  match map.lookup ⟨fault.line, lastColumn⟩ with
  | .error mapFault => .general (.mapping mapFault)
  | .ok (some term) => .atTerm term fault
  | .ok none => .run path fault

/-- The stack as it is shown at the end of a run. -/
def stackText (stack : List Float) : String :=
  let values := ", ".intercalate (stack.map Number.displayed.text)
  s!"pile: [{values}]\n"

/-- Runs compiled code. -/
def RunArguments.execute (arguments : RunArguments) (s : RunDefaults) (compiled : Compiled) :
    CommandResult :=
  let lines := (Text.lines compiled.code.toList).length
  let emitted : Journal := [⟨.debug, s!"{arguments.file} : {lines} ligne(s) générée(s)"⟩]
  let options := arguments.options.toOptions s
  match ReversePolish.execute options arguments.bindings compiled.code with
  | .error fault =>
    (CommandResult.ofFailure (.ofRun arguments.file compiled.map fault)).after emitted
  | .ok run =>
    match run.fault with
    | some fault =>
      (CommandResult.ofFailure (.ofRun arguments.file compiled.map fault)).after
        (emitted ++ run.journal)
    | none =>
      { output := run.output ++ if arguments.showStack then stackText run.session.stack else ""
        failure := none
        journal := emitted ++ run.journal ++
          [⟨.info, s!"{arguments.file} : {run.session.steps} instruction(s) exécutée(s)"⟩] }

/-- Compiles the text of a file and runs it. -/
def RunArguments.result (arguments : RunArguments) (s : ToolSettings) (text : String) :
    CommandResult :=
  let journal := compileJournal s.compiler arguments.file text
  match compile s.compiler arguments.file text with
  | .error fault => (CommandResult.ofFailure (.general fault)).after journal
  | .ok compiled => (arguments.execute s.run compiled).after journal

/-! ## Source maps -/

/-- Shows the table of a source map. -/
def mapResult (path text : String) : CommandResult :=
  match SourceMap.read text with
  | .error fault => .ofFailure (.invalidMap path fault)
  | .ok map =>
    match map.decode with
    | .error fault => .ofFailure (.general (.mapping fault))
    | .ok table =>
      let sources := ", ".intercalate map.sources
      let title := s!"{map.file} ← {sources} ({table.length} mapping(s))\n"
      ⟨title ++ String.join (table.map fun m => s!"{m.text}\n"), none, []⟩

/-! ## Invocations -/

variable {m : Type → Type} [Monad m]

/-- Reads the file of settings, then the environment. -/
def ToolSettings.load (files : FileAccess m) (environment : String → Option String)
    (config : Option String) : m (Except Failure ToolSettings) := do
  let withEnvironment (s : ToolSettings) : ToolSettings :=
    { s with compiler := s.compiler.withEnvironment environment }
  match config with
  | none => return .ok (withEnvironment {})
  | some path =>
    match ← files.read path with
    | .error fault => return .error (.unreadable path fault)
    | .ok text =>
      match ToolSettings.read? text with
      | none => return .error (.invalidSettings path)
      | some s => return .ok (withEnvironment s)

/-- Reads a file and goes on with its text. -/
def withFile (files : FileAccess m) (path : String) (next : String → CommandResult) :
    m CommandResult := do
  match ← files.read path with
  | .error fault => return .ofFailure (.unreadable path fault)
  | .ok text => return next text

/-- Carries out a command. -/
def Command.execute (files : FileAccess m) (s : ToolSettings) : Command → m CommandResult
  | .build arguments => do
    let settings := s.compiler.withChoices arguments.choices
    match settings.check with
    | .error fault => return .ofFailure (.general (.settings fault))
    | .ok () => return arguments.result settings (← compileFiles settings files arguments.files)
  | .run arguments => withFile files arguments.file (arguments.result s)
  | .map path => withFile files path (mapResult path)

/-- Carries out what the command line asks for. -/
def Invocation.execute (files : FileAccess m) (environment : String → Option String)
    (i : Invocation) : m CommandResult := do
  match ← ToolSettings.load files environment i.config with
  | .error failure => return .ofFailure failure
  | .ok s =>
    let result ← i.command.execute files s
    return result.after [⟨.debug, s!"configuration effective: {s.compiler.journalText}"⟩]

end ReversePolish
