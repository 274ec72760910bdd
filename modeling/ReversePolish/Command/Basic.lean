import ReversePolish.Command.Settings

/-!
# Commands

What the command line can ask for, once its arguments are understood, and why its
arguments may not be understood.
-/

namespace ReversePolish

structure BuildArguments where
  files : List String
  /-- The settings that the arguments choose. -/
  choices : List (Setting × Literal)
  deriving DecidableEq, Repr

structure RunArguments where
  file : String
  bindings : List (String × Float)
  /-- What the arguments say instead of the defaults. -/
  options : RunDefaults
  /-- Whether the stack is shown at the end. -/
  showStack : Bool

inductive Command where
  /-- Compile files to code and source maps. -/
  | build (arguments : BuildArguments)
  /-- Compile a file and run it. -/
  | run (arguments : RunArguments)
  /-- Show the table of a source map. -/
  | map (file : String)

structure Invocation where
  /-- How many times more was asked to be said. -/
  verbosity : Nat
  /-- The file of settings. -/
  config : Option String
  command : Command

/-- Why arguments are no command. -/
inductive UsageFault where
  /-- Help was asked for. -/
  | help
  /-- The version was asked for. -/
  | version
  /-- There are no arguments. -/
  | nothingAsked
  /-- There are options and no command. -/
  | missingCommand
  | unknownCommand
  | missingArgument
  /-- An option that does not exist, or one argument too many. -/
  | unknownArgument
  /-- An option has no value, or none of its values. -/
  | invalidValue
  /-- A flag has a value. -/
  | unexpectedValue
  /-- An option was given twice. -/
  | conflict
  /-- A value cannot be read. -/
  | unreadableValue (message : String)
  deriving DecidableEq, Repr

namespace UsageFault

/-- The exit code. Help and the version are what was asked for. -/
def exitCode : UsageFault → UInt8
  | .help | .version => 0
  | _ => 2

/-- The name and the version of the command. -/
def versionText : String := "rpnc 0.1.0\n"

/-- What the command expects. -/
def helpText : String :=
  "Usage: rpnc [-v]... [--config FILE] <build|run|map> ...\n"

/-- What is written to the standard output. -/
def output : UsageFault → String
  | .help => helpText
  | .version => versionText
  | _ => ""

/-- What is written to the standard error. -/
def complaint : UsageFault → String
  | .help | .version => ""
  | .unreadableValue message => s!"error: {message}\n{helpText}"
  | _ => helpText

end UsageFault

end ReversePolish
