import ReversePolish.Command.Execution

/-!
# The command `rpnc`

Reads the arguments, carries out the command on the files of the system and writes
its output. Records of the journal and causes of a failure go to the standard error.
-/

namespace ReversePolish

/-- The cause that a number of the system stands for; some calls give it negated. -/
def FileFault.ofCode (code : UInt32) : FileFault :=
  if code = 20 ∨ code = 0 - 20 then .notDirectory
  else if code = 21 ∨ code = 0 - 21 then .isDirectory
  else .other s!"os error {code}"

/-- The cause of an error of the system. -/
def FileFault.ofError : IO.Error → FileFault
  | .noFileOrDirectory _ _ _ => .missing
  | .inappropriateType _ code _ | .otherError code _ | .illegalOperation code _ => .ofCode code
  | error => .other (toString error)

/-- The files of the system. -/
def systemFiles : FileAccess IO where
  read path := do
    try
      let bytes ← IO.FS.readBinFile path
      match String.fromUTF8? bytes with
      | some text => return .ok text
      | none => return .error .notText
    catch error => return .error (FileFault.ofError error)
  write path text := do
    try
      IO.FS.writeFile path text
      return .ok ()
    catch error => return .error (FileFault.ofError error)

/-- The variables that settings are taken from. -/
def systemEnvironment : IO (String → Option String) := do
  let found ← Setting.all.mapM fun setting =>
    return (setting.environmentName, ← IO.getEnv setting.environmentName)
  return fun name => (found.lookup name).join

end ReversePolish

open ReversePolish in
/-- Does what the arguments ask for and gives the exit code. -/
def main (arguments : List String) : IO UInt32 := do
  match Invocation.read arguments with
  | .error fault =>
    IO.print fault.output
    IO.eprint fault.complaint
    return fault.exitCode.toUInt32
  | .ok invocation =>
    let result ← invocation.execute systemFiles (← systemEnvironment)
    let level := Level.ofVerbosity invocation.verbosity
    for record in result.journal.upTo level do
      IO.eprintln record.line
    IO.print result.output
    if let some failure := result.failure then
      for cause in failure.causes do
        IO.eprintln cause.message
    return result.exitCode.toUInt32
