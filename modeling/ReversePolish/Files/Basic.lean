/-!
# Access to files

Compiling reads and writes files. What it needs of them is a `FileAccess`: a way to
read a text and a way to write one, in whatever monad the files live. The causes of
failure are the same everywhere.
-/

namespace ReversePolish

/-- Why a file cannot be read or written. -/
inductive FileFault where
  | missing
  /-- The path goes through a file. -/
  | notDirectory
  | isDirectory
  /-- The file holds bytes that are no UTF-8 text. -/
  | notText
  /-- Any other cause, in the words of the system. -/
  | other (description : String)
  deriving DecidableEq, Repr

def FileFault.message : FileFault → String
  | .missing => "No such file or directory (os error 2)"
  | .notDirectory => "Not a directory (os error 20)"
  | .isDirectory => "Is a directory (os error 21)"
  | .notText => "stream did not contain valid UTF-8"
  | .other description => description

/-- How files are read and written. -/
structure FileAccess (m : Type → Type) where
  read : (path : String) → m (Except FileFault String)
  write : (path : String) → (text : String) → m (Except FileFault Unit)

end ReversePolish
