import ReversePolish.Text.Split

/-!
# Paths

Paths are texts with slashes between their parts. A slash or a single point in
front is the anchor of a path; further on, empty parts and single points mean
nothing.
-/

namespace ReversePolish.Path

/-- The anchor of a path, and what follows it. -/
def anchor : List Char → List Char × List Char
  | '/' :: body => (['/'], body)
  | ['.'] => (['.'], [])
  | '.' :: '/' :: body => (['.'], '/' :: body)
  | body => ([], body)

/-- Whether a part behind the anchor names something. -/
def isSignificant (part : List Char) : Bool :=
  !part.isEmpty && part != ['.']

/-- The parts of a text up to the last significant one. -/
def significant (parts : List (List Char)) : List (List Char) :=
  (parts.reverse.dropWhile (!isSignificant ·)).reverse

/-- The parts behind the anchor, up to the last significant one. -/
def parts (path : String) : List (List Char) :=
  significant (Text.split '/' (anchor path.toList).2)

/-- The last part of a path, if it names a file. -/
def fileName? (path : String) : Option String :=
  match (parts path).getLast? with
  | some part => if part = ['.', '.'] then none else some (String.ofList part)
  | none => none

/-- The last part of a path, or the whole path if it has none. -/
def fileName (path : String) : String :=
  (fileName? path).getD path

/-- The path without its last part. The empty path and a single slash have none. -/
def parent? (path : String) : Option String :=
  let start := (anchor path.toList).1
  match parts path with
  | [] => if start = ['.'] then some "" else none
  | first :: rest =>
    let above := significant ((first :: rest).dropLast)
    some (String.ofList (start ++ Text.join ['/'] above))

/-- A path inside a directory. An absolute path stays as it is. -/
def join (directory path : String) : String :=
  if path.toList.head? = some '/' || directory.isEmpty then path
  else if directory.toList.getLast? = some '/' then directory ++ path
  else directory ++ "/" ++ path

end ReversePolish.Path
