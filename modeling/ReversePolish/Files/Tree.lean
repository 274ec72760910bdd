import ReversePolish.Files.Basic
import ReversePolish.Text.Split

/-!
# A tree of files

Files held as a value: each file by the names on the way to it from the top, and the
directories that exist besides those on the way to a file. A path is walked part by
part, and every part but the last has to lead to a directory. Nothing is known of
what lies above the top, except that it is a directory.
-/

namespace ReversePolish

/-- What a file holds. -/
inductive Content where
  | text (content : String)
  /-- Bytes that are no UTF-8 text. -/
  | bytes (raw : List UInt8)
  deriving DecidableEq, Repr

/-- The content of a file with the given bytes. -/
def Content.ofBytes (raw : List UInt8) : Content :=
  match String.fromUTF8? ⟨raw.toArray⟩ with
  | some content => .text content
  | none => .bytes raw

structure FileTree where
  files : List (List String × Content)
  directories : List (List String)
  deriving DecidableEq, Repr

namespace FileTree

def empty : FileTree := ⟨[], []⟩

/-- What stands at a place of the tree. -/
inductive Entry where
  | absent
  | directory
  | file (content : Content)
  deriving DecidableEq, Repr

/-- Looks a place up. The top is a directory, and so is every place on the way to another. -/
def entry (t : FileTree) (place : List String) : Entry :=
  match t.files.lookup place with
  | some content => .file content
  | none =>
    if place.isEmpty || t.directories.any place.isPrefixOf ||
        t.files.any fun file => place.isPrefixOf file.1 then .directory
    else .absent

/-- Puts a file at a place. -/
def set (t : FileTree) (place : List String) (content : Content) : FileTree :=
  { t with files := (place, content) :: t.files.filter (·.1 != place) }

/-- The parts of a path. -/
def parts (path : String) : List String :=
  (Text.split '/' path.toList).map String.ofList

/-- Where a walk has come to. -/
inductive Place where
  | inside (names : List String)
  /-- Above the top of the tree. -/
  | above
  deriving DecidableEq, Repr

/-- What stands where a walk has come to. -/
def entryAt (t : FileTree) : Place → Entry
  | .inside names => t.entry names
  | .above => .directory

/-- Goes from a directory to one of its parts. -/
def enter (t : FileTree) (place : Place) (part : String) : Except FileFault Place :=
  match t.entryAt place with
  | .absent => .error .missing
  | .file _ => .error .notDirectory
  | .directory =>
    if part = "" ∨ part = "." then .ok place
    else
      match place with
      | .above => if part = ".." then .ok .above else .error .missing
      | .inside [] => .ok (if part = ".." then .above else .inside [part])
      | .inside names => .ok (.inside (if part = ".." then names.dropLast else names ++ [part]))

/-- Walks a path. A path that starts with a slash starts above the tree. -/
def walk (t : FileTree) (parts : List String) : Except FileFault Place :=
  match parts with
  | "" :: rest => rest.foldlM t.enter .above
  | parts => parts.foldlM t.enter (.inside [])

/-- Reads the text of a file. -/
def read (t : FileTree) (path : String) : Except FileFault String :=
  if path.isEmpty then .error .missing
  else
    match t.walk (parts path) with
    | .error fault => .error fault
    | .ok place =>
      match t.entryAt place with
      | .absent => .error .missing
      | .directory => .error .isDirectory
      | .file (.text content) => .ok content
      | .file (.bytes _) => .error .notText

/-- Writes the text of a file. A path that ends in a slash or a point names a directory. -/
def write (t : FileTree) (path text : String) : Except FileFault Unit × FileTree :=
  if path.isEmpty then (.error .missing, t)
  else
    match (parts path).reverse.dropWhile (·.isEmpty) with
    | [] => (.error .isDirectory, t)
    | name :: above =>
      match t.walk above.reverse with
      | .error fault => (.error fault, t)
      | .ok directory =>
        match t.entryAt directory, directory with
        | .absent, _ => (.error .missing, t)
        | .file _, _ => (.error .notDirectory, t)
        | .directory, .above => (.error .missing, t)
        | .directory, .inside names =>
          if name = "." ∨ name = ".." ∨ (parts path).getLast? = some "" ∨
              t.entry (names ++ [name]) = .directory then (.error .isDirectory, t)
          else (.ok (), t.set (names ++ [name]) (.text text))

/-- The files of a tree that are new or hold another text than before, by path. -/
def changedSince (t before : FileTree) : List (String × String) :=
  t.files.filterMap fun (place, content) =>
    match content with
    | .text text =>
      if before.files.lookup place = some content then none
      else some ("/".intercalate place, text)
    | .bytes _ => none

/-- The tree as files that can be read and written. -/
def access : FileAccess (StateM FileTree) where
  read path := return (← get).read path
  write path text := modifyGet fun t => t.write path text

end FileTree

end ReversePolish
