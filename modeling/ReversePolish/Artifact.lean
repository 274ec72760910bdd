import ReversePolish.Path
import ReversePolish.Settings.Basic

/-!
# Names of artifacts

A source is compiled to two files beside it: the code, which has the source's name
with another extension, and the source map, which has the code's name with one
more extension.
-/

namespace ReversePolish

/-- The paths of the two files that a source is compiled to. -/
structure ArtifactPaths where
  code : String
  map : String
  deriving DecidableEq, Repr

/-- A name without an extension, whatever the case of its ASCII letters. Nothing is
taken off if nothing would be left. -/
def withoutExtension (name extension : String) : String :=
  let name := name.toList
  let stem := name.take (name.length - extension.length)
  let tail := name.drop stem.length
  if !stem.isEmpty && tail.map Char.toLower == extension.toList.map Char.toLower then
    String.ofList stem
  else String.ofList name

/-- The artifacts of a source. -/
def ArtifactPaths.ofInput (s : Settings) (input : String) : ArtifactPaths :=
  let code := withoutExtension (Path.fileName input) s.sourceExtension ++ s.targetExtension
  let directory := (Path.parent? input).getD ""
  ⟨Path.join directory code, Path.join directory (code ++ s.mapExtension)⟩

end ReversePolish
