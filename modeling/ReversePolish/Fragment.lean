import ReversePolish.Forest.Basic
import ReversePolish.Mapping
import ReversePolish.Text.Units

/-!
# Fragments of code

Code is put together from fragments: texts, and groups of fragments that may be
tagged with a source term. What a fragment means is the row of its pieces
(`Fragment.pieces`): its texts from left to right, each with the tag of the group
that directly holds it. An `Emitter` writes pieces one after the other, follows the
line and the column, and records a mapping for each tagged piece that is not empty.
-/

namespace ReversePolish

/-- A text, or a group of fragments. -/
inductive Fragment where
  | text (content : String)
  | group (tag : Option Tag) (parts : List Fragment)
  deriving Repr

/-- A text with the tag of the group that directly holds it. -/
structure Piece where
  tag : Option Tag
  content : String
  deriving DecidableEq, Repr

namespace Fragment

mutual

/-- The pieces of a fragment that a group with the given tag holds. -/
def pieces (tag : Option Tag) : Fragment → List Piece
  | .text content => [⟨tag, content⟩]
  | .group tag parts => piecesOfAll tag parts

/-- The pieces of several fragments that a group with the given tag holds. -/
def piecesOfAll (tag : Option Tag) : List Fragment → List Piece
  | [] => []
  | part :: parts => pieces tag part ++ piecesOfAll tag parts

end

/-- All texts of a fragment, one behind the other. -/
def content (f : Fragment) : String :=
  String.join ((f.pieces none).map Piece.content)

end Fragment

/-- The code written so far, the place behind it, and the mappings recorded. -/
structure Emitter where
  /-- The name of the source in the mappings. -/
  source : String
  code : String
  place : LineColumn
  mappings : Array Mapping
  deriving DecidableEq, Repr

namespace Emitter

/-- An emitter that has written nothing. -/
def ofSource (source : String) : Emitter :=
  ⟨source, "", ⟨1, 0⟩, #[]⟩

/-- The place behind a character. -/
def advance (p : LineColumn) (c : Char) : LineColumn :=
  if c = '\n' then ⟨p.line + 1, 0⟩ else ⟨p.line, p.column + Text.unitCount c⟩

/-- Writes a text. -/
def write (e : Emitter) (text : String) : Emitter :=
  { e with code := e.code ++ text, place := text.toList.foldl advance e.place }

/-- Records that the code at the present place was emitted for a term. -/
def record (e : Emitter) (tag : Tag) : Emitter :=
  { e with mappings := e.mappings.push ⟨e.place, ⟨tag.line, tag.column⟩, e.source, tag.name⟩ }

/-- Writes a piece, and records where it starts if it is tagged and not empty. -/
def writePiece (e : Emitter) (piece : Piece) : Emitter :=
  match piece.tag with
  | some tag => (if piece.content.isEmpty then e else e.record tag).write piece.content
  | none => e.write piece.content

/-- Writes a fragment. -/
def writeFragment (e : Emitter) (f : Fragment) : Emitter :=
  (f.pieces none).foldl writePiece e

/-- The comment that names the source map of the code. -/
def mapComment (mapFile : String) : String :=
  s!"\n//# sourceMappingURL={mapFile}\n"

/-- Ends the code with the comment that names its source map. -/
def finish (e : Emitter) (mapFile : String) : Emitter :=
  e.write (mapComment mapFile)

end Emitter

end ReversePolish
