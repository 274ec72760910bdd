import ReversePolish.Fragment
import ReversePolish.Proofs.Segmentation

/-!
# Writing fragments

An emitter is used by writing texts and fragments, in any order and as often as one likes, and
then ended with a comment.  Three things are kept in step: the code, the place behind it, and the
mappings.

What an emitter should write is said without following it.  A text in a tree of fragments is
found by its path, the index of the part to enter in each group on the way
(`Fragment.pieceAt?`), and the order of the texts is that of their paths.  A mapping belongs to a
text that is not empty and that a tagged group holds directly.  It leads from the place behind all
code in front of the text, a place that is counted here as in sources (`Position.after`).

## Main results

* `Fragment.mem_leaves`, `Fragment.leaves_pairwise` — the texts of a fragment, and their order.
* `Emitter.Kept.writePiece`, `Emitter.Kept.foldl_writePiece` — what one piece and many pieces do.
* `Chunk.layOut_laidOut` — the texts of a fragment, each with the code in front of it.
* `Chunk.layOut_places` — the places of texts that are not empty increase.
* `fragment_writing` — the code, the places and the mappings of every use of an emitter.
-/

namespace ReversePolish

/-! ## Texts and their paths -/

namespace Fragment

/-- An induction over the parts of groups. -/
theorem induction {motive : Fragment → Prop} (text : ∀ content, motive (.text content))
    (group : ∀ tag parts, (∀ part ∈ parts, motive part) → motive (.group tag parts))
    (f : Fragment) : motive f :=
  @Fragment.rec motive (fun parts => ∀ part ∈ parts, motive part) text group (by simp)
    (fun part parts hPart hParts => List.forall_mem_cons.2 ⟨hPart, hParts⟩) f

/-- The text at a path into a fragment that a group with the given tag holds. -/
def pieceAt? (tag : Option Tag) : Fragment → List Nat → Option Piece
  | .text content, [] => some ⟨tag, content⟩
  | .text _, _ :: _ => none
  | .group _ _, [] => none
  | .group tag parts, i :: path => parts[i]?.bind fun part => part.pieceAt? tag path

mutual

/-- The texts of a fragment that a group with the given tag holds, with their paths. -/
def leaves (tag : Option Tag) : Fragment → List (List Nat × Piece)
  | .text content => [([], ⟨tag, content⟩)]
  | .group tag parts => leavesOfAll tag 0 parts

/-- The texts of the parts of a group from an index on, with their paths. -/
def leavesOfAll (tag : Option Tag) (i : Nat) : List Fragment → List (List Nat × Piece)
  | [] => []
  | part :: parts => (leaves tag part).map (Prod.map (i :: ·) id) ++ leavesOfAll tag (i + 1) parts

end

/-- The texts are the pieces. -/
theorem map_snd_leaves (tag : Option Tag) (f : Fragment) :
    (f.leaves tag).map Prod.snd = f.pieces tag := by
  induction f using Fragment.induction generalizing tag with
  | text content => rfl
  | group tag' parts ih =>
      rw [leaves, pieces]
      generalize 0 = i
      induction parts generalizing i with
      | nil => rfl
      | cons part parts ihParts =>
          rw [List.forall_mem_cons] at ih
          rw [leavesOfAll, piecesOfAll, List.map_append, List.map_map, ihParts ih.2,
            ← ih.1 tag']
          rfl

theorem mem_leavesOfAll {tag : Option Tag} {parts : List Fragment}
    (h : ∀ part ∈ parts, ∀ path piece, (path, piece) ∈ part.leaves tag ↔
      part.pieceAt? tag path = some piece) {i : Nat} {path : List Nat} {piece : Piece} :
    (path, piece) ∈ leavesOfAll tag i parts ↔
      ∃ j inner part, path = (i + j) :: inner ∧ parts[j]? = some part ∧
        part.pieceAt? tag inner = some piece := by
  induction parts generalizing i with
  | nil => simp [leavesOfAll]
  | cons part parts ih =>
      rw [List.forall_mem_cons] at h
      rw [leavesOfAll, List.mem_append, ih h.2]
      constructor
      · rintro (hHere | ⟨j, inner, found, rfl, hFound, hPiece⟩)
        · obtain ⟨⟨inner, piece'⟩, hLeaf, hEq⟩ := List.mem_map.1 hHere
          cases hEq
          exact ⟨0, inner, part, rfl, rfl, (h.1 inner _).1 hLeaf⟩
        · exact ⟨j + 1, inner, found, by rw [Nat.add_right_comm, Nat.add_assoc], hFound, hPiece⟩
      · rintro ⟨j, inner, found, rfl, hFound, hPiece⟩
        cases j with
        | zero =>
            cases hFound
            exact Or.inl (List.mem_map.2 ⟨(inner, piece), (h.1 inner piece).2 hPiece, rfl⟩)
        | succ j =>
            exact Or.inr ⟨j, inner, found, by rw [Nat.add_right_comm, Nat.add_assoc], hFound,
              hPiece⟩

/-- A text is found at its path, and each text that is found is one of them. -/
theorem mem_leaves {tag : Option Tag} {f : Fragment} {path : List Nat} {piece : Piece} :
    (path, piece) ∈ f.leaves tag ↔ f.pieceAt? tag path = some piece := by
  induction f using Fragment.induction generalizing tag path piece with
  | text content =>
      cases path with
      | nil => simp [leaves, pieceAt?, eq_comm]
      | cons i path => simp [leaves, pieceAt?]
  | group tag' parts ih =>
      rw [leaves, mem_leavesOfAll fun part hPart path piece => ih part hPart]
      cases path with
      | nil => simp [pieceAt?]
      | cons i path =>
          rw [pieceAt?, Option.bind_eq_some_iff]
          constructor
          · rintro ⟨j, inner, part, hPath, hPart, hPiece⟩
            rw [List.cons.injEq, Nat.zero_add] at hPath
            obtain ⟨rfl, rfl⟩ := hPath
            exact ⟨part, hPart, hPiece⟩
          · rintro ⟨part, hPart, hPiece⟩
            exact ⟨i, path, part, by rw [Nat.zero_add], hPart, hPiece⟩

/-- The texts of a fragment stand in the order of their paths. -/
theorem leaves_pairwise (tag : Option Tag) (f : Fragment) :
    (f.leaves tag).Pairwise fun l l' => l.1 < l'.1 := by
  induction f using Fragment.induction generalizing tag with
  | text content => exact List.pairwise_singleton _ _
  | group tag' parts ih =>
      rw [leaves]
      generalize 0 = i
      induction parts generalizing i with
      | nil => exact List.Pairwise.nil
      | cons part parts ihParts =>
          rw [List.forall_mem_cons] at ih
          rw [leavesOfAll, List.pairwise_append]
          refine ⟨?_, ihParts ih.2 (i + 1), ?_⟩
          · rw [List.pairwise_map]
            refine (ih.1 tag').imp ?_
            intro l l' hLess
            exact List.cons_lt_cons_iff.2 (Or.inr ⟨rfl, hLess⟩)
          · -- A path into an earlier part is smaller whatever follows.
            rintro l hl ⟨path, piece⟩ hl'
            obtain ⟨⟨inner, piece'⟩, _, rfl⟩ := List.mem_map.1 hl
            obtain ⟨j, inner', _, rfl, _, _⟩ :=
              (mem_leavesOfAll fun part _ path piece => mem_leaves).1 hl'
            refine List.cons_lt_cons_iff.2 (Or.inl ?_)
            omega

/-- What a fragment says does not depend on the group that holds it. -/
theorem map_content_pieces (tag tag' : Option Tag) (f : Fragment) :
    (f.pieces tag).map Piece.content = (f.pieces tag').map Piece.content := by
  cases f <;> rfl

@[simp] theorem content_text (text : String) : (Fragment.text text).content = text := by
  simp [content, pieces]

/-- The content of a group is that of its parts, one after the other. -/
@[simp] theorem content_group (tag : Option Tag) (parts : List Fragment) :
    (Fragment.group tag parts).content = String.join (parts.map content) := by
  rw [content, pieces]
  induction parts with
  | nil => rfl
  | cons part parts ih =>
      rw [piecesOfAll, List.map_append, String.join_append, ih, List.map_cons, String.join_cons,
        map_content_pieces tag none part]
      rfl

end Fragment

/-! ## Code in front of a text -/

/-- The place behind a text. -/
def LineColumn.behind (text : String) : LineColumn :=
  (Position.after text.toList).lineColumn

/-- The two ways to count a place agree. -/
theorem Emitter.foldl_advance (cs : List Char) (p : Position) :
    cs.foldl advance p.lineColumn = (p.advanceOver cs).lineColumn := by
  induction cs generalizing p with
  | nil => rfl
  | cons c cs ih =>
      have hStep : advance p.lineColumn c = (p.advance c).lineColumn := by
        unfold advance Position.advance
        split <;> rfl
      rw [List.foldl_cons, hStep, ih, Position.advanceOver_cons]

theorem LineColumn.behind_append (text more : String) :
    behind (text ++ more) = more.toList.foldl Emitter.advance (behind text) := by
  rw [behind, behind, String.toList_append, Position.after, Position.advanceOver_append,
    Emitter.foldl_advance]
  rfl

/-- A longer text ends further behind. -/
theorem LineColumn.behind_lt_append (text : String) {more : String} (h : more ≠ "") :
    behind text < behind (text ++ more) := by
  have hSome : more.toList ≠ [] := fun hNil => h (String.toList_eq_nil_iff.1 hNil)
  rw [behind_append, behind, Emitter.foldl_advance]
  exact Position.lineColumn_lt_advanceOver _ hSome

/-- A text of a tree, where it is found, and all code in front of it. -/
structure Chunk where
  path : List Nat
  piece : Piece
  before : String

namespace Chunk

/-- The mapping that is due to a text: only one that is not empty, and that a tagged group
holds. -/
def mapping? (source : String) (c : Chunk) : Option Mapping :=
  if c.piece.content = "" then none
  else c.piece.tag.map fun tag =>
    ⟨LineColumn.behind c.before, ⟨tag.line, tag.column⟩, source, tag.name⟩

/-- Texts behind some code, one after the other. -/
def layOut (before : String) : List (List Nat × Piece) → List Chunk
  | [] => []
  | leaf :: leaves => ⟨leaf.1, leaf.2, before⟩ :: layOut (before ++ leaf.2.content) leaves

theorem map_layOut (before : String) (leaves : List (List Nat × Piece)) :
    (layOut before leaves).map (fun c => (c.path, c.piece)) = leaves := by
  induction leaves generalizing before with
  | nil => rfl
  | cons leaf leaves ih => rw [layOut, List.map_cons, ih]

/-- The code in front of a text is what was written before, and the texts in front of it. -/
theorem layOut_before {before : String} {leaves : List (List Nat × Piece)}
    {front back : List Chunk} {c : Chunk} (h : layOut before leaves = front ++ c :: back) :
    c.before = before ++ String.join (front.map fun c => c.piece.content) := by
  induction leaves generalizing before front with
  | nil => exact absurd h.symm (by simp [layOut])
  | cons leaf leaves ih =>
      rw [layOut] at h
      cases front with
      | nil =>
          rw [List.nil_append, List.cons.injEq] at h
          rw [← h.1]
          simp
      | cons d front =>
          rw [List.cons_append, List.cons.injEq] at h
          rw [ih h.2, ← h.1, List.map_cons, String.join_cons, String.append_assoc]

theorem exists_before_of_mem_layOut {before : String} {leaves : List (List Nat × Piece)} {c : Chunk}
    (h : c ∈ layOut before leaves) : ∃ more, c.before = before ++ more := by
  obtain ⟨front, back, hSplit⟩ := List.append_of_mem h
  exact ⟨_, layOut_before hSplit⟩

/-- The texts of a fragment in the order of their paths, each behind all that come before it. -/
structure LaidOut (f : Fragment) (chunks : List Chunk) : Prop where
  ordered : chunks.Pairwise fun c d => c.path < d.path
  complete : ∀ path piece, (∃ c ∈ chunks, c.path = path ∧ c.piece = piece) ↔
    f.pieceAt? none path = some piece
  before : ∀ front c back, chunks = front ++ c :: back →
    c.before = String.join (front.map fun c => c.piece.content)
  content : String.join (chunks.map fun c => c.piece.content) = f.content

theorem layOut_laidOut (f : Fragment) : LaidOut f (layOut "" (f.leaves none)) := by
  have hLeaves := map_layOut "" (f.leaves none)
  refine
    { ordered := ?_
      complete := ?_
      before := ?_
      content := ?_ }
  · have hOrder := f.leaves_pairwise none
    rw [← hLeaves, List.pairwise_map] at hOrder
    exact hOrder
  · intro path piece
    rw [← Fragment.mem_leaves, ← hLeaves, List.mem_map]
    simp only [Prod.mk.injEq, hLeaves]
  · intro front c back hSplit
    rw [layOut_before hSplit, String.empty_append]
  · rw [Fragment.content, ← Fragment.map_snd_leaves]
    nth_rewrite 2 [← hLeaves]
    rw [List.map_map, List.map_map]
    rfl

/-- The places of texts that are not empty increase. -/
theorem layOut_places (before : String) (leaves : List (List Nat × Piece)) :
    (layOut before leaves).Pairwise fun c d =>
      c.piece.content ≠ "" → LineColumn.behind c.before < LineColumn.behind d.before := by
  induction leaves generalizing before with
  | nil => exact List.Pairwise.nil
  | cons leaf leaves ih =>
      rw [layOut, List.pairwise_cons]
      refine ⟨?_, ih _⟩
      intro d hd hSome
      obtain ⟨more, hMore⟩ := exists_before_of_mem_layOut hd
      rw [hMore, String.append_assoc]
      refine LineColumn.behind_lt_append before ?_
      simp [hSome]

/-- Mappings lead from increasing places. -/
theorem mappings_pairwise (source before : String) (leaves : List (List Nat × Piece)) :
    ((layOut before leaves).filterMap (mapping? source)).Pairwise fun m n =>
      m.generated < n.generated := by
  rw [List.pairwise_filterMap]
  refine (layOut_places before leaves).imp ?_
  intro c d hLess m hm n hn
  unfold mapping? at hm hn
  split at hm
  · cases hm
  · next hSome =>
      split at hn
      · cases hn
      · obtain ⟨_, _, rfl⟩ := Option.map_eq_some_iff.1 hm
        obtain ⟨_, _, rfl⟩ := Option.map_eq_some_iff.1 hn
        exact hLess hSome

end Chunk

/-! ## Uses of an emitter -/

namespace Emitter

/-- The place is the one behind the code. -/
def Kept (e : Emitter) : Prop :=
  e.place = LineColumn.behind e.code

theorem Kept.write {e : Emitter} (h : e.Kept) (text : String) : (e.write text).Kept := by
  rw [Kept, Emitter.write, LineColumn.behind_append, ← h]

/-- A piece is written behind the code, and recorded if a mapping is due to it. -/
theorem Kept.writePiece {e : Emitter} (h : e.Kept) (path : List Nat) (piece : Piece) :
    (e.writePiece piece).Kept ∧ (e.writePiece piece).code = e.code ++ piece.content ∧
      (e.writePiece piece).source = e.source ∧
      (e.writePiece piece).mappings.toList = e.mappings.toList ++
        ((⟨path, piece, e.code⟩ : Chunk).mapping? e.source).toList := by
  obtain ⟨tag?, content⟩ := piece
  unfold Emitter.writePiece Chunk.mapping?
  by_cases hEmpty : content = ""
  · have hIs : content.isEmpty = true := String.isEmpty_iff.2 hEmpty
    cases tag? with
    | none => exact ⟨h.write content, rfl, rfl, by simp [hEmpty, Emitter.write]⟩
    | some tag =>
        simp only [hIs, if_true]
        exact ⟨h.write content, rfl, rfl, by simp [hEmpty, Emitter.write]⟩
  · have hIs : content.isEmpty = false := Bool.eq_false_iff.2 fun hIs =>
      hEmpty (String.isEmpty_iff.1 hIs)
    cases tag? with
    | none => exact ⟨h.write content, rfl, rfl, by simp [Emitter.write]⟩
    | some tag =>
        have hRecorded : (e.record tag).Kept := h
        simp only [hIs, Bool.false_eq_true, if_false, if_neg hEmpty]
        refine ⟨hRecorded.write content, rfl, rfl, ?_⟩
        simp only [Emitter.write, record, Array.toList_push, Option.map_some,
          Option.toList_some]
        rw [← h]

/-- Pieces are written one behind the other. -/
theorem Kept.foldl_writePiece {e : Emitter} (h : e.Kept) (leaves : List (List Nat × Piece)) :
    ((leaves.map Prod.snd).foldl Emitter.writePiece e).Kept ∧
      ((leaves.map Prod.snd).foldl Emitter.writePiece e).code =
        e.code ++ String.join (leaves.map fun leaf => leaf.2.content) ∧
      ((leaves.map Prod.snd).foldl Emitter.writePiece e).mappings.toList =
        e.mappings.toList ++
          (Chunk.layOut e.code leaves).filterMap (Chunk.mapping? e.source) := by
  induction leaves generalizing e with
  | nil => exact ⟨h, by simp, by simp [Chunk.layOut]⟩
  | cons leaf leaves ih =>
      obtain ⟨path, piece⟩ := leaf
      obtain ⟨hKept, hCode, hSource, hMappings⟩ := h.writePiece path piece
      obtain ⟨hKeptAll, hCodeAll, hMappingsAll⟩ := ih hKept
      rw [List.map_cons, List.foldl_cons]
      refine ⟨hKeptAll, ?_, ?_⟩
      · rw [hCodeAll, hCode, List.map_cons, String.join_cons, String.append_assoc]
      · rw [hMappingsAll, hMappings, hCode, hSource, Chunk.layOut, List.append_assoc,
          List.filterMap_eq_flatMap_toList, List.filterMap_eq_flatMap_toList, List.flatMap_cons]

/-- Texts and fragments that an emitter is used to write. -/
inductive Act where
  | write (text : String)
  | walk (f : Fragment)

/-- What is written. -/
def Act.content : Act → String
  | .write text => text
  | .walk f => f.content

/-- A text that is written is like one that no tagged group holds. -/
def Act.fragment : Act → Fragment
  | .write text => .text text
  | .walk f => f

def perform (e : Emitter) : Act → Emitter
  | .write text => e.write text
  | .walk f => e.writeFragment f

def performAll (e : Emitter) (acts : List Act) : Emitter :=
  acts.foldl perform e

theorem Act.content_fragment (act : Act) : act.fragment.content = act.content := by
  cases act with
  | write text => exact Fragment.content_text text
  | walk f => rfl

theorem perform_eq (e : Emitter) (act : Act) : e.perform act = e.writeFragment act.fragment := by
  cases act <;> rfl

/-- Several acts write what one fragment would that holds all of them. -/
theorem performAll_eq (e : Emitter) (acts : List Act) :
    e.performAll acts = e.writeFragment (.group none (acts.map Act.fragment)) := by
  induction acts generalizing e with
  | nil => rfl
  | cons act acts ih =>
      rw [performAll, List.foldl_cons, ← performAll, ih, perform_eq, List.map_cons]
      simp only [writeFragment, Fragment.pieces, Fragment.piecesOfAll, List.foldl_append]

theorem Kept.writeFragment {e : Emitter} (h : e.Kept) (f : Fragment) :
    (e.writeFragment f).Kept ∧ (e.writeFragment f).code = e.code ++ f.content ∧
      (e.writeFragment f).mappings.toList = e.mappings.toList ++
        (Chunk.layOut e.code (f.leaves none)).filterMap (Chunk.mapping? e.source) := by
  obtain ⟨hKept, hCode, hMappings⟩ := h.foldl_writePiece (f.leaves none)
  rw [Fragment.map_snd_leaves] at hKept hCode hMappings
  refine ⟨hKept, ?_, hMappings⟩
  rw [Emitter.writeFragment, hCode, Fragment.content, ← Fragment.map_snd_leaves, List.map_map]
  rfl

theorem kept_ofSource (source : String) : (ofSource source).Kept := rfl

/-- An emitter has written a text: it has this code, and stands behind it. -/
structure Wrote (e : Emitter) (text : String) : Prop where
  code : e.code = text
  /-- The place is counted as places in sources are. -/
  place : e.place = (Position.after text.toList).lineColumn
  line : e.place.line = 1 + text.toList.count '\n'
  column : e.place.column = Text.unitLength (text.toList.rtakeWhile (· != '\n'))

theorem Kept.wrote {e : Emitter} (h : e.Kept) : e.Wrote e.code where
  code := rfl
  place := h
  line := by rw [h, LineColumn.behind, Position.after_eq, Position.lineColumn]
  column := by rw [h, LineColumn.behind, Position.after_eq, Position.lineColumn]

theorem wrote_performAll (source : String) (acts : List Act) :
    ((ofSource source).performAll acts).Wrote (String.join (acts.map Act.content)) := by
  obtain ⟨hKept, hCode, _⟩ := (kept_ofSource source).writeFragment
    (.group none (acts.map Act.fragment))
  have hContents : String.join (acts.map Act.content) =
      "" ++ (Fragment.group none (acts.map Act.fragment)).content := by
    rw [Fragment.content_group, List.map_map, String.empty_append]
    exact congrArg String.join (List.map_congr_left fun act _ => act.content_fragment.symm)
  rw [performAll_eq, hContents]
  exact hCode ▸ hKept.wrote

theorem Wrote.finish {e : Emitter} {text : String} (h : e.Wrote text) (mapFile : String) :
    (e.finish mapFile).Wrote (text ++ mapComment mapFile) := by
  have hKept : e.Kept := by rw [Kept, h.code, h.place, LineColumn.behind]
  have hWrote := (hKept.write (mapComment mapFile)).wrote
  rw [Emitter.write, h.code] at hWrote
  rw [Emitter.finish, Emitter.write, h.code]
  exact hWrote

end Emitter

/-- **Writing keeps code, places and mappings in step.**  An emitter is used to write texts and
fragments, and is ended with the comment that names the source map.  The code is what was
written, in order, and then the comment.  After each use, and at the end, the place is the one
behind the code: one line for each newline, and the UTF-16 units since the last of them, just as
places are counted in sources.  The texts of all fragments stand in the code in the order of their
paths, each behind all that come before it.  There is one mapping for each text that is not empty
and that a tagged group holds directly, in this order.  It bears the tag of the group and leads
from the place behind the code in front of the text, so these places increase. -/
theorem fragment_writing (source mapFile : String) (acts : List Emitter.Act) :
    (∀ n, ((Emitter.ofSource source).performAll (acts.take n)).Wrote
      (String.join ((acts.take n).map Emitter.Act.content))) ∧
    (((Emitter.ofSource source).performAll acts).finish mapFile).Wrote
      (String.join (acts.map Emitter.Act.content) ++ Emitter.mapComment mapFile) ∧
    (∀ text, (Fragment.text text).content = text) ∧
    (∀ tag parts, (Fragment.group tag parts).content =
      String.join (parts.map Fragment.content)) ∧
    ∃ chunks : List Chunk,
      Chunk.LaidOut (.group none (acts.map Emitter.Act.fragment)) chunks ∧
      (((Emitter.ofSource source).performAll acts).finish mapFile).mappings.toList =
        chunks.filterMap (Chunk.mapping? source) ∧
      (((Emitter.ofSource source).performAll acts).finish mapFile).mappings.toList.Pairwise
        fun m n => m.generated < n.generated := by
  have hTable : (((Emitter.ofSource source).performAll acts).finish mapFile).mappings.toList =
      (Chunk.layOut "" ((Fragment.group none (acts.map Emitter.Act.fragment)).leaves
        none)).filterMap (Chunk.mapping? source) := by
    rw [Emitter.performAll_eq]
    exact ((Emitter.kept_ofSource source).writeFragment _).2.2
  refine ⟨fun n => Emitter.wrote_performAll source (acts.take n),
    (Emitter.wrote_performAll source acts).finish mapFile, Fragment.content_text,
    Fragment.content_group, _, Chunk.layOut_laidOut _, hTable, ?_⟩
  rw [hTable]
  exact Chunk.mappings_pairwise source "" _

end ReversePolish
