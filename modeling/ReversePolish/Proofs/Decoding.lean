import ReversePolish.Proofs.TableRoundTrip

/-!
# What a decoder accepts

A source map that comes from elsewhere may hold any text for its table.  The decoder takes
this text segment by segment, and what it stands in front of is either refused or one of
two things: a segment with a column only, which moves the column and leaves no mapping, or
a segment that stands for a mapping, all of whose parts have then passed a check.

The decoder is first brought into the form of one walk over the segments (`walk`).  Where
this walk can get to is `Reached`; so what holds at the start of the walk and is kept by
each of its steps holds of every segment that is ever decoded.

## Main results

* `decodeSegment_cases` — the two things that a segment can be.
* `Reached.decode_eq` — decoding is what remains to be decoded from a place that is reached.
* `exists_reached_of_mem_decode` — each mapping of a table is the one of a reached segment.
* `decode_reencode` — a decoded table is encoded again.
-/

namespace ReversePolish.SourceMap

/-! ## One segment -/

theorem eq_of_addWord_eq_ok {a b sum : Int} (h : addWord a b = .ok sum) :
    sum = a + b ∧ IsWord (a + b) := by
  unfold addWord at h
  split at h
  · next hWord => exact ⟨(Except.ok.inj h).symm, hWord⟩
  · cases h

theorem eq_of_coordinate_eq_ok {value : Int} {n : Nat} (h : coordinate value = .ok n) :
    value = n ∧ n < 2 ^ 32 := by
  unfold coordinate at h
  split at h
  · next hRange =>
      cases h
      omega
  · cases h

theorem lt_of_itemAt?_eq_some {items : List String} {index : Int} {item : String}
    (h : itemAt? items index = some item) :
    0 ≤ index ∧ index < items.length ∧ item ∈ items := by
  unfold itemAt? at h
  split at h
  · cases h
  · obtain ⟨hLength, _⟩ := List.getElem?_eq_some_iff.1 h
    exact ⟨by omega, by omega, List.mem_of_getElem? h⟩

/-- A segment on a line stands for a mapping, up to the name: the lines of the origin are
counted from 0 in the one and from 1 in the other. -/
structure Locates (map : SourceMap) (line : Nat) (s : Segment) (m : Mapping) : Prop where
  line : m.generated.line = line
  column : s.column = m.generated.column ∧ m.generated.column < 2 ^ 32
  originLine : s.originLine + 1 = m.origin.line ∧ m.origin.line < 2 ^ 32
  originColumn : s.originColumn = m.origin.column ∧ m.origin.column < 2 ^ 32
  source : itemAt? map.sources s.source = some m.source

theorem locates_of_mapping_eq_ok {map : SourceMap} {line : Nat} {s : Segment} {name : String}
    {m : Mapping} (h : map.mapping line s name = .ok m) :
    map.Locates line s m ∧ m.name = name := by
  obtain ⟨column, hColumn, hRest⟩ := exists_of_bind_eq_ok h
  obtain ⟨sum, hSum, hRest⟩ := exists_of_bind_eq_ok hRest
  obtain ⟨originLine, hOriginLine, hRest⟩ := exists_of_bind_eq_ok hRest
  obtain ⟨originColumn, hOriginColumn, hLast⟩ := exists_of_bind_eq_ok hRest
  obtain ⟨rfl, _⟩ := eq_of_addWord_eq_ok hSum
  split at hLast
  · next source hSource =>
      cases hLast
      exact ⟨⟨rfl, eq_of_coordinate_eq_ok hColumn, eq_of_coordinate_eq_ok hOriginLine,
        eq_of_coordinate_eq_ok hOriginColumn, hSource⟩, rfl⟩
  · cases hLast

theorem name_of_placeBehind_eq_ok {previous s : Segment}
    {column source originLine originColumn : Int}
    (h : placeBehind previous column source originLine originColumn = .ok s) :
    s.name = previous.name := by
  obtain ⟨_, _, hRest⟩ := exists_of_bind_eq_ok h
  obtain ⟨_, _, hRest⟩ := exists_of_bind_eq_ok hRest
  obtain ⟨_, _, hLast⟩ := exists_of_bind_eq_ok hRest
  cases hLast
  rfl

/-- A segment has a column only, or it stands for a mapping.  In a mapping without a name
the name of the segments before is kept for those that follow. -/
theorem decodeSegment_cases {map : SourceMap} {line : Nat} {previous s : Segment}
    {text : List Char} {found : Option Mapping}
    (h : map.decodeSegment line previous text = .ok (s, found)) :
    (∃ c, fields text = .ok [c] ∧ IsWord (previous.column + c) ∧
      s = { previous with column := previous.column + c } ∧ found = none) ∨
    ∃ m, found = some m ∧ map.Locates line s m ∧
      (s.name = previous.name ∧ m.name = "" ∨ itemAt? map.names s.name = some m.name) := by
  obtain ⟨values, hValues, hRest⟩ := exists_of_bind_eq_ok h
  obtain ⟨column, hColumn, hKind⟩ := exists_of_bind_eq_ok hRest
  obtain ⟨rfl, hWord⟩ := eq_of_addWord_eq_ok hColumn
  clear h hRest hColumn
  split at hKind
  · next c =>
      cases hKind
      exact Or.inl ⟨c, hValues, hWord, rfl, rfl⟩
  · next c source originLine originColumn =>
      obtain ⟨placed, hPlaced, hRest⟩ := exists_of_bind_eq_ok hKind
      obtain ⟨m, hMapping, hLast⟩ := exists_of_bind_eq_ok hRest
      cases hLast
      obtain ⟨hLocates, hName⟩ := locates_of_mapping_eq_ok hMapping
      exact Or.inr ⟨m, rfl, hLocates, Or.inl ⟨name_of_placeBehind_eq_ok hPlaced, hName⟩⟩
  · next c source originLine originColumn name =>
      obtain ⟨placed, _, hRest⟩ := exists_of_bind_eq_ok hKind
      obtain ⟨index, _, hLast⟩ := exists_of_bind_eq_ok hRest
      split at hLast
      · cases hLast
      · next text hText =>
          obtain ⟨m, hMapping, hLast⟩ := exists_of_bind_eq_ok hLast
          cases hLast
          obtain ⟨hLocates, rfl⟩ := locates_of_mapping_eq_ok hMapping
          exact Or.inr ⟨m, rfl, hLocates, Or.inr hText⟩
  · cases hKind

/-! ## The decoder as a walk -/

/-- The texts of the segments on a line. -/
def segmentTexts (line : List Char) : List (List Char) :=
  (Text.split ',' line).filter (!·.isEmpty)

/-- The table of the segments that remain on a line and of the lines below. -/
def walk (map : SourceMap) (line : Nat) (previous : Segment) :
    List (List Char) → List (List Char) → Except MapFault (List Mapping)
  | [], [] => .ok []
  | [], below :: lines =>
    if line + 1 < 2 ^ 32 then
      map.walk (line + 1) previous.atLineStart (segmentTexts below) lines
    else .error .tooManyLines
  | text :: texts, lines =>
    (map.decodeSegment line previous text).bind fun next =>
      (map.walk line next.1 texts lines).map (next.2.toList ++ ·)
termination_by texts lines => (lines.length, texts.length)

/-- What is put in front of a table twice can be put in front of it at once. -/
theorem map_append_map (x : Except MapFault (List Mapping)) (front table : List Mapping) :
    (x.map (table ++ ·)).map (front ++ ·) = x.map (front ++ table ++ ·) := by
  cases x with
  | error fault => rfl
  | ok rest => exact congrArg Except.ok (List.append_assoc front table rest).symm

theorem decodeLines_cons {line : Nat} (hLine : line < 2 ^ 32) (map : SourceMap)
    (previous : Segment) (top : List Char) (lines : List (List Char)) :
    map.decodeLines line previous (top :: lines) =
      (map.decodeLine line previous (segmentTexts top)).bind fun next =>
        (map.decodeLines (line + 1) next.1 lines).map (next.2 ++ ·) := by
  have hCount : line < 0x100000000 := hLine
  rw [decodeLines, if_pos hCount]
  refine congrArg (Except.bind _) (funext fun next => ?_)
  show ((map.decodeLines (line + 1) next.1 lines).bind fun tables => .ok (next.2 ++ tables)) = _
  cases map.decodeLines (line + 1) next.1 lines <;> rfl

/-- Line by line and segment by segment, the decoder walks. -/
theorem walk_eq (map : SourceMap) (line : Nat) (previous : Segment)
    (texts lines : List (List Char)) :
    map.walk line previous texts lines =
      (map.decodeLine line previous texts).bind fun next =>
        (map.decodeLines (line + 1) next.1 lines).map (next.2 ++ ·) := by
  fun_induction walk map line previous texts lines with
  | case1 line previous => rfl
  | case2 line previous below lines hCount ih =>
      rw [ih, decodeLine, Except.bind, decodeLines_cons hCount]
      cases (map.decodeLine (line + 1) previous.atLineStart (segmentTexts below)).bind _ <;> rfl
  | case3 line previous below lines hCount =>
      have hLine : ¬line + 1 < 0x100000000 := hCount
      rw [decodeLine, Except.bind, decodeLines, if_neg hLine]
      rfl
  | case4 line previous text texts lines ih =>
      rw [decodeLine]
      cases map.decodeSegment line previous text with
      | error fault => rfl
      | ok next =>
          show (map.walk line next.1 texts lines).map (next.2.toList ++ ·) =
            ((map.decodeLine line next.1 texts).bind fun rest =>
              .ok (rest.1, next.2.toList ++ rest.2)).bind fun next =>
                (map.decodeLines (line + 1) next.1 lines).map (next.2 ++ ·)
          rw [ih next]
          cases map.decodeLine line next.1 texts with
          | error fault => rfl
          | ok rest => exact map_append_map _ _ _

theorem decode_eq_walk {map : SourceMap} {top : List Char} {lines : List (List Char)}
    (h : Text.split ';' map.mappings.toList = top :: lines) :
    map.decode = map.walk 1 .zero (segmentTexts top) lines := by
  rw [walk_eq, decode, h, decodeLines_cons (by decide)]

/-- Where the decoder gets to on its way: in front of the segments that remain on a line,
with the lines below still to come. -/
inductive Reached (map : SourceMap) :
    (line : Nat) → (previous : Segment) → (texts lines : List (List Char)) → Prop where
  | start {top : List Char} {lines : List (List Char)}
      (h : Text.split ';' map.mappings.toList = top :: lines) :
      Reached map 1 .zero (segmentTexts top) lines
  | segment {line : Nat} {previous s : Segment} {text : List Char}
      {texts lines : List (List Char)} {found : Option Mapping}
      (h : Reached map line previous (text :: texts) lines)
      (hSegment : map.decodeSegment line previous text = .ok (s, found)) :
      Reached map line s texts lines
  | lineBreak {line : Nat} {previous : Segment} {below : List Char} {lines : List (List Char)}
      (h : Reached map line previous [] (below :: lines)) (hCount : line + 1 < 2 ^ 32) :
      Reached map (line + 1) previous.atLineStart (segmentTexts below) lines

theorem exists_reached_start (map : SourceMap) : ∃ texts lines,
    map.Reached 1 .zero texts lines ∧ map.decode = map.walk 1 .zero texts lines := by
  obtain ⟨top, lines, h⟩ := Text.exists_split ';' map.mappings.toList
  exact ⟨segmentTexts top, lines, .start h, decode_eq_walk h⟩

/-- From a place that is reached, decoding goes on with what remains there. -/
theorem Reached.decode_eq {map : SourceMap} {line : Nat} {previous : Segment}
    {texts lines : List (List Char)} (h : map.Reached line previous texts lines) :
    ∃ table, map.decode = (map.walk line previous texts lines).map (table ++ ·) := by
  induction h with
  | start h =>
      refine ⟨[], ?_⟩
      rw [decode_eq_walk h]
      cases map.walk 1 .zero _ _ <;> rfl
  | @segment line previous s text texts lines found h hSegment ih =>
      obtain ⟨table, hTable⟩ := ih
      refine ⟨table ++ found.toList, ?_⟩
      rw [hTable, walk, hSegment]
      exact map_append_map _ _ _
  | lineBreak h hCount ih =>
      obtain ⟨table, hTable⟩ := ih
      refine ⟨table, ?_⟩
      rw [hTable, walk, if_pos hCount]

/-- A walk fails at a segment, unless there are too many lines. -/
theorem Reached.exists_of_walk_eq_error {map : SourceMap} {line : Nat} {previous : Segment}
    {texts lines : List (List Char)} {fault : MapFault}
    (h : map.Reached line previous texts lines)
    (hFault : map.walk line previous texts lines = .error fault) :
    fault = .tooManyLines ∨ ∃ line previous text texts lines,
      map.Reached line previous (text :: texts) lines ∧
        map.decodeSegment line previous text = .error fault := by
  fun_induction walk map line previous texts lines with
  | case1 line previous => cases hFault
  | case2 line previous below lines hCount ih => exact ih (h.lineBreak hCount) hFault
  | case3 line previous below lines hCount => exact Or.inl (Except.error.inj hFault).symm
  | case4 line previous text texts lines ih =>
      rcases eq_error_or_of_bind_eq_error hFault with hSegment | ⟨next, hSegment, hRest⟩
      · exact Or.inr ⟨line, previous, text, texts, lines, h, hSegment⟩
      · exact ih next (h.segment hSegment) (eq_error_of_map_eq_error hRest)

/-- A mapping that the walk from a line on finds: the one of a segment that is reached. -/
def Found (map : SourceMap) (line : Nat) (m : Mapping) : Prop :=
  line ≤ m.generated.line ∧ ∃ previous text texts lines s,
    map.Reached m.generated.line previous (text :: texts) lines ∧
      map.decodeSegment m.generated.line previous text = .ok (s, some m)

theorem Reached.found_of_walk_eq_ok {map : SourceMap} {line : Nat} {previous : Segment}
    {texts lines : List (List Char)} {table : List Mapping}
    (h : map.Reached line previous texts lines)
    (hTable : map.walk line previous texts lines = .ok table) :
    (∀ m ∈ table, map.Found line m) ∧
      table.Pairwise fun m n => m.generated.line ≤ n.generated.line := by
  fun_induction walk map line previous texts lines generalizing table with
  | case1 line previous =>
      cases hTable
      exact ⟨fun _ hm => absurd hm List.not_mem_nil, List.Pairwise.nil⟩
  | case2 line previous below lines hCount ih =>
      obtain ⟨hFound, hOrdered⟩ := ih (h.lineBreak hCount) hTable
      exact ⟨fun m hm => ⟨Nat.le_of_succ_le (hFound m hm).1, (hFound m hm).2⟩, hOrdered⟩
  | case3 line previous below lines hCount => cases hTable
  | case4 line previous text texts lines ih =>
      obtain ⟨next, hSegment, hRest⟩ := exists_of_bind_eq_ok hTable
      obtain ⟨rest, hWalk, rfl⟩ := exists_of_map_eq_ok hRest
      obtain ⟨s, found⟩ := next
      obtain ⟨hFound, hOrdered⟩ := ih (s, found) (h.segment hSegment) hWalk
      rcases decodeSegment_cases hSegment with ⟨_, _, _, _, rfl⟩ | ⟨m, rfl, hLocates, _⟩
      · exact ⟨hFound, hOrdered⟩
      · -- The mapping lies on the line of the walk, and the others on this one or below.
        obtain rfl := hLocates.line
        refine ⟨List.forall_mem_cons.2 ⟨?_, hFound⟩, List.pairwise_cons.2 ⟨?_, hOrdered⟩⟩
        · exact ⟨Nat.le_refl _, previous, text, texts, lines, s, h, hSegment⟩
        · exact fun n hn => (hFound n hn).1

/-! ## Decoded tables -/

theorem Reached.line_inRange {map : SourceMap} {line : Nat} {previous : Segment}
    {texts lines : List (List Char)} (h : map.Reached line previous texts lines) :
    1 ≤ line ∧ line < 2 ^ 32 := by
  induction h with
  | start h => decide
  | segment h hSegment ih => exact ih
  | lineBreak h hCount ih => exact ⟨Nat.le_add_left 1 _, hCount⟩

/-- A mapping that passes the checks of the decoder.  Line 0 of the origin passes them. -/
structure Accepts (map : SourceMap) (m : Mapping) : Prop where
  inRange : m.InRange
  generated_pos : 1 ≤ m.generated.line
  source_mem : m.source ∈ map.sources
  name_mem : m.name ∈ "" :: map.names

theorem Found.accepts {map : SourceMap} {line : Nat} {m : Mapping} (h : map.Found line m) :
    map.Accepts m := by
  obtain ⟨-, previous, text, texts, lines, s, hReached, hSegment⟩ := h
  obtain ⟨hPos, hLine⟩ := hReached.line_inRange
  rcases decodeSegment_cases hSegment with ⟨_, _, _, _, hNone⟩ | ⟨m', hSome, hLocates, hName⟩
  · cases hNone
  · cases hSome
    refine ⟨⟨hLine, hLocates.column.2, hLocates.originLine.2, hLocates.originColumn.2⟩, hPos,
      (lt_of_itemAt?_eq_some hLocates.source).2.2, ?_⟩
    rcases hName with ⟨_, hEmpty⟩ | hItem
    · rw [hEmpty]
      exact List.mem_cons_self
    · exact List.mem_cons_of_mem _ (lt_of_itemAt?_eq_some hItem).2.2

/-- The mappings of a decoded table pass the checks, and their lines do not decrease. -/
theorem accepts_of_decode_eq_ok {map : SourceMap} {table : List Mapping}
    (h : map.decode = .ok table) :
    (∀ m ∈ table, map.Accepts m) ∧
      table.Pairwise fun m n => m.generated.line ≤ n.generated.line := by
  obtain ⟨texts, lines, hReached, hWalk⟩ := map.exists_reached_start
  obtain ⟨hFound, hOrdered⟩ := hReached.found_of_walk_eq_ok (hWalk.symm.trans h)
  exact ⟨fun m hm => (hFound m hm).accepts, hOrdered⟩

/-- A decoded table is encoded again and decoded.  What comes back is the table with runs of
equal mappings collapsed, except that line 0 of an origin has become line 1: the decoder lets
line 0 pass, and the encoder has no way to write it. -/
theorem decode_reencode (map : SourceMap) (hSources : map.sources.length ≤ 2 ^ 62)
    (hNames : map.names.length < 2 ^ 62) (table : List Mapping) (h : map.decode = .ok table)
    (file : String) :
    (ofMappings file table).decode = .ok ((table.destutter (· ≠ ·)).map asWritten) ∧
      ((ofMappings file table).decode = .ok (table.destutter (· ≠ ·)) ↔
        ∀ m ∈ table, m.origin.line ≠ 0) := by
  obtain ⟨hAccepts, hOrdered⟩ := accepts_of_decode_eq_ok h
  have hSourceList : (distinct (table.map Mapping.source)).length ≤ 2 ^ 62 :=
    Nat.le_trans (length_distinct_le fun m hm => (hAccepts m hm).source_mem) hSources
  have hNameList : (distinct (table.map Mapping.name)).length ≤ 2 ^ 62 :=
    Nat.le_trans (length_distinct_le fun m hm => (hAccepts m hm).name_mem) hNames
  have hDecode : (ofMappings file table).decode =
      .ok ((table.destutter (· ≠ ·)).map asWritten) :=
    decode_ofMappings_asWritten (fun m hm => (hAccepts m hm).inRange)
      (fun m hm => (hAccepts m hm).generated_pos) hOrdered hSourceList hNameList file none
  refine ⟨hDecode, ?_⟩
  rw [hDecode, Except.ok.injEq, map_asWritten_eq_self_iff]
  simp only [Nat.one_le_iff_ne_zero]

/-- A table with segments of one and of four fields, and with a repeat. -/
theorem decode_reencode_foreign :
    let map : SourceMap := ⟨3, "g", ["unused", "s"], none, ["x"], "C,ACCAA;;AAAA,AAAA"⟩
    let table : List Mapping := [⟨⟨1, 1⟩, ⟨2, 0⟩, "s", "x"⟩, ⟨⟨3, 0⟩, ⟨2, 0⟩, "s", ""⟩,
      ⟨⟨3, 0⟩, ⟨2, 0⟩, "s", ""⟩]
    map.decode = .ok table ∧ (ofMappings "f" table).decode = .ok (table.take 2) := by
  have hDecode :
      (⟨3, "g", ["unused", "s"], none, ["x"], "C,ACCAA;;AAAA,AAAA"⟩ : SourceMap).decode =
        .ok [⟨⟨1, 1⟩, ⟨2, 0⟩, "s", "x"⟩, ⟨⟨3, 0⟩, ⟨2, 0⟩, "s", ""⟩,
          ⟨⟨3, 0⟩, ⟨2, 0⟩, "s", ""⟩] := by
    decide +kernel
  exact ⟨hDecode, (decode_reencode _ (by decide) (by decide) _ hDecode "f").1⟩

/-- Line 0 of an origin passes the decoder and comes back as line 1. -/
theorem decode_reencode_line_zero :
    (⟨3, "g", ["s"], none, ["x"], "AADAA"⟩ : SourceMap).decode =
        .ok [⟨⟨1, 0⟩, ⟨0, 0⟩, "s", "x"⟩] ∧
      (ofMappings "f" [⟨⟨1, 0⟩, ⟨0, 0⟩, "s", "x"⟩]).decode =
        .ok [⟨⟨1, 0⟩, ⟨1, 0⟩, "s", "x"⟩] := by
  decide +kernel

end ReversePolish.SourceMap
