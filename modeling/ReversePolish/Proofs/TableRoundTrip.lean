import Mathlib.Data.List.Destutter
import Mathlib.Tactic.MkIffOfInductiveProp
import ReversePolish.Proofs.CallReading
import ReversePolish.Proofs.Vlq

/-!
# Tables read back

A source map gives back the table that it was made of, except that a mapping which is
repeated right behind itself is given back once.  Encoder and decoder move over the
text together: in front of each segment they stand on the same line and compare with
the same segment before (`decodeFrom_encodeFrom`).

A decoder that stands somewhere in the text has three ways to go on, and each is a
lemma of its own: over a semicolon, over a comma, and over a segment.

## Main results

* `decodeFrom_encodeFrom` — what is encoded behind a pen is decoded there.
* `distinct_firstUses` — sources and names are listed in the order of first use.
* `table_roundTrip` — a table is read back from its source map.
-/

namespace ReversePolish

namespace SourceMap

/-! ## Moving over the text -/

/-- The table of a text that starts on a line, behind a segment. -/
def decodeFrom (map : SourceMap) (line : Nat) (previous : Segment) (text : List Char) :
    Except MapFault (List Mapping) :=
  map.decodeLines line previous (Text.split ';' text)

theorem decodeFrom_nil (map : SourceMap) {line : Nat} (hLine : line < 2 ^ 32)
    (previous : Segment) : map.decodeFrom line previous [] = .ok [] := by
  have hCount : line < 0x100000000 := hLine
  show (if line < 0x100000000 then Except.ok [] else _) = _
  rw [if_pos hCount]

theorem decodeFrom_semicolon (map : SourceMap) {line : Nat} (hLine : line < 2 ^ 32)
    (previous : Segment) (text : List Char) :
    map.decodeFrom line previous (';' :: text) =
      map.decodeFrom (line + 1) previous.atLineStart text := by
  have hCount : line < 0x100000000 := hLine
  unfold decodeFrom
  rw [Text.split_cons, if_pos rfl, decodeLines, if_pos hCount]
  show (map.decodeLines (line + 1) previous.atLineStart (Text.split ';' text)).bind
    (fun tables => .ok ([] ++ tables)) = _
  cases map.decodeLines (line + 1) previous.atLineStart (Text.split ';' text) <;> rfl

theorem decodeFrom_semicolons (map : SourceMap) {line count : Nat}
    (hLine : line + count < 2 ^ 32) (previous : Segment) (text : List Char) :
    map.decodeFrom line previous (List.replicate (count + 1) ';' ++ text) =
      map.decodeFrom (line + count + 1) previous.atLineStart text := by
  induction count generalizing line previous with
  | zero => exact decodeFrom_semicolon map hLine previous text
  | succ count ih =>
      rw [List.replicate_succ, List.cons_append, decodeFrom_semicolon map (by omega),
        ih (by omega), show line + 1 + count + 1 = line + (count + 1) + 1 by omega]
      rfl

theorem decodeFrom_comma (map : SourceMap) (line : Nat) (previous : Segment)
    (text : List Char) :
    map.decodeFrom line previous (',' :: text) = map.decodeFrom line previous text := by
  obtain ⟨part, parts, hParts⟩ := Text.exists_split ';' text
  unfold decodeFrom
  rw [Text.split_cons, if_neg (by decide), hParts]
  show map.decodeLines line previous ((',' :: part) :: parts) = _
  simp only [decodeLines, Text.split_cons, if_pos, List.filter_cons, List.isEmpty_nil,
    Bool.not_true, Bool.false_eq_true, if_false]

/-- A text that cannot go on with a digit. -/
def Ends (text : List Char) : Prop := ∀ c ∈ text.head?, c = ',' ∨ c = ';'

/-- Over a segment: what stands behind it is compared with it. -/
theorem decodeFrom_segment {map : SourceMap} {line : Nat} {previous s : Segment}
    {digits text : List Char} {found : Option Mapping} {table : List Mapping}
    (hDigits : digits ≠ []) (hSeparators : ',' ∉ digits ∧ ';' ∉ digits) (hEnds : Ends text)
    (hSegment : map.decodeSegment line previous digits = .ok (s, found))
    (hText : map.decodeFrom line s text = .ok table) :
    map.decodeFrom line previous (digits ++ text) = .ok (found.toList ++ table) := by
  obtain ⟨part, parts, hParts⟩ := Text.exists_split ';' text
  -- The segment ends at a comma, at a semicolon or at the end of the text: in each case
  -- the digits are cut off as one piece.
  obtain ⟨pieces, hPieces⟩ : ∃ pieces, Text.split ',' part = [] :: pieces := by
    cases text with
    | nil =>
        cases hParts
        exact ⟨[], rfl⟩
    | cons c text =>
        rcases hEnds c rfl with rfl | rfl
        · obtain ⟨part', parts', hParts'⟩ := Text.exists_split ';' text
          rw [Text.split_cons, if_neg (by decide), hParts'] at hParts
          cases hParts
          exact ⟨Text.split ',' part', by rw [Text.split_cons, if_pos rfl]⟩
        · rw [Text.split_cons, if_pos rfl] at hParts
          cases hParts
          exact ⟨[], rfl⟩
  have hFirst : Text.split ',' (digits ++ part) = digits :: pieces := by
    rw [Text.split_append hSeparators.1 hPieces, List.append_nil]
  have hKept : (!digits.isEmpty) = true := by simpa using hDigits
  unfold decodeFrom at hText ⊢
  rw [Text.split_append hSeparators.2 hParts, decodeLines]
  rw [hParts, decodeLines] at hText
  by_cases hCount : line < 0x100000000
  case neg => simp only [if_neg hCount, reduceCtorEq] at hText
  simp only [if_pos hCount, hPieces, List.filter_cons, List.isEmpty_nil, Bool.not_true,
    Bool.false_eq_true, if_false] at hText
  simp only [if_pos hCount, hFirst, List.filter_cons, hKept, if_true, decodeLine, hSegment]
  cases hLine : map.decodeLine line s (pieces.filter (!·.isEmpty)) with
  | error fault => simp [hLine, bind, Except.bind] at hText
  | ok result =>
      obtain ⟨last, onLine⟩ := result
      simp only [hLine, bind, Except.bind] at hText ⊢
      cases hLines : map.decodeLines (line + 1) last parts with
      | error fault => simp [hLines] at hText
      | ok tables =>
          simp only [hLines, Except.ok.injEq] at hText ⊢
          rw [← hText, List.append_assoc]

end SourceMap

/-! ## Segments -/

/-- A line or a column is a 32-bit number, and this says so of all four of a mapping. -/
@[mk_iff]
structure Mapping.InRange (m : Mapping) : Prop where
  generatedLine : m.generated.line < 2 ^ 32
  generatedColumn : m.generated.column < 2 ^ 32
  originLine : m.origin.line < 2 ^ 32
  originColumn : m.origin.column < 2 ^ 32

instance (m : Mapping) : Decidable m.InRange :=
  decidable_of_iff _ (Mapping.inRange_iff m).symm

/-- Fields that are no negative numbers and have less than 63 bits. -/
structure Segment.InRange (s : Segment) : Prop where
  column : 0 ≤ s.column ∧ s.column < 2 ^ 62
  source : 0 ≤ s.source ∧ s.source < 2 ^ 62
  originLine : 0 ≤ s.originLine ∧ s.originLine < 2 ^ 62
  originColumn : 0 ≤ s.originColumn ∧ s.originColumn < 2 ^ 62
  name : 0 ≤ s.name ∧ s.name < 2 ^ 62

theorem Segment.InRange.zero : Segment.zero.InRange := by
  constructor <;> decide

theorem Segment.InRange.atLineStart {s : Segment} (h : s.InRange) : s.atLineStart.InRange :=
  ⟨by simp [Segment.atLineStart], h.source, h.originLine, h.originColumn, h.name⟩

theorem Segment.InRange.deltas_short {s previous : Segment} (h : s.InRange)
    (hPrevious : previous.InRange) : ∀ v ∈ s.deltas previous, Vlq.Short v := by
  have hShort {a b : Int} (ha : 0 ≤ a ∧ a < 2 ^ 62) (hb : 0 ≤ b ∧ b < 2 ^ 62) :
      Vlq.Short (a - b) := by
    unfold Vlq.Short
    omega
  simp only [deltas, List.forall_mem_cons, List.not_mem_nil, false_implies, implies_true,
    and_true]
  exact ⟨hShort h.column hPrevious.column, hShort h.source hPrevious.source,
    hShort h.originLine hPrevious.originLine, hShort h.originColumn hPrevious.originColumn,
    hShort h.name hPrevious.name⟩

theorem Segment.encode_ne_nil (s previous : Segment) : s.encode previous ≠ [] := by
  intro h
  rw [encode, List.flatMap_eq_nil_iff] at h
  exact Vlq.encode_ne_nil _ (h (s.column - previous.column) (by simp [deltas]))

theorem Segment.separators_not_mem_encode (s previous : Segment) :
    ',' ∉ s.encode previous ∧ ';' ∉ s.encode previous := by
  constructor
  · intro h
    obtain ⟨v, _, hv⟩ := List.mem_flatMap.1 h
    exact (Vlq.separators_not_mem_encode v).1 hv
  · intro h
    obtain ⟨v, _, hv⟩ := List.mem_flatMap.1 h
    exact (Vlq.separators_not_mem_encode v).2 hv

namespace SourceMap

/-- A mapping that a source map can hold: its source and its name are listed. -/
structure Holds (map : SourceMap) (m : Mapping) : Prop where
  inRange : m.InRange
  origin_pos : 1 ≤ m.origin.line
  source_mem : m.source ∈ map.sources
  name_mem : m.name ∈ map.names

theorem addWord_eq_ok {a b sum : Int} (h : a + b = sum) (hWord : IsWord sum) :
    addWord a b = .ok sum := by
  rw [addWord, h, if_pos hWord]

/-- A difference leads back to the number that it was taken from. -/
theorem addWord_sub {a b : Int} (h : 0 ≤ b ∧ b < 2 ^ 62) : addWord a (b - a) = .ok b := by
  refine addWord_eq_ok (by omega) ?_
  unfold IsWord
  omega

/-- A segment is read back behind any other one. -/
theorem decodeSegment_encode {map : SourceMap} {line : Nat} {previous s : Segment}
    {m : Mapping} (h : s.InRange) (hPrevious : previous.InRange)
    (hName : itemAt? map.names s.name = some m.name)
    (hMapping : map.mapping line s m.name = .ok m) :
    map.decodeSegment line previous (s.encode previous) = .ok (s, some m) := by
  have hFields : fields (s.encode previous) = .ok (s.deltas previous) := by
    rw [fields, Segment.encode, Vlq.decodeAll_flatMap_encode (h.deltas_short hPrevious)]
  rw [decodeSegment, hFields]
  simp only [Segment.deltas, placeBehind, bind, Except.bind, List.headD_cons,
    addWord_sub h.column, addWord_sub h.source, addWord_sub h.originLine,
    addWord_sub h.originColumn, addWord_sub h.name, hName, hMapping]

theorem itemAt?_idxOf {items : List String} {item : String} (h : item ∈ items) :
    itemAt? items (items.idxOf item) = some item := by
  rw [itemAt?, if_neg (by omega), Int.toNat_natCast]
  exact List.getElem?_idxOf h

theorem coordinate_natCast {value : Nat} (h : value < 2 ^ 32) :
    coordinate value = .ok value := by
  have hRange : (0 : Int) ≤ value ∧ (value : Int) < 0x100000000 := by omega
  rw [coordinate, if_pos hRange, Int.toNat_natCast]

theorem Holds.mapping_segment {map : SourceMap} {m : Mapping} (h : map.Holds m) :
    map.mapping m.generated.line (segment map.sources map.names m) m.name = .ok m := by
  have hOrigin := h.origin_pos
  have hRange := h.inRange.originLine
  have hLine : addWord ((m.origin.line - 1 : Nat) : Int) 1 = .ok (m.origin.line : Int) := by
    refine addWord_eq_ok (by omega) ?_
    unfold IsWord
    omega
  unfold mapping segment
  simp only [hLine, ok_bind, coordinate_natCast h.inRange.generatedColumn,
    coordinate_natCast h.inRange.originLine, coordinate_natCast h.inRange.originColumn,
    itemAt?_idxOf h.source_mem]

theorem Holds.segment_inRange {map : SourceMap} {m : Mapping} (h : map.Holds m)
    (hSources : map.sources.length ≤ 2 ^ 62) (hNames : map.names.length ≤ 2 ^ 62) :
    (segment map.sources map.names m).InRange := by
  have hSource := List.idxOf_lt_length_of_mem h.source_mem
  have hName := List.idxOf_lt_length_of_mem h.name_mem
  obtain ⟨_, hColumn, hOriginLine, hOriginColumn⟩ := h.inRange
  constructor <;> simp only [segment] <;> omega

/-! ## Whole tables -/

/-- Behind a segment the text does not go on with a digit. -/
theorem encodeFrom_ends (line : Nat) (previous : Segment) (rest : List (Nat × Segment)) :
    Ends (encodeFrom ⟨line, true, previous⟩ rest) := by
  intro c hc
  cases rest with
  | nil => simp [encodeFrom] at hc
  | cons head rest =>
      obtain ⟨next, s⟩ := head
      by_cases hLine : line < next
      · obtain ⟨count, hCount⟩ := Nat.exists_eq_add_of_lt hLine
        rw [encodeFrom, if_pos hLine, show next - line = count + 1 by omega] at hc
        simp only [List.replicate_succ, List.cons_append, List.head?_cons,
          Option.mem_some_iff] at hc
        exact Or.inr hc.symm
      · rw [encodeFrom, if_neg hLine] at hc
        simp only [if_true, List.cons_append, List.head?_cons, Option.mem_some_iff] at hc
        exact Or.inl hc.symm

/-- What is encoded behind a pen is decoded there. -/
theorem decodeFrom_encodeFrom {map : SourceMap} {table : List Mapping} (pen : Pen)
    (hSources : map.sources.length ≤ 2 ^ 62) (hNames : map.names.length ≤ 2 ^ 62)
    (hHolds : ∀ m ∈ table, map.Holds m)
    (hOrdered : table.Pairwise fun m n => m.generated.line ≤ n.generated.line)
    (hPen : ∀ m ∈ table, pen.line ≤ m.generated.line) (hLine : pen.line < 2 ^ 32)
    (hPrevious : pen.previous.InRange) :
    map.decodeFrom pen.line pen.previous (encodeFrom pen (table.map fun m =>
      (m.generated.line, segment map.sources map.names m))) = .ok table := by
  induction table generalizing pen with
  | nil => exact decodeFrom_nil map hLine pen.previous
  | cons m table ih =>
      rw [List.forall_mem_cons] at hHolds hPen
      rw [List.pairwise_cons] at hOrdered
      have hSegment := hHolds.1.segment_inRange hSources hNames
      have hGenerated := hHolds.1.inRange.generatedLine
      -- From the line of the mapping on, whatever the segment is compared with.
      have hFrom {previous : Segment} (hRange : previous.InRange) :
          map.decodeFrom m.generated.line previous
            ((segment map.sources map.names m).encode previous ++
              encodeFrom ⟨m.generated.line, true, segment map.sources map.names m⟩
                (table.map fun m => (m.generated.line, segment map.sources map.names m))) =
            .ok (m :: table) :=
        decodeFrom_segment (Segment.encode_ne_nil _ _)
          (Segment.separators_not_mem_encode _ _) (encodeFrom_ends _ _ _)
          (decodeSegment_encode hSegment hRange (itemAt?_idxOf hHolds.1.name_mem)
            hHolds.1.mapping_segment)
          (ih ⟨m.generated.line, true, segment map.sources map.names m⟩ hHolds.2 hOrdered.2
            hOrdered.1 hGenerated hSegment)
      rw [List.map_cons]
      by_cases hBefore : pen.line < m.generated.line
      · obtain ⟨count, hCount⟩ := Nat.exists_eq_add_of_lt hBefore
        rw [encodeFrom, if_pos hBefore,
          show m.generated.line - pen.line = count + 1 by omega, List.append_assoc,
          decodeFrom_semicolons map (by omega), ← hCount]
        exact hFrom hPrevious.atLineStart
      · have hSame : pen.line = m.generated.line := by
          have hLe := hPen.1
          omega
        rw [encodeFrom, if_neg hBefore, hSame]
        cases pen.started with
        | false => exact hFrom hPrevious
        | true =>
            rw [if_pos rfl, List.append_assoc, List.cons_append, decodeFrom_comma]
            exact hFrom hPrevious

/-! ## Texts that are listed once -/

/-- The texts that a list uses, each once, in the order of first use. -/
structure FirstUses (found texts : List String) : Prop where
  nodup : found.Nodup
  mem_iff : ∀ text, text ∈ found ↔ text ∈ texts
  ordered : found.Pairwise fun a b => texts.idxOf a < texts.idxOf b

theorem distinct_concat (texts : List String) (text : String) :
    distinct (texts ++ [text]) =
      if text ∈ distinct texts then distinct texts else distinct texts ++ [text] := by
  rw [distinct, List.foldl_append]
  rfl

theorem distinct_firstUses (texts : List String) : FirstUses (distinct texts) texts := by
  induction texts using List.reverseRecOn with
  | nil => exact ⟨List.nodup_nil, fun _ => Iff.rfl, List.Pairwise.nil⟩
  | append_singleton texts text ih =>
      -- The texts that are listed already keep their first places.
      have hKept : (distinct texts).Pairwise fun a b =>
          (texts ++ [text]).idxOf a < (texts ++ [text]).idxOf b := by
        refine List.Pairwise.imp_of_mem ?_ ih.ordered
        intro a b ha hb hLess
        rw [List.idxOf_append_of_mem ((ih.mem_iff a).1 ha),
          List.idxOf_append_of_mem ((ih.mem_iff b).1 hb)]
        exact hLess
      rw [distinct_concat]
      by_cases hText : text ∈ distinct texts
      · rw [if_pos hText]
        refine ⟨ih.nodup, ?_, hKept⟩
        intro other
        rw [ih.mem_iff, List.mem_append, List.mem_singleton]
        have hUsed := (ih.mem_iff text).1 hText
        constructor
        · exact Or.inl
        · rintro (hOther | rfl)
          · exact hOther
          · exact hUsed
      · rw [if_neg hText]
        have hNew : text ∉ texts := fun hUsed => hText ((ih.mem_iff text).2 hUsed)
        refine ⟨?_, ?_, ?_⟩
        · rw [List.nodup_append]
          refine ⟨ih.nodup, List.nodup_singleton text, ?_⟩
          intro a ha b hb hEq
          rw [List.mem_singleton] at hb
          exact hText (hb ▸ hEq ▸ ha)
        · intro other
          rw [List.mem_append, List.mem_append, ih.mem_iff]
        · rw [List.pairwise_append]
          refine ⟨hKept, List.pairwise_singleton _ _, ?_⟩
          intro a ha b hb
          rw [List.mem_singleton] at hb
          have hUsed := (ih.mem_iff a).1 ha
          rw [hb, List.idxOf_append_of_mem hUsed, List.idxOf_append_of_notMem hNew]
          exact Nat.lt_add_right _ (List.idxOf_lt_length_of_mem hUsed)

/-! ## Repeated mappings -/

theorem withoutRepeats_cons (m : Mapping) (table : List Mapping) :
    withoutRepeats (m :: table) = table.destutter' (· ≠ ·) m := by
  induction table generalizing m with
  | nil => rfl
  | cons m' table ih =>
      rw [withoutRepeats, List.destutter'_cons]
      by_cases hSame : m = m'
      · rw [if_pos hSame, if_neg (not_not_intro hSame), ih, hSame]
      · rw [if_neg hSame, if_pos hSame, ih]

/-- Leaving out repeats collapses each run of equal mappings to one. -/
theorem withoutRepeats_eq_destutter (table : List Mapping) :
    withoutRepeats table = table.destutter (· ≠ ·) := by
  cases table with
  | nil => rfl
  | cons m table => rw [withoutRepeats_cons, List.destutter_cons']

theorem mem_withoutRepeats {table : List Mapping} {m : Mapping} :
    m ∈ withoutRepeats table ↔ m ∈ table := by
  fun_induction withoutRepeats table with
  | case1 => rfl
  | case2 m' => rfl
  | case3 m' table ih => simp [ih]
  | case4 m' m'' table hNe ih => simp [ih]

/-- A repeated mapping uses no text for the first time. -/
theorem distinct_withoutRepeats (use : Mapping → String) (table : List Mapping) :
    distinct ((withoutRepeats table).map use) = distinct (table.map use) := by
  suffices hFrom : ∀ found : List String,
      ((withoutRepeats table).map use).foldl
          (fun found text => if text ∈ found then found else found ++ [text]) found =
        (table.map use).foldl
          (fun found text => if text ∈ found then found else found ++ [text]) found from
    hFrom []
  intro found
  fun_induction withoutRepeats table generalizing found with
  | case1 => rfl
  | case2 m => rfl
  | case3 m table ih =>
      rw [ih]
      simp only [List.map_cons, List.foldl_cons]
      by_cases hUse : use m ∈ found <;> simp [hUse]
  | case4 m m' table hNe ih => rw [List.map_cons, List.foldl_cons, ih]; rfl

/-! ## Source maps of tables -/

/-- A table that a source map can give back.  Lines are counted from 1 and lines of the
code do not decrease; lines and columns are 32-bit numbers; and there are no more
mappings than a memory with 64-bit addresses holds. -/
@[mk_iff]
structure Encodable (table : List Mapping) : Prop where
  inRange : ∀ m ∈ table, m.InRange
  generated_pos : ∀ m ∈ table, 1 ≤ m.generated.line
  origin_pos : ∀ m ∈ table, 1 ≤ m.origin.line
  ordered : table.Pairwise fun m n => m.generated.line ≤ n.generated.line
  length_le : table.length ≤ 2 ^ 62

instance (table : List Mapping) : Decidable (Encodable table) :=
  decidable_of_iff _ (encodable_iff table).symm

/-- The texts that a table uses are no more than those they are taken from. -/
theorem length_distinct_le {table : List Mapping} {use : Mapping → String}
    {items : List String} (h : ∀ m ∈ table, use m ∈ items) :
    (distinct (table.map use)).length ≤ items.length := by
  have hUses := distinct_firstUses (table.map use)
  refine hUses.nodup.length_le_of_subset fun text hText => ?_
  obtain ⟨m, hm, rfl⟩ := List.mem_map.1 ((hUses.mem_iff text).1 hText)
  exact h m hm

/-- A mapping as a source map holds it.  Lines of the origin are written counted from 0, so
there is no room for a line 0, which is taken for line 1. -/
def asWritten (m : Mapping) : Mapping :=
  { m with origin := ⟨max 1 m.origin.line, m.origin.column⟩ }

theorem segment_asWritten (sources names : List String) (m : Mapping) :
    segment sources names (asWritten m) = segment sources names m := by
  have hLine : max 1 m.origin.line - 1 = m.origin.line - 1 := by omega
  simp only [segment, asWritten, hLine]

theorem asWritten_eq_self_iff {m : Mapping} : asWritten m = m ↔ 1 ≤ m.origin.line := by
  obtain ⟨generated, ⟨line, column⟩, source, name⟩ := m
  simp [asWritten]

/-- A table stays as it is if none of its origins has line 0. -/
theorem map_asWritten_eq_self_iff {table : List Mapping} :
    (table.destutter (· ≠ ·)).map asWritten = table.destutter (· ≠ ·) ↔
      ∀ m ∈ table, 1 ≤ m.origin.line := by
  rw [← withoutRepeats_eq_destutter]
  calc (withoutRepeats table).map asWritten = withoutRepeats table
    _ ↔ (withoutRepeats table).map asWritten = (withoutRepeats table).map id := by
      rw [List.map_id]
    _ ↔ ∀ m ∈ withoutRepeats table, asWritten m = id m := List.map_inj_left
    _ ↔ ∀ m ∈ table, 1 ≤ m.origin.line := by
      simp only [mem_withoutRepeats, id_eq, asWritten_eq_self_iff]

theorem asWritten_inRange {m : Mapping} (h : m.InRange) : (asWritten m).InRange := by
  obtain ⟨hLine, hColumn, hOriginLine, hOriginColumn⟩ := h
  exact ⟨hLine, hColumn, Nat.max_lt.2 ⟨by decide, hOriginLine⟩, hOriginColumn⟩

/-- A table is read back as it was written, whatever texts of sources the source map
holds. -/
theorem decode_ofMappings_asWritten {table : List Mapping}
    (hRange : ∀ m ∈ table, m.InRange) (hGenerated : ∀ m ∈ table, 1 ≤ m.generated.line)
    (hOrdered : table.Pairwise fun m n => m.generated.line ≤ n.generated.line)
    (hSources : (distinct (table.map Mapping.source)).length ≤ 2 ^ 62)
    (hNames : (distinct (table.map Mapping.name)).length ≤ 2 ^ 62) (file : String)
    (contents : Option (List (Option String))) :
    ({ ofMappings file table with sourcesContent := contents } : SourceMap).decode =
      .ok ((table.destutter (· ≠ ·)).map asWritten) := by
  have hSublist : (withoutRepeats table).Sublist table := by
    rw [withoutRepeats_eq_destutter]
    exact List.destutter_sublist _ table
  rw [← distinct_withoutRepeats] at hSources hNames
  unfold decode ofMappings
  rw [String.toList_ofList, ← withoutRepeats_eq_destutter]
  have hSame (sources names : List String) :
      (withoutRepeats table).map (fun m => (m.generated.line, segment sources names m)) =
        ((withoutRepeats table).map asWritten).map
          (fun m => (m.generated.line, segment sources names m)) := by
    simp only [List.map_map, Function.comp_def, segment_asWritten]
    rfl
  rw [hSame]
  refine decodeFrom_encodeFrom ⟨1, false, .zero⟩ hSources hNames ?_ ?_ ?_ (by decide)
    Segment.InRange.zero
  · intro m hm
    obtain ⟨n, hn, rfl⟩ := List.mem_map.1 hm
    refine ⟨asWritten_inRange (hRange n (hSublist.subset hn)), Nat.le_max_left _ _, ?_, ?_⟩
    · exact ((distinct_firstUses _).mem_iff n.source).2 (List.mem_map_of_mem hn)
    · exact ((distinct_firstUses _).mem_iff n.name).2 (List.mem_map_of_mem hn)
  · exact List.pairwise_map.2 (hOrdered.sublist hSublist)
  · intro m hm
    obtain ⟨n, hn, rfl⟩ := List.mem_map.1 hm
    exact hGenerated n (hSublist.subset hn)

/-- A table is read back, whatever texts of sources the source map holds. -/
theorem decode_ofMappings {table : List Mapping} (h : Encodable table) (file : String)
    (contents : Option (List (Option String))) :
    ({ ofMappings file table with sourcesContent := contents } : SourceMap).decode =
      .ok (table.destutter (· ≠ ·)) := by
  have hListed (use : Mapping → String) :
      (distinct (table.map use)).length ≤ 2 ^ 62 := by
    refine Nat.le_trans (length_distinct_le fun m hm => List.mem_map_of_mem hm) ?_
    rw [List.length_map]
    exact h.length_le
  have hSame := map_asWritten_eq_self_iff.2 h.origin_pos
  rw [decode_ofMappings_asWritten h.inRange h.generated_pos h.ordered (hListed _) (hListed _),
    hSame]

end SourceMap

/-! ## Compiled sources -/

theorem Position.one_le_line_after (cs : List Char) : 1 ≤ (Position.after cs).line := by
  have hFrom : ∀ (p : Position) (cs : List Char), p.line ≤ (p.advanceOver cs).line := by
    intro p cs
    induction cs generalizing p with
    | nil => exact Nat.le_refl _
    | cons c cs ih =>
        refine Nat.le_trans ?_ (ih (p.advance c))
        unfold advance
        split
        · exact Nat.le_succ _
        · exact Nat.le_refl _
  exact hFrom Position.start cs

/-- The source map of a forest is that of its table, with the text of the source if it is to be
embedded. -/
theorem Compiled.ofForest_map_eq (s : Settings) (source text : String) (forest : Forest) :
    (ofForest s source text forest).map =
      { SourceMap.ofMappings (Path.fileName (ArtifactPaths.ofInput s source).code)
          (ofForest s source text forest).table with
        sourcesContent := if s.embedSources then some [some text] else none } := by
  simp only [ofForest]
  generalize ((forest.fragment s).emit source _).mappings.toList = table
  generalize Path.fileName (ArtifactPaths.ofInput s source).code = file
  cases s.embedSources with
  | true => rfl
  | false => rfl

theorem Compiled.ofForest_map (s : Settings) (source text : String) (forest : Forest) :
    ∃ file contents, (ofForest s source text forest).map =
      { SourceMap.ofMappings file (ofForest s source text forest).table with
        sourcesContent := contents } :=
  ⟨_, _, ofForest_map_eq s source text forest⟩

theorem Call.length_table_le {source : String} {line : Nat} {calls : List (Tag × Call)}
    (h : ∀ m ∈ table source line calls, m.InRange) :
    (table source line calls).length ≤ 2 ^ 32 := by
  cases hCalls : calls.reverse with
  | nil =>
      rw [List.reverse_eq_nil_iff] at hCalls
      rw [hCalls]
      exact Nat.zero_le _
  | cons c front =>
      rw [List.reverse_eq_cons_iff] at hCalls
      have hLast := h ⟨⟨line + front.reverse.length, 0⟩, ⟨c.1.line, c.1.column⟩, source,
        c.1.name⟩ (by simp [hCalls, table])
      have hLine := hLast.generatedLine
      simp only [List.length_reverse] at hLine
      simp only [hCalls, table, List.length_mapIdx, List.length_append, List.length_reverse,
        List.length_singleton]
      omega

/-- The table of a source can be given back, and has no repeats. -/
theorem compile_table_encodable {s : Settings} {name text : String} {c : Compiled}
    (h : compile s name text = .ok c) (hRange : ∀ m ∈ c.table, m.InRange) :
    SourceMap.Encodable c.table ∧ c.table.destutter (· ≠ ·) = c.table := by
  obtain ⟨σs, hWritten, _, _, hTable⟩ := compile_eq_script h
  have hIncreasing : c.table.Pairwise fun m n => m.generated < n.generated := by
    rw [hTable]
    exact Call.table_generated_pairwise _ _ _
  have hOrigins : ∀ m ∈ c.table, 1 ≤ m.origin.line := by
    intro m hm
    have hOrigin := List.mem_map_of_mem hm (f := Mapping.origin)
    rw [hTable, Call.table_origins, List.map_map] at hOrigin
    obtain ⟨entry, hEntry, hPlace⟩ := List.mem_map.1 hOrigin
    have hTerm := hWritten.script_sublist.subset (List.mem_map_of_mem hEntry)
    obtain ⟨front, _, _, hStart, _⟩ := (Scanner.ofSource_placed text).standsIn _ hTerm
    rw [← hPlace]
    show 1 ≤ entry.1.start.line
    rw [hStart]
    exact Position.one_le_line_after front
  refine ⟨⟨hRange, ?_, hOrigins, ?_, ?_⟩, ?_⟩
  · intro m hm
    rw [hTable] at hm
    exact Nat.le_trans s.firstLine_pos (Call.le_table_line m hm)
  · refine hIncreasing.imp ?_
    intro m n hLess
    rcases LineColumn.lt_iff.1 hLess with hLine | ⟨hLine, _⟩
    · exact Nat.le_of_lt hLine
    · exact Nat.le_of_eq hLine
  · rw [hTable] at hRange ⊢
    exact Nat.le_trans (Call.length_table_le hRange) (by decide)
  · refine List.destutter_of_isChain _ _ (List.Pairwise.isChain (hIncreasing.imp ?_))
    intro m n hLess hEq
    rw [hEq, LineColumn.lt_iff] at hLess
    omega

/-- **Tables are read back.**  A source map gives back the table that it was made of,
with each run of equal mappings collapsed to one.  That of a compiled source, whose
lines and columns are 32-bit numbers, gives back the table as it is.  A source map lists
the sources and the names of the table, each once, in the order of first use. -/
theorem table_roundTrip :
    (∀ (file : String) (table : List Mapping), SourceMap.Encodable table →
      (SourceMap.ofMappings file table).decode = .ok (table.destutter (· ≠ ·))) ∧
    (∀ (s : Settings) (name text : String) (c : Compiled), compile s name text = .ok c →
      (∀ m ∈ c.table, m.InRange) → c.map.decode = .ok c.table) ∧
    (∀ (file : String) (table : List Mapping),
      SourceMap.FirstUses (SourceMap.ofMappings file table).sources
        (table.map Mapping.source) ∧
      SourceMap.FirstUses (SourceMap.ofMappings file table).names
        (table.map Mapping.name)) := by
  refine ⟨?_, ?_, ?_⟩
  · intro file table hTable
    exact SourceMap.decode_ofMappings hTable file none
  · intro s name text c h hRange
    obtain ⟨hEncodable, hSame⟩ := compile_table_encodable h hRange
    obtain ⟨_, forest, _, rfl⟩ := compile_eq_ok h
    obtain ⟨file, contents, hMap⟩ := Compiled.ofForest_map s name text forest
    rw [hMap, SourceMap.decode_ofMappings hEncodable, hSame]
  · intro file table
    have hUses (use : Mapping → String) :
        SourceMap.FirstUses (SourceMap.distinct ((SourceMap.withoutRepeats table).map use))
          (table.map use) := by
      rw [SourceMap.distinct_withoutRepeats]
      exact SourceMap.distinct_firstUses _
    exact ⟨hUses Mapping.source, hUses Mapping.name⟩

/-- A table with a repeat, a line without mappings, columns that decrease and names that
come back, and the table of a source. -/
theorem table_roundTrip_sample :
    SourceMap.Encodable
        [⟨⟨1, 9⟩, ⟨7, 4⟩, "b", "y"⟩, ⟨⟨1, 9⟩, ⟨7, 4⟩, "b", "y"⟩, ⟨⟨1, 2⟩, ⟨1, 0⟩, "a", "x"⟩,
          ⟨⟨4, 0⟩, ⟨2, 5⟩, "b", "y"⟩] ∧
      (SourceMap.ofMappings "f"
        [⟨⟨1, 9⟩, ⟨7, 4⟩, "b", "y"⟩, ⟨⟨1, 9⟩, ⟨7, 4⟩, "b", "y"⟩, ⟨⟨1, 2⟩, ⟨1, 0⟩, "a", "x"⟩,
          ⟨⟨4, 0⟩, ⟨2, 5⟩, "b", "y"⟩]).decode =
        .ok [⟨⟨1, 9⟩, ⟨7, 4⟩, "b", "y"⟩, ⟨⟨1, 2⟩, ⟨1, 0⟩, "a", "x"⟩,
          ⟨⟨4, 0⟩, ⟨2, 5⟩, "b", "y"⟩] ∧
      ∃ c, compile {} "p.rpn" "c 8 2 / =" = .ok c ∧ (∀ m ∈ c.table, m.InRange) ∧
        c.map.decode = .ok c.table := by
  refine ⟨by decide, table_roundTrip.1 "f" _ (by decide), ?_⟩
  have hOk : ∃ c, compile {} "p.rpn" "c 8 2 / =" = .ok c ∧ ∀ m ∈ c.table, m.InRange := by
    have hTable : ((compile {} "p.rpn" "c 8 2 / =").toOption.any fun c =>
        c.table.all fun m => decide m.InRange) = true := by decide +kernel
    cases h : compile {} "p.rpn" "c 8 2 / =" with
    | error fault => simp [h, Except.toOption] at hTable
    | ok c => exact ⟨c, rfl, by simpa [h, Except.toOption] using hTable⟩
  obtain ⟨c, hCompiled, hRange⟩ := hOk
  exact ⟨c, hCompiled, hRange, table_roundTrip.2.1 {} "p.rpn" "c 8 2 / =" c hCompiled hRange⟩

end ReversePolish
