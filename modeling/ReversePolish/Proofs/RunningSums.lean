import ReversePolish.Proofs.VlqPrecision

/-!
# Tables as running sums

The decoder keeps five numbers while it walks over the segments of a table, adds fields to them
and sets one of them back at each line.  What comes out of this is said here without a walk.  The
segments of a text, each with its line, are rows of integers (`SourceMap.Entry`).  What a segment
stands for are five sums over the segments up to it: that of the first fields on its own line, and
those of the second, third, fourth and fifth fields in the whole text, of which each segment adds
those that it has (`SourceMap.sums`).

The integers are those that the digits stand for.  The reader agrees with this as long as they fit
its words, so tables are left out in which some integer has a thirteenth digit of 8 or more
(`Vlq.Exact`).

The walk and the sums are brought together by one invariant: in front of a segment the decoder
holds the sums over all segments that it has passed.

## Main results

* `Vlq.Rows.unique` — a text is cut into integers in one way only.
* `SourceMap.fields_eq_ok_iff` — what is read are the integers that the digits stand for.
* `SourceMap.decodeSegment_eq_ok_iff` — what one segment adds, and when it is accepted.
* `SourceMap.walk_eq_ok_iff` — the same for all segments that remain.
* `SourceMap.decode_running_sums` — decoded tables as running sums.
-/

namespace ReversePolish

/-! ## Rows of integers -/

namespace Vlq

/-- A text is cut into the digits of integers, at most thirteen for each. -/
def Rows (text : List Char) (rows : List (List Nat)) : Prop :=
  (∀ row ∈ rows, Row row ∧ row.length ≤ maxDigits) ∧
    text = rows.flatMap fun row => row.map digit

instance (text : List Char) (rows : List (List Nat)) : Decidable (Rows text rows) :=
  inferInstanceAs (Decidable (_ ∧ _))

/-- A text is a row of integers, each of at most thirteen digits. -/
def Spells (text : List Char) (values : List Int) : Prop :=
  ∃ rows, Rows text rows ∧ values = rows.map fun row => unbounded (number row)

/-- No integer of a text has a thirteenth digit of 8 or more. -/
def Exact (text : List Char) : Prop :=
  ∀ rows, Rows text rows → ∀ row ∈ rows, ∀ last ∈ row[12]?, last % 32 < 8

theorem digit_inj {value other : Nat} (h : value < 64) (h' : other < 64)
    (hDigit : digit value = digit other) : value = other := by
  have hValue := digitValue?_digit h
  rw [hDigit, digitValue?_digit h'] at hValue
  exact (Option.some.inj hValue).symm

/-- The digits of an integer say where they end. -/
theorem Row.append_inj {row row' : List Nat} (h : Row row) (h' : Row row')
    {rest rest' : List Char} (hText : row.map digit ++ rest = row'.map digit ++ rest') :
    row = row' ∧ rest = rest' := by
  induction h generalizing row' with
  | @last value hLess =>
      cases h' with
      | @last value' hLess' =>
          obtain ⟨hDigit, hRest⟩ := List.cons.inj hText
          exact ⟨by rw [digit_inj (by omega) (by omega) hDigit], hRest⟩
      | @more value' _ hLow _ _ =>
          have hSame := digit_inj (by omega) (by omega) (List.cons.inj hText).1
          omega
  | @more value values hLow hHigh hRow ih =>
      cases h' with
      | @last value' hLess =>
          have hSame := digit_inj (by omega) (by omega) (List.cons.inj hText).1
          omega
      | @more value' values' _ hHigh' hRow' =>
          obtain ⟨hDigit, hRest⟩ := List.cons.inj hText
          obtain ⟨rfl, hBehind⟩ := ih hRow' hRest
          exact ⟨by rw [digit_inj hHigh hHigh' hDigit], hBehind⟩

theorem Row.ne_nil {row : List Nat} (h : Row row) : row ≠ [] := by
  cases h <;> simp

/-- A text is cut into the digits of integers in one way only. -/
theorem Rows.unique {text : List Char} {rows rows' : List (List Nat)} (h : Rows text rows)
    (h' : Rows text rows') : rows = rows' := by
  obtain ⟨hRows, rfl⟩ := h
  obtain ⟨hRows', hText⟩ := h'
  induction rows generalizing rows' with
  | nil =>
      cases rows' with
      | nil => rfl
      | cons row' rows' =>
          have hSome := (List.forall_mem_cons.1 hRows').1.1.ne_nil
          simp [hSome] at hText
  | cons row rows ih =>
      rw [List.forall_mem_cons] at hRows
      cases rows' with
      | nil =>
          have hSome := hRows.1.1.ne_nil
          simp [hSome] at hText
      | cons row' rows' =>
          rw [List.forall_mem_cons] at hRows'
          obtain ⟨rfl, hRest⟩ := hRows.1.1.append_inj hRows'.1.1 hText
          rw [ih hRows.2 hRows'.2 hRest]

theorem Spells.unique {text : List Char} {values values' : List Int} (h : Spells text values)
    (h' : Spells text values') : values = values' := by
  obtain ⟨rows, hRows, rfl⟩ := h
  obtain ⟨rows', hRows', rfl⟩ := h'
  rw [hRows.unique hRows']

theorem Rows.exact {text : List Char} {rows : List (List Nat)} (h : Rows text rows)
    (hLast : ∀ row ∈ rows, ∀ last ∈ row[12]?, last % 32 < 8) : Exact text := by
  intro rows' h'
  rwa [← h.unique h']

theorem decodeAll_of_decode {cs rest : List Char} {value : Int}
    (h : decode cs = (.ok value, rest)) (hSome : cs ≠ []) :
    decodeAll cs = { decodeAll rest with values := value :: (decodeAll rest).values } := by
  obtain ⟨c, cs, rfl⟩ := List.exists_cons_of_ne_nil hSome
  rw [decodeAll]
  split
  · next fault rest' hFault => rw [h] at hFault; cases hFault
  · next value' rest' hValue =>
      rw [h] at hValue
      cases hValue
      rfl

/-- A text is read to its end exactly if it is cut into the digits of integers, and what is read
is what fits a word. -/
theorem decodeAll_eq_iff {text : List Char} {values : List Int} :
    (decodeAll text).fault = none ∧ (decodeAll text).values = values ↔
      ∃ rows, Rows text rows ∧ values = rows.map fun row => unsigned (number row) := by
  constructor
  · rintro ⟨hFault, rfl⟩
    fun_induction decodeAll text with
    | case1 => exact ⟨[], ⟨by simp, rfl⟩, rfl⟩
    | case2 => cases hFault
    | case3 c cs value rest hValue reading ih =>
        obtain ⟨rows, ⟨hRows, hText⟩, hValues⟩ := ih hFault
        obtain ⟨row, hRow, hLength, hDigits, rfl⟩ := decode_eq_ok_iff.1 hValue
        refine ⟨row :: rows, ⟨List.forall_mem_cons.2 ⟨⟨hRow, hLength⟩, hRows⟩, ?_⟩, ?_⟩
        · rw [hDigits, hText, List.flatMap_cons]
        · rw [List.map_cons, ← hValues]
  · rintro ⟨rows, ⟨hRows, rfl⟩, rfl⟩
    induction rows with
    | nil =>
        rw [List.flatMap_nil, decodeAll]
        exact ⟨rfl, rfl⟩
    | cons row rows ih =>
        rw [List.forall_mem_cons] at hRows
        obtain ⟨hFault, hValues⟩ := ih hRows.2
        have hSome : row.map digit ++ rows.flatMap (fun row => row.map digit) ≠ [] := by
          simp [hRows.1.1.ne_nil]
        rw [List.flatMap_cons, decodeAll_of_decode
          (decode_eq_ok_iff.2 ⟨row, hRows.1.1, hRows.1.2, rfl, rfl⟩) hSome]
        exact ⟨hFault, by rw [List.map_cons, hValues]⟩

/-- What fits a word is the integer itself, unless there is a thirteenth digit of 8 or more. -/
theorem Exact.map_unsigned {text : List Char} (h : Exact text) {rows : List (List Nat)}
    (hRows : Rows text rows) :
    (rows.map fun row => unsigned (number row)) = rows.map fun row => unbounded (number row) := by
  refine List.map_congr_left fun row hRow => ?_
  rw [unsigned_eq_unbounded_iff, number_lt_iff (hRows.1 row hRow).2]
  exact h rows hRows row hRow

end Vlq

namespace SourceMap

/-- A text without a thirteenth digit of 8 or more is read as the integers that it spells. -/
theorem fields_eq_ok_iff {text : List Char} (hExact : Vlq.Exact text) {values : List Int} :
    fields text = .ok values ↔ Vlq.Spells text values := by
  have hRead : fields text = .ok values ↔
      (Vlq.decodeAll text).fault = none ∧ (Vlq.decodeAll text).values = values := by
    unfold fields
    dsimp only
    split
    · next fault hFault => simp [hFault]
    · next hFault => simp [hFault]
  rw [hRead, Vlq.decodeAll_eq_iff]
  refine exists_congr fun rows => and_congr_right fun hRows => ?_
  rw [hExact.map_unsigned hRows]

/-! ## Sums -/

/-- The fields of a segment on a line of the code. -/
structure Entry where
  line : Nat
  fields : List Int

/-- The texts of the segments on several lines, each with the number of its line. -/
def placedTexts : (line : Nat) → List (List Char) → List (Nat × List Char)
  | _, [] => []
  | line, top :: lines => (segmentTexts top).map (line, ·) ++ placedTexts (line + 1) lines

/-- The texts of the segments of a map, each with the number of its line. -/
def segments (map : SourceMap) : List (Nat × List Char) :=
  placedTexts 1 (Text.split ';' map.mappings.toList)

/-- The text of a segment is a row of fields. -/
def Entry.Spells (placed : Nat × List Char) (e : Entry) : Prop :=
  e.line = placed.1 ∧ Vlq.Spells placed.2 e.fields

/-- The segments of a map are rows of fields. -/
def Spelled (map : SourceMap) (entries : List Entry) : Prop :=
  List.Forall₂ Entry.Spells map.segments entries

/-- No field of a map has a thirteenth digit of 8 or more. -/
def Exact (map : SourceMap) : Prop :=
  ∀ placed ∈ map.segments, Vlq.Exact placed.2

/-- The text of a segment is read as a row of fields. -/
def Entry.Reads (placed : Nat × List Char) (e : Entry) : Prop :=
  e.line = placed.1 ∧ SourceMap.fields placed.2 = .ok e.fields

/-- The sum of one field, over the segments that have it. -/
def total (i : Nat) (entries : List Entry) : Int :=
  (entries.filterMap fun e => e.fields[i]?).sum

/-- The sums behind several segments, of which the last is on the given line. -/
def sums (line : Nat) (entries : List Entry) : Segment where
  column := total 0 (entries.filter fun e => e.line = line)
  source := total 1 entries
  originLine := total 2 entries
  originColumn := total 3 entries
  name := total 4 entries

/-- Segments behind earlier ones, each with the sums up to it. -/
def runningSums (earlier entries : List Entry) : List (Entry × Segment) :=
  entries.mapIdx fun i e => (e, sums e.line (earlier ++ entries.take (i + 1)))

/-- All five numbers are in the signed 64-bit range. -/
structure Words (s : Segment) : Prop where
  column : IsWord s.column
  source : IsWord s.source
  originLine : IsWord s.originLine
  originColumn : IsWord s.originColumn
  name : IsWord s.name

instance (s : Segment) : Decidable (Words s) :=
  decidable_of_iff (IsWord s.column ∧ IsWord s.source ∧ IsWord s.originLine ∧
      IsWord s.originColumn ∧ IsWord s.name)
    ⟨fun h => ⟨h.1, h.2.1, h.2.2.1, h.2.2.2.1, h.2.2.2.2⟩,
      fun h => ⟨h.column, h.source, h.originLine, h.originColumn, h.name⟩⟩

/-- What a segment with an origin has to be: its lines and columns are 32-bit numbers, where
lines of the origin are counted from 1, and its source is one of the map's. -/
structure Covers (map : SourceMap) (s : Segment) : Prop where
  column : 0 ≤ s.column ∧ s.column < 2 ^ 32
  originLine : 0 ≤ s.originLine + 1 ∧ s.originLine + 1 < 2 ^ 32
  originColumn : 0 ≤ s.originColumn ∧ s.originColumn < 2 ^ 32
  source : 0 ≤ s.source ∧ s.source < map.sources.length

instance (map : SourceMap) (s : Segment) : Decidable (map.Covers s) :=
  decidable_of_iff ((0 ≤ s.column ∧ s.column < 2 ^ 32) ∧
      (0 ≤ s.originLine + 1 ∧ s.originLine + 1 < 2 ^ 32) ∧
      (0 ≤ s.originColumn ∧ s.originColumn < 2 ^ 32) ∧
      0 ≤ s.source ∧ s.source < map.sources.length)
    ⟨fun h => ⟨h.1, h.2.1, h.2.2.1, h.2.2.2⟩,
      fun h => ⟨h.column, h.originLine, h.originColumn, h.source⟩⟩

/-- What a segment has to be, given the sums up to it. -/
structure Admits (map : SourceMap) (a : Entry × Segment) : Prop where
  count : a.1.fields.length ∈ [1, 4, 5]
  origin : 4 ≤ a.1.fields.length → map.Covers a.2
  name : a.1.fields.length = 5 → 0 ≤ a.2.name ∧ a.2.name < map.names.length

instance (map : SourceMap) (a : Entry × Segment) : Decidable (map.Admits a) :=
  decidable_of_iff (a.1.fields.length ∈ [1, 4, 5] ∧
      (4 ≤ a.1.fields.length → map.Covers a.2) ∧
      (a.1.fields.length = 5 → 0 ≤ a.2.name ∧ a.2.name < map.names.length))
    ⟨fun h => ⟨h.1, h.2.1, h.2.2⟩, fun h => ⟨h.count, h.origin, h.name⟩⟩

/-- The mapping of a segment, if it has an origin.  Without a fifth field it has no name. -/
def mappingOf? (map : SourceMap) (a : Entry × Segment) : Option Mapping :=
  if 4 ≤ a.1.fields.length then
    some {
      generated := ⟨a.1.line, a.2.column.toNat⟩
      origin := ⟨(a.2.originLine + 1).toNat, a.2.originColumn.toNat⟩
      source := map.sources.getD a.2.source.toNat ""
      name := if a.1.fields.length = 5 then map.names.getD a.2.name.toNat "" else "" }
  else none

/-! ## One segment -/

theorem addWord_eq_ok_iff {a b sum : Int} :
    addWord a b = .ok sum ↔ IsWord (a + b) ∧ sum = a + b := by
  constructor
  · intro h
    obtain ⟨hSum, hWord⟩ := eq_of_addWord_eq_ok h
    exact ⟨hWord, hSum⟩
  · rintro ⟨hWord, rfl⟩
    exact addWord_eq_ok rfl hWord

theorem coordinate_eq_ok_iff {value : Int} {n : Nat} :
    coordinate value = .ok n ↔ (0 ≤ value ∧ value < 2 ^ 32) ∧ n = value.toNat := by
  have hBound : (2 : Int) ^ 32 = 0x100000000 := by decide
  rw [hBound]
  unfold coordinate
  split
  · next hRange => simp [hRange, eq_comm]
  · next hRange => simp [hRange]

theorem itemAt?_eq_some_iff {items : List String} {index : Int} {item : String} :
    itemAt? items index = some item ↔
      (0 ≤ index ∧ index < items.length) ∧ item = items.getD index.toNat "" := by
  constructor
  · intro h
    obtain ⟨hLow, hHigh, _⟩ := lt_of_itemAt?_eq_some h
    refine ⟨⟨hLow, hHigh⟩, ?_⟩
    rw [itemAt?, if_neg (by omega)] at h
    rw [List.getD_eq_getElem?_getD, h, Option.getD_some]
  · rintro ⟨⟨hLow, hHigh⟩, rfl⟩
    have hBound : index.toNat < items.length := by omega
    rw [itemAt?, if_neg (by omega), List.getD_eq_getElem?_getD,
      List.getElem?_eq_getElem hBound, Option.getD_some]

theorem bind_eq_ok_iff {ε α β : Type} {x : Except ε α} {f : α → Except ε β} {b : β} :
    x >>= f = .ok b ↔ ∃ a, x = .ok a ∧ f a = .ok b := by
  constructor
  · exact exists_of_bind_eq_ok
  · rintro ⟨a, rfl, h⟩
    exact h

/-- The mapping of a segment is made exactly if its parts pass their checks. -/
theorem mapping_eq_ok_iff {map : SourceMap} {line : Nat} {s : Segment} {name : String}
    {m : Mapping} :
    map.mapping line s name = .ok m ↔ map.Covers s ∧
      m = ⟨⟨line, s.column.toNat⟩, ⟨(s.originLine + 1).toNat, s.originColumn.toNat⟩,
        map.sources.getD s.source.toNat "", name⟩ := by
  unfold mapping
  simp only [bind_eq_ok_iff, coordinate_eq_ok_iff, addWord_eq_ok_iff]
  constructor
  · rintro ⟨_, ⟨hColumn, rfl⟩, _, ⟨_, rfl⟩, _, ⟨hLine, rfl⟩, _, ⟨hOriginColumn, rfl⟩, hLast⟩
    split at hLast
    · next source hSource =>
        obtain ⟨hIndex, rfl⟩ := itemAt?_eq_some_iff.1 hSource
        cases hLast
        exact ⟨⟨hColumn, hLine, hOriginColumn, hIndex⟩, rfl⟩
    · cases hLast
  · rintro ⟨hCovers, rfl⟩
    have hLine := hCovers.originLine
    have hWord : IsWord (s.originLine + 1) := by
      unfold IsWord
      omega
    refine ⟨_, ⟨hCovers.column, rfl⟩, _, ⟨hWord, rfl⟩, _, ⟨hLine, rfl⟩, _,
      ⟨hCovers.originColumn, rfl⟩, ?_⟩
    rw [itemAt?_eq_some_iff.2 ⟨hCovers.source, rfl⟩]

theorem placeBehind_eq_ok_iff {previous s : Segment}
    {column source originLine originColumn : Int} :
    placeBehind previous column source originLine originColumn = .ok s ↔
      (IsWord (previous.source + source) ∧ IsWord (previous.originLine + originLine) ∧
        IsWord (previous.originColumn + originColumn)) ∧
      s = ⟨column, previous.source + source, previous.originLine + originLine,
        previous.originColumn + originColumn, previous.name⟩ := by
  unfold placeBehind
  simp only [bind_eq_ok_iff, addWord_eq_ok_iff]
  constructor
  · rintro ⟨_, ⟨hSource, rfl⟩, _, ⟨hLine, rfl⟩, _, ⟨hColumn, rfl⟩, hLast⟩
    cases hLast
    exact ⟨⟨hSource, hLine, hColumn⟩, rfl⟩
  · rintro ⟨⟨hSource, hLine, hColumn⟩, rfl⟩
    exact ⟨_, ⟨hSource, rfl⟩, _, ⟨hLine, rfl⟩, _, ⟨hColumn, rfl⟩, rfl⟩

/-- The sums behind a further segment. -/
def plus (previous : Segment) (fields : List Int) : Segment where
  column := previous.column + fields.getD 0 0
  source := previous.source + fields.getD 1 0
  originLine := previous.originLine + fields.getD 2 0
  originColumn := previous.originColumn + fields.getD 3 0
  name := previous.name + fields.getD 4 0

/-- The rows of fields that a segment may have. -/
theorem fields_shape {values : List Int} (h : values.length ∈ [1, 4, 5]) :
    (∃ c, values = [c]) ∨ (∃ c source line column, values = [c, source, line, column]) ∨
      ∃ c source line column name, values = [c, source, line, column, name] := by
  rcases values with _ | ⟨c, _ | ⟨source, _ | ⟨line, _ | ⟨column, _ | ⟨name, _ | _⟩⟩⟩⟩⟩
  all_goals simp at h ⊢

section Segment

variable {map : SourceMap} {line : Nat} {previous s : Segment} {text : List Char}
  {found : Option Mapping}

theorem decodeSegment_column_only (hWords : Words previous) {column : Int}
    (hFields : fields text = .ok [column]) :
    map.decodeSegment line previous text = .ok (s, found) ↔
      s = plus previous [column] ∧ Words s ∧ map.Admits (⟨line, [column]⟩, s) ∧
        found = map.mappingOf? (⟨line, [column]⟩, s) := by
  have hPlus : plus previous [column] =
      { previous with column := previous.column + column } := by
    simp [plus]
  rw [decodeSegment, hFields, ok_bind, bind_eq_ok_iff]
  simp only [addWord_eq_ok_iff]
  constructor
  · rintro ⟨_, ⟨hColumn, rfl⟩, hLast⟩
    cases hLast
    exact ⟨hPlus.symm, { hWords with column := hColumn }, ⟨by simp, by simp, by simp⟩,
      by simp [mappingOf?]⟩
  · rintro ⟨rfl, hSums, _, rfl⟩
    rw [hPlus] at hSums ⊢
    exact ⟨_, ⟨hSums.column, rfl⟩, rfl⟩

theorem decodeSegment_without_name (hWords : Words previous)
    {column source originLine originColumn : Int}
    (hFields : fields text = .ok [column, source, originLine, originColumn]) :
    map.decodeSegment line previous text = .ok (s, found) ↔
      s = plus previous [column, source, originLine, originColumn] ∧ Words s ∧
        map.Admits (⟨line, [column, source, originLine, originColumn]⟩, s) ∧
        found = map.mappingOf? (⟨line, [column, source, originLine, originColumn]⟩, s) := by
  have hPlus : plus previous [column, source, originLine, originColumn] =
      ⟨previous.column + column, previous.source + source, previous.originLine + originLine,
        previous.originColumn + originColumn, previous.name⟩ := by
    simp [plus]
  rw [decodeSegment, hFields, ok_bind, bind_eq_ok_iff]
  simp only [addWord_eq_ok_iff]
  constructor
  · rintro ⟨_, ⟨hColumn, rfl⟩, hLast⟩
    obtain ⟨_, hPlaced, hLast⟩ := exists_of_bind_eq_ok hLast
    obtain ⟨⟨hSource, hOriginLine, hOriginColumn⟩, rfl⟩ := placeBehind_eq_ok_iff.1 hPlaced
    obtain ⟨m, hMapping, hLast⟩ := exists_of_bind_eq_ok hLast
    obtain ⟨hCovers, rfl⟩ := mapping_eq_ok_iff.1 hMapping
    cases hLast
    exact ⟨hPlus.symm, ⟨hColumn, hSource, hOriginLine, hOriginColumn, hWords.name⟩,
      ⟨by simp, fun _ => hCovers, by simp⟩, by simp [mappingOf?]⟩
  · rintro ⟨rfl, hSums, hAdmits, rfl⟩
    have hCovers := hAdmits.origin (by simp)
    rw [hPlus] at hSums hCovers ⊢
    refine ⟨_, ⟨hSums.column, rfl⟩, bind_eq_ok_iff.2 ⟨_, placeBehind_eq_ok_iff.2
      ⟨⟨hSums.source, hSums.originLine, hSums.originColumn⟩, rfl⟩, ?_⟩⟩
    refine bind_eq_ok_iff.2 ⟨_, mapping_eq_ok_iff.2 ⟨hCovers, rfl⟩, ?_⟩
    simp [mappingOf?]

theorem decodeSegment_with_name {column source originLine originColumn name : Int}
    (hFields : fields text = .ok [column, source, originLine, originColumn, name]) :
    map.decodeSegment line previous text = .ok (s, found) ↔
      s = plus previous [column, source, originLine, originColumn, name] ∧ Words s ∧
        map.Admits (⟨line, [column, source, originLine, originColumn, name]⟩, s) ∧
        found =
          map.mappingOf? (⟨line, [column, source, originLine, originColumn, name]⟩, s) := by
  have hPlus : plus previous [column, source, originLine, originColumn, name] =
      ⟨previous.column + column, previous.source + source, previous.originLine + originLine,
        previous.originColumn + originColumn, previous.name + name⟩ := by
    simp [plus]
  rw [decodeSegment, hFields, ok_bind, bind_eq_ok_iff]
  simp only [addWord_eq_ok_iff]
  constructor
  · rintro ⟨_, ⟨hColumn, rfl⟩, hLast⟩
    obtain ⟨_, hPlaced, hLast⟩ := exists_of_bind_eq_ok hLast
    obtain ⟨⟨hSource, hOriginLine, hOriginColumn⟩, rfl⟩ := placeBehind_eq_ok_iff.1 hPlaced
    obtain ⟨_, hSum, hLast⟩ := exists_of_bind_eq_ok hLast
    obtain ⟨hName, rfl⟩ := addWord_eq_ok_iff.1 hSum
    split at hLast
    · cases hLast
    · next text hText =>
        obtain ⟨hIndex, rfl⟩ := itemAt?_eq_some_iff.1 hText
        obtain ⟨m, hMapping, hLast⟩ := exists_of_bind_eq_ok hLast
        obtain ⟨hCovers, rfl⟩ := mapping_eq_ok_iff.1 hMapping
        cases hLast
        exact ⟨hPlus.symm, ⟨hColumn, hSource, hOriginLine, hOriginColumn, hName⟩,
          ⟨by simp, fun _ => hCovers, fun _ => hIndex⟩, by simp [mappingOf?]⟩
  · rintro ⟨rfl, hSums, hAdmits, rfl⟩
    have hCovers := hAdmits.origin (by simp)
    have hIndex := hAdmits.name (by simp)
    rw [hPlus] at hSums hCovers hIndex ⊢
    refine ⟨_, ⟨hSums.column, rfl⟩, bind_eq_ok_iff.2 ⟨_, placeBehind_eq_ok_iff.2
      ⟨⟨hSums.source, hSums.originLine, hSums.originColumn⟩, rfl⟩, ?_⟩⟩
    refine bind_eq_ok_iff.2 ⟨_, addWord_eq_ok_iff.2 ⟨hSums.name, rfl⟩, ?_⟩
    rw [itemAt?_eq_some_iff.2 ⟨hIndex, rfl⟩]
    refine bind_eq_ok_iff.2 ⟨_, mapping_eq_ok_iff.2 ⟨hCovers, rfl⟩, ?_⟩
    simp [mappingOf?]

/-- A segment with another number of fields is refused. -/
theorem count_of_decodeSegment_eq_ok {values : List Int} (hFields : fields text = .ok values)
    (h : map.decodeSegment line previous text = .ok (s, found)) :
    values.length ∈ [1, 4, 5] := by
  rw [decodeSegment, hFields, ok_bind] at h
  obtain ⟨_, _, hKind⟩ := exists_of_bind_eq_ok h
  clear h hFields
  split at hKind
  · simp
  · simp
  · simp
  · cases hKind

theorem decodeSegment_of_fields (hWords : Words previous) {values : List Int}
    (hFields : fields text = .ok values) :
    map.decodeSegment line previous text = .ok (s, found) ↔
      s = plus previous values ∧ Words s ∧ map.Admits (⟨line, values⟩, s) ∧
        found = map.mappingOf? (⟨line, values⟩, s) := by
  by_cases hCount : values.length ∈ [1, 4, 5]
  · rcases fields_shape hCount with ⟨c, rfl⟩ | ⟨c, a, b, d, rfl⟩ | ⟨c, a, b, d, n, rfl⟩
    · exact decodeSegment_column_only hWords hFields
    · exact decodeSegment_without_name hWords hFields
    · exact decodeSegment_with_name hFields
  · constructor
    · exact fun h => absurd (count_of_decodeSegment_eq_ok hFields h) hCount
    · rintro ⟨_, _, hAdmits, _⟩
      exact absurd hAdmits.count hCount

/-- What a segment adds, and when it is accepted. -/
theorem decodeSegment_eq_ok_iff (hWords : Words previous) :
    map.decodeSegment line previous text = .ok (s, found) ↔
      ∃ e, Entry.Reads (line, text) e ∧ s = plus previous e.fields ∧ Words s ∧
        map.Admits (e, s) ∧ found = map.mappingOf? (e, s) := by
  constructor
  · intro h
    obtain ⟨values, hFields, _⟩ := exists_of_bind_eq_ok h
    exact ⟨⟨line, values⟩, ⟨rfl, hFields⟩, (decodeSegment_of_fields hWords hFields).1 h⟩
  · rintro ⟨⟨_, values⟩, ⟨rfl, hFields⟩, hRest⟩
    exact (decodeSegment_of_fields hWords hFields).2 hRest

end Segment

/-! ## All segments -/

theorem total_append (i : Nat) (entries further : List Entry) :
    total i (entries ++ further) = total i entries + total i further := by
  rw [total, total, total, List.filterMap_append, List.sum_append]

theorem total_singleton (i : Nat) (e : Entry) : total i [e] = e.fields.getD i 0 := by
  rw [total, List.getD_eq_getElem?_getD]
  cases hField : e.fields[i]? <;> simp [hField]

/-- The sums behind a further segment of a line. -/
theorem sums_concat {line : Nat} (entries : List Entry) {e : Entry} (h : e.line = line) :
    sums line (entries ++ [e]) = plus (sums line entries) e.fields := by
  have hHere : [e].filter (fun e => decide (e.line = line)) = [e] := by simp [h]
  simp only [sums, plus, List.filter_append, hHere, total_append, total_singleton]

/-- On a further line the column starts again, and all other sums go on. -/
theorem sums_succ {line : Nat} {entries : List Entry} (h : ∀ e ∈ entries, e.line ≤ line) :
    sums (line + 1) entries = (sums line entries).atLineStart := by
  have hNone : entries.filter (fun e => decide (e.line = line + 1)) = [] := by
    rw [List.filter_eq_nil_iff]
    intro e he
    have hBefore := h e he
    simp only [decide_eq_true_eq]
    omega
  simp only [sums, hNone, Segment.atLineStart]
  rfl

theorem runningSums_cons (earlier : List Entry) (e : Entry) (entries : List Entry) :
    runningSums earlier (e :: entries) =
      (e, sums e.line (earlier ++ [e])) :: runningSums (earlier ++ [e]) entries := by
  simp [runningSums, List.mapIdx_cons]

theorem map_fst_runningSums (earlier entries : List Entry) :
    (runningSums earlier entries).map Prod.fst = entries := by
  induction entries generalizing earlier with
  | nil => rfl
  | cons e entries ih => rw [runningSums_cons, List.map_cons, ih]

theorem Words.atLineStart {s : Segment} (h : Words s) : Words s.atLineStart :=
  { h with column := show IsWord 0 by decide }

/-- In front of a segment the decoder holds the sums over all segments that it has passed.  So
what it makes of those that remain are further sums. -/
theorem walk_eq_ok_iff {map : SourceMap} {line : Nat} {previous : Segment}
    {texts lines : List (List Char)} {earlier : List Entry} {table : List Mapping}
    (hLine : line < 2 ^ 32) (hEarlier : ∀ e ∈ earlier, e.line ≤ line)
    (hPrevious : previous = sums line earlier) (hWords : Words previous) :
    map.walk line previous texts lines = .ok table ↔
      line + lines.length < 2 ^ 32 ∧ ∃ entries,
        List.Forall₂ Entry.Reads (texts.map (line, ·) ++ placedTexts (line + 1) lines)
          entries ∧
        (∀ a ∈ runningSums earlier entries, Words a.2 ∧ map.Admits a) ∧
        table = (runningSums earlier entries).filterMap map.mappingOf? := by
  fun_induction walk map line previous texts lines generalizing earlier table with
  | case1 line previous =>
      constructor
      · intro h
        cases h
        exact ⟨hLine, [], List.Forall₂.nil, by simp [runningSums], rfl⟩
      · rintro ⟨_, _, hEntries, _, rfl⟩
        cases hEntries
        rfl
  | case2 line previous below lines hCount ih =>
      have hNext : previous.atLineStart = sums (line + 1) earlier := by
        rw [hPrevious, sums_succ hEarlier]
      rw [ih hCount (fun e he => Nat.le_succ_of_le (hEarlier e he)) hNext hWords.atLineStart,
        List.length_cons, List.map_nil, List.nil_append, placedTexts, Nat.add_right_comm,
        Nat.add_assoc line]
  | case3 line previous below lines hCount =>
      constructor
      · intro h
        cases h
      · rintro ⟨hShort, _⟩
        rw [List.length_cons] at hShort
        omega
  | case4 line previous text texts lines ih =>
      have hSums {e : Entry} (hReads : Entry.Reads (line, text) e) :
          plus previous e.fields = sums line (earlier ++ [e]) := by
        rw [sums_concat earlier hReads.1, hPrevious]
      have hRunning {e : Entry} (hReads : Entry.Reads (line, text) e)
          (entries : List Entry) : runningSums earlier (e :: entries) =
            (e, plus previous e.fields) :: runningSums (earlier ++ [e]) entries := by
        rw [runningSums_cons, hReads.1, hSums hReads]
      have hPassed {e : Entry} (hReads : Entry.Reads (line, text) e) :
          ∀ e' ∈ earlier ++ [e], e'.line ≤ line := by
        intro e' he'
        rcases List.mem_append.1 he' with hBefore | hHere
        · exact hEarlier e' hBefore
        · rw [List.mem_singleton.1 hHere]
          exact Nat.le_of_eq hReads.1
      rw [List.map_cons, List.cons_append]
      constructor
      · intro h
        obtain ⟨⟨s, found⟩, hSegment, hRest⟩ := exists_of_bind_eq_ok h
        obtain ⟨rest, hWalk, rfl⟩ := exists_of_map_eq_ok hRest
        obtain ⟨e, hReads, rfl, hFits, hAdmits, rfl⟩ :=
          (decodeSegment_eq_ok_iff hWords).1 hSegment
        obtain ⟨hCount, entries, hEntries, hAll, rfl⟩ :=
          (ih _ hLine (hPassed hReads) (hSums hReads) hFits).1 hWalk
        refine ⟨hCount, e :: entries, List.Forall₂.cons hReads hEntries, ?_, ?_⟩
        · rw [hRunning hReads, List.forall_mem_cons]
          exact ⟨⟨hFits, hAdmits⟩, hAll⟩
        · rw [hRunning hReads, List.filterMap_eq_flatMap_toList,
            List.filterMap_eq_flatMap_toList, List.flatMap_cons]
      · rintro ⟨hCount, _, hEntries, hAll, rfl⟩
        cases hEntries with
        | @cons _ e _ entries hReads hEntries =>
            rw [hRunning hReads, List.forall_mem_cons] at hAll
            obtain ⟨⟨hFits, hAdmits⟩, hAll⟩ := hAll
            have hSegment := (decodeSegment_eq_ok_iff hWords).2
              ⟨e, hReads, rfl, hFits, hAdmits, rfl⟩
            have hWalk := (ih (plus previous e.fields, map.mappingOf? (e, plus previous e.fields))
              hLine (hPassed hReads) (hSums hReads) hFits).2
              ⟨hCount, entries, hEntries, hAll, rfl⟩
            rw [hSegment, Except.bind, hWalk, hRunning hReads, List.filterMap_eq_flatMap_toList,
              List.filterMap_eq_flatMap_toList, List.flatMap_cons]
            rfl

/-- A table is decoded exactly if its sums are words and pass their checks. -/
theorem decode_eq_ok_iff {map : SourceMap} {table : List Mapping} :
    map.decode = .ok table ↔
      (Text.split ';' map.mappings.toList).length < 2 ^ 32 ∧ ∃ entries,
        List.Forall₂ Entry.Reads map.segments entries ∧
        (∀ a ∈ runningSums [] entries, Words a.2 ∧ map.Admits a) ∧
        table = (runningSums [] entries).filterMap map.mappingOf? := by
  obtain ⟨top, lines, hLines⟩ := Text.exists_split ';' map.mappings.toList
  have hZero : Words .zero := by constructor <;> decide
  have hStart : Segment.zero = sums 1 [] := rfl
  unfold segments
  rw [decode_eq_walk hLines, walk_eq_ok_iff (by decide) (by simp) hStart hZero, hLines,
    placedTexts, List.length_cons, Nat.add_comm 1]

/-- The segments of a map are rows of fields in one way only. -/
theorem Spelled.unique {map : SourceMap} {entries entries' : List Entry}
    (h : map.Spelled entries) (h' : map.Spelled entries') : entries = entries' := by
  refine List.right_unique_forall₂' ?_ h h'
  intro placed e e' hFirst hSecond
  obtain ⟨line, values⟩ := e
  obtain ⟨line', values'⟩ := e'
  rw [Entry.mk.injEq]
  exact ⟨hFirst.1.trans hSecond.1.symm, hFirst.2.unique hSecond.2⟩

/-- Segments are read as the rows of fields that they are, if none has a thirteenth digit of 8 or
more. -/
theorem Exact.reads_iff_spelled {map : SourceMap} (h : map.Exact) {entries : List Entry} :
    List.Forall₂ Entry.Reads map.segments entries ↔ map.Spelled entries := by
  unfold Exact at h
  unfold Spelled
  generalize map.segments = texts at h ⊢
  induction texts generalizing entries with
  | nil => rw [List.forall₂_nil_left_iff, List.forall₂_nil_left_iff]
  | cons placed texts ih =>
      rw [List.forall_mem_cons] at h
      cases entries with
      | nil => simp
      | cons e entries =>
          rw [List.forall₂_cons, List.forall₂_cons, ih h.2, Entry.Reads, Entry.Spells,
            fields_eq_ok_iff h.1]

/-- **Decoded tables are running sums.**  The text of a table is cut into lines and segments, and
empty segments are left out.  When no field has a thirteenth digit of 8 or more and no running sum
leaves the signed 64-bit range, a table is decoded exactly if there are less than 2^32 lines, each
segment is a row of one, four or five integers of at most thirteen digits, and the sums up to each
segment with an origin pass their checks.  It has one mapping for each of these segments, in order,
with the sums as its places and indices, and with the empty name where there is no fifth field. -/
theorem decode_running_sums (map : SourceMap) (hExact : map.Exact)
    (hFits : ∀ entries, map.Spelled entries → (∀ e ∈ entries, e.fields.length ∈ [1, 4, 5]) →
      ∀ a ∈ runningSums [] entries, Words a.2) (table : List Mapping) :
    map.decode = .ok table ↔
      (Text.split ';' map.mappings.toList).length < 2 ^ 32 ∧ ∃ entries,
        map.Spelled entries ∧ (∀ a ∈ runningSums [] entries, map.Admits a) ∧
        table = (runningSums [] entries).filterMap map.mappingOf? := by
  simp only [decode_eq_ok_iff, hExact.reads_iff_spelled]
  constructor
  · rintro ⟨hCount, entries, hSpelled, hAll, hTable⟩
    exact ⟨hCount, entries, hSpelled, fun a ha => (hAll a ha).2, hTable⟩
  · rintro ⟨hCount, entries, hSpelled, hAdmits, hTable⟩
    have hCounts : ∀ e ∈ entries, e.fields.length ∈ [1, 4, 5] := by
      intro e he
      rw [← map_fst_runningSums [] entries] at he
      obtain ⟨a, ha, rfl⟩ := List.mem_map.1 he
      exact (hAdmits a ha).count
    exact ⟨hCount, entries, hSpelled,
      fun a ha => ⟨hFits entries hSpelled hCounts a ha, hAdmits a ha⟩, hTable⟩

/-- Segments of one, five and four fields on three of four lines, with differences of both signs
and with a field of thirteen digits. -/
theorem decode_running_sums_sample :
    let map : SourceMap := ⟨3, "g", ["u", "s"], none, ["x"], "C,ECCAA;;EADC,D;+///////////H"⟩
    let entries : List Entry :=
      [⟨1, [1]⟩, ⟨1, [2, 1, 1, 0, 0]⟩, ⟨3, [2, 0, -1, 1]⟩, ⟨3, [-1]⟩, ⟨4, [2 ^ 62 - 1]⟩]
    map.Exact ∧ map.Spelled entries ∧
      (∀ entries', map.Spelled entries' → (∀ e ∈ entries', e.fields.length ∈ [1, 4, 5]) →
        ∀ a ∈ runningSums [] entries', Words a.2) ∧
      map.decode = .ok [⟨⟨1, 3⟩, ⟨2, 0⟩, "s", "x"⟩, ⟨⟨3, 2⟩, ⟨1, 1⟩, "s", ""⟩] := by
  intro map entries
  have hTexts : map.segments = [(1, "C".toList), (1, "ECCAA".toList), (3, "EADC".toList),
      (3, "D".toList), (4, "+///////////H".toList)] := by decide +kernel
  have hOne : Vlq.Rows "C".toList [[2]] := by decide +kernel
  have hFive : Vlq.Rows "ECCAA".toList [[4], [2], [2], [0], [0]] := by decide +kernel
  have hFour : Vlq.Rows "EADC".toList [[4], [0], [3], [2]] := by decide +kernel
  have hBack : Vlq.Rows "D".toList [[3]] := by decide +kernel
  have hLong : Vlq.Rows "+///////////H".toList
      [[62, 63, 63, 63, 63, 63, 63, 63, 63, 63, 63, 63, 7]] := by decide +kernel
  have hExact : map.Exact := by
    unfold Exact
    rw [hTexts]
    simp only [List.forall_mem_cons]
    exact ⟨hOne.exact (by decide), hFive.exact (by decide), hFour.exact (by decide),
      hBack.exact (by decide), hLong.exact (by decide), by simp⟩
  have hSpelled : map.Spelled entries := by
    unfold Spelled
    rw [hTexts]
    exact .cons ⟨rfl, _, hOne, by decide +kernel⟩ (.cons ⟨rfl, _, hFive, by decide +kernel⟩
      (.cons ⟨rfl, _, hFour, by decide +kernel⟩ (.cons ⟨rfl, _, hBack, by decide +kernel⟩
        (.cons ⟨rfl, _, hLong, by decide +kernel⟩ .nil))))
  have hFits : ∀ entries', map.Spelled entries' →
      (∀ e ∈ entries', e.fields.length ∈ [1, 4, 5]) → ∀ a ∈ runningSums [] entries',
        Words a.2 := by
    intro entries' hSpelled' _
    rw [hSpelled'.unique hSpelled]
    decide +kernel
  refine ⟨hExact, hSpelled, hFits,
    (decode_running_sums map hExact hFits _).2 ⟨?_, entries, hSpelled, ?_, ?_⟩⟩
  · decide +kernel
  · decide +kernel
  · decide +kernel

/-- A field of fourteen digits that stands for zero: the segment is a row of four integers, and
all its sums pass their checks, but it is refused. -/
theorem long_zero_is_refused :
    let map : SourceMap := ⟨3, "p.js", ["s"], none, [], "gggggggggggggAAAA"⟩
    let rows : List (List Nat) :=
      [[32, 32, 32, 32, 32, 32, 32, 32, 32, 32, 32, 32, 32, 0], [0], [0], [0]]
    map.segments = [(1, map.mappings.toList)] ∧ (∀ row ∈ rows, Vlq.Row row) ∧
      map.mappings.toList = rows.flatMap (fun row => row.map Vlq.digit) ∧
      rows.map (fun row => Vlq.unbounded (Vlq.number row)) = [0, 0, 0, 0] ∧
      (∀ a ∈ runningSums [] [⟨1, [0, 0, 0, 0]⟩], Words a.2 ∧ map.Admits a) ∧
      map.decode = .error (.vlq .tooLong) := by
  intro map rows
  exact ⟨by decide +kernel, by decide +kernel, by decide +kernel, by decide +kernel,
    by decide +kernel, by decide +kernel⟩

end SourceMap

end ReversePolish
