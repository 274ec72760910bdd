import Mathlib.Tactic.Ring
import ReversePolish.Proofs.Decoding

/-!
# How far a decoder counts

An integer of a table has at most thirteen digits, so that it is one of 65 bits.  The first
twelve digits stay in the signed 64-bit range; the thirteenth can leave it, and then the
integer that is read is not the one that is written.

What the decoder adds up are such integers.  Before it adds the next one to a source, to a
line or column of the origin or to a name, it has checked what it adds to, so none of these
sums leaves the range.  The column of the code is checked only in a segment that stands for
a mapping.  Behind a segment that has a column only, the next sum can leave the range, and
this is the only place where one does.

## Main results

* `Vlq.ofGroups_lt_iff` — which integers leave the range while they are read.
* `Reached.checked` — what the decoder adds to, wherever it stands.
* `Checked.decodeSegment_eq_overflow_iff` — the sum of a segment that can leave the range.
* `decoding_range` — where the range is left.
-/

namespace ReversePolish

/-! ## Integers -/

namespace Vlq

/-- What is read are groups of five bits, at least one and no more than there is room for. -/
theorem groups_of_readGroups_eq_ok {room : Nat} {cs rest : List Char} {groups : List Nat}
    (h : readGroups room cs = (.ok groups, rest)) :
    groups.length ≤ room ∧ ∀ group ∈ groups, group < 32 := by
  fun_induction readGroups room cs generalizing groups with
  | case1 | case2 | case3 => simp at h
  | case4 rest' c room value hValue hLast =>
      cases h
      simpa using hLast
  | case5 c rest' value room hValue hMore groups' rest'' hRest ih =>
      cases h
      obtain ⟨hLength, hGroups⟩ := ih hRest
      exact ⟨Nat.succ_le_succ hLength,
        List.forall_mem_cons.2 ⟨Nat.mod_lt value (by decide), hGroups⟩⟩
  | case6 => cases h

theorem ofGroups_append (front back : List Nat) :
    ofGroups (front ++ back) = ofGroups front + 32 ^ front.length * ofGroups back := by
  induction front with
  | nil => simp [ofGroups]
  | cons group front ih =>
      show group + 32 * ofGroups (front ++ back) =
        group + 32 * ofGroups front + 32 ^ (front.length + 1) * ofGroups back
      rw [ih, pow_succ]
      ring

theorem ofGroups_lt {groups : List Nat} (h : ∀ group ∈ groups, group < 32) :
    ofGroups groups < 32 ^ groups.length := by
  induction groups with
  | nil => simp [ofGroups]
  | cons group groups ih =>
      rw [List.forall_mem_cons] at h
      have hRest := ih h.2
      show group + 32 * ofGroups groups < 32 ^ (groups.length + 1)
      rw [pow_succ]
      omega

/-- The first twelve digits make up a number of 60 bits. -/
theorem ofGroups_take_lt {groups : List Nat} (h : ∀ group ∈ groups, group < 32) {count : Nat}
    (hCount : count ≤ 12) : ofGroups (groups.take count) < 2 ^ 60 := by
  calc ofGroups (groups.take count)
    _ < 32 ^ (groups.take count).length :=
      ofGroups_lt fun group hGroup => h group (List.mem_of_mem_take hGroup)
    _ ≤ 32 ^ 12 := Nat.pow_le_pow_right (by decide)
      (Nat.le_trans (List.length_take_le count groups) hCount)
    _ = 2 ^ 60 := by decide

/-- The integer of a number whose lowest bit is the sign, in whatever range. -/
def unbounded (n : Nat) : Int :=
  if n % 2 = 1 then -(n / 2 : Nat) else (n / 2 : Nat)

theorem bmod_range (n : Nat) : -2 ^ 63 ≤ Int.bmod n 0x10000000000000000 ∧
    Int.bmod n 0x10000000000000000 < 2 ^ 63 :=
  ⟨Int.le_bmod (by decide), Int.bmod_lt (by decide)⟩

theorem unsigned_range (n : Nat) : -2 ^ 62 ≤ unsigned n ∧ unsigned n ≤ 2 ^ 62 := by
  have hRange := bmod_range n
  unfold unsigned
  dsimp only
  split <;> omega

/-- A number that is out of the range stands for another integer once it is brought into
it: half of the number is more than half of any that lies in the range. -/
theorem unsigned_eq_unbounded_iff (n : Nat) : unsigned n = unbounded n ↔ n < 2 ^ 63 := by
  unfold unsigned unbounded
  dsimp only
  constructor
  · intro hSame
    have hRange := bmod_range n
    split at hSame <;> omega
  · intro hSmall
    rw [Int.bmod_eq_of_le (by omega) (by omega)]
    split <;> omega

/-- Of thirteen digits, only the last can lead out of the signed 64-bit range, and it does so
if it is 8 or more. -/
theorem ofGroups_lt_iff {groups : List Nat} (hLength : groups.length ≤ 13)
    (hGroups : ∀ group ∈ groups, group < 32) :
    ofGroups groups < 2 ^ 63 ↔ ∀ last ∈ groups[12]?, last < 8 := by
  have hFront := ofGroups_take_lt hGroups (Nat.le_refl 12)
  cases hLast : groups[12]? with
  | none =>
      rw [List.getElem?_eq_none_iff] at hLast
      rw [List.take_of_length_le hLast] at hFront
      simp only [Option.not_mem_none, false_implies, implies_true, iff_true]
      omega
  | some last =>
      obtain ⟨hLess, rfl⟩ := List.getElem?_eq_some_iff.1 hLast
      have hParts : ofGroups groups = ofGroups (groups.take 12) + 32 ^ 12 * groups[12] := by
        have hBack : groups.drop 12 = [groups[12]] := by
          rw [List.drop_eq_getElem_cons hLess, List.drop_eq_nil_of_le hLength]
        have hAppend := ofGroups_append (groups.take 12) (groups.drop 12)
        rw [List.take_append_drop, List.length_take_of_le (Nat.le_of_lt hLess), hBack] at hAppend
        exact hAppend
      simp only [Option.mem_some_iff, forall_eq']
      omega

theorem decode_range {cs rest : List Char} {value : Int} (h : decode cs = (.ok value, rest)) :
    -2 ^ 62 ≤ value ∧ value ≤ 2 ^ 62 := by
  unfold decode at h
  split at h
  · cases h
    exact unsigned_range _
  · cases h

theorem decodeAll_range (cs : List Char) :
    ∀ value ∈ (decodeAll cs).values, -2 ^ 62 ≤ value ∧ value ≤ 2 ^ 62 := by
  fun_induction decodeAll cs with
  | case1 => simp
  | case2 => simp
  | case3 c cs value rest hValue reading ih =>
      exact List.forall_mem_cons.2 ⟨decode_range hValue, ih⟩

end Vlq

/-! ## Sums -/

namespace SourceMap

theorem fields_range {text : List Char} {found : List Int} (h : fields text = .ok found) :
    ∀ value ∈ found, -2 ^ 62 ≤ value ∧ value ≤ 2 ^ 62 := by
  unfold fields at h
  dsimp only at h
  split at h
  · cases h
  · cases h
    exact Vlq.decodeAll_range text

/-- What the decoder adds to.  All fields but the column have passed a check, or are still
zero. -/
structure Checked (s : Segment) : Prop where
  column : IsWord s.column
  source : 0 ≤ s.source ∧ s.source < 2 ^ 62
  originLine : -1 ≤ s.originLine ∧ s.originLine < 2 ^ 32
  originColumn : 0 ≤ s.originColumn ∧ s.originColumn < 2 ^ 32
  name : 0 ≤ s.name ∧ s.name < 2 ^ 62

theorem Checked.atLineStart {s : Segment} (h : Checked s) : Checked s.atLineStart :=
  ⟨show IsWord 0 by decide, h.source, h.originLine, h.originColumn, h.name⟩

/-- A segment that is decoded is checked for the next one. -/
theorem Checked.step {map : SourceMap} (hSources : map.sources.length ≤ 2 ^ 62)
    (hNames : map.names.length ≤ 2 ^ 62) {line : Nat} {previous s : Segment}
    {text : List Char} {found : Option Mapping} (h : Checked previous)
    (hSegment : map.decodeSegment line previous text = .ok (s, found)) : Checked s := by
  rcases decodeSegment_cases hSegment with ⟨c, _, hWord, rfl, _⟩ | ⟨m, _, hLocates, hName⟩
  · exact ⟨hWord, h.source, h.originLine, h.originColumn, h.name⟩
  · obtain ⟨hColumn, hColumnRange⟩ := hLocates.column
    obtain ⟨hLine, hLineRange⟩ := hLocates.originLine
    obtain ⟨hOriginColumn, hOriginColumnRange⟩ := hLocates.originColumn
    obtain ⟨hSourceLow, hSourceHigh, _⟩ := lt_of_itemAt?_eq_some hLocates.source
    refine ⟨by unfold IsWord; omega, by omega, by omega, by omega, ?_⟩
    rcases hName with ⟨hSame, _⟩ | hItem
    · rw [hSame]
      exact h.name
    · obtain ⟨hNameLow, hNameHigh, _⟩ := lt_of_itemAt?_eq_some hItem
      omega

theorem Reached.checked {map : SourceMap} (hSources : map.sources.length ≤ 2 ^ 62)
    (hNames : map.names.length ≤ 2 ^ 62) {line : Nat} {previous : Segment}
    {texts lines : List (List Char)} (h : map.Reached line previous texts lines) :
    Checked previous := by
  induction h with
  | start h => constructor <;> decide
  | segment h hSegment ih => exact ih.step hSources hNames hSegment
  | lineBreak h hCount ih => exact ih.atLineStart

/-- The sums of a segment behind another one, apart from the column's.  The name may be
missing. -/
structure SumsFit (previous : Segment) (a b c : Int) (d : Option Int) : Prop where
  source : IsWord (previous.source + a)
  originLine : IsWord (previous.originLine + b)
  originLine_succ : IsWord (previous.originLine + b + 1)
  originColumn : IsWord (previous.originColumn + c)
  name : ∀ name ∈ d, IsWord (previous.name + name)

theorem Checked.sumsFit {previous : Segment} (h : Checked previous) {text : List Char}
    {column a b c : Int} {more : List Int}
    (hFields : fields text = .ok (column :: a :: b :: c :: more)) :
    SumsFit previous a b c more.head? := by
  have hRange := fields_range hFields
  simp only [List.forall_mem_cons] at hRange
  obtain ⟨_, hA, hB, hC, hMore⟩ := hRange
  obtain ⟨_, hSource, hOriginLine, hOriginColumn, hName⟩ := h
  constructor
  case name =>
    intro name hMem
    have hD := hMore name (List.mem_of_mem_head? hMem)
    unfold IsWord
    omega
  all_goals
    unfold IsWord
    omega

/-! ## Broken work -/

/-- The step is not broken off by a sum that leaves the range. -/
def Unbroken {α : Type} (x : Except MapFault α) : Prop :=
  ∀ sum, x ≠ .error (.overflow sum)

theorem Unbroken.bind {α β : Type} {x : Except MapFault α} {f : α → Except MapFault β}
    (hx : Unbroken x) (hf : ∀ a, x = .ok a → Unbroken (f a)) : Unbroken (x >>= f) := by
  intro sum hFault
  rcases eq_error_or_of_bind_eq_error hFault with hFirst | ⟨a, ha, hRest⟩
  · exact hx sum hFirst
  · exact hf a ha sum hRest

theorem unbroken_ok {α : Type} (a : α) : Unbroken (.ok a) := by
  intro sum hFault
  cases hFault

theorem fields_unbroken (text : List Char) : Unbroken (fields text) := by
  intro sum
  unfold fields
  dsimp only
  split <;> simp

theorem coordinate_unbroken (value : Int) : Unbroken (coordinate value) := by
  intro sum
  unfold coordinate
  split <;> simp

theorem addWord_unbroken {a b : Int} (h : IsWord (a + b)) : Unbroken (addWord a b) := by
  rw [addWord_eq_ok rfl h]
  exact unbroken_ok _

theorem mapping_unbroken {map : SourceMap} {line : Nat} {s : Segment} {name : String}
    (h : IsWord (s.originLine + 1)) : Unbroken (map.mapping line s name) := by
  refine (coordinate_unbroken _).bind fun column _ => (addWord_unbroken h).bind fun sum _ =>
    (coordinate_unbroken _).bind fun originLine _ =>
      (coordinate_unbroken _).bind fun originColumn _ => ?_
  intro sum
  split <;> simp

theorem SumsFit.placeBehind_eq_ok {previous : Segment} {a b c : Int} {d : Option Int}
    (h : SumsFit previous a b c d) (column : Int) :
    placeBehind previous column a b c =
      .ok ⟨column, previous.source + a, previous.originLine + b, previous.originColumn + c,
        previous.name⟩ := by
  rw [placeBehind, addWord_eq_ok rfl h.source, addWord_eq_ok rfl h.originLine,
    addWord_eq_ok rfl h.originColumn]
  rfl

/-- A segment whose column fits is not broken off: none of the other sums leaves the
range. -/
theorem Checked.decodeSegment_unbroken {map : SourceMap} {line : Nat} {previous : Segment}
    {text : List Char} {found : List Int} (h : Checked previous)
    (hFields : fields text = .ok found) (hColumn : IsWord (previous.column + found.headD 0)) :
    Unbroken (map.decodeSegment line previous text) := by
  rw [decodeSegment, hFields, ok_bind]
  refine (addWord_unbroken hColumn).bind fun column hSum => ?_
  clear hSum hColumn
  split
  · exact unbroken_ok _
  · next a b c =>
      have hSums := h.sumsFit hFields
      rw [hSums.placeBehind_eq_ok, ok_bind]
      exact (mapping_unbroken hSums.originLine_succ).bind fun m _ => unbroken_ok _
  · next a b c d =>
      have hSums := h.sumsFit hFields
      rw [hSums.placeBehind_eq_ok, ok_bind]
      refine (addWord_unbroken (hSums.name d rfl)).bind fun index _ => ?_
      split
      · intro sum hFault
        cases hFault
      · exact (mapping_unbroken hSums.originLine_succ).bind fun m _ => unbroken_ok _
  · intro sum hFault
    cases hFault

/-- Of the sums of a segment, only that of the column can leave the range. -/
theorem Checked.decodeSegment_eq_overflow_iff {map : SourceMap} {line : Nat}
    {previous : Segment} {text : List Char} {sum : Int} (h : Checked previous) :
    map.decodeSegment line previous text = .error (.overflow sum) ↔
      ∃ found, fields text = .ok found ∧ sum = previous.column + found.headD 0 ∧
        ¬IsWord sum := by
  have hBroken {found : List Int} (hFields : fields text = .ok found)
      (hWord : ¬IsWord (previous.column + found.headD 0)) :
      map.decodeSegment line previous text =
        .error (.overflow (previous.column + found.headD 0)) := by
    rw [decodeSegment, hFields, ok_bind, addWord, if_neg hWord]
    rfl
  constructor
  · intro hFault
    rcases eq_error_or_of_bind_eq_error hFault with hFields | ⟨found, hFields, _⟩
    · exact absurd hFields (fields_unbroken text sum)
    · by_cases hWord : IsWord (previous.column + found.headD 0)
      · exact absurd hFault (h.decodeSegment_unbroken hFields hWord sum)
      · rw [hBroken hFields hWord] at hFault
        cases hFault
        exact ⟨found, hFields, rfl, hWord⟩
  · rintro ⟨found, hFields, rfl, hWord⟩
    exact hBroken hFields hWord

/-- Where the decoder stands, the column is small, or the segment before has a column
only. -/
theorem Reached.column_cases {map : SourceMap} {line : Nat} {previous : Segment}
    {texts lines : List (List Char)} (h : map.Reached line previous texts lines) :
    (0 ≤ previous.column ∧ previous.column < 2 ^ 32) ∨
      ∃ before text c, map.Reached line before (text :: texts) lines ∧ fields text = .ok [c] ∧
        IsWord (before.column + c) ∧ previous.column = before.column + c := by
  cases h with
  | start h => exact Or.inl (by decide)
  | lineBreak h hCount => exact Or.inl (show 0 ≤ (0 : Int) ∧ (0 : Int) < 2 ^ 32 by decide)
  | @segment _ before _ text _ _ _ h hSegment =>
      rcases decodeSegment_cases hSegment with ⟨c, hFields, hWord, rfl, _⟩ | ⟨m, _, hLocates, _⟩
      · exact Or.inr ⟨before, text, c, h, hFields, hWord, rfl⟩
      · obtain ⟨hColumn, hRange⟩ := hLocates.column
        exact Or.inl (by omega)

theorem decodeSegment_column {map : SourceMap} {previous : Segment} {text : List Char} {c : Int}
    (hFields : fields text = .ok [c]) (hWord : IsWord (previous.column + c)) (line : Nat) :
    map.decodeSegment line previous text =
      .ok ({ previous with column := previous.column + c }, none) := by
  rw [decodeSegment, hFields, ok_bind, List.headD_cons, addWord_eq_ok rfl hWord]
  rfl

/-- A reached segment has a column only, the sum of the columns is still in the range with
it, and no more with the first field of the segment behind it. -/
def LeavesRange (map : SourceMap) (sum : Int) : Prop :=
  ∃ line previous first second texts lines c d more,
    map.Reached line previous (first :: second :: texts) lines ∧ fields first = .ok [c] ∧
      IsWord (previous.column + c) ∧ fields second = .ok (d :: more) ∧
        sum = previous.column + c + d ∧ ¬IsWord sum

theorem decode_eq_overflow_iff {map : SourceMap} (hSources : map.sources.length ≤ 2 ^ 62)
    (hNames : map.names.length ≤ 2 ^ 62) (sum : Int) :
    map.decode = .error (.overflow sum) ↔ map.LeavesRange sum := by
  constructor
  · intro hFault
    obtain ⟨texts, lines, hStart, hWalk⟩ := map.exists_reached_start
    rcases hStart.exists_of_walk_eq_error (hWalk.symm.trans hFault) with hLines |
      ⟨line, previous, text, texts, lines, hReached, hSegment⟩
    · cases hLines
    have hChecked := hReached.checked hSources hNames
    obtain ⟨found, hFields, hSum, hWord⟩ := hChecked.decodeSegment_eq_overflow_iff.1 hSegment
    cases found with
    | nil =>
        rw [hSum, List.headD_nil, Int.add_zero] at hWord
        exact absurd hChecked.column hWord
    | cons d more =>
        rw [List.headD_cons] at hSum
        rcases hReached.column_cases with hSmall |
          ⟨before, first, c, hBefore, hFirst, hFits, hColumn⟩
        · have hRange := fields_range hFields d List.mem_cons_self
          refine absurd ?_ hWord
          unfold IsWord
          omega
        · rw [hColumn] at hSum
          exact ⟨line, before, first, text, texts, lines, c, d, more, hBefore, hFirst, hFits,
            hFields, hSum, hWord⟩
  · rintro ⟨line, previous, first, second, texts, lines, c, d, more, hReached, hFirst, hFits,
      hSecond, hSum, hWord⟩
    have hNext := hReached.segment (decodeSegment_column hFirst hFits line)
    have hSegment : map.decodeSegment line { previous with column := previous.column + c }
        second = .error (.overflow sum) :=
      (hNext.checked hSources hNames).decodeSegment_eq_overflow_iff.2
        ⟨d :: more, hSecond, hSum, hWord⟩
    obtain ⟨table, hTable⟩ := hNext.decode_eq
    rw [hTable, walk, hSegment]
    rfl

theorem isWord_natCast_iff (n : Nat) : IsWord n ↔ n < 2 ^ 63 := by
  unfold IsWord
  omega

/-- Reading an integer leaves the signed 64-bit range with the thirteenth digit or not at all,
and what is read is the integer that is written unless the range is left.  In any case half
of the range suffices for it. -/
theorem readGroups_range {cs rest : List Char} {groups : List Nat}
    (h : Vlq.readGroups Vlq.maxDigits cs = (.ok groups, rest)) :
    (∀ count ≤ 12, IsWord (Vlq.ofGroups (groups.take count))) ∧
      (IsWord (Vlq.ofGroups groups) ↔ ∀ last ∈ groups[12]?, last < 8) ∧
      (IsWord (Vlq.ofGroups groups) ↔
        Vlq.decode cs = (.ok (Vlq.unbounded (Vlq.ofGroups groups)), rest)) ∧
      ∃ value, Vlq.decode cs = (.ok value, rest) ∧ -2 ^ 62 ≤ value ∧ value ≤ 2 ^ 62 := by
  obtain ⟨hLength, hGroups⟩ := Vlq.groups_of_readGroups_eq_ok h
  have hDecode : Vlq.decode cs = (.ok (Vlq.unsigned (Vlq.ofGroups groups)), rest) := by
    rw [Vlq.decode, h]
  refine ⟨?_, ?_, ?_, _, hDecode, Vlq.unsigned_range _⟩
  · intro count hCount
    have hLess := Vlq.ofGroups_take_lt hGroups hCount
    rw [isWord_natCast_iff]
    omega
  · rw [isWord_natCast_iff, Vlq.ofGroups_lt_iff hLength hGroups]
  · rw [isWord_natCast_iff, hDecode, ← Vlq.unsigned_eq_unbounded_iff]
    simp only [Prod.mk.injEq, Except.ok.injEq, and_true]

/-- How far the decoder counts.  An integer leaves the signed 64-bit range if and only if it
has a thirteenth digit of 8 or more, and it is then read as another one.  Wherever the
decoder stands, the sums of source, origin and name are in the range.  Decoding is broken off
if and only if a segment has a column only and the column of the segment behind it leads out
of the range. -/
theorem decoding_range (map : SourceMap) (hSources : map.sources.length ≤ 2 ^ 62)
    (hNames : map.names.length ≤ 2 ^ 62) :
    (∀ cs groups rest, Vlq.readGroups Vlq.maxDigits cs = (.ok groups, rest) →
      (∀ count ≤ 12, IsWord (Vlq.ofGroups (groups.take count))) ∧
      (IsWord (Vlq.ofGroups groups) ↔ ∀ last ∈ groups[12]?, last < 8) ∧
      (IsWord (Vlq.ofGroups groups) ↔
        Vlq.decode cs = (.ok (Vlq.unbounded (Vlq.ofGroups groups)), rest)) ∧
      ∃ value, Vlq.decode cs = (.ok value, rest) ∧ -2 ^ 62 ≤ value ∧ value ≤ 2 ^ 62) ∧
    (∀ line previous text texts lines, map.Reached line previous (text :: texts) lines →
      ∀ column a b c more, fields text = .ok (column :: a :: b :: c :: more) →
        SumsFit previous a b c more.head?) ∧
    ∀ sum, map.decode = .error (.overflow sum) ↔ map.LeavesRange sum := by
  refine ⟨fun cs groups rest h => readGroups_range h, ?_, ?_⟩
  · intro line previous text texts lines hReached column a b c more hFields
    exact (hReached.checked hSources hNames).sumsFit hFields
  · exact decode_eq_overflow_iff hSources hNames

/-- Three columns, each of 62 bits, add up to more than the range holds. -/
theorem decoding_range_long_line :
    let map : SourceMap :=
      ⟨3, "f", ["s"], none, [], "+///////////H,+///////////H,+///////////H,AAAA"⟩
    map.decode = .error (.overflow (3 * (2 ^ 62 - 1))) ∧
      map.LeavesRange (3 * (2 ^ 62 - 1)) := by
  have hDecode :
      (⟨3, "f", ["s"], none, [], "+///////////H,+///////////H,+///////////H,AAAA"⟩ :
        SourceMap).decode = .error (.overflow (3 * (2 ^ 62 - 1))) := by
    decide +kernel
  exact ⟨hDecode, ((decoding_range _ (by decide) (by decide)).2.2 _).1 hDecode⟩

/-- An integer of thirteen digits changes its sign while it is read, and a sum of columns
breaks the decoding off. -/
theorem range_is_left :
    ¬IsWord (Vlq.ofGroups (List.replicate 12 0 ++ [8])) ∧
      Vlq.readGroups Vlq.maxDigits "ggggggggggggI".toList =
        (.ok (List.replicate 12 0 ++ [8]), []) ∧
      Vlq.decode "ggggggggggggI".toList = (.ok (-2 ^ 62), []) ∧
      (⟨3, "f", ["s"], none, [],
        "+///////////H,+///////////H,+///////////H,+///////////H,IAAA"⟩ : SourceMap).decode =
          .error (.overflow (3 * (2 ^ 62 - 1))) := by
  decide +kernel

end SourceMap

end ReversePolish
