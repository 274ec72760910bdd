import Mathlib.Data.Nat.Digits.Lemmas
import ReversePolish.Proofs.DecodingRange

/-!
# What thirteen digits can hold

Integers are written and read in 64-bit words.  The writer shifts the magnitude to the left
to make room for the sign, and then cuts five bits off at a time until nothing remains.  An
integer of less than 63 bits loses nothing by the shift, and thirteen digits use it up.

The reader puts groups of five bits together again and asks only how many there are.  So it
takes a thirteenth group, of which no more than three bits fit.  What it reads is what is
written as long as these three bits suffice, and is something else in all other cases.

## Main results

* `encodeWord_ofNat` — digits cut off a word are those of its number.
* `decodeMany_append` — integers that stand one behind the other are read back.
* `stream_roundTrip` — rows of integers, and how their texts are made in words.
* `readGroups_eq_ok_iff` — the texts that are read as an integer.
* `decode_exact_iff` — the texts that are read as the integer that they stand for.
-/

namespace ReversePolish.Vlq

/-! ## Words -/

/-- The word that is cut into digits: the magnitude, and the sign as the lowest bit. -/
def signedWord (value : Int64) : Int64 :=
  if value < 0 then ((-value) <<< 1) ||| 1 else value <<< 1

/-- The digit that is cut off a word, of which the rest remains. -/
def cutOff (word rest : Int64) : Int64 :=
  if 0 < rest then (word &&& 31) ||| 32 else word &&& 31

/-- Cuts digits off a word until nothing remains.  There is no text if something remains after
the given number of rounds. -/
def encodeWord : (rounds : Nat) → Int64 → Option (List Char)
  | 0, _ => none
  | rounds + 1, word =>
    let rest := word >>> 5
    let c := digit (cutOff word rest).toNatClampNeg
    if rest = 0 then some [c] else (encodeWord rounds rest).map (c :: ·)

theorem ofNat_shiftRight_five {n : Nat} (h : n < 2 ^ 63) :
    Int64.ofNat n >>> 5 = Int64.ofNat (n / 32) := by
  have hFive : BitVec.smod (5 : Int64).toBitVec 64 = 5#64 := by decide
  apply Int64.toInt_inj.1
  have hShift : (Int64.ofNat n >>> 5).toInt = (Int64.ofNat n).toInt / 32 := by
    show (Int64.ofNat n >>> 5).toBitVec.toInt = (Int64.ofNat n).toBitVec.toInt / 32
    rw [Int64.toBitVec_shiftRight, hFive]
    show ((Int64.ofNat n).toBitVec.sshiftRight 5).toInt = _
    rw [BitVec.toInt_sshiftRight, Int.shiftRight_eq_div_pow]
    rfl
  rw [hShift, Int64.toInt_ofNat_of_lt h, Int64.toInt_ofNat_of_lt (by omega)]
  rfl

theorem ofNat_and_31 (n : Nat) : Int64.ofNat n &&& 31 = Int64.ofNat (n % 32) := by
  apply Int64.toBitVec_inj.1
  rw [Int64.toBitVec_and]
  apply BitVec.eq_of_toNat_eq
  rw [BitVec.toNat_and]
  show (n % 2 ^ 64) &&& (2 ^ 5 - 1) = (n % 32) % 2 ^ 64
  rw [Nat.and_two_pow_sub_one_eq_mod]
  omega

theorem ofNat_or_32 {n : Nat} (h : n < 32) : Int64.ofNat n ||| 32 = Int64.ofNat (n + 32) := by
  revert n
  decide +kernel

theorem ofNat_shiftLeft_one (n : Nat) : Int64.ofNat n <<< 1 = Int64.ofNat (2 * n) := by
  have hOne : BitVec.smod (1 : Int64).toBitVec 64 = 1#64 := by decide
  apply Int64.toBitVec_inj.1
  rw [Int64.toBitVec_shiftLeft, hOne]
  apply BitVec.eq_of_toNat_eq
  show (BitVec.ofNat 64 n <<< 1).toNat = (BitVec.ofNat 64 (2 * n)).toNat
  rw [BitVec.toNat_shiftLeft, Nat.shiftLeft_eq, BitVec.toNat_ofNat, BitVec.toNat_ofNat]
  omega

theorem ofNat_or_one (n : Nat) : Int64.ofNat (2 * n) ||| 1 = Int64.ofNat (2 * n + 1) := by
  apply Int64.toBitVec_inj.1
  rw [Int64.toBitVec_or]
  apply BitVec.eq_of_toNat_eq
  rw [BitVec.toNat_or]
  show (2 * n % 2 ^ 64) ||| 1 = (2 * n + 1) % 2 ^ 64
  have hEven : 2 * n % 2 ^ 64 = 2 ^ 1 * (n % 2 ^ 63) := by omega
  rw [hEven, ← Nat.two_pow_add_eq_or_of_lt (by decide)]
  omega

/-- The word of an integer is the number whose lowest bit is the sign. -/
theorem signedWord_eq (value : Int64) : signedWord value = Int64.ofNat (signed value.toInt) := by
  unfold signedWord signed
  by_cases hSign : value < 0
  · have hInt : value.toInt < 0 := Int64.lt_iff_toInt_lt.1 hSign
    have hNeg : -value = Int64.ofNat value.toInt.natAbs := by
      rw [← Int64.ofInt_eq_ofNat, Int.ofNat_natAbs_of_nonpos (by omega), Int64.ofInt_neg,
        Int64.ofInt_toInt]
    rw [if_pos hSign, if_pos hInt, hNeg, ofNat_shiftLeft_one, ofNat_or_one]
  · have hInt : ¬ value.toInt < 0 := fun h => hSign (Int64.lt_iff_toInt_lt.2 h)
    have hSame : Int64.ofNat value.toInt.natAbs = value := by
      rw [← Int64.ofInt_eq_ofNat, Int.natAbs_of_nonneg (by omega), Int64.ofInt_toInt]
    rw [if_neg hSign, if_neg hInt, Nat.add_zero, ← ofNat_shiftLeft_one, hSame]

theorem signed_lt {value : Int} (h : Short value) : signed value < 2 ^ 63 := by
  obtain ⟨hLow, hHigh⟩ := h
  unfold signed
  split <;> omega

/-- The digit that is cut off a number says whether another one follows. -/
theorem cutOff_ofNat {n : Nat} (h : n < 2 ^ 63) :
    (cutOff (Int64.ofNat n) (Int64.ofNat (n / 32))).toNatClampNeg =
      if n < 32 then n else n % 32 + 32 := by
  have hRest : (Int64.ofNat (n / 32)).toInt = (n / 32 : Nat) :=
    Int64.toInt_ofNat_of_lt (by omega)
  have hPositive : 0 < Int64.ofNat (n / 32) ↔ ¬ n < 32 := by
    rw [Int64.lt_iff_toInt_lt, hRest]
    show (0 : Int) < _ ↔ _
    omega
  have hClamp {m : Nat} (hm : m < 64) : (Int64.ofNat m).toNatClampNeg = m := by
    rw [Int64.toNatClampNeg, Int64.toInt_ofNat_of_lt (by omega), Int.toNat_natCast]
  unfold cutOff
  rw [ofNat_and_31]
  by_cases hSmall : n < 32
  · rw [if_neg (by rwa [hPositive, not_not]), if_pos hSmall, Nat.mod_eq_of_lt hSmall,
      hClamp (by omega)]
  · rw [if_pos (hPositive.2 hSmall), if_neg hSmall, ofNat_or_32 (Nat.mod_lt n (by decide)),
      hClamp (by omega)]

/-- Digits cut off a word are those of its number, and as many rounds as the number has
digits use it up. -/
theorem encodeWord_ofNat {rounds n : Nat} (hRounds : n < 32 ^ (rounds + 1)) (hWord : n < 2 ^ 63) :
    encodeWord (rounds + 1) (Int64.ofNat n) = some (encodeNat n) := by
  have hZero {m : Nat} (hm : m < 2 ^ 63) : Int64.ofNat m = 0 ↔ m = 0 := by
    rw [← Int64.toInt_inj, Int64.toInt_ofNat_of_lt hm]
    show (m : Int) = 0 ↔ m = 0
    omega
  have hQuotient : n / 32 < 2 ^ 63 := by omega
  rw [encodeWord, encodeNat]
  simp only [ofNat_shiftRight_five hWord, cutOff_ofNat hWord, hZero hQuotient]
  by_cases hSmall : n < 32
  · rw [if_pos hSmall, if_pos hSmall, if_pos (by omega)]
  · rw [if_neg hSmall, if_neg hSmall, if_neg (by omega)]
    cases rounds with
    | zero => omega
    | succ rounds =>
        have hLess : n / 32 < 32 ^ (rounds + 1) := by
          rw [Nat.div_lt_iff_lt_mul (by decide), ← Nat.pow_succ]
          exact hRounds
        rw [encodeWord_ofNat hLess hQuotient, Option.map_some]

/-! ## Rows of integers -/

theorem length_alphabet : alphabet.length = 64 := by decide +kernel

theorem digit_eq_getElem {value : Nat} (h : value < alphabet.length) :
    digit value = alphabet[value] := by
  rw [digit, List.getD_eq_getElem?_getD, List.getElem?_eq_getElem h, Option.getD_some]

theorem digit_mem {value : Nat} (h : value < 64) : digit value ∈ alphabet := by
  rw [← length_alphabet] at h
  rw [digit_eq_getElem h]
  exact List.getElem_mem h

theorem encodeNat_mem {n : Nat} {c : Char} (h : c ∈ encodeNat n) : c ∈ alphabet := by
  fun_induction encodeNat n with
  | case1 n hSmall =>
      rw [List.mem_singleton.1 h]
      exact digit_mem (by omega)
  | case2 n hLarge ih =>
      rcases List.mem_cons.1 h with hFirst | hRest
      · rw [hFirst]
        exact digit_mem (by omega)
      · exact ih hRest

theorem length_encodeNat_le {count n : Nat} (h : n < 32 ^ (count + 1)) :
    (encodeNat n).length ≤ count + 1 := by
  induction count generalizing n with
  | zero =>
      have hSmall : n < 32 := h
      rw [encodeNat, if_pos hSmall]
      exact Nat.le_refl 1
  | succ count ih =>
      rw [encodeNat]
      by_cases hSmall : n < 32
      · rw [if_pos hSmall, List.length_singleton]
        omega
      · have hLess : n / 32 < 32 ^ (count + 1) := by
          rw [Nat.div_lt_iff_lt_mul (by decide), ← Nat.pow_succ]
          exact h
        have hRest := ih hLess
        rw [if_neg hSmall, List.length_cons]
        omega

/-- How the text of an integer is made in words. -/
structure MadeInWords (value : Int64) (text : List Char) : Prop where
  /-- No bit is lost when room is made for the sign. -/
  word : (signedWord value).toInt = signed value.toInt
  /-- The digits are cut off in thirteen rounds at most. -/
  digits : encodeWord maxDigits (signedWord value) = some text
  length_le : text.length ≤ maxDigits
  alphabet : ∀ c ∈ text, c ∈ alphabet

theorem encode_madeInWords {value : Int64} (h : Short value.toInt) :
    MadeInWords value (encode value.toInt) := by
  have hWord := signed_lt h
  have hRounds : signed value.toInt < 32 ^ (12 + 1) := by omega
  refine
    { word := ?_
      digits := ?_
      length_le := length_encodeNat_le hRounds
      alphabet := fun c => encodeNat_mem }
  · rw [signedWord_eq, Int64.toInt_ofNat_of_lt hWord]
  · have hDigits : maxDigits = 12 + 1 := rfl
    rw [signedWord_eq, hDigits, encodeWord_ofNat hRounds hWord, encode]

/-- Reads so many integers, one behind the other, and leaves what follows the last. -/
def decodeMany : (count : Nat) → List Char → Except Fault (List Int) × List Char
  | 0, cs => (.ok [], cs)
  | count + 1, cs =>
    match decode cs with
    | (.error fault, rest) => (.error fault, rest)
    | (.ok value, rest) =>
      match decodeMany count rest with
      | (.error fault, rest) => (.error fault, rest)
      | (.ok values, rest) => (.ok (value :: values), rest)

/-- Integers that stand one behind the other are read back, and what follows them is left. -/
theorem decodeMany_append {values : List Int} (h : ∀ v ∈ values, Short v) (text : List Char) :
    decodeMany values.length (values.flatMap encode ++ text) = (.ok values, text) := by
  induction values with
  | nil => rfl
  | cons v values ih =>
      rw [List.forall_mem_cons] at h
      have hFirst := decode_encode h.1 (values.flatMap encode ++ text)
      rw [List.flatMap_cons, List.append_assoc, List.length_cons, decodeMany, hFirst]
      dsimp only
      rw [ih h.2]

/-- **Rows of integers.**  Integers of less than 63 bits that are written one behind the other
are read back by as many readings, and whatever text follows them is left.  Each of them is
written in words without losing a bit, with at most thirteen digits. -/
theorem stream_roundTrip {values : List Int64} (h : ∀ v ∈ values, v.toInt.natAbs < 2 ^ 62)
    (text : List Char) :
    decodeMany values.length ((values.map Int64.toInt).flatMap encode ++ text) =
        (.ok (values.map Int64.toInt), text) ∧
      ∀ v ∈ values, MadeInWords v (encode v.toInt) := by
  have hShort : ∀ v ∈ values, Short v.toInt := by
    intro v hv
    have hLess := h v hv
    unfold Short
    omega
  refine ⟨?_, fun v hv => encode_madeInWords (hShort v hv)⟩
  have hRead := decodeMany_append (List.forall_mem_map.2 hShort) text
  rwa [List.length_map] at hRead

/-- The largest and the smallest integers that are written in thirteen digits, and others
between them, in front of a digit that announces another one. -/
theorem stream_roundTrip_limits :
    let values : List Int64 := [4611686018427387903, 0, -4611686018427387903, -1, 16]
    (∀ v ∈ values, v.toInt.natAbs < 2 ^ 62) ∧
      (values.map Int64.toInt).flatMap encode =
        "+///////////HA////////////HDgB".toList ∧
      decodeMany 5 "+///////////HA////////////HDgBg;".toList =
        (.ok [4611686018427387903, 0, -4611686018427387903, -1, 16], "g;".toList) := by
  intro values
  have hAll : values.all (fun v => decide (v.toInt.natAbs < 2 ^ 62)) = true := by
    decide +kernel
  have hLess : ∀ v ∈ values, v.toInt.natAbs < 2 ^ 62 :=
    fun v hv => of_decide_eq_true (List.all_eq_true.1 hAll v hv)
  have hText : (values.map Int64.toInt).flatMap encode =
      "+///////////HA////////////HDgB".toList := by decide +kernel
  have hRead := (stream_roundTrip hLess "g;".toList).1
  rw [hText] at hRead
  exact ⟨hLess, hText, hRead⟩

/-! ## Exact readings -/

/-- The values of the digits of an integer: each but the last announces a further one. -/
inductive Row : List Nat → Prop where
  | last {value : Nat} (h : value < 32) : Row [value]
  | more {value : Nat} {values : List Nat} (hLow : 32 ≤ value) (hHigh : value < 64)
      (hRest : Row values) : Row (value :: values)

theorem row_cons_iff {value : Nat} {values : List Nat} :
    Row (value :: values) ↔
      values = [] ∧ value < 32 ∨ 32 ≤ value ∧ value < 64 ∧ Row values := by
  constructor
  · intro h
    cases h with
    | last h => exact .inl ⟨rfl, h⟩
    | more hLow hHigh hRest => exact .inr ⟨hLow, hHigh, hRest⟩
  · rintro (⟨rfl, h⟩ | ⟨hLow, hHigh, hRest⟩)
    · exact .last h
    · exact .more hLow hHigh hRest

instance Row.decidable : (values : List Nat) → Decidable (Row values)
  | [] => .isFalse (by intro h; cases h)
  | _ :: values =>
    have := Row.decidable values
    decidable_of_iff _ row_cons_iff.symm

/-- The number that digits stand for: the sum of their groups, each with the weight of its
place. -/
def number (values : List Nat) : Nat :=
  ((values.map (· % 32)).mapIdx fun i group => group * 32 ^ i).sum

theorem ofGroups_eq_number (values : List Nat) :
    ofGroups (values.map (· % 32)) = number values := by
  have hDigits : ofGroups (values.map (· % 32)) = Nat.ofDigits 32 (values.map (· % 32)) :=
    (Nat.ofDigits_eq_foldr 32 _).symm
  rw [hDigits, Nat.ofDigits_eq_sum_mapIdx, number]

theorem eq_digit_of_digitValue? {c : Char} {value : Nat} (h : digitValue? c = some value) :
    value < 64 ∧ c = digit value := by
  rw [digitValue?, List.findIdx?_eq_some_iff_getElem] at h
  obtain ⟨hLess, hFound, -⟩ := h
  rw [digit_eq_getElem hLess, ← eq_of_beq hFound]
  rw [length_alphabet] at hLess
  exact ⟨hLess, rfl⟩

/-- What is read as an integer are the digits of one, no more than there is room for. -/
theorem readGroups_eq_ok_iff {room : Nat} {cs rest : List Char} {groups : List Nat} :
    readGroups room cs = (.ok groups, rest) ↔
      ∃ values, Row values ∧ values.length ≤ room ∧ cs = values.map digit ++ rest ∧
        groups = values.map (· % 32) := by
  constructor
  · intro h
    fun_induction readGroups room cs generalizing groups with
    | case1 | case2 | case3 => simp at h
    | case4 c rest' value room hValue hLast =>
        obtain ⟨-, hDigit⟩ := eq_digit_of_digitValue? hValue
        cases h
        rw [hDigit]
        refine ⟨[value], .last hLast, Nat.succ_le_succ (Nat.zero_le room), rfl, ?_⟩
        rw [List.map_singleton, Nat.mod_eq_of_lt hLast]
    | case5 c rest' value room hValue hMore groups' rest'' hRest ih =>
        obtain ⟨hHigh, hDigit⟩ := eq_digit_of_digitValue? hValue
        cases h
        rw [hDigit]
        obtain ⟨values, hRow, hLength, rfl, rfl⟩ := ih hRest
        exact ⟨value :: values, .more (Nat.le_of_not_lt hMore) hHigh hRow,
          Nat.succ_le_succ hLength, rfl, rfl⟩
    | case6 => cases h
  · rintro ⟨values, hRow, hLength, rfl, rfl⟩
    induction hRow generalizing room with
    | @last value h =>
        obtain ⟨less, rfl⟩ : ∃ less, room = less + 1 := Nat.exists_eq_add_one.2 hLength
        rw [List.map_singleton, List.map_singleton, List.singleton_append, Nat.mod_eq_of_lt h]
        exact readGroups_last h less rest
    | @more value values hLow hHigh hRest ih =>
        obtain ⟨less, rfl⟩ : ∃ less, room = less + 1 :=
          Nat.exists_eq_add_one.2 (Nat.lt_of_lt_of_le (Nat.succ_pos _) hLength)
        have hMore := readGroups_more (Nat.mod_lt value (by decide))
          (ih (Nat.le_of_succ_le_succ hLength))
        have hValue : value % 32 + 32 = value := by omega
        rw [hValue] at hMore
        rw [List.map_cons, List.cons_append, List.map_cons, hMore]

/-- More digits than there is room for are refused. -/
theorem readGroups_tooLong {values : List Nat} (hRow : Row values) {room : Nat}
    (hLength : room < values.length) (rest : List Char) :
    (readGroups room (values.map digit ++ rest)).1 = .error .tooLong := by
  induction hRow generalizing room with
  | @last value h =>
      obtain rfl : room = 0 := Nat.lt_one_iff.1 hLength
      rw [List.map_singleton, List.singleton_append]
      unfold readGroups
      rw [digitValue?_digit (by omega)]
  | @more value values hLow hHigh hRest ih =>
      rw [List.map_cons, List.cons_append]
      unfold readGroups
      rw [digitValue?_digit hHigh]
      cases room with
      | zero => rfl
      | succ room =>
          have hTooLong := ih (Nat.lt_of_succ_lt_succ hLength)
          dsimp only
          rw [if_neg (by omega)]
          split
          · next groups rest' hRead => rw [hRead] at hTooLong; cases hTooLong
          · next fault rest' hRead => rw [hRead] at hTooLong; exact hTooLong

/-- An integer is read from the digits of one, at most thirteen. -/
theorem decode_eq_ok_iff {cs rest : List Char} {value : Int} :
    decode cs = (.ok value, rest) ↔
      ∃ values, Row values ∧ values.length ≤ maxDigits ∧ cs = values.map digit ++ rest ∧
        value = unsigned (number values) := by
  have hRead : decode cs = (.ok value, rest) ↔
      ∃ groups, readGroups maxDigits cs = (.ok groups, rest) ∧
        value = unsigned (ofGroups groups) := by
    unfold decode
    rcases readGroups maxDigits cs with ⟨fault | groups, rest'⟩
    · simp
    · simp [and_comm, eq_comm]
  simp only [hRead, readGroups_eq_ok_iff]
  constructor
  · rintro ⟨groups, ⟨values, hRow, hLength, hText, rfl⟩, hValue⟩
    rw [ofGroups_eq_number] at hValue
    exact ⟨values, hRow, hLength, hText, hValue⟩
  · rintro ⟨values, hRow, hLength, hText, hValue⟩
    rw [← ofGroups_eq_number] at hValue
    exact ⟨_, ⟨values, hRow, hLength, hText, rfl⟩, hValue⟩

theorem number_lt_iff {values : List Nat} (hLength : values.length ≤ maxDigits) :
    number values < 2 ^ 63 ↔ ∀ value ∈ values[12]?, value % 32 < 8 := by
  have hGroups : ∀ group ∈ values.map (· % 32), group < 32 :=
    List.forall_mem_map.2 fun value _ => Nat.mod_lt value (by decide)
  rw [← ofGroups_eq_number, ofGroups_lt_iff (by rwa [List.length_map]) hGroups]
  cases hLast : values[12]? <;> simp [hLast]

/-- **Exact readings.**  A text is read as an integer exactly if it starts with the digits of
one, at most thirteen.  The integer that is read is the one that the digits stand for exactly
if there is no thirteenth digit of 8 or more, so that their number is below 2^63.  Otherwise it
is another integer, and the text is not refused: what is refused are the digits of integers
that have more than thirteen, whatever they stand for. -/
theorem decode_exact_iff (cs rest : List Char) :
    (∀ value, decode cs = (.ok value, rest) ↔
      ∃ values, Row values ∧ values.length ≤ maxDigits ∧ cs = values.map digit ++ rest ∧
        value = unsigned (number values)) ∧
    ∀ values, Row values → cs = values.map digit ++ rest →
      (maxDigits < values.length → (decode cs).1 = .error .tooLong) ∧
      (values.length ≤ maxDigits →
        ∃ value, decode cs = (.ok value, rest) ∧
          (value = unbounded (number values) ↔ number values < 2 ^ 63) ∧
          (number values < 2 ^ 63 ↔ ∀ last ∈ values[12]?, last % 32 < 8)) := by
  refine ⟨fun value => decode_eq_ok_iff, ?_⟩
  rintro values hRow rfl
  constructor
  · intro hLength
    have hTooLong := readGroups_tooLong hRow hLength rest
    unfold decode
    split
    · next groups rest' hRead => rw [hRead] at hTooLong; cases hTooLong
    · next fault rest' hRead => rw [hRead] at hTooLong; exact congrArg _ (Except.error.inj hTooLong)
  · intro hLength
    exact ⟨_, decode_eq_ok_iff.2 ⟨values, hRow, hLength, rfl, rfl⟩,
      unsigned_eq_unbounded_iff _, number_lt_iff hLength⟩

/-- Thirteen digits that stand for 2^62 are read as its opposite. -/
theorem exact_value_is_lost :
    Row [32, 32, 32, 32, 32, 32, 32, 32, 32, 32, 32, 32, 8] ∧
      unbounded (number [32, 32, 32, 32, 32, 32, 32, 32, 32, 32, 32, 32, 8]) = 2 ^ 62 ∧
      decode "ggggggggggggI".toList = (.ok (-2 ^ 62), []) := by
  refine ⟨?_, by decide +kernel, by decide +kernel⟩
  iterate 12 refine .more (by decide) (by decide) ?_
  exact .last (by decide)

end ReversePolish.Vlq
