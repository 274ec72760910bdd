/-!
# Integers as base64 text

An integer is written as a row of base64 digits, each of which carries five bits,
lowest bits first; the sixth bit of a digit says that another one follows. The
lowest bit of the number so written is the sign, the others are the magnitude.

A reader accepts at most thirteen digits, which may hold 65 bits; what they stand
for is then taken modulo 2^64 as a signed number.
-/

namespace ReversePolish.Vlq

/-- The base64 digits in the order of their values. -/
def alphabet : List Char :=
  "ABCDEFGHIJKLMNOPQRSTUVWXYZabcdefghijklmnopqrstuvwxyz0123456789+/".toList

/-- The digit with a value below 64. -/
def digit (value : Nat) : Char :=
  alphabet.getD value 'A'

/-- The value of a digit. -/
def digitValue? (c : Char) : Option Nat :=
  alphabet.findIdx? (· == c)

/-! ## Writing -/

/-- A natural number in groups of five bits. -/
def encodeNat (n : Nat) : List Char :=
  if n < 32 then [digit n] else digit (n % 32 + 32) :: encodeNat (n / 32)

/-- The number whose lowest bit is the sign of an integer. -/
def signed (value : Int) : Nat :=
  2 * value.natAbs + if value < 0 then 1 else 0

/-- The text of an integer. -/
def encode (value : Int) : List Char :=
  encodeNat (signed value)

/-! ## Reading -/

/-- Why a text is no integer. -/
inductive Fault where
  /-- The text ended where another digit was announced. -/
  | truncated
  /-- A character is no base64 digit. -/
  | notDigit (c : Char)
  /-- There are more than thirteen digits. -/
  | tooLong
  deriving DecidableEq, Repr

def Fault.message : Fault → String
  | .truncated => "VLQ tronqué"
  | .notDigit c => s!"caractère base64 invalide: `{c}`"
  | .tooLong => "VLQ trop long"

/-- The number of digits that an integer may have. -/
def maxDigits : Nat := 13

/-- Reads the digits of one integer, of which there is room for so many, as groups of
five bits. What follows the last character read is left, also after a fault. -/
def readGroups : (room : Nat) → List Char → Except Fault (List Nat) × List Char
  | _, [] => (.error .truncated, [])
  | room, c :: rest =>
    match digitValue? c, room with
    | none, _ => (.error (.notDigit c), rest)
    | some _, 0 => (.error .tooLong, rest)
    | some value, room + 1 =>
      if value < 32 then (.ok [value], rest)
      else
        match readGroups room rest with
        | (.ok groups, rest) => (.ok (value % 32 :: groups), rest)
        | (.error fault, rest) => (.error fault, rest)

/-- The number of a row of groups, lowest first. -/
def ofGroups (groups : List Nat) : Nat :=
  groups.foldr (fun group n => group + 32 * n) 0

/-- The integer of a number whose lowest bit is the sign; the number is first brought
into the signed 64-bit range. -/
def unsigned (n : Nat) : Int :=
  let magnitude := Int.bmod n 0x10000000000000000 / 2
  if n % 2 = 1 then -magnitude else magnitude

/-- Reads one integer and leaves what follows. -/
def decode (cs : List Char) : Except Fault Int × List Char :=
  match readGroups maxDigits cs with
  | (.ok groups, rest) => (.ok (unsigned (ofGroups groups)), rest)
  | (.error fault, rest) => (.error fault, rest)

theorem readGroups_shorter (room : Nat) (cs : List Char) :
    (readGroups room cs).2.length ≤ cs.length - 1 := by
  fun_induction readGroups room cs <;> grind

theorem decode_shorter (cs : List Char) : (decode cs).2.length ≤ cs.length - 1 := by
  have h := readGroups_shorter maxDigits cs
  unfold decode
  split <;> simp_all

/-- The integers read from a text, the fault that ended the reading before the end of
the text, and what was left unread. -/
structure Reading where
  values : List Int
  fault : Option Fault
  rest : List Char
  deriving DecidableEq, Repr

/-- Reads integers until the text is used up or one of them is at fault. -/
def decodeAll : List Char → Reading
  | [] => ⟨[], none, []⟩
  | c :: cs =>
    match _ : decode (c :: cs) with
    | (.error fault, rest) => ⟨[], some fault, rest⟩
    | (.ok value, rest) =>
      let reading := decodeAll rest
      { reading with values := value :: reading.values }
termination_by cs => cs.length
decreasing_by
  have hShorter := decode_shorter (c :: cs)
  rw [‹decode (c :: cs) = _›, List.length_cons] at hShorter
  exact Nat.lt_succ_of_le hShorter

end ReversePolish.Vlq
