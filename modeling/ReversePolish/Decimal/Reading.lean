import ReversePolish.Decimal.Binary64

/-!
# Reading numbers

Numbers as they are written in programs, bindings and settings. A decimal has an
optional sign, digits with an optional point among, before or behind them, and an
optional power of ten; it is rounded to the nearest double. The names of infinity
and of the undefined number are read in any case. A natural number has an optional
plus sign and digits, and a largest value.
-/

namespace ReversePolish.Decimal

/-! ## Decimals -/

/-- Why a text is no decimal. -/
inductive DecimalFault where
  | empty
  | malformed
  deriving DecidableEq, Repr

def DecimalFault.message : DecimalFault → String
  | .empty => "cannot parse float from empty string"
  | .malformed => "invalid float literal"

/-- The value of a row of decimal digits. -/
def digitsValue (cs : List Char) : Nat :=
  cs.foldl (fun value c => 10 * value + (c.toNat - '0'.toNat)) 0

/-- The double nearest to `significand * 10 ^ exponent`. A power of ten far outside the
range of doubles decides the answer without being computed. -/
def ofDecimal (significand : Nat) (exponent : Int) : Float :=
  let size : Int := (Nat.toDigits 10 significand).length
  if significand = 0 ∨ size + exponent < -400 then Float.ofBits 0
  else if 400 < size + exponent then infinity
  else nearest (significand * Nat.pow 10 exponent.toNat) (Nat.pow 10 (-exponent).toNat)

/-- A row of digits at the start of a text, and what follows it. -/
def takeDigits (cs : List Char) : List Char × List Char :=
  (cs.takeWhile Char.isDigit, cs.dropWhile Char.isDigit)

/-- The power of ten at the end of a decimal; an absent one is zero. -/
def readPower? : List Char → Option Int
  | [] => some 0
  | c :: rest =>
    if c = 'e' ∨ c = 'E' then
      let (negative, digits) :=
        match rest with
        | '-' :: digits => (true, digits)
        | '+' :: digits => (false, digits)
        | digits => (false, digits)
      if digits.isEmpty || !digits.all Char.isDigit then none
      else
        let power : Int := digitsValue digits
        some (if negative then -power else power)
    else none

/-- A decimal without sign. -/
def readUnsigned? (cs : List Char) : Option Float :=
  let (whole, rest) := takeDigits cs
  let (fraction, rest) :=
    match rest with
    | '.' :: rest => takeDigits rest
    | rest => ([], rest)
  if whole.isEmpty && fraction.isEmpty then none
  else
    (readPower? rest).map fun power =>
      ofDecimal (digitsValue (whole ++ fraction)) (power - fraction.length)

/-- The numbers that have names. -/
def namedNumber? (cs : List Char) : Option Float :=
  let name := cs.map Char.toLower
  if name = "inf".toList ∨ name = "infinity".toList then some infinity
  else if name = "nan".toList then some (0.0 / 0.0)
  else none

/-- A decimal with an optional sign. -/
def readDecimal (cs : List Char) : Except DecimalFault Float :=
  let (negative, body) :=
    match cs with
    | '-' :: body => (true, body)
    | '+' :: body => (false, body)
    | body => (false, body)
  if cs.isEmpty then .error .empty
  else
    match (namedNumber? body).or (readUnsigned? body) with
    | some x => .ok (if negative then -x else x)
    | none => .error .malformed

/-! ## Natural numbers -/

/-- Why a text is no natural number. -/
inductive NaturalFault where
  | empty
  | strayCharacter
  | tooLarge
  deriving DecidableEq, Repr

def NaturalFault.message : NaturalFault → String
  | .empty => "cannot parse integer from empty string"
  | .strayCharacter => "invalid digit found in string"
  | .tooLarge => "number too large to fit in target type"

/-- The largest value of a size: sizes and limits are 64-bit words. -/
def largestSize : Nat := 0xFFFFFFFFFFFFFFFF

/-- Digits read from the left, the value so far given. Whichever fault the reader meets
first is reported. -/
def readDigits (value : Nat) : List Char → Except NaturalFault Nat
  | [] => .ok value
  | c :: rest =>
    if c.isDigit then
      let value := 10 * value + (c.toNat - '0'.toNat)
      if value ≤ largestSize then readDigits value rest else .error .tooLarge
    else .error .strayCharacter

/-- A natural number with an optional plus sign. -/
def readSize (cs : List Char) : Except NaturalFault Nat :=
  match cs with
  | [] => .error .empty
  | ['+'] => .error .strayCharacter
  | '+' :: digits => readDigits 0 digits
  | digits => readDigits 0 digits

end ReversePolish.Decimal
