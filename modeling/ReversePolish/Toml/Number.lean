import ReversePolish.Decimal.Reading
import ReversePolish.Json.Token
import ReversePolish.Text.Split

/-!
# TOML numbers

Integers have 64 bits and may be written in four bases. Floats have a point, a power
of ten or both, or are one of two names. In every row of digits an underscore may stand
between two digits.
-/

namespace ReversePolish.Toml

/-- The number of a row of digits in a base, with underscores between digits. -/
def digits? (base : Nat) (cs : List Char) : Option Nat :=
  if (Text.split '_' cs).all (!·.isEmpty) then
    (cs.filter (· != '_')).foldlM (fun n c =>
      match Json.Token.hexValue? c with
      | some digit => if digit < base then some (base * n + digit) else none
      | none => none) 0
  else none

/-- A decimal number, which does not start with a zero unless it is zero. -/
def decimal? (cs : List Char) : Option Nat :=
  match cs with
  | '0' :: _ :: _ => none
  | _ => digits? 10 cs

/-- A number without its sign. -/
def withoutSign : List Char → List Char
  | '-' :: rest => rest
  | '+' :: rest => rest
  | cs => cs

/-- The integer of a word, within 64 bits. -/
def integer? (cs : List Char) : Option Int :=
  let n? : Option Int :=
    match cs with
    | '0' :: 'x' :: rest => (digits? 16 rest).map Int.ofNat
    | '0' :: 'o' :: rest => (digits? 8 rest).map Int.ofNat
    | '0' :: 'b' :: rest => (digits? 2 rest).map Int.ofNat
    | '-' :: rest => (decimal? rest).map fun n => -(n : Int)
    | _ => (decimal? (withoutSign cs)).map Int.ofNat
  n?.filter fun n => -0x8000000000000000 ≤ n && n < 0x8000000000000000

/-- The characters of a row of digits. -/
def isDigitChar (c : Char) : Bool :=
  c.isDigit || c == '_'

/-- Whether a text is a power of ten at the end of a float, with its mark. -/
def isPower : List Char → Bool
  | mark :: rest => (mark == 'e' || mark == 'E') && (digits? 10 (withoutSign rest)).isSome
  | [] => false

/-- Whether a text is a fraction and a power of ten, of which one may be missing. -/
def isFractionOrPower : List Char → Bool
  | '.' :: rest =>
    let power := rest.dropWhile isDigitChar
    (digits? 10 (rest.takeWhile isDigitChar)).isSome &&
      (power.isEmpty || isPower power)
  | cs => isPower cs

/-- Whether a word is a float written in digits. -/
def isDigitalFloat (cs : List Char) : Bool :=
  let body := withoutSign cs
  (decimal? (body.takeWhile isDigitChar)).isSome &&
    isFractionOrPower (body.dropWhile isDigitChar)

/-- The float of a word. Digits whose value is too large for a double are refused, unless
the value is negative: then it is minus infinity. -/
def float? (cs : List Char) : Option Float :=
  if isDigitalFloat cs then
    (Decimal.readDecimal (cs.filter (· != '_'))).toOption.filter fun x =>
      x.toBits != Decimal.infinity.toBits
  else if withoutSign cs = "inf".toList ∨ withoutSign cs = "nan".toList then
    (Decimal.readDecimal cs).toOption
  else none

end ReversePolish.Toml
