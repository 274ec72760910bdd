import ReversePolish.Decimal.Shortest

/-!
# Number text

How the digits of a number are laid out: with a decimal point and zeros, or with
a power of ten. Every place that writes numbers has its own `Style`; all styles
use the same shortest digits.
-/

namespace ReversePolish.Decimal

/-- The decisions of one way to write numbers. -/
structure Style where
  /-- Whether a number is written without a power of ten, by the power of ten of its first digit. -/
  positional : Int → Bool
  /-- Whether an integer written without a power of ten ends in `.0`. -/
  point : Bool
  /-- Whether a power of ten that is not negative has a plus sign. -/
  plus : Bool
  /-- Whether a negative zero keeps its sign. -/
  zeroSign : Bool
  /-- The name of infinity. -/
  infinity : String

/-- The digits with a decimal point among them, or with zeros in front or behind. -/
def Style.positionalText (style : Style) (digits : List Char) (exponent : Int) : List Char :=
  let size : Int := digits.length
  if 0 ≤ exponent then
    digits ++ List.replicate exponent.toNat '0' ++ (if style.point then ['.', '0'] else [])
  else if 0 < size + exponent then
    let whole := (size + exponent).toNat
    digits.take whole ++ '.' :: digits.drop whole
  else
    ['0', '.'] ++ List.replicate (-(size + exponent)).toNat '0' ++ digits

/-- The digits with the point after the first one, times a power of ten. -/
def Style.scientificText (style : Style) (digits : List Char) (power : Int) : List Char :=
  let mantissa :=
    match digits with
    | first :: more :: rest => first :: '.' :: more :: rest
    | _ => digits
  let sign := if power < 0 then ['-'] else if style.plus then ['+'] else []
  mantissa ++ 'e' :: sign ++ Nat.toDigits 10 power.natAbs

/-- The text of a positive number. -/
def Style.digitsText (style : Style) (d : Digits) : List Char :=
  let digits := Nat.toDigits 10 d.significand
  let power := digits.length - 1 + d.exponent
  if style.positional power then style.positionalText digits d.exponent
  else style.scientificText digits power

/-- The text of a number. -/
def Style.text (style : Style) (x : Float) : String :=
  let sign := if signBit x then ['-'] else []
  match magnitude x with
  | .nan => "NaN"
  | .infinite => String.ofList (sign ++ style.infinity.toList)
  | .finite 0 _ =>
    String.ofList ((if style.zeroSign then sign else []) ++ style.positionalText ['0'] 0)
  | .finite mantissa exponent =>
    String.ofList (sign ++ style.digitsText (shortest mantissa exponent))

end ReversePolish.Decimal
