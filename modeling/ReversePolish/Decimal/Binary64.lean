/-!
# Doubles as exact numbers

A finite double is a natural number times a power of two. This module takes
doubles apart into that form and rounds an exact quotient back to the nearest
double, so that the decimal readers and writers can work in `Nat` arithmetic.
-/

namespace ReversePolish.Decimal

/-- What a double stands for, its sign apart. A finite one is
`mantissa * 2 ^ exponent`. -/
inductive Magnitude where
  | nan
  | infinite
  | finite (mantissa : Nat) (exponent : Int)
  deriving DecidableEq, Repr

/-- The least exponent of a finite double: that of the subnormal numbers. -/
def leastExponent : Int := -1074

/-- The bits of positive infinity. Every finite positive double has smaller bits. -/
def infinityBits : Nat := 0x7FF0000000000000

def infinity : Float := Float.ofBits infinityBits.toUInt64

/-- Whether the sign bit is set. -/
def signBit (x : Float) : Bool :=
  decide (0x8000000000000000 ≤ x.toBits.toNat)

/-- The weight of the lowest bit of the exponent field, above the 52 bits of the
fraction. -/
def exponentUnit : Nat := 0x10000000000000

/-- A double taken apart, its sign dropped. -/
def magnitude (x : Float) : Magnitude :=
  let bits := x.toBits.toNat
  let biased : Nat := bits / exponentUnit % 2048
  let fraction : Nat := bits % exponentUnit
  if biased = 2047 then (if fraction = 0 then .infinite else .nan)
  else if biased = 0 then .finite fraction leastExponent
  else .finite (exponentUnit + fraction) (biased - 1075)

/-- A quotient rounded to the nearest natural number, a half to the even one. -/
def roundHalfEven (num den : Nat) : Nat :=
  let floor := num / den
  let rest := num % den
  if 2 * rest < den then floor
  else if den < 2 * rest then floor + 1
  else if floor % 2 = 0 then floor else floor + 1

/-- The exponent at which `num / den` has a mantissa of 53 bits, or the least
exponent where that one is smaller. -/
def scaleExponent (num den : Nat) : Int :=
  let k : Int := num.log2 - den.log2
  let below := num * Nat.pow 2 (-k).toNat < den * Nat.pow 2 k.toNat
  max (if below then k - 53 else k - 52) leastExponent

/-- The double nearest to `num / den`, a tie going to the even mantissa. What is
too large for a finite double is infinite. -/
def nearest (num den : Nat) : Float :=
  if num = 0 then Float.ofBits 0
  else
    let q := scaleExponent num den
    let mantissa := roundHalfEven (num * Nat.pow 2 (-q).toNat) (den * Nat.pow 2 q.toNat)
    -- a mantissa that rounds up to 54 bits carries into the exponent field
    let bits := (q - leastExponent).toNat * exponentUnit + mantissa
    if bits < infinityBits then Float.ofBits bits.toUInt64 else infinity

end ReversePolish.Decimal
