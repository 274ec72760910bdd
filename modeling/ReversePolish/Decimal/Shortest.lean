import ReversePolish.Decimal.Binary64

/-!
# Shortest decimals

The decimal with the fewest digits that reads back as a given double. A decimal
reads back when it lies in the interval of numbers that round to the double. The
search goes over the grids of multiples of `10 ^ e`, from coarse to fine: on each
grid only the two neighbours of the double can be in the interval and nearest, and
the first grid with a hit has the fewest digits.
-/

namespace ReversePolish.Decimal

/-- The number `significand * 10 ^ exponent`. -/
structure Digits where
  significand : Nat
  exponent : Int
  deriving DecidableEq, Repr

/-- Quarters of `2 ^ exponent` from a double down to the lower end of its interval.
Just above a power of two the doubles below are closer together. -/
def lowerGap (mantissa : Nat) (exponent : Int) : Nat :=
  if mantissa = exponentUnit ∧ leastExponent < exponent then 1 else 2

/-- Whether `n * 10 ^ e` rounds to the double `mantissa * 2 ^ exponent`. The ends of
the interval belong to it when the mantissa is even. -/
def readsBack (mantissa : Nat) (exponent : Int) (e : Int) (n : Nat) : Bool :=
  let quarters := Nat.pow 2 (exponent - 2).toNat * Nat.pow 10 (-e).toNat
  let unit := Nat.pow 2 (2 - exponent).toNat * Nat.pow 10 e.toNat
  let low := (4 * mantissa - lowerGap mantissa exponent) * quarters
  let high := (4 * mantissa + 2) * quarters
  if mantissa % 2 = 0 then decide (low ≤ n * unit ∧ n * unit ≤ high)
  else decide (low < n * unit ∧ n * unit < high)

/-- The multiple of `10 ^ e` that stands for a double on that grid: of its two
neighbours the one that reads back, of two such the nearer, and the upper one when
both are equally near. -/
def gridPoint? (mantissa : Nat) (exponent : Int) (e : Int) : Option Nat :=
  let num := 4 * mantissa * (Nat.pow 2 (exponent - 2).toNat * Nat.pow 10 (-e).toNat)
  let den := Nat.pow 2 (2 - exponent).toNat * Nat.pow 10 e.toNat
  let below := num / den
  let down := readsBack mantissa exponent e below
  let up := readsBack mantissa exponent e (below + 1)
  if up && (!down || decide (den ≤ 2 * (num % den))) then some (below + 1)
  else if down then some below
  else none

/-- The first grid with a hit, going down from `10 ^ e` over `grids` grids. -/
def firstHit (mantissa : Nat) (exponent : Int) : (grids : Nat) → (e : Int) → Digits
  | 0, e => ⟨0, e⟩
  | grids + 1, e =>
    match gridPoint? mantissa exponent e with
    | some n => ⟨n, e⟩
    | none => firstHit mantissa exponent grids (e - 1)

/-- A power of ten that is at least the number `mantissa * 2 ^ exponent` and at most a
hundred times as large. -/
def coarseExponent (mantissa : Nat) (exponent : Int) : Int :=
  (mantissa.log2 + exponent + 1) * 30103 / 100000 + 1

/-- The shortest decimal of a positive double. Seventeen digits always suffice, so the
grids that are searched include a hit. -/
def shortest (mantissa : Nat) (exponent : Int) : Digits :=
  firstHit mantissa exponent 21 (coarseExponent mantissa exponent)

end ReversePolish.Decimal
