import ReversePolish.Decimal.Layout

/-!
# How numbers look

The three ways in which numbers are written: in messages, in lists of a journal, and
where a program displays them.
-/

namespace ReversePolish.Number

/-- Messages never write a power of ten and show the sign of zero. -/
def inMessage : Decimal.Style where
  positional _ := true
  point := false
  plus := false
  zeroSign := true
  infinity := "inf"

/-- Lists write a power of ten from 10^16 on and below 10^-4, and a point otherwise. -/
def inList : Decimal.Style where
  positional power := -4 ≤ power && power < 16
  point := true
  plus := false
  zeroSign := true
  infinity := "inf"

/-- Programs display a power of ten from 10^21 on and below 10^-6, and zero without sign. -/
def displayed : Decimal.Style where
  positional power := -6 ≤ power && power < 21
  point := false
  plus := true
  zeroSign := false
  infinity := "Infinity"

/-- A list of numbers in a journal. -/
def listText (values : List Float) : String :=
  let all := ", ".intercalate (values.map inList.text)
  s!"[{all}]"

end ReversePolish.Number
