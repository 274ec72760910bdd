/-!
# UTF-16 measure

Columns count UTF-16 code units: a character outside the basic plane takes two,
every other character one.
-/

namespace ReversePolish.Text

/-- The number of UTF-16 units of a character. -/
def unitCount (c : Char) : Nat :=
  if c.toNat < 0x10000 then 1 else 2

/-- The number of UTF-16 units of a text. -/
def unitLength (cs : List Char) : Nat :=
  cs.foldr (fun c n => unitCount c + n) 0

theorem unitCount_pos (c : Char) : 0 < unitCount c := by
  unfold unitCount
  split <;> decide

end ReversePolish.Text
