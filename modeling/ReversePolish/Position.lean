import ReversePolish.Text.Units

/-!
# Positions

Where a character stands in a text: its index, its line and its column. Reading a
character moves a position on, so a position is a function of the text before it
(`Position.after`).
-/

namespace ReversePolish

/-- A place in a text. Lines and columns have no bound here; they are what 32-bit counters
hold as long as the text has less than 2^32 lines and less than 2^32 UTF-16 units on each. -/
structure Position where
  /-- The number of characters before. -/
  index : Nat
  /-- The line, counted from 1. -/
  line : Nat
  /-- The UTF-16 units before on the same line. -/
  column : Nat
  deriving DecidableEq, Repr

namespace Position

/-- The place before the first character. -/
def start : Position := ⟨0, 1, 0⟩

/-- The place behind a character. -/
def advance (p : Position) (c : Char) : Position :=
  if c = '\n' then ⟨p.index + 1, p.line + 1, 0⟩
  else ⟨p.index + 1, p.line, p.column + Text.unitCount c⟩

/-- The place behind several characters. -/
def advanceOver (p : Position) (cs : List Char) : Position :=
  cs.foldl advance p

/-- The place behind a text that starts at the beginning. -/
def after (cs : List Char) : Position :=
  start.advanceOver cs

/-- A position as messages show it. -/
def text (p : Position) : String :=
  s!"{p.line}:{p.column}"

@[simp] theorem advance_index (p : Position) (c : Char) : (p.advance c).index = p.index + 1 := by
  unfold advance
  split <;> rfl

@[simp] theorem advanceOver_nil (p : Position) : p.advanceOver [] = p := rfl

@[simp] theorem advanceOver_cons (p : Position) (c : Char) (cs : List Char) :
    p.advanceOver (c :: cs) = (p.advance c).advanceOver cs := rfl

theorem advanceOver_append (p : Position) (cs ds : List Char) :
    p.advanceOver (cs ++ ds) = (p.advanceOver cs).advanceOver ds :=
  List.foldl_append

end Position

end ReversePolish
