/-!
# Cutting texts

Cutting a list of characters at a separator, at the first place where a
character stands, and off a given beginning or end. Each function says where a
text is cut and keeps every character that is not a separator.
-/

namespace ReversePolish.Text

/-- Puts a character in front of the first part. -/
def consHead (c : Char) : List (List Char) → List (List Char)
  | [] => [[c]]
  | part :: parts => (c :: part) :: parts

/-- The parts of a text between the separators, empty parts included. A text
without a separator is one part. -/
def split (sep : Char) (cs : List Char) : List (List Char) :=
  cs.foldr (fun c parts => if c = sep then [] :: parts else consHead c parts) [[]]

/-- The parts joined with a separator between them. -/
def join (sep : List Char) : List (List Char) → List Char
  | [] => []
  | [part] => part
  | part :: parts => part ++ sep ++ join sep parts

/-- What stands before and after the first occurrence of a character. -/
def splitFirst? (sep : Char) (cs : List Char) : Option (List Char × List Char) :=
  match cs.dropWhile (· != sep) with
  | [] => none
  | _ :: after => some (cs.takeWhile (· != sep), after)

/-- What follows a given beginning. -/
def dropStart? : (start cs : List Char) → Option (List Char)
  | [], cs => some cs
  | _ :: _, [] => none
  | s :: start, c :: cs => if s = c then dropStart? start cs else none

/-- What stands before a given end. -/
def dropEnd? (tail cs : List Char) : Option (List Char) :=
  (dropStart? tail.reverse cs.reverse).map List.reverse

/-- Whether a text occurs somewhere inside another. -/
def occursIn (part : List Char) : List Char → Bool
  | [] => part.isEmpty
  | c :: cs => (dropStart? part (c :: cs)).isSome || occursIn part cs

/-- The lines of a text. A line ends at a newline, and a carriage return right
before that newline belongs to the line end. What follows the last newline is a
line only if it is not empty. -/
def lines (cs : List Char) : List (List Char) :=
  let parts := split '\n' cs
  let ended := parts.dropLast.map fun line => (dropEnd? ['\r'] line).getD line
  match parts.getLast? with
  | some (c :: rest) => ended ++ [c :: rest]
  | _ => ended

@[simp] theorem split_nil (sep : Char) : split sep [] = [[]] := rfl

@[simp] theorem split_cons (sep c : Char) (cs : List Char) :
    split sep (c :: cs) = if c = sep then [] :: split sep cs else consHead c (split sep cs) := rfl

theorem dropStart?_eq_some_iff {start cs rest : List Char} :
    dropStart? start cs = some rest ↔ cs = start ++ rest := by
  fun_induction dropStart? start cs <;> grind

end ReversePolish.Text
