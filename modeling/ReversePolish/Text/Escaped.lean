import ReversePolish.Text.Extender
import ReversePolish.Text.Printable

/-!
# Escaped texts

Messages show a term with its control characters, quotes and unprintable
characters escaped, so that a newline term stays on one line of the message.
Two forms occur: the bare form of messages, and the quoted form of the journal.
They differ in which quotes and which extenders are escaped, and that choice is
one record.
-/

namespace ReversePolish.Text

/-- Which characters are escaped beyond those that are always escaped. -/
structure EscapeRule where
  /-- Whether an apostrophe is escaped. -/
  apostrophe : Bool
  /-- Whether an extender is escaped that is not the first character. -/
  innerExtender : Bool

/-- In messages both quotes are escaped, and an extender only where it stands first. -/
def EscapeRule.bare : EscapeRule := ⟨true, false⟩

/-- Between double quotes an apostrophe stays, and every extender is escaped. -/
def EscapeRule.quoted : EscapeRule := ⟨false, true⟩

/-- A character written by its code, in hexadecimal without leading zeros. -/
def codeEscape (c : Char) : List Char :=
  ['\\', 'u', '{'] ++ Nat.toDigits 16 c.toNat ++ ['}']

/-- One character, escaped if need be. -/
def escapeChar (rule : EscapeRule) (isFirst : Bool) (c : Char) : List Char :=
  if c = '\x00' then ['\\', '0']
  else if c = '\t' then ['\\', 't']
  else if c = '\r' then ['\\', 'r']
  else if c = '\n' then ['\\', 'n']
  else if c = '"' then ['\\', '"']
  else if c = '\\' then ['\\', '\\']
  else if c = '\'' then (if rule.apostrophe then ['\\', '\''] else [c])
  else if (isFirst || rule.innerExtender) && isExtender c then codeEscape c
  else if isPrintable c then [c]
  else codeEscape c

/-- A text with its characters escaped by a rule. -/
def escapeWith (rule : EscapeRule) (cs : List Char) : List Char :=
  match cs with
  | [] => []
  | c :: rest => escapeChar rule true c ++ rest.flatMap (escapeChar rule false)

/-- A term as messages show it. -/
def escaped (text : String) : String :=
  String.ofList (escapeWith .bare text.toList)

/-- A text between double quotes, as the journal shows it. -/
def quoted (text : String) : String :=
  String.ofList (['"'] ++ escapeWith .quoted text.toList ++ ['"'])

end ReversePolish.Text
