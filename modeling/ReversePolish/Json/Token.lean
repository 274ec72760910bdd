import ReversePolish.Json.Basic

/-!
# JSON tokens

The brackets, signs, words, numbers and strings that a JSON text is made of. A
text that is cut into tokens without a fault holds no stray character, no bad
escape and no malformed number.
-/

namespace ReversePolish.Json

inductive Token where
  | openBracket
  | closeBracket
  | openBrace
  | closeBrace
  | comma
  | colon
  | null
  | bool (b : Bool)
  | number (literal : String)
  | string (content : Option String)
  deriving DecidableEq, Repr

namespace Token

/-- The characters that may stand between tokens. -/
def isBlank (c : Char) : Bool :=
  c == ' ' || c == '\t' || c == '\n' || c == '\r'

/-! ## Strings -/

/-- What a character or an escape of a string stands for: a character, or half of a
surrogate pair. -/
inductive Letter where
  | char (c : Char)
  | half (code : Nat)
  deriving DecidableEq, Repr

def hexValue? (c : Char) : Option Nat :=
  if c.isDigit then some (c.toNat - '0'.toNat)
  else if 'a' ≤ c ∧ c ≤ 'f' then some (c.toNat - 'a'.toNat + 10)
  else if 'A' ≤ c ∧ c ≤ 'F' then some (c.toNat - 'A'.toNat + 10)
  else none

/-- The number of a row of hexadecimal digits. -/
def hexNumber? (cs : List Char) : Option Nat :=
  cs.foldlM (fun value c => (hexValue? c).map (16 * value + ·)) 0

/-- The letter with a given 16-bit code. -/
def Letter.ofCode (code : Nat) : Letter :=
  if 0xD800 ≤ code ∧ code < 0xE000 then .half code else .char (Char.ofNat code)

/-- The character that an escape of one letter stands for. -/
def shortEscape? (c : Char) : Option Char :=
  if c = '"' ∨ c = '\\' ∨ c = '/' then some c
  else if c = 'b' then some '\x08'
  else if c = 'f' then some '\x0c'
  else if c = 'n' then some '\n'
  else if c = 'r' then some '\r'
  else if c = 't' then some '\t'
  else none

/-- Reads the letters of a string up to its closing quote. -/
def letters? : List Char → Option (List Letter × List Char)
  | [] => none
  | '"' :: rest => some ([], rest)
  | '\\' :: 'u' :: a :: b :: c :: d :: rest =>
    match hexNumber? [a, b, c, d], letters? rest with
    | some code, some (letters, rest) => some (Letter.ofCode code :: letters, rest)
    | _, _ => none
  | '\\' :: c :: rest =>
    match shortEscape? c, letters? rest with
    | some c, some (letters, rest) => some (.char c :: letters, rest)
    | _, _ => none
  | c :: rest =>
    if c.toNat < 0x20 then none
    else
      match letters? rest with
      | some (letters, rest) => some (.char c :: letters, rest)
      | none => none

/-- The text of a row of letters, if every half of a surrogate pair meets its other half. -/
def spell? : List Letter → Option (List Char)
  | [] => some []
  | .char c :: letters => (spell? letters).map (c :: ·)
  | .half high :: .half low :: letters =>
    if high < 0xDC00 ∧ 0xDC00 ≤ low then
      (spell? letters).map (Char.ofNat (0x10000 + (high - 0xD800) * 0x400 + (low - 0xDC00)) :: ·)
    else none
  | .half _ :: _ => none

/-! ## Numbers and words -/

def isNumberChar (c : Char) : Bool :=
  c.isDigit || c == '+' || c == '-' || c == '.' || c == 'e' || c == 'E'

/-- Whether a text is a row of digits, at least one. -/
def isDigits (cs : List Char) : Bool :=
  !cs.isEmpty && cs.all Char.isDigit

/-- The power of ten at the end of a number, which may be missing. -/
def isExponent : List Char → Bool
  | [] => true
  | c :: rest =>
    (c == 'e' || c == 'E') &&
      match rest with
      | '+' :: digits | '-' :: digits => isDigits digits
      | digits => isDigits digits

/-- What follows the whole part of a number: a fraction and a power of ten, both of
which may be missing. -/
def isFraction : List Char → Bool
  | '.' :: rest =>
    isDigits (rest.takeWhile Char.isDigit) && isExponent (rest.dropWhile Char.isDigit)
  | rest => isExponent rest

/-- Whether a text is a number without a sign. A whole part of several digits does not start
with zero. -/
def isUnsigned : List Char → Bool
  | '0' :: rest => isFraction rest
  | cs => isDigits (cs.takeWhile Char.isDigit) && isFraction (cs.dropWhile Char.isDigit)

/-- Whether a text is a number. -/
def isNumber : List Char → Bool
  | '-' :: cs => isUnsigned cs
  | cs => isUnsigned cs

/-- The token of a word. -/
def ofWord? (word : List Char) : Option Token :=
  if word = "null".toList then some .null
  else if word = "true".toList then some (.bool true)
  else if word = "false".toList then some (.bool false)
  else none

/-- The token of a single sign. -/
def ofSign? (c : Char) : Option Token :=
  if c = '[' then some .openBracket
  else if c = ']' then some .closeBracket
  else if c = '{' then some .openBrace
  else if c = '}' then some .closeBrace
  else if c = ',' then some .comma
  else if c = ':' then some .colon
  else none

/-! ## Token by token -/

/-- Reads the token that starts with a character. -/
def read? (c : Char) (rest : List Char) : Option (Token × List Char) :=
  if c = '"' then
    match letters? rest with
    | some (letters, rest) => some (.string ((spell? letters).map String.ofList), rest)
    | none => none
  else if isNumberChar c then
    let literal := c :: rest.takeWhile isNumberChar
    if isNumber literal then
      some (.number (String.ofList literal), rest.dropWhile isNumberChar)
    else none
  else if c.isAlpha then
    (ofWord? (c :: rest.takeWhile Char.isAlpha)).map fun token =>
      (token, rest.dropWhile Char.isAlpha)
  else (ofSign? c).map fun token => (token, rest)

theorem letters?_shorter {cs rest : List Char} {letters : List Letter}
    (h : letters? cs = some (letters, rest)) : rest.length < cs.length := by
  fun_induction letters? cs generalizing letters
  case case1 => simp at h
  all_goals simp only [List.length_cons]
  all_goals grind

theorem read?_shorter {c : Char} {rest rest' : List Char} {t : Token}
    (h : read? c rest = some (t, rest')) : rest'.length < (c :: rest).length := by
  have hDrop (keep : Char → Bool) : (rest.dropWhile keep).length ≤ rest.length :=
    (List.dropWhile_sublist keep).length_le
  have hNumber := hDrop isNumberChar
  have hWord := hDrop Char.isAlpha
  have hString (letters : List Letter) (rest' : List Char) :
      letters? rest = some (letters, rest') → rest'.length < rest.length := letters?_shorter
  unfold read? at h
  simp only [List.length_cons]
  grind [Option.map_eq_some_iff]

/-- The tokens of a text. -/
def readAll? (cs : List Char) : Option (List Token) :=
  match hRest : cs.dropWhile isBlank with
  | [] => some []
  | c :: rest =>
    match hToken : read? c rest with
    | none => none
    | some (token, rest') =>
      have : rest'.length < cs.length := by
        have hLess := read?_shorter hToken
        have hLe : (cs.dropWhile isBlank).length ≤ cs.length :=
          (List.dropWhile_sublist isBlank).length_le
        rw [hRest] at hLe
        omega
      (readAll? rest').map (token :: ·)
termination_by cs.length

end Token

end ReversePolish.Json
