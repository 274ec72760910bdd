import ReversePolish.Json.Token
import ReversePolish.Text.Split
import ReversePolish.Toml.Moment

/-!
# TOML tokens

A TOML text is made of words, strings, signs and line ends; blanks and comments lie
between them. How far a token goes depends on where it stands: `1.5` is two names with
a point between them in a key, and one word where a value is due.
-/

namespace ReversePolish.Toml

inductive Token where
  | word (letters : List Char)
  | string (multiline : Bool) (content : List Char)
  | openBracket
  | closeBracket
  | openDouble
  | closeDouble
  | openBrace
  | closeBrace
  | comma
  | dot
  | equals
  | lineEnd
  deriving DecidableEq, Repr

/-- Where a token stands. -/
inductive Place where
  /-- Among keys and headers, where a doubled bracket is one sign. -/
  | names
  /-- In an array or where a value is due. -/
  | values
  deriving DecidableEq, Repr

namespace Token

def isBlank (c : Char) : Bool :=
  c == ' ' || c == '\t'

/-- The characters of words: those of bare keys, and of numbers and moments in values. -/
def isWordChar : Place → Char → Bool
  | .names, c => c.isAlphanum || c == '_' || c == '-'
  | .values, c => c.isAlphanum || ['_', '-', '+', '.', ':'].contains c

/-- The characters that may stand as they are: all but controls, tabs excepted. -/
def isPlain (c : Char) : Bool :=
  c == '\t' || (0x20 ≤ c.toNat && c.toNat != 0x7F)

/-- The line end at the start of a text. -/
def lineEnd? : List Char → Option (List Char)
  | '\n' :: rest => some rest
  | '\r' :: '\n' :: rest => some rest
  | _ => none

/-- The character of a code. -/
def ofCode? (digits : List Char) : Option Char :=
  match Json.Token.hexNumber? digits with
  | none => none
  | some code => if code.isValidChar then some (Char.ofNat code) else none

/-- The character that an escape of one letter stands for. -/
def shortEscape? (c : Char) : Option Char :=
  if c = '/' then none else Json.Token.shortEscape? c

/-- Puts a character in front of a string that was read. -/
def prepend (c? : Option Char) (read? : Option (List Char × List Char)) :
    Option (List Char × List Char) :=
  match c?, read? with
  | some c, some (content, rest) => some (c :: content, rest)
  | _, _ => none

/-- Reads a string up to its closing double quote. -/
def basic? : List Char → Option (List Char × List Char)
  | [] => none
  | '"' :: rest => some ([], rest)
  | '\\' :: 'U' :: a :: b :: c :: d :: e :: f :: g :: h :: rest =>
    prepend (ofCode? [a, b, c, d, e, f, g, h]) (basic? rest)
  | '\\' :: 'u' :: a :: b :: c :: d :: rest => prepend (ofCode? [a, b, c, d]) (basic? rest)
  | '\\' :: c :: rest => prepend (shortEscape? c) (basic? rest)
  | c :: rest => if isPlain c && c != '\\' then prepend (some c) (basic? rest) else none

/-- Reads a string up to its closing single quote. -/
def verbatim? : List Char → Option (List Char × List Char)
  | [] => none
  | '\'' :: rest => some ([], rest)
  | c :: rest => if isPlain c then prepend (some c) (verbatim? rest) else none

/-- The end of a multiline string behind three quotes: up to two more belong to it. -/
def quotesAtEnd (quote : Char) (rest : List Char) : List Char × List Char :=
  match rest with
  | a :: b :: rest' =>
    if a = quote ∧ b = quote then ([quote, quote], rest')
    else if a = quote then ([quote], b :: rest')
    else ([], rest)
  | [a] => if a = quote then ([quote], []) else ([], rest)
  | [] => ([], [])

/-- Whether a line ends behind blanks. -/
def endsLine (cs : List Char) : Bool :=
  (lineEnd? (cs.dropWhile isBlank)).isSome

/-- Reads a multiline string up to three double quotes. A backslash at the end of a line
joins the line to what follows the next blanks and line ends. -/
def multilineBasic? : (joining : Bool) → List Char → Option (List Char × List Char)
  | _, [] => none
  | _, '"' :: '"' :: '"' :: rest => some (quotesAtEnd '"' rest)
  | _, '\\' :: 'U' :: a :: b :: c :: d :: e :: f :: g :: h :: rest =>
    prepend (ofCode? [a, b, c, d, e, f, g, h]) (multilineBasic? false rest)
  | _, '\\' :: 'u' :: a :: b :: c :: d :: rest =>
    prepend (ofCode? [a, b, c, d]) (multilineBasic? false rest)
  | _, '\\' :: c :: rest =>
    if endsLine (c :: rest) then multilineBasic? true (c :: rest)
    else prepend (shortEscape? c) (multilineBasic? false rest)
  | joining, '\r' :: '\n' :: rest =>
    if joining then multilineBasic? true rest
    else prepend (some '\n') (multilineBasic? false rest)
  | joining, c :: rest =>
    if joining && (isBlank c || c == '\n') then multilineBasic? true rest
    else if (isPlain c && c != '\\') || c == '\n' then
      prepend (some c) (multilineBasic? false rest)
    else none

/-- Reads a multiline string up to three single quotes. -/
def multilineVerbatim? : List Char → Option (List Char × List Char)
  | [] => none
  | '\'' :: '\'' :: '\'' :: rest => some (quotesAtEnd '\'' rest)
  | '\r' :: '\n' :: rest => prepend (some '\n') (multilineVerbatim? rest)
  | c :: rest =>
    if isPlain c || c == '\n' then prepend (some c) (multilineVerbatim? rest) else none

/-- A text without a line end at its start. -/
def afterLineEnd (cs : List Char) : List Char :=
  (lineEnd? cs).getD cs

/-- Reads a string whose opening quote is read. -/
def string? (quote : Char) (rest : List Char) : Option (Token × List Char) :=
  match Text.dropStart? [quote, quote] rest with
  | some body =>
    let read? :=
      if quote = '"' then multilineBasic? false (afterLineEnd body)
      else multilineVerbatim? (afterLineEnd body)
    read?.map fun (content, rest) => (.string true content, rest)
  | none =>
    (if quote = '"' then basic? rest else verbatim? rest).map fun (content, rest) =>
      (.string false content, rest)

/-- The token of a single sign. -/
def ofSign? (c : Char) : Option Token :=
  if c = '[' then some .openBracket
  else if c = ']' then some .closeBracket
  else if c = '{' then some .openBrace
  else if c = '}' then some .closeBrace
  else if c = ',' then some .comma
  else if c = '.' then some .dot
  else if c = '=' then some .equals
  else none

/-- The token of two like brackets. -/
def ofBrackets? (c : Char) : Option Token :=
  if c = '[' then some .openDouble
  else if c = ']' then some .closeDouble
  else none

/-- Reads a sign, which among names may be a doubled bracket. -/
def sign? (place : Place) (c : Char) (rest : List Char) : Option (Token × List Char) :=
  let single := (ofSign? c).map fun token => (token, rest)
  match place, rest with
  | .names, next :: rest' =>
    if next = c then ((ofBrackets? c).map fun token => (token, rest')).or single else single
  | _, _ => single

/-- A date takes the time behind one blank into its word. -/
def withTime (word rest : List Char) : List Char × List Char :=
  match rest with
  | ' ' :: digit :: rest' =>
    if digit.isDigit && (CalendarDate.read? word).isSome then
      (word ++ ' ' :: digit :: rest'.takeWhile (isWordChar .values),
        rest'.dropWhile (isWordChar .values))
    else (word, rest)
  | _ => (word, rest)

/-- Reads the token that starts with a character. -/
def read? (place : Place) (c : Char) (rest : List Char) : Option (Token × List Char) :=
  if c = '"' ∨ c = '\'' then string? c rest
  else if isWordChar place c then
    let word := c :: rest.takeWhile (isWordChar place)
    let rest := rest.dropWhile (isWordChar place)
    match place with
    | .names => some (.word word, rest)
    | .values => some (.word (withTime word rest).1, (withTime word rest).2)
  else
    match lineEnd? (c :: rest) with
    | some rest => some (.lineEnd, rest)
    | none => sign? place c rest

/-- What follows blanks and a comment. -/
def skip (cs : List Char) : List Char :=
  match cs.dropWhile isBlank with
  | '#' :: comment => comment.dropWhile isPlain
  | rest => rest

/-! ## What is left is shorter -/

theorem exists_of_prepend {c? : Option Char} {read? : Option (List Char × List Char)}
    {content rest : List Char} (h : prepend c? read? = some (content, rest)) :
    ∃ tail, read? = some (tail, rest) := by
  unfold prepend at h
  split at h <;> simp_all

theorem basic?_shorter {cs content rest : List Char} (h : basic? cs = some (content, rest)) :
    rest.length < cs.length := by
  fun_induction basic? cs generalizing content
  case case1 => simp at h
  all_goals simp only [List.length_cons]
  all_goals grind [→ exists_of_prepend]

theorem verbatim?_shorter {cs content rest : List Char}
    (h : verbatim? cs = some (content, rest)) : rest.length < cs.length := by
  fun_induction verbatim? cs generalizing content
  case case1 => simp at h
  all_goals simp only [List.length_cons]
  all_goals grind [→ exists_of_prepend]

theorem quotesAtEnd_length_le (quote : Char) (rest : List Char) :
    (quotesAtEnd quote rest).2.length ≤ rest.length := by
  unfold quotesAtEnd
  grind

theorem multilineBasic?_shorter {joining : Bool} {cs content rest : List Char}
    (h : multilineBasic? joining cs = some (content, rest)) : rest.length < cs.length := by
  fun_induction multilineBasic? joining cs generalizing content
  case case1 => simp at h
  all_goals simp only [List.length_cons]
  all_goals grind [→ exists_of_prepend, quotesAtEnd_length_le]

theorem multilineVerbatim?_shorter {cs content rest : List Char}
    (h : multilineVerbatim? cs = some (content, rest)) : rest.length < cs.length := by
  fun_induction multilineVerbatim? cs generalizing content
  case case1 => simp at h
  all_goals simp only [List.length_cons]
  all_goals grind [→ exists_of_prepend, quotesAtEnd_length_le]

theorem string?_shorter {quote : Char} {cs rest : List Char} {token : Token}
    (h : string? quote cs = some (token, rest)) : rest.length < cs.length + 1 := by
  have hStart (body : List Char) (h : Text.dropStart? [quote, quote] cs = some body) :
      body.length ≤ cs.length := by
    simp only [Text.dropStart?_eq_some_iff.1 h, List.length_append]
    omega
  have hLine (body : List Char) : (afterLineEnd body).length ≤ body.length := by
    unfold afterLineEnd lineEnd?
    grind
  unfold string? at h
  grind [→ basic?_shorter, → verbatim?_shorter, → multilineBasic?_shorter,
    → multilineVerbatim?_shorter, Option.map_eq_some_iff]

theorem withTime_length_le (word rest : List Char) :
    (withTime word rest).2.length ≤ rest.length := by
  have hWord (cs : List Char) : (cs.dropWhile (isWordChar .values)).length ≤ cs.length :=
    (List.dropWhile_sublist _).length_le
  unfold withTime
  grind

theorem sign?_length_le {place : Place} {c : Char} {cs rest : List Char} {token : Token}
    (h : sign? place c cs = some (token, rest)) : rest.length ≤ cs.length := by
  unfold sign? at h
  grind [Option.map_eq_some_iff, Option.or_eq_some_iff]

theorem read?_shorter {place : Place} {c : Char} {cs rest : List Char} {token : Token}
    (h : read? place c cs = some (token, rest)) : rest.length < (c :: cs).length := by
  have hWord : (cs.dropWhile (isWordChar place)).length ≤ cs.length :=
    (List.dropWhile_sublist _).length_le
  have hLine (rest : List Char) (h : lineEnd? (c :: cs) = some rest) :
      rest.length ≤ cs.length := by
    unfold lineEnd? at h
    grind
  simp only [List.length_cons]
  unfold read? at h
  grind [→ string?_shorter, → sign?_length_le, withTime_length_le]

theorem skip_length_le (cs : List Char) : (skip cs).length ≤ cs.length := by
  have hBlank : (cs.dropWhile isBlank).length ≤ cs.length :=
    (List.dropWhile_sublist isBlank).length_le
  unfold skip
  split
  · next comment hRest =>
    have hComment : (comment.dropWhile isPlain).length ≤ comment.length :=
      (List.dropWhile_sublist isPlain).length_le
    rw [hRest, List.length_cons] at hBlank
    omega
  · exact hBlank

end Token

end ReversePolish.Toml
