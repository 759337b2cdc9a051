import PlatformGame.Grammar.Terminal

/-! # Lexical classes

Each class is given by a function that splits a text after its longest piece of that class, or says
that the text does not start with one. The two parts of a split always make up the text
(`Split.text`). Letters and digits are those of ASCII. -/

namespace PlatformGame.Source

open Grammar

structure Split where
  piece : List Char
  rest : List Char

namespace Split

def text (s : Split) : List Char := s.piece ++ s.rest

def push (c : Char) (s : Split) : Split := { s with piece := c :: s.piece }

/-- Splits after the characters that satisfy `f`. -/
def span (f : Char → Bool) (cs : List Char) : Split := ⟨cs.takeWhile f, cs.dropWhile f⟩

end Split

def isNameStart (c : Char) : Bool := c.isAlpha || c == '_'

def isNameChar (c : Char) : Bool := c.isAlphanum || c == '_'

def isHex (c : Char) : Bool :=
  c.isDigit || ('a' ≤ c && c ≤ 'f') || ('A' ≤ c && c ≤ 'F')

def isSpace (c : Char) : Bool :=
  c == ' ' || c == '\t' || c == '\x0c' || c == '\r' || c == '\n'

/-- A name: a letter or underscore, then letters, digits and underscores. The whole run of such
characters may not be a reserved word. -/
def name? : List Char → Option Split
  | [] => none
  | c :: cs =>
    if isNameStart c then
      let s := Split.span isNameChar (c :: cs)
      if reservedWords.contains (String.ofList s.piece) then none else some s
    else none

/-- The rest of a string literal after its opening quote. A backslash takes the next character
with it, which may not be a newline. -/
def stringTail : List Char → Option Split
  | [] => none
  | '"' :: cs => some ⟨['"'], cs⟩
  | ['\\'] => none
  | '\\' :: c :: cs =>
    if c = '\n' then none else (stringTail cs).map fun s => (s.push c).push '\\'
  | c :: cs => if c = '\n' then none else (stringTail cs).map (·.push c)

def string? : List Char → Option Split
  | '"' :: cs => (stringTail cs).map (·.push '"')
  | _ => none

def digits? (cs : List Char) : Option Split :=
  let s := Split.span Char.isDigit cs
  if s.piece.isEmpty then none else some s

/-- Digits, and a point with further digits if there are any. -/
def decimal? (cs : List Char) : Option Split :=
  match digits? cs with
  | none => none
  | some ⟨whole, '.' :: cs⟩ =>
    match digits? cs with
    | some s => some ⟨whole ++ '.' :: s.piece, s.rest⟩
    | none => some ⟨whole, '.' :: cs⟩
  | some s => some s

def number? : List Char → Option Split
  | '-' :: cs => (decimal? cs).map (·.push '-')
  | cs => decimal? cs

/-- A hash sign and six hexadecimal digits, not followed by a letter, digit or underscore. -/
def color? : List Char → Option Split
  | '#' :: cs =>
    let digits := cs.take 6
    let rest := cs.drop 6
    if digits.length = 6 && digits.all isHex && !(rest.head?.any isNameChar) then
      some ⟨'#' :: digits, rest⟩
    else none
  | _ => none

def keyword? (k : Keyword) (cs : List Char) : Option Split :=
  let word := k.text.toList
  if word.isPrefixOf cs then some ⟨word, cs.drop word.length⟩ else none

/-- The rest of a block comment after its opening mark; it ends at the first closing mark. -/
def commentTail : List Char → Option Split
  | [] => none
  | '*' :: '/' :: cs => some ⟨['*', '/'], cs⟩
  | c :: cs => (commentTail cs).map (·.push c)

/-- One piece of layout: a run of white space, a comment to the end of the line or a block
comment. -/
def layout? : List Char → Option Split
  | '/' :: '/' :: cs => some (((Split.span (· != '\n') cs).push '/').push '/')
  | '/' :: '*' :: cs => (commentTail cs).map fun s => (s.push '*').push '/'
  | cs =>
    let s := Split.span isSpace cs
    if s.piece.isEmpty then none else some s

/-- Keywords that have the form of a name. -/
def isWord (k : Keyword) : Bool :=
  match name? k.text.toList with
  | some s => s.rest.isEmpty
  | none => false

end PlatformGame.Source
