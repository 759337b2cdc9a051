import PlatformGame.Number.Basic
import PlatformGame.Text.Blank
import PlatformGame.Text.Digit
import PlatformGame.Text.Quoted

/-! # Number literals

A literal with a point is a fractional number and may have an exponent, any other literal is an
integer. Around it there may be white space, in front of it a sign, and between two digits an
underscore; digits and white space of all scripts are taken for those of ASCII. The number tokens of
the language are a few of these literals only. -/

namespace PlatformGame

open Text

/-- Why a text is no number literal. -/
inductive LiteralError
  | notInteger (text : String)
  | notFractional (text : String)
  /-- An integer with more digits than are read. -/
  | tooLong (digits : Nat)
  deriving DecidableEq

/-- A long text that is no integer is shown up to this number of characters. -/
def shownLiteralLimit : Nat := 200

def LiteralError.message : LiteralError → String
  | notInteger text => "invalid literal for int() with base 10: " ++
      String.ofList ((quoted text).toList.take shownLiteralLimit)
  | notFractional text => "could not convert string to float: " ++ quoted text
  | tooLong digits => "Exceeds the limit (4300 digits) for integer string conversion: value has " ++
      Nat.repr digits ++ " digits; use sys.set_int_max_str_digits() to increase the limit"

namespace Number

def natOfDigits (cs : List Char) : Nat := cs.foldl (fun n c => n * 10 + (c.toNat - 48)) 0

/-- The character of ASCII that a character of a literal stands for; one that can be in no literal
stands for a question mark, which cannot either. -/
def plainChar (c : Char) : Char :=
  if c.toNat < 127 then c
  else if isBlank c then ' '
  else match digitValue? c with
    | some d => Char.ofNat (48 + d)
    | none => '?'

def isLiteralSpace (c : Char) : Bool := (9 ≤ c.toNat && c.toNat ≤ 13) || c == ' '

/-- Splits off a sign; the first part says whether it is a minus sign. -/
def splitSign : List Char → Bool × List Char
  | '-' :: cs => (true, cs)
  | '+' :: cs => (false, cs)
  | cs => (false, cs)

/-- Whether every underscore stands between two digits, `before` being the character in front. -/
def groupsDigits (before : Char) : List Char → Bool
  | [] => before != '_'
  | '_' :: cs => before.isDigit && groupsDigits '_' cs
  | c :: cs => (before != '_' || c.isDigit) && groupsDigits c cs

def dropUnderscores (cs : List Char) : List Char := cs.filter (· != '_')

/-- Reads an integer. Too many digits are noticed before anything that follows them. -/
def integerOf (text : String) : Except LiteralError Int :=
  let (negative, cs) := splitSign ((text.toList.map plainChar).dropWhile isLiteralSpace)
  let run := cs.takeWhile fun c => c.isDigit || c == '_'
  let rest := cs.dropWhile fun c => c.isDigit || c == '_'
  let digits := dropUnderscores run
  if !groupsDigits ' ' run then .error (.notInteger text)
  else if digitLimit < digits.length then .error (.tooLong digits.length)
  else if digits.isEmpty || !rest.all isLiteralSpace then .error (.notInteger text)
  else
    let n : Int := natOfDigits digits
    .ok (if negative then -n else n)

/-- The exponent at the end of a literal. -/
def exponentOf? : List Char → Option Int
  | [] => some 0
  | c :: cs =>
    if c = 'e' || c = 'E' then
      let (negative, digits) := splitSign cs
      if digits.isEmpty || !digits.all Char.isDigit then none
      else
        let n : Int := natOfDigits digits
        some (if negative then -n else n)
    else none

/-- A decimal magnitude beyond all finite fractional numbers; its inverse is below all but zero. -/
def exponentBound : Int := 400

/-- The fractional number nearest to `digits` with the point moved by `exponent`. -/
def scaled (negative : Bool) (digits : List Char) (exponent : Int) : Binary64 :=
  let significant := digits.dropWhile (· == '0')
  let magnitude := exponent + significant.length
  if significant.isEmpty || magnitude < -exponentBound then .ofDecimal negative 0 0
  else if exponentBound < magnitude then .infinite negative
  else .ofDecimal negative (natOfDigits significant) exponent

/-- Reads a fractional number; at least one digit stands next to the point. -/
def fractionalOf (text : String) : Except LiteralError Binary64 :=
  let cs := (text.toList.map plainChar).dropWhile isLiteralSpace
  let cs := (cs.reverse.dropWhile isLiteralSpace).reverse
  let (negative, body) := splitSign (dropUnderscores cs)
  let whole := body.takeWhile Char.isDigit
  let value? := match body.dropWhile Char.isDigit with
    | '.' :: tail =>
      let fraction := tail.takeWhile Char.isDigit
      if whole.isEmpty && fraction.isEmpty then none
      else (exponentOf? (tail.dropWhile Char.isDigit)).map fun e =>
        scaled negative (whole ++ fraction) (e - fraction.length)
    | _ => none
  match value? with
  | some x => if groupsDigits ' ' cs then .ok x else .error (.notFractional text)
  | none => .error (.notFractional text)

def ofLiteral (text : String) : Except LiteralError Number :=
  if text.toList.contains '.' then (fractionalOf text).map float else (integerOf text).map int

end Number

end PlatformGame
