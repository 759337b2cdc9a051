import PlatformGame.Number.Shortest

/-! # Numbers of a game

A number written without a point is an integer of any size, one with a point a `Binary64`; the two
are kept apart everywhere, also where they are equal. Two operations can fail, both because of
size: taking an integer as a fractional number, and writing an integer of more than 4300 digits. -/

namespace PlatformGame

inductive Number
  | int (n : Int)
  | float (x : Binary64)
  deriving DecidableEq

/-- Why a computation with numbers failed. -/
inductive NumberError
  /-- Half of an integer is beyond the largest fractional number. -/
  | quotientTooLarge
  /-- An integer is beyond the largest fractional number. -/
  | integerTooLarge
  /-- An integer has more digits than are written. -/
  | tooManyDigits
  /-- There is no number where one is taken for granted. -/
  | absent
  deriving DecidableEq

/-- Integers are read and written up to this number of digits. -/
def digitLimit : Nat := 4300

def NumberError.message : NumberError → String
  | quotientTooLarge => "integer division result too large for a float"
  | integerTooLarge => "int too large to convert to float"
  | tooManyDigits => "Exceeds the limit (4300 digits) for integer string conversion; " ++
      "use sys.set_int_max_str_digits() to increase the limit"
  | absent => "'NoneType' object has no attribute 'frame_width'"

/-- The digits of an integer, with a minus sign in front of a negative one. -/
def integerText (n : Int) : Except NumberError String :=
  let digits := Nat.repr n.natAbs
  if digitLimit < digits.length then .error .tooManyDigits
  else .ok (if n < 0 then "-" ++ digits else digits)

namespace Decimal

def zeros (n : Nat) : String := String.ofList (List.replicate n '0')

/-- Fractional numbers are written with a point up to sixteen digits before it and down to four
zeros after it, and always with a digit on both sides; otherwise with an exponent of at least two
digits and a sign. -/
def text (d : Decimal) : String :=
  let digits := (Nat.repr d.digits).toList
  let count : Int := digits.length
  if -4 < d.point ∧ d.point ≤ 16 then
    if d.point ≤ 0 then "0." ++ zeros (-d.point).toNat ++ String.ofList digits
    else if count ≤ d.point then
      String.ofList digits ++ zeros (d.point - count).toNat ++ ".0"
    else
      String.ofList (digits.take d.point.toNat) ++ "." ++ String.ofList (digits.drop d.point.toNat)
  else
    let exponent := d.point - 1
    let size := Nat.repr exponent.natAbs
    let front := match digits with
      | [c] => String.ofList [c]
      | c :: rest => String.ofList (c :: '.' :: rest)
      | [] => ""
    front ++ (if exponent < 0 then "e-" else "e+") ++ zeros (2 - size.length) ++ size

end Decimal

/-- The text of a value, with the given words for what is not finite. -/
def Binary64.textWith (infinity nanWord : String) : Binary64 → String
  | finite s m e =>
    (if s then "-" else "") ++ if m = 0 then "0.0" else (shortest m e).text
  | infinite s => (if s then "-" else "") ++ infinity
  | nan => nanWord

def Binary64.text (x : Binary64) : String := x.textWith "inf" "nan"

namespace Number

/-- The text of a number; a fractional number is recognisable as one. -/
def text : Number → Except NumberError String
  | int n => integerText n
  | float x => .ok x.text

/-- The number as a literal of a program: a fractional number that is an integer is written as
one. -/
def literal : Number → Except NumberError String
  | int n => integerText n
  | float x =>
    match x.toInt? with
    | some n => integerText n
    | none => .ok x.text

def toBinary64 : Number → Except NumberError Binary64
  | int n => match Binary64.ofInt? n with
    | some x => .ok x
    | none => .error .integerTooLarge
  | float x => .ok x

/-- Half of a number, always fractional. -/
def half : Number → Except NumberError Binary64
  | int n => match Binary64.halfOfInt? n with
    | some x => .ok x
    | none => .error .quotientTooLarge
  | float x => .ok x.half

/-- Adds an integer of moderate size. -/
def shift (k : Int) : Number → Number
  | int n => int (n + k)
  | float x => float (x.add (Binary64.round (k < 0) k.natAbs 1))

/-- The middle of a stretch that starts at `start`. -/
def middle (start extent : Number) : Except NumberError Number := do
  let half ← extent.half
  let start ← start.toBinary64
  pure (float (start.add half))

end Number

/-- Equality of values: an integer may equal a fractional number. -/
def Number.equals : Number → Number → Bool
  | int m, int n => m == n
  | int m, float y => y.toInt? == some m
  | float x, int n => x.toInt? == some n
  | float x, float y => x == y || (x.toInt? == some 0 && y.toInt? == some 0)

end PlatformGame
