/-! # Numbers of limited precision

Fractional numbers are held to 53 binary digits with a bounded exponent, as sign, mantissa and
exponent. All operations are exact ones followed by `Binary64.round`, which takes the nearest
representable value, an even mantissa deciding a tie; values beyond the largest become infinite.

Every finite value made here is in lowest form: the mantissa has 53 digits, or the exponent is the
least one. -/

namespace PlatformGame

inductive Binary64
  /-- The mantissa times two to the exponent. -/
  | finite (negative : Bool) (mantissa : Nat) (exponent : Int)
  | infinite (negative : Bool)
  | nan
  deriving DecidableEq

namespace Binary64

def twoPow (n : Nat) : Nat := Nat.pow 2 n

def tenPow (n : Nat) : Nat := Nat.pow 10 n

/-- A quotient rounded to the nearest number, a tie going to the even one. -/
def roundDiv (num den : Nat) : Nat :=
  let q := num / den
  let r := num % den
  if 2 * r < den then q else if den < 2 * r then q + 1 else q + q % 2

def leastExponent : Int := -1074

def greatestExponent : Int := 971

def mantissaLimit : Nat := twoPow 53

/-- `num / (den * 2 ^ e)` as a quotient of natural numbers. -/
def scaled (num den : Nat) (e : Int) : Nat × Nat :=
  if 0 ≤ e then (num, den * twoPow e.toNat) else (num * twoPow (-e).toNat, den)

/-- The exponent that leaves 53 binary digits before the point of `num / den`, or the least one. -/
def exponentFor (num den : Nat) : Int :=
  let e : Int := (num.log2 : Int) - den.log2 - 53
  let (a, b) := scaled num den e
  max leastExponent (if a / b < mantissaLimit then e else e + 1)

/-- The value nearest to plus or minus `num / den`. -/
def round (negative : Bool) (num den : Nat) : Binary64 :=
  if num = 0 then finite negative 0 leastExponent
  else
    let e := exponentFor num den
    let (a, b) := scaled num den e
    let m := roundDiv a b
    let (m, e) := if m = mantissaLimit then (m / 2, e + 1) else (m, e)
    if greatestExponent < e then infinite negative else finite negative m e

/-- The value nearest to plus or minus `m * 2 ^ e`. -/
def roundDyadic (negative : Bool) (m : Nat) (e : Int) : Binary64 :=
  if 0 ≤ e then round negative (m * twoPow e.toNat) 1 else round negative m (twoPow (-e).toNat)

def neg : Binary64 → Binary64
  | finite s m e => finite (!s) m e
  | infinite s => infinite (!s)
  | nan => nan

private def signed (s : Bool) (m : Nat) : Int := if s then -(m : Int) else m

/-- The rounded sum. A sum of zero is negative only if both summands are negative. -/
def add : Binary64 → Binary64 → Binary64
  | nan, _ => nan
  | _, nan => nan
  | infinite s, infinite t => if s = t then infinite s else nan
  | infinite s, finite _ _ _ => infinite s
  | finite _ _ _, infinite t => infinite t
  | finite s m e, finite t n f =>
    let g := min e f
    let sum := signed s (m * twoPow (e - g).toNat) + signed t (n * twoPow (f - g).toNat)
    if sum = 0 then finite (s && t) 0 leastExponent
    else roundDyadic (sum < 0) sum.natAbs g

def sub (x y : Binary64) : Binary64 := x.add y.neg

def half : Binary64 → Binary64
  | finite s m e => roundDyadic s m (e - 1)
  | x => x

/-- The nearest value, unless that is infinite. -/
def ofInt? (n : Int) : Option Binary64 :=
  match round (n < 0) n.natAbs 1 with
  | infinite _ => none
  | x => some x

/-- Half of an integer, unless the nearest value is infinite. -/
def halfOfInt? (n : Int) : Option Binary64 :=
  match round (n < 0) n.natAbs 2 with
  | infinite _ => none
  | x => some x

/-- The value nearest to `digits * 10 ^ exponent`. -/
def ofDecimal (negative : Bool) (digits : Nat) (exponent : Int) : Binary64 :=
  if 0 ≤ exponent then round negative (digits * tenPow exponent.toNat) 1
  else round negative digits (tenPow (-exponent).toNat)

/-- The integer that a value is, if it is one. -/
def toInt? : Binary64 → Option Int
  | finite s m e =>
    if 0 ≤ e then some (signed s (m * twoPow e.toNat))
    else
      let unit := twoPow (-e).toNat
      if m % unit = 0 then some (signed s (m / unit)) else none
  | _ => none

end Binary64

end PlatformGame
