import PlatformGame.Number.Binary64

/-! # The shortest decimal of a value

`Binary64.shortest` gives the fewest decimal digits that round back to a value; of several decimals
with that many digits it gives the nearest. For each number of digits only the two neighbours of the
value on that decimal grid come into question, and whether one rounds back is decided in natural
numbers: the reals that round to `m * 2 ^ e` form an interval that reaches half a unit up, and half
a unit down or, where the value below is in a finer grid, a quarter. -/

namespace PlatformGame

/-- A decimal `0.d₁d₂d₃… * 10 ^ point`. -/
structure Decimal where
  digits : Nat
  point : Int
  deriving DecidableEq

namespace Binary64

def digitCount (n : Nat) : Nat := (Nat.toDigits 10 n).length

/-- The least power of ten above `num / den`, for `num` not zero. -/
def pointOf (num den : Nat) : Int :=
  let p : Int := (digitCount num : Int) - digitCount den
  let below := if 0 ≤ p then num < den * tenPow p.toNat else num * tenPow (-p).toNat < den
  if below then p else p + 1

/-- A value of quarter units `u = 2 ^ (e - 2)` on the grid of `10 ^ g`, both sides as natural
numbers: `d * 10 ^ g` compares with `x * u` as `d * tens` does with `x * twos`. -/
structure Grid where
  tens : Nat
  twos : Nat

def Grid.of (e g : Int) : Grid where
  tens := tenPow g.toNat * twoPow (2 - e).toNat
  twos := twoPow (e - 2).toNat * tenPow (-g).toNat

/-- The decimal with the given grid that rounds back to the value and is nearest to it, if any. -/
def onGrid (m : Nat) (e : Int) (grid : Grid) : Option Nat :=
  let mid := 4 * m * grid.twos
  let down := if m = mantissaLimit / 2 && leastExponent < e then 1 else 2
  let low := (4 * m - down) * grid.twos
  let high := (4 * m + 2) * grid.twos
  let inside (d : Nat) : Bool :=
    let x := d * grid.tens
    if m % 2 = 0 then low ≤ x && x ≤ high else low < x && x < high
  let d := mid / grid.tens
  match inside d, inside (d + 1) with
  | true, true =>
    let below := mid - d * grid.tens
    let above := (d + 1) * grid.tens - mid
    some (if below < above then d else if above < below then d + 1 else d + d % 2)
  | true, false => some d
  | false, true => some (d + 1)
  | false, false => none

/-- Tries grids with more and more digits; seventeen always suffice. -/
def shortestFrom (m : Nat) (e point : Int) : (count tries : Nat) → Nat × Nat
  | count, 0 => (0, count)
  | count, tries + 1 =>
    match onGrid m e (Grid.of e (point - count)) with
    | some d => (d, count)
    | none => shortestFrom m e point (count + 1) tries

/-- Drops zeros at the end of a digit count. -/
def dropZeros : (fuel : Nat) → Nat → Nat
  | 0, d => d
  | fuel + 1, d => if d ≠ 0 ∧ d % 10 = 0 then dropZeros fuel (d / 10) else d

/-- The shortest decimal of `m * 2 ^ e`, for `m` not zero. -/
def shortest (m : Nat) (e : Int) : Decimal :=
  let (num, den) := if 0 ≤ e then (m * twoPow e.toNat, 1) else (m, twoPow (-e).toNat)
  let point := pointOf num den
  let (d, count) := shortestFrom m e point 1 17
  -- A neighbour above may have one digit more, and is then a power of ten.
  ⟨dropZeros 20 d, point + ((digitCount d : Int) - count)⟩

end Binary64

end PlatformGame
