import PlatformGame.Proofs.Number.Rounding
import Mathlib.Algebra.Order.Field.Power
import Mathlib.Data.Nat.Cast.Field
import Mathlib.Tactic.FieldSimp
import Mathlib.Tactic.Linarith
import Mathlib.Tactic.Positivity

/-! # Decimals that round back

The decimal that is chosen for a fractional number rounds back to it (`Binary64.roundsTo_shortest`).
What rounds to `m * 2 ^ e` is measured in quarters of `2 ^ e`, as the choice is made. -/

namespace PlatformGame

variable {den num down : Nat} {t : ℚ}

/-- The quantity of a decimal. -/
def Decimal.value (d : Decimal) : ℚ :=
  d.digits * 10 ^ (d.point - Binary64.digitCount d.digits)

namespace Binary64

/-! ## What rounds to a value -/

/-- How many quarters below a value round to it: the values below may be in a finer grid. -/
def reach (m : Nat) (e : Int) : Nat := if m = mantissaLimit / 2 && leastExponent < e then 1 else 2

/-- So many quarters round to the mantissa `m`; those at the ends only if it is even. -/
def Around (m down : Nat) (t : ℚ) : Prop :=
  if m % 2 = 0 then 4 * m - down ≤ t ∧ t ≤ 4 * m + 2 else 4 * m - down < t ∧ t < 4 * m + 2

/-- A quantity that rounds to `m * 2 ^ e`. -/
def RoundsTo (m : Nat) (e : Int) (v : ℚ) : Prop := Around m (reach m e) (v / 2 ^ (e - 2))

theorem Around.low {m : Nat} (h : Around m down t) : 4 * m - down ≤ t := by
  unfold Around at h
  split at h
  · exact h.1
  · exact h.1.le

theorem Around.high {m : Nat} (h : Around m down t) : t ≤ 4 * m + 2 := by
  unfold Around at h
  split at h
  · exact h.2
  · exact h.2.le

theorem Around.of_lt {m : Nat} (hlow : 4 * m - down < t) (hhigh : t < 4 * m + 2) :
    Around m down t := by
  unfold Around
  split
  · exact ⟨hlow.le, hhigh.le⟩
  · exact ⟨hlow, hhigh⟩

theorem Around.mono {m down' : Nat} (h : Around m down t) (hle : down ≤ down') :
    Around m down' t := by
  have hcast : (down : ℚ) ≤ down' := by exact_mod_cast hle
  unfold Around at h ⊢
  split
  · rw [if_pos ‹_›] at h
    exact ⟨by linarith [h.1], h.2⟩
  · rw [if_neg ‹_›] at h
    exact ⟨by linarith [h.1], h.2⟩

theorem reach_le (m : Nat) (e : Int) : reach m e ≤ 2 := by
  unfold reach
  split <;> omega

theorem reach_pos (m : Nat) (e : Int) : 0 < reach m e := by
  unfold reach
  split <;> omega

theorem quarters (e : Int) : (2 : ℚ) ^ e = 4 * 2 ^ (e - 2) := by
  rw [show (4 : ℚ) = 2 ^ (2 : Int) by norm_num, ← zpow_add₀ two_ne_zero, add_sub_cancel]

/-- What rounds to a value above zero is above zero. -/
theorem RoundsTo.pos {m : Nat} {e : Int} {v : ℚ} (h : RoundsTo m e v) (hm : m ≠ 0) : 0 < v := by
  have hlow := h.low
  have hreach : (reach m e : ℚ) ≤ 2 := by exact_mod_cast reach_le m e
  have hone : (1 : ℚ) ≤ m := by exact_mod_cast Nat.one_le_iff_ne_zero.2 hm
  have hquarters : 0 < v / 2 ^ (e - 2) := by linarith
  exact (div_pos_iff_of_pos_right (by positivity)).1 hquarters

/-- A value rounds to itself. -/
theorem roundsTo_self (m : Nat) (e : Int) : RoundsTo m e (m * 2 ^ e) := by
  have hreach : (0 : ℚ) < reach m e := by exact_mod_cast reach_pos m e
  have hself : (m * 2 ^ e : ℚ) / 2 ^ (e - 2) = 4 * m := by
    rw [quarters e]
    field_simp
  rw [RoundsTo, hself]
  exact .of_lt (by linarith) (by linarith)

theorem roundDiv_eq {a b m : Nat} (hb : b ≠ 0) (h : Around m 2 (4 * (a / b))) :
    roundDiv a b = m := by
  have hpos : (0 : ℚ) < b := by exact_mod_cast Nat.pos_of_ne_zero hb
  have hquotient : (a : ℚ) / b * b = a := div_mul_cancel₀ _ hpos.ne'
  -- the bounds in natural numbers
  have hlow : 2 * (b * m) ≤ 2 * a + b := by
    have := mul_le_mul_of_nonneg_right h.low hpos.le
    have : (2 * (b * m) : ℚ) ≤ 2 * a + b := by push_cast at this; linarith
    exact_mod_cast this
  have hhigh : 2 * a ≤ 2 * (b * m) + b := by
    have := mul_le_mul_of_nonneg_right h.high hpos.le
    have : (2 * a : ℚ) ≤ 2 * (b * m) + b := by linarith
    exact_mod_cast this
  have hodd : m % 2 ≠ 0 → 2 * (b * m) < 2 * a + b ∧ 2 * a < 2 * (b * m) + b := by
    intro hm
    rw [Around, if_neg hm] at h
    have hl := mul_lt_mul_of_pos_right h.1 hpos
    have hh := mul_lt_mul_of_pos_right h.2 hpos
    have hl' : (2 * (b * m) : ℚ) < 2 * a + b := by push_cast at hl; linarith
    have hh' : (2 * a : ℚ) < 2 * (b * m) + b := by linarith
    exact ⟨by exact_mod_cast hl', by exact_mod_cast hh'⟩
  have hdiv := Nat.div_add_mod a b
  have hmod := Nat.mod_lt a (Nat.pos_of_ne_zero hb)
  dsimp only [roundDiv]
  generalize a / b = q at hdiv
  generalize a % b = r at hdiv hmod
  -- the mantissa is the whole part of the quotient or one more
  have hq : q = m ∨ q + 1 = m := by
    rcases Nat.lt_trichotomy q m with hlt | heq | hgt
    · refine .inr (Nat.le_antisymm hlt ?_)
      by_contra hle
      have : b * (q + 2) ≤ b * m := Nat.mul_le_mul_left b (by omega)
      rw [Nat.mul_add] at this
      omega
    · exact .inl heq
    · exfalso
      have : b * (m + 1) ≤ b * q := Nat.mul_le_mul_left b hgt
      rw [Nat.mul_add] at this
      omega
  rcases hq with rfl | rfl
  · split_ifs <;> omega
  · rw [Nat.mul_add] at hlow hhigh hodd
    split_ifs <;> omega

theorem scaled_snd_ne_zero (num : Nat) (hden : den ≠ 0) (e : Int) : (scaled num den e).2 ≠ 0 := by
  unfold scaled
  split
  · exact Nat.mul_ne_zero hden (twoPow_pos _).ne'
  · exact hden

theorem cast_twoPow (n : Nat) : (twoPow n : ℚ) = 2 ^ (n : Int) := by
  rw [twoPow, Nat.pow_eq, Nat.cast_pow, zpow_natCast, Nat.cast_ofNat]

theorem cast_tenPow (n : Nat) : (tenPow n : ℚ) = 10 ^ (n : Int) := by
  rw [tenPow, Nat.pow_eq, Nat.cast_pow, zpow_natCast, Nat.cast_ofNat]

/-- The integer that a value is. -/
theorem cast_natAbs_of_toInt? {s : Bool} {m : Nat} {e n : Int}
    (h : (finite s m e).toInt? = some n) : (n.natAbs : ℚ) = m * 2 ^ e := by
  have hsigned (k : Nat) : (if s then -(k : Int) else k).natAbs = k := by cases s <;> simp
  rw [toInt?] at h
  split at h
  · next he =>
    cases h
    refine (congrArg Nat.cast (hsigned _)).trans ?_
    rw [Nat.cast_mul, cast_twoPow, Int.toNat_of_nonneg he]
  · next he =>
    dsimp only at h
    split at h
    · next hmod =>
      cases h
      refine (congrArg Nat.cast (hsigned _)).trans ?_
      rw [Nat.cast_div (Nat.dvd_of_mod_eq_zero hmod) (by exact_mod_cast (twoPow_pos _).ne'),
        cast_twoPow, Int.toNat_of_nonneg (by omega), zpow_neg, div_inv_eq_mul]
    · cases h

theorem scaled_div (num den : Nat) (e : Int) :
    ((scaled num den e).1 / (scaled num den e).2 : ℚ) = num / den / 2 ^ e := by
  unfold scaled
  split
  · next he =>
    rw [Nat.cast_mul, cast_twoPow, Int.toNat_of_nonneg he, div_mul_eq_div_div]
  · next he =>
    rw [Nat.cast_mul, cast_twoPow, Int.toNat_of_nonneg (by omega), zpow_neg, ← div_eq_mul_inv,
      div_right_comm]

/-- The quotient in quarters, as `Around` counts them. -/
theorem quarters_scaled (num den : Nat) (e : Int) :
    (4 * ((scaled num den e).1 / (scaled num den e).2) : ℚ) = num / den / 2 ^ (e - 2) := by
  rw [scaled_div, quarters e]
  field_simp

/-- Just below a power of two the mantissa is rounded up to the limit, in the finer grid. -/
theorem round_eq_half {e : Int} (s : Bool) (hnum : num ≠ 0) (hden : den ≠ 0)
    (hleast : leastExponent < e) (he : e ≤ greatestExponent)
    (hquotient : quotient num den e < mantissaLimit / 2)
    (hlow : 4 * (mantissaLimit / 2 : Nat) - 1 ≤ (num / den / 2 ^ (e - 2) : ℚ)) :
    round s num den = finite s (mantissaLimit / 2) e := by
  have heven : 2 * (mantissaLimit / 2) = mantissaLimit := by decide
  have hpow : (2 : ℚ) ^ (e - 2) = 2 ^ (e - 1 - 2) * 2 := by
    rw [← zpow_add_one₀ two_ne_zero]
    congr 1
    omega
  have hone : quotient num den (e - 1) < mantissaLimit := by
    have hnext := quotient_add_one num den (e - 1)
    rw [Int.sub_add_cancel] at hnext
    omega
  have hden' := scaled_snd_ne_zero num hden (e - 1)
  have hround : roundDiv (scaled num den (e - 1)).1 (scaled num den (e - 1)).2 = mantissaLimit := by
    refine roundDiv_eq hden' ?_
    have hlt : ((scaled num den (e - 1)).1 / (scaled num den (e - 1)).2 : ℚ) < mantissaLimit := by
      rw [div_lt_iff₀ (by exact_mod_cast Nat.pos_of_ne_zero hden')]
      exact_mod_cast (Nat.div_lt_iff_lt_mul (Nat.pos_of_ne_zero hden')).1 hone
    have hquarters := quarters_scaled num den (e - 1)
    rw [hpow, div_mul_eq_div_div, ← hquarters] at hlow
    have hcast : (2 * (mantissaLimit / 2 : Nat) : ℚ) = mantissaLimit := by exact_mod_cast heven
    rw [Around, if_pos (by decide)]
    exact ⟨by push_cast; linarith, by linarith⟩
  have hge := roundDiv_le (scaled num den (e - 1)).1 (scaled num den (e - 1)).2
  rw [← quotient, hround] at hge
  have hfit : Fitting (quotient num den (e - 1)) (e - 1) := ⟨hone, by omega, .inl (by omega)⟩
  rw [round, if_neg hnum]
  dsimp only
  rw [exponentFor_eq hnum hden hfit, hround, if_pos rfl, Int.sub_add_cancel]
  exact if_neg he.not_gt

/-- A quantity is rounded to the value that it rounds to. -/
theorem round_eq {m : Nat} {e : Int} (s : Bool) (hden : den ≠ 0) (hfit : Fitting m e)
    (he : e ≤ greatestExponent) (h : RoundsTo m e (num / den)) :
    round s num den = finite s m e := by
  have heven : 2 * (mantissaLimit / 2) = mantissaLimit := by decide
  by_cases hnum : num = 0
  · -- only zero itself has no mantissa
    have hm : m = 0 := by
      by_contra hm
      have hpos := h.pos hm
      rw [hnum, Nat.cast_zero, zero_div] at hpos
      exact lt_irrefl _ hpos
    have hexponent : e = leastExponent := hfit.full.resolve_left (by rw [hm]; decide)
    rw [round, if_pos hnum, hm, hexponent]
  have hround : roundDiv (scaled num den e).1 (scaled num den e).2 = m := by
    refine roundDiv_eq (scaled_snd_ne_zero num hden e) ?_
    rw [quarters_scaled]
    exact h.mono (reach_le m e)
  have hle := le_roundDiv (scaled num den e).1 (scaled num den e).2
  have hge := roundDiv_le (scaled num den e).1 (scaled num den e).2
  rw [← quotient, hround] at hle hge
  have hlt := hfit.lt
  have hleast := hfit.least
  by_cases hfits : mantissaLimit ≤ 2 * quotient num den e ∨ e = leastExponent
  · have hexponent := exponentFor_eq hnum hden ⟨by omega, hleast, hfits⟩
    rw [round, if_neg hnum]
    dsimp only
    rw [hexponent, hround, if_neg hlt.ne]
    exact if_neg he.not_gt
  · have hm : m = mantissaLimit / 2 := by
      have := hfit.full
      omega
    have hreach : reach m e = 1 := by
      rw [reach, if_pos]
      simp [hm]
      omega
    have hlow := h.low
    rw [hreach] at hlow
    subst hm
    exact round_eq_half s hnum hden (by omega) he (by omega) (by exact_mod_cast hlow)

/-! ## Decimal grids -/

theorem Grid.tens_pos (e g : Int) : 0 < (Grid.of e g).tens :=
  Nat.mul_pos (tenPow_pos _) (twoPow_pos _)

theorem Grid.twos_pos (e g : Int) : 0 < (Grid.of e g).twos :=
  Nat.mul_pos (twoPow_pos _) (tenPow_pos _)

/-- The distance of two neighbours on the grid, in quarters. -/
theorem Grid.tens_div_twos (e g : Int) :
    ((Grid.of e g).tens / (Grid.of e g).twos : ℚ) = 10 ^ g / 2 ^ (e - 2) := by
  have hg : g = (g.toNat : Int) - ((-g).toNat : Int) := by omega
  have he : e - 2 = ((e - 2).toNat : Int) - ((2 - e).toNat : Int) := by omega
  have hten : (10 : ℚ) ^ g = tenPow g.toNat / tenPow (-g).toNat := by
    rw [cast_tenPow, cast_tenPow, ← zpow_sub₀ (by norm_num), ← hg]
  have htwo : (2 : ℚ) ^ (e - 2) = twoPow (e - 2).toNat / twoPow (2 - e).toNat := by
    rw [cast_twoPow, cast_twoPow, ← zpow_sub₀ two_ne_zero, ← he]
  rw [hten, htwo, Grid.of, Nat.cast_mul, Nat.cast_mul, div_div_div_eq, mul_comm (twoPow _ : ℚ)]

section

variable {m : Nat} {e : Int} {grid : Grid}

/-- Whether a point of the grid rounds to the value, as it is decided in natural numbers. -/
def inside (m : Nat) (e : Int) (grid : Grid) (d : Nat) : Bool :=
  if m % 2 = 0 then
    (4 * m - reach m e) * grid.twos ≤ d * grid.tens && d * grid.tens ≤ (4 * m + 2) * grid.twos
  else
    (4 * m - reach m e) * grid.twos < d * grid.tens && d * grid.tens < (4 * m + 2) * grid.twos

theorem inside_iff (hm : m ≠ 0) (htwos : 0 < grid.twos) (d : Nat) :
    inside m e grid d = true ↔ Around m (reach m e) (d * (grid.tens / grid.twos)) := by
  have hpos : (0 : ℚ) < grid.twos := by exact_mod_cast htwos
  have hreach : reach m e ≤ 4 * m := (reach_le m e).trans (by omega)
  have hlow : (4 * m - reach m e : ℚ) = (4 * m - reach m e : Nat) := by
    push_cast [hreach]
    rfl
  have hhigh : (4 * m + 2 : ℚ) = (4 * m + 2 : Nat) := by push_cast; rfl
  rw [inside, Around, hlow, hhigh, ← mul_div_assoc, ← Nat.cast_mul]
  split
  · rw [Bool.and_eq_true, decide_eq_true_iff, decide_eq_true_iff, le_div_iff₀ hpos,
      div_le_iff₀ hpos]
    norm_cast
  · rw [Bool.and_eq_true, decide_eq_true_iff, decide_eq_true_iff, lt_div_iff₀ hpos,
      div_lt_iff₀ hpos]
    norm_cast

theorem inside_of_onGrid {d : Nat} (h : onGrid m e grid = some d) : inside m e grid d = true := by
  dsimp only [onGrid] at h
  split at h
  · next hbelow habove =>
    cases h
    split_ifs
    · exact hbelow
    · exact habove
    · rcases Nat.mod_two_eq_zero_or_one (4 * m * grid.twos / grid.tens) with hmod | hmod
      · rw [hmod]
        exact hbelow
      · rw [hmod]
        exact habove
  · next hbelow _ =>
    cases h
    exact hbelow
  · next _ habove =>
    cases h
    exact habove
  · cases h

/-- On a grid that is fine enough, one of the neighbours of the value rounds to it. -/
theorem isSome_onGrid (hm : m ≠ 0) (htwos : 0 < grid.twos) (htens : 0 < grid.tens)
    (hstep : (grid.tens / grid.twos : ℚ) < 2 + reach m e) : (onGrid m e grid).isSome = true := by
  have hpos : (0 : ℚ) < grid.twos := by exact_mod_cast htwos
  dsimp only [onGrid]
  split
  · rfl
  · rfl
  · rfl
  · next hbelow habove =>
    exfalso
    have hle : (4 * m * grid.twos / grid.tens) * grid.tens ≤ 4 * m * grid.twos :=
      Nat.div_mul_le_self _ _
    have hlt : 4 * m * grid.twos < (4 * m * grid.twos / grid.tens + 1) * grid.tens :=
      (Nat.div_lt_iff_lt_mul htens).1 (Nat.lt_succ_self _)
    generalize 4 * m * grid.twos / grid.tens = d at hle hlt hbelow habove
    have hd : ¬ Around m (reach m e) (d * (grid.tens / grid.twos)) := by
      rw [← inside_iff hm htwos]
      exact Bool.eq_false_iff.1 hbelow
    have hd' : ¬ Around m (reach m e) ((d + 1 : Nat) * (grid.tens / grid.twos)) := by
      rw [← inside_iff hm htwos]
      exact Bool.eq_false_iff.1 habove
    have hle' : (d * (grid.tens / grid.twos) : ℚ) ≤ 4 * m := by
      rw [← mul_div_assoc, div_le_iff₀ hpos]
      exact_mod_cast hle
    have hlt' : (4 * m : ℚ) < (d + 1 : Nat) * (grid.tens / grid.twos) := by
      rw [← mul_div_assoc, lt_div_iff₀ hpos]
      exact_mod_cast hlt
    -- the neighbours would be so far apart that they leave out all that rounds to the value
    have hfar : (d * (grid.tens / grid.twos) : ℚ) ≤ 4 * m - reach m e := by
      by_contra hnear
      exact hd (.of_lt (not_le.1 hnear) (by linarith))
    have hfar' : (4 * m + 2 : ℚ) ≤ (d + 1 : Nat) * (grid.tens / grid.twos) := by
      by_contra hnear
      have hreach : (0 : ℚ) ≤ reach m e := Nat.cast_nonneg _
      exact hd' (.of_lt (by linarith) (not_le.1 hnear))
    push_cast at hfar'
    linarith

/-! ## The point of a decimal -/

theorem digitCount_pos (n : Nat) : 0 < digitCount n := Nat.length_toDigits_pos

theorem lt_tenPow_digitCount (n : Nat) : n < tenPow (digitCount n) :=
  (Nat.length_toDigits_le_iff (by decide) (digitCount_pos n)).1 (Nat.le_refl _)

theorem tenPow_le {n : Nat} (h : n ≠ 0) : tenPow (digitCount n - 1) ≤ n := by
  by_cases hone : digitCount n - 1 = 0
  · rw [hone]
    exact Nat.one_le_iff_ne_zero.2 h
  · by_contra hlt
    have hcount := (Nat.length_toDigits_le_iff (by decide) (Nat.pos_of_ne_zero hone)).2
      (Nat.lt_of_not_le hlt)
    rw [← digitCount] at hcount
    omega

theorem le_pointOf (hnum : num ≠ 0) (hden : den ≠ 0) :
    (10 : ℚ) ^ (pointOf num den - 1) ≤ num / den := by
  have hpos : (0 : ℚ) < den := by exact_mod_cast Nat.pos_of_ne_zero hden
  dsimp only [pointOf]
  generalize hp : (digitCount num : Int) - digitCount den = p
  have hfirst : (10 : ℚ) ^ (p - 1) ≤ num / den := by
    have hlow : (10 : ℚ) ^ ((digitCount num - 1 : Nat) : Int) ≤ num := by
      rw [← cast_tenPow]
      exact_mod_cast tenPow_le hnum
    have hhigh : (den : ℚ) ≤ 10 ^ (digitCount den : Int) := by
      rw [← cast_tenPow]
      exact_mod_cast (lt_tenPow_digitCount den).le
    have hcount := digitCount_pos num
    rw [le_div_iff₀ hpos]
    calc (10 : ℚ) ^ (p - 1) * den ≤ 10 ^ (p - 1) * 10 ^ (digitCount den : Int) := by gcongr
      _ = 10 ^ ((digitCount num - 1 : Nat) : Int) := by
        rw [← zpow_add₀ (by norm_num)]
        congr 1
        omega
      _ ≤ num := hlow
  split
  · next hp =>
    split
    · exact hfirst
    · next hle =>
      rw [add_sub_cancel_right, le_div_iff₀ hpos, ← Int.toNat_of_nonneg hp, ← cast_tenPow, mul_comm]
      exact_mod_cast Nat.le_of_not_lt hle
  · next hp =>
    split
    · exact hfirst
    · next hle =>
      have hle : (den : ℚ) ≤ num * tenPow (-p).toNat := by exact_mod_cast Nat.le_of_not_lt hle
      rw [cast_tenPow, Int.toNat_of_nonneg (by omega)] at hle
      rw [add_sub_cancel_right, le_div_iff₀ hpos]
      calc (10 : ℚ) ^ p * den ≤ 10 ^ p * (num * 10 ^ (-p)) := by gcongr
        _ = num := by
          rw [mul_left_comm, ← zpow_add₀ (by norm_num), add_neg_cancel, zpow_zero, mul_one]

/-! ## The search -/

/-- If the last grid has a decimal that rounds to the value, one is found. -/
theorem onGrid_of_shortestFrom {m : Nat} {e point : Int} {count tries d c : Nat}
    (h : shortestFrom m e point count (tries + 1) = (d, c))
    (hlast : (onGrid m e (Grid.of e (point - (count + tries : Nat)))).isSome = true) :
    onGrid m e (Grid.of e (point - c)) = some d := by
  induction tries generalizing count with
  | zero =>
    obtain ⟨d', hd'⟩ := Option.isSome_iff_exists.1 hlast
    rw [Nat.add_zero] at hd'
    rw [shortestFrom, hd'] at h
    cases h
    exact hd'
  | succ tries ih =>
    rw [shortestFrom] at h
    split at h
    · next d' hd' =>
      cases h
      exact hd'
    · refine ih h ?_
      rwa [Nat.add_right_comm]

theorem digitCount_mul_ten {n : Nat} (h : n ≠ 0) : digitCount (n * 10) = digitCount n + 1 := by
  have hle : digitCount (n * 10) ≤ digitCount n + 1 := by
    refine (Nat.length_toDigits_le_iff (by decide) (Nat.succ_pos _)).2 ?_
    rw [Nat.pow_succ]
    exact Nat.mul_lt_mul_of_pos_right (lt_tenPow_digitCount n) (by decide)
  have hge : ¬ digitCount (n * 10) ≤ digitCount n := by
    intro hle
    have hlt := (Nat.length_toDigits_le_iff (by decide) (digitCount_pos n)).1 hle
    have hpow : tenPow (digitCount n - 1) * 10 = 10 ^ digitCount n := by
      rw [tenPow, Nat.pow_eq, ← pow_succ, Nat.sub_add_cancel (digitCount_pos n)]
    have := tenPow_le h
    omega
  omega

/-- Dropping zeros at the end moves the point. -/
theorem dropZeros_eq (fuel d : Nat) :
    ∃ k, dropZeros fuel d * 10 ^ k = d ∧ digitCount d = digitCount (dropZeros fuel d) + k := by
  induction fuel generalizing d with
  | zero => exact ⟨0, Nat.mul_one _, rfl⟩
  | succ fuel ih =>
    rw [dropZeros]
    split
    · next h =>
      obtain ⟨k, hk, hcount⟩ := ih (d / 10)
      have hd : d / 10 * 10 = d := by omega
      refine ⟨k + 1, ?_, ?_⟩
      · rw [Nat.pow_succ, ← Nat.mul_assoc, hk, hd]
      · rw [← Nat.add_assoc, ← hcount, ← digitCount_mul_ten (by omega), hd]
    · exact ⟨0, Nat.mul_one _, rfl⟩

theorem value_dropZeros (fuel d : Nat) (point count : Int) :
    Decimal.value ⟨dropZeros fuel d, point + (digitCount d - count)⟩ =
      d * 10 ^ (point - count) := by
  obtain ⟨k, hk, hcount⟩ := dropZeros_eq fuel d
  have hcast : (dropZeros fuel d : ℚ) * 10 ^ (k : Int) = d := by
    rw [zpow_natCast]
    exact_mod_cast hk
  rw [Decimal.value, hcount, ← hcast, mul_assoc, ← zpow_add₀ (by norm_num)]
  congr 2
  push_cast
  ring

theorem shortest_eq {m : Nat} (hm : m ≠ 0) (e : Int) :
    ∃ point d count, (10 : ℚ) ^ (point - 1) ≤ m * 2 ^ e ∧
      shortestFrom m e point 1 17 = (d, count) ∧
      shortest m e = ⟨dropZeros 20 d, point + ((digitCount d : Int) - count)⟩ := by
  have hfound (num den : Nat) (hnum : num ≠ 0) (hden : den ≠ 0)
      (hvalue : (num / den : ℚ) = m * 2 ^ e)
      (hpair : (if 0 ≤ e then (m * twoPow e.toNat, 1) else (m, twoPow (-e).toNat)) = (num, den)) :
      ∃ point d count, (10 : ℚ) ^ (point - 1) ≤ m * 2 ^ e ∧
        shortestFrom m e point 1 17 = (d, count) ∧
        shortest m e = ⟨dropZeros 20 d, point + ((digitCount d : Int) - count)⟩ := by
    refine ⟨pointOf num den, (shortestFrom m e (pointOf num den) 1 17).1,
      (shortestFrom m e (pointOf num den) 1 17).2, hvalue ▸ le_pointOf hnum hden, rfl, ?_⟩
    rw [shortest, hpair]
  by_cases he : 0 ≤ e
  · refine hfound _ _ (Nat.mul_ne_zero hm (twoPow_pos e.toNat).ne') Nat.one_ne_zero ?_ (if_pos he)
    rw [Nat.cast_one, div_one, Nat.cast_mul, cast_twoPow, Int.toNat_of_nonneg he]
  · refine hfound _ _ hm (twoPow_pos (-e).toNat).ne' ?_ (if_neg he)
    rw [cast_twoPow, Int.toNat_of_nonneg (by omega), zpow_neg, div_inv_eq_mul]

/-- The grid of seventeen digits is finer than the numbers that round to one value are apart. -/
theorem tens_div_twos_lt {m : Nat} {e point : Int} (hfit : Fitting m e)
    (hpoint : (10 : ℚ) ^ (point - 1) ≤ m * 2 ^ e) :
    ((Grid.of e (point - 17)).tens / (Grid.of e (point - 17)).twos : ℚ) < 2 + reach m e := by
  have hten : (10 : ℚ) ^ (point - 17) * 10 ^ (16 : Int) = 10 ^ (point - 1) := by
    rw [← zpow_add₀ (by norm_num)]
    congr 1
    omega
  have hpos : (0 : ℚ) < 2 ^ (e - 2) := by positivity
  have hstep : ((10 : ℚ) ^ (point - 17) / 2 ^ (e - 2)) * 10 ^ (16 : Int) ≤ 4 * m := by
    rw [div_mul_eq_mul_div, hten, div_le_iff₀ hpos, mul_comm 4, mul_assoc, ← quarters]
    exact hpoint
  rw [Grid.tens_div_twos]
  generalize (10 : ℚ) ^ (point - 17) / 2 ^ (e - 2) = step at hstep
  have hsixteen : (10 : ℚ) ^ (16 : Int) = 10000000000000000 := by norm_num
  rw [hsixteen] at hstep
  unfold reach
  split
  · next hhalf =>
    rw [Bool.and_eq_true, decide_eq_true_iff] at hhalf
    have hm : (m : ℚ) = 4503599627370496 := by exact_mod_cast hhalf.1
    push_cast
    linarith
  · have hm : (m : ℚ) < 9007199254740992 := by exact_mod_cast hfit.lt
    push_cast
    linarith

/-- The chosen decimal rounds back. -/
theorem roundsTo_shortest {m : Nat} {e : Int} (hm : m ≠ 0) (hfit : Fitting m e) :
    RoundsTo m e ((shortest m e).value) := by
  obtain ⟨point, d, count, hpoint, hfrom, hshortest⟩ := shortest_eq hm e
  have hsome : (onGrid m e (Grid.of e (point - (1 + 16 : Nat)))).isSome = true :=
    isSome_onGrid hm (Grid.twos_pos _ _) (Grid.tens_pos _ _) (tens_div_twos_lt hfit hpoint)
  have hinside := inside_of_onGrid (onGrid_of_shortestFrom hfrom hsome)
  rw [inside_iff hm (Grid.twos_pos _ _), Grid.tens_div_twos, ← mul_div_assoc] at hinside
  rw [hshortest, value_dropZeros]
  exact hinside

end

end Binary64

end PlatformGame
