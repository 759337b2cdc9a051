import PlatformGame.Proofs.Data.Except
import PlatformGame.Proofs.Draft.Literals
import Mathlib.Data.Nat.Log
import Mathlib.Tactic.Ring

/-! # The range of fractional numbers

Whatever is computed, a finite value has at most 53 binary digits and an exponent between the least
and the greatest, and it has just 53 of them unless the exponent is the least
(`Binary64.bounded_round`). The exponent is the only one that leaves so many digits
(`Binary64.exponentFor_eq`). -/

namespace PlatformGame.Binary64

variable {den num : Nat} {e : Int}

/-- The mantissa has 53 digits, or fewer if the exponent is the least. -/
structure Fitting (m : Nat) (e : Int) : Prop where
  lt : m < mantissaLimit
  least : leastExponent ≤ e
  full : mantissaLimit ≤ 2 * m ∨ e = leastExponent

/-- A value in the range of fractional numbers. -/
def Bounded : Binary64 → Prop
  | finite _ m e => Fitting m e ∧ e ≤ greatestExponent
  | infinite _ | nan => True

theorem twoPow_pos (n : Nat) : 0 < twoPow n := Nat.pow_pos (by decide)

theorem tenPow_pos (n : Nat) : 0 < tenPow n := Nat.pow_pos (by decide)

theorem twoPow_succ (n : Nat) : twoPow (n + 1) = twoPow n * 2 := Nat.pow_succ ..

theorem twoPow_add (m n : Nat) : twoPow (m + n) = twoPow m * twoPow n := Nat.pow_add ..

/-- The integer that a value is has its sign, and is zero only for zero. -/
theorem exists_of_toInt? {s : Bool} {m : Nat} {n : Int} (h : (finite s m e).toInt? = some n) :
    ∃ k : Nat, n = (if s then -(k : Int) else k) ∧ (k = 0 ↔ m = 0) ∧ k ≤ m * twoPow e.toNat := by
  rw [toInt?] at h
  split at h
  · cases h
    refine ⟨m * twoPow e.toNat, rfl, ?_, Nat.le_refl _⟩
    rw [Nat.mul_eq_zero, or_iff_left (twoPow_pos e.toNat).ne']
  · dsimp only at h
    split at h
    · next hmod =>
      cases h
      refine ⟨m / twoPow (-e).toNat, rfl, ⟨fun hdiv => ?_, ?_⟩, ?_⟩
      · rw [← Nat.div_add_mod m (twoPow (-e).toNat), hdiv, hmod, Nat.mul_zero]
      · rintro rfl
        exact Nat.zero_div _
      · exact (Nat.div_le_self _ _).trans (Nat.le_mul_of_pos_right m (twoPow_pos _))
    · cases h

theorem toInt?_zero (s : Bool) (e : Int) : ((finite s 0 e).toInt?).isSome = true := by
  rw [toInt?]
  split <;> simp

/-! ## Quotients by powers of two -/

/-- The whole part of `num / (den * 2 ^ e)`. -/
def quotient (num den : Nat) (e : Int) : Nat := (scaled num den e).1 / (scaled num den e).2

theorem quotient_add_one (num den : Nat) (e : Int) :
    quotient num den (e + 1) = quotient num den e / 2 := by
  unfold quotient scaled
  rcases Int.lt_trichotomy e (-1) with he | rfl | he
  · have hsize : (-e).toNat = (-(e + 1)).toNat + 1 := by omega
    rw [if_neg (by omega), if_neg (by omega), hsize, twoPow_succ, Nat.div_div_eq_div_mul,
      ← Nat.mul_assoc, Nat.mul_div_mul_right _ _ (by decide)]
  · simp [twoPow, Nat.div_div_eq_div_mul, Nat.mul_div_mul_right]
  · have hsize : (e + 1).toNat = e.toNat + 1 := by omega
    rw [if_pos (by omega), if_pos (by omega), hsize, twoPow_succ, Nat.div_div_eq_div_mul,
      Nat.mul_assoc]

theorem quotient_antitone (num den : Nat) {f : Int} (h : e ≤ f) :
    quotient num den f ≤ quotient num den e := by
  obtain ⟨k, rfl⟩ := Int.le.dest h
  induction k with
  | zero => simp
  | succ k ih =>
    rw [Nat.cast_succ, ← Int.add_assoc, quotient_add_one]
    exact (Nat.div_le_self _ 2).trans (ih (by omega))

/-- The guess at the exponent is off by one binary digit at most. -/
theorem quotient_log2_lt (num den : Nat) :
    quotient num den ((num.log2 : Int) - den.log2 - 53) < mantissaLimit * 2 := by
  have hlimit : mantissaLimit * 2 = twoPow 54 := rfl
  have hnum : num < twoPow (num.log2 + 1) := Nat.lt_log2_self
  by_cases hden : den = 0
  · subst hden
    unfold quotient scaled
    split <;> simp [hlimit, twoPow_pos]
  have hlow : twoPow den.log2 ≤ den := Nat.log2_self_le hden
  generalize he : (num.log2 : Int) - den.log2 - 53 = e
  unfold quotient scaled
  rw [hlimit]
  split
  · next hpos =>
    have hsize : num.log2 + 1 = den.log2 + e.toNat + 54 := by omega
    refine Nat.div_lt_of_lt_mul ?_
    calc num < twoPow (num.log2 + 1) := hnum
      _ = twoPow den.log2 * twoPow e.toNat * twoPow 54 := by
        rw [hsize, twoPow_add, twoPow_add]
      _ ≤ den * twoPow e.toNat * twoPow 54 :=
        Nat.mul_le_mul_right _ (Nat.mul_le_mul_right _ hlow)
  · next hneg =>
    have hsize : num.log2 + 1 + (-e).toNat = den.log2 + 54 := by omega
    refine Nat.div_lt_of_lt_mul ?_
    calc num * twoPow (-e).toNat < twoPow (num.log2 + 1) * twoPow (-e).toNat :=
        Nat.mul_lt_mul_of_pos_right hnum (twoPow_pos _)
      _ = twoPow den.log2 * twoPow 54 := by rw [← twoPow_add, hsize, twoPow_add]
      _ ≤ den * twoPow 54 := Nat.mul_le_mul_right _ hlow

/-- At the exponent for a quotient, 53 binary digits are left before the point. -/
theorem quotient_exponentFor_lt (num den : Nat) :
    quotient num den (exponentFor num den) < mantissaLimit := by
  have hguess := quotient_log2_lt num den
  dsimp only [exponentFor]
  generalize (num.log2 : Int) - den.log2 - 53 = e at hguess
  change quotient num den (max leastExponent
    (if quotient num den e < mantissaLimit then e else e + 1)) < mantissaLimit
  refine (quotient_antitone num den (le_max_right _ _)).trans_lt ?_
  split
  · next hlt => exact hlt
  · rw [quotient_add_one]
    exact Nat.div_lt_of_lt_mul (by rwa [Nat.mul_comm] at hguess)

/-- The guess at the exponent does not leave too few digits. -/
theorem le_quotient_log2 (hnum : num ≠ 0) (hden : den ≠ 0) :
    mantissaLimit ≤ 2 * quotient num den ((num.log2 : Int) - den.log2 - 53) := by
  have hlimit : mantissaLimit = 2 * twoPow 52 := rfl
  have hlow : twoPow num.log2 ≤ num := Nat.log2_self_le hnum
  have hhigh : den ≤ twoPow (den.log2 + 1) := Nat.lt_log2_self.le
  generalize he : (num.log2 : Int) - den.log2 - 53 = e
  rw [hlimit]
  refine Nat.mul_le_mul_left 2 ?_
  unfold quotient scaled
  split
  · next hpos =>
    have hsize : 52 + (den.log2 + 1 + e.toNat) = num.log2 := by omega
    rw [Nat.le_div_iff_mul_le (Nat.mul_pos (Nat.pos_of_ne_zero hden) (twoPow_pos _))]
    calc twoPow 52 * (den * twoPow e.toNat)
        ≤ twoPow 52 * (twoPow (den.log2 + 1) * twoPow e.toNat) :=
          Nat.mul_le_mul_left _ (Nat.mul_le_mul_right _ hhigh)
      _ = twoPow num.log2 := by rw [← twoPow_add, ← twoPow_add, hsize]
      _ ≤ num := hlow
  · next hneg =>
    have hsize : 52 + (den.log2 + 1) = num.log2 + (-e).toNat := by omega
    rw [Nat.le_div_iff_mul_le (Nat.pos_of_ne_zero hden)]
    calc twoPow 52 * den ≤ twoPow 52 * twoPow (den.log2 + 1) := Nat.mul_le_mul_left _ hhigh
      _ = twoPow num.log2 * twoPow (-e).toNat := by rw [← twoPow_add, hsize, twoPow_add]
      _ ≤ num * twoPow (-e).toNat := Nat.mul_le_mul_right _ hlow

/-- At the exponent for a quotient, its whole part is a mantissa. -/
theorem fitting_exponentFor (hnum : num ≠ 0) (hden : den ≠ 0) :
    Fitting (quotient num den (exponentFor num den)) (exponentFor num den) where
  lt := quotient_exponentFor_lt num den
  least := le_max_left _ _
  full := by
    have hguess := le_quotient_log2 hnum hden
    dsimp only [exponentFor]
    generalize (num.log2 : Int) - den.log2 - 53 = e at hguess
    change mantissaLimit ≤ 2 * quotient num den (max leastExponent
      (if quotient num den e < mantissaLimit then e else e + 1)) ∨ _ = leastExponent
    rcases max_choice leastExponent (if quotient num den e < mantissaLimit then e else e + 1)
      with h | h
    · exact .inr h
    · refine .inl ?_
      rw [h]
      split
      · exact hguess
      · next hlt =>
        have heven : mantissaLimit % 2 = 0 := by decide
        rw [quotient_add_one]
        omega

/-- Only one exponent makes a mantissa of a quotient. -/
theorem exponentFor_eq (hnum : num ≠ 0) (hden : den ≠ 0) (h : Fitting (quotient num den e) e) :
    exponentFor num den = e := by
  have hfor := fitting_exponentFor hnum hden
  generalize exponentFor num den = f at hfor
  -- the greater of two such exponents would leave too few digits
  have hle : ∀ {e f : Int}, Fitting (quotient num den e) e → Fitting (quotient num den f) f →
      f ≤ e := by
    intro e f he hf
    by_contra hlt
    have hquotient : quotient num den f ≤ quotient num den e / 2 := by
      rw [← quotient_add_one]
      exact quotient_antitone num den (by omega)
    rcases hf.full with hfull | hleast
    · have := he.lt
      omega
    · have := he.least
      omega
  exact Int.le_antisymm (hle h hfor) (hle hfor h)

theorem le_roundDiv (num den : Nat) : num / den ≤ roundDiv num den := by
  dsimp only [roundDiv]
  split_ifs
  · exact Nat.le_refl _
  · exact Nat.le_succ _
  · exact Nat.le_add_right _ _

theorem roundDiv_le (num den : Nat) : roundDiv num den ≤ num / den + 1 := by
  dsimp only [roundDiv]
  split_ifs
  · exact Nat.le_succ _
  · exact Nat.le_refl _
  · have := Nat.mod_lt (num / den) (show 0 < 2 by decide)
    omega

/-! ## Rounding -/

theorem bounded_zero (s : Bool) : (finite s 0 leastExponent).Bounded :=
  ⟨⟨twoPow_pos 53, Int.le_refl _, .inr rfl⟩, by decide⟩

theorem bounded_round (s : Bool) (num : Nat) (hden : den ≠ 0) : (round s num den).Bounded := by
  unfold round
  split
  · exact bounded_zero s
  · next hnum =>
    have hfit := fitting_exponentFor hnum hden
    have hlow := le_roundDiv (scaled num den (exponentFor num den)).1
      (scaled num den (exponentFor num den)).2
    have hhigh := roundDiv_le (scaled num den (exponentFor num den)).1
      (scaled num den (exponentFor num den)).2
    rw [← quotient] at hlow hhigh
    dsimp only
    generalize roundDiv _ _ = m at hlow hhigh
    by_cases hlimit : m = mantissaLimit
    · rw [if_pos hlimit]
      dsimp only
      split
      · trivial
      · next he =>
        have hhalf :
            mantissaLimit / 2 < mantissaLimit ∧ mantissaLimit ≤ 2 * (mantissaLimit / 2) := by
          decide
        have hleast := hfit.least
        rw [hlimit]
        exact ⟨⟨hhalf.1, by omega, .inl hhalf.2⟩, by omega⟩
    · rw [if_neg hlimit]
      dsimp only
      split
      · trivial
      · next he =>
        have hlt := hfit.lt
        have hfull := hfit.full
        exact ⟨⟨by omega, hfit.least, by omega⟩, by omega⟩

theorem bounded_roundDyadic (s : Bool) (m : Nat) (e : Int) : (roundDyadic s m e).Bounded := by
  unfold roundDyadic
  split
  · exact bounded_round _ _ Nat.one_ne_zero
  · exact bounded_round _ _ (twoPow_pos _).ne'

theorem bounded_add (x y : Binary64) : (x.add y).Bounded := by
  cases x with
  | nan => trivial
  | infinite s =>
    cases y with
    | infinite t =>
      rw [add]
      split <;> trivial
    | finite | nan => trivial
  | finite s m e =>
    cases y with
    | finite t n f =>
      dsimp only [add]
      split
      · exact bounded_zero _
      · exact bounded_roundDyadic _ _ _
    | infinite | nan => trivial

theorem bounded_ofDecimal (s : Bool) (digits : Nat) (exponent : Int) :
    (ofDecimal s digits exponent).Bounded := by
  unfold ofDecimal
  split
  · exact bounded_round _ _ Nat.one_ne_zero
  · exact bounded_round _ _ (tenPow_pos _).ne'

end PlatformGame.Binary64

namespace PlatformGame.Number

variable {text : String} {x : Binary64}

/-! ## Literals -/

theorem bounded_scaled (s : Bool) (digits : List Char) (exponent : Int) :
    (scaled s digits exponent).Bounded := by
  dsimp only [scaled]
  split_ifs
  · exact Binary64.bounded_ofDecimal _ _ _
  · trivial
  · exact Binary64.bounded_ofDecimal _ _ _

theorem exists_scaled_of_fractionalOf (h : fractionalOf text = .ok x) :
    ∃ negative digits exponent, x = scaled negative digits exponent := by
  dsimp only [fractionalOf] at h
  split at h
  · next y hy =>
    split at h
    · cases h
      split at hy
      · split at hy
        · cases hy
        · obtain ⟨e, -, rfl⟩ := Option.map_eq_some_iff.1 hy
          exact ⟨_, _, _, rfl⟩
      · cases hy
    · cases h
  · cases h

theorem bounded_of_fractionalOf (h : fractionalOf text = .ok x) : x.Bounded := by
  obtain ⟨negative, digits, exponent, rfl⟩ := exists_scaled_of_fractionalOf h
  exact bounded_scaled negative digits exponent

/-- A number that can be read or computed. -/
def Bounded : Number → Prop
  | int n => n.natAbs < 10 ^ digitLimit
  | float x => x.Bounded

theorem bounded_of_ofLiteral {n : Number} (h : ofLiteral text = .ok n) : n.Bounded := by
  unfold ofLiteral at h
  split at h
  · obtain ⟨x, hx, rfl⟩ := map_eq_ok.1 h
    exact bounded_of_fractionalOf hx
  · obtain ⟨m, hm, rfl⟩ := map_eq_ok.1 h
    exact natAbs_lt_of_integerOf hm

/-! ## Writing -/

theorem exists_integerText {n : Int} (h : n.natAbs < 10 ^ digitLimit) :
    ∃ s, integerText n = .ok s := by
  have hlen : ¬ digitLimit < (Nat.repr n.natAbs).length := by
    rw [Nat.not_lt, Nat.repr_eq_ofList_toDigits, String.length_ofList,
      Nat.length_toDigits_le_iff (by decide) (by decide)]
    exact h
  dsimp only [integerText]
  rw [if_neg hlen]
  exact ⟨_, rfl⟩

/-- No fractional number has as many digits as would be too many. -/
theorem natAbs_lt_of_toInt? {n : Int} (hx : x.Bounded) (h : x.toInt? = some n) :
    n.natAbs < 10 ^ digitLimit := by
  cases x with
  | finite s m e =>
    obtain ⟨k, rfl, -, hk⟩ := Binary64.exists_of_toInt? h
    have hnat : (if s then -(k : Int) else k).natAbs = k := by cases s <;> simp
    have hexponent : e.toNat ≤ 971 := Int.toNat_le.2 hx.2
    have hlimit : ∀ d, d ≤ 971 → 53 + d ≤ digitLimit := by
      intro d hd
      unfold digitLimit
      omega
    rw [hnat]
    calc k ≤ m * Binary64.twoPow e.toNat := hk
      _ < Binary64.twoPow 53 * Binary64.twoPow e.toNat :=
        Nat.mul_lt_mul_of_pos_right hx.1.lt (Binary64.twoPow_pos _)
      _ = Binary64.twoPow (53 + e.toNat) := (Binary64.twoPow_add _ _).symm
      _ ≤ 10 ^ (53 + e.toNat) := Nat.pow_le_pow_left (by omega) _
      _ ≤ 10 ^ digitLimit := Nat.pow_le_pow_right (by omega) (hlimit _ hexponent)
  | infinite | nan => cases h

theorem Bounded.exists_literal {n : Number} (h : n.Bounded) : ∃ s, n.literal = .ok s := by
  cases n with
  | int n => exact exists_integerText h
  | float x =>
    rw [literal]
    split
    · next k hk => exact exists_integerText (natAbs_lt_of_toInt? h hk)
    · exact ⟨_, rfl⟩

end PlatformGame.Number
