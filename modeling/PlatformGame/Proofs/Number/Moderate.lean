import PlatformGame.Proofs.Number.Literal
import PlatformGame.Proofs.Number.Rounding

/-! # Numbers of moderate size

An integer of at most 300 digits is far from the greatest fractional number: it is taken as a
fractional number, and so is its half (`Number.Moderate.exists_toBinary64`,
`Number.Moderate.exists_half`). Literals of at most 300 characters stand for such numbers
(`Number.exists_moderate`). -/

namespace PlatformGame

namespace Binary64

/-- The exponent for a quotient below two to the power of 1023 can still be raised by one. -/
theorem exponentFor_lt {num den : Nat} (hnum : num ≠ 0) (hden : den ≠ 0)
    (h : num < den * twoPow 1023) : exponentFor num den < greatestExponent := by
  have hfit := fitting_exponentFor hnum hden
  have hlimit : mantissaLimit = 2 * twoPow 52 := rfl
  have hsmall : quotient num den greatestExponent < twoPow 52 := by
    have hsize : twoPow 1023 = twoPow 971 * twoPow 52 := twoPow_add 971 52
    refine Nat.div_lt_of_lt_mul ?_
    change num < den * twoPow 971 * twoPow 52
    rwa [Nat.mul_assoc, ← hsize]
  -- with the greatest exponent or a greater one, fewer than 53 digits would be left
  by_contra hge
  have hquotient := (quotient_antitone num den (Int.not_lt.1 hge)).trans_lt hsmall
  rcases hfit.full with hfull | hleast
  · omega
  · rw [hleast] at hge
    exact hge (by decide)

/-- Rounding a quotient below two to the power of 1023 does not overflow. -/
theorem round_ne_infinite (s t : Bool) {num den : Nat} (hden : den ≠ 0)
    (h : num < den * twoPow 1023) : round s num den ≠ infinite t := by
  unfold round
  split
  · exact fun heq => by cases heq
  · next hnum =>
    have hexponent := exponentFor_lt hnum hden h
    dsimp only
    generalize roundDiv _ _ = m
    by_cases hlimit : m = mantissaLimit
    · rw [if_pos hlimit, if_neg (Int.not_lt.2 hexponent)]
      exact fun heq => by cases heq
    · rw [if_neg hlimit, if_neg (Int.not_lt.2 hexponent.le)]
      exact fun heq => by cases heq

theorem exists_ofInt? {n : Int} (h : n.natAbs < twoPow 1023) : ∃ x, ofInt? n = some x := by
  unfold ofInt?
  split
  · next heq => exact absurd heq (round_ne_infinite _ _ Nat.one_ne_zero (by rwa [Nat.one_mul]))
  · exact ⟨_, rfl⟩

theorem exists_halfOfInt? {n : Int} (h : n.natAbs < twoPow 1023) :
    ∃ x, halfOfInt? n = some x := by
  unfold halfOfInt?
  split
  · next heq => exact absurd heq (round_ne_infinite _ _ (by decide) (by omega))
  · exact ⟨_, rfl⟩

end Binary64

namespace Number

/-- Literals of this many characters stand for numbers of moderate size. -/
def moderateLength : Nat := 300

/-- An integer of at most `moderateLength` digits, or any fractional number. -/
def Moderate : Number → Prop
  | int n => n.natAbs < 10 ^ moderateLength
  | float x => x.Bounded

theorem ten_pow_lt : 10 ^ moderateLength < Binary64.twoPow 1023 := by
  have hthousands (k : Nat) : 10 ^ (3 * k) ≤ Binary64.twoPow (10 * k) := by
    change 10 ^ (3 * k) ≤ 2 ^ (10 * k)
    rw [Nat.pow_mul, Nat.pow_mul]
    exact Nat.pow_le_pow_left (by decide) k
  have hpow {m n : Nat} (h : m < n) : Binary64.twoPow m < Binary64.twoPow n :=
    Nat.pow_lt_pow_right (by decide) h
  have hlength : moderateLength = 3 * 100 := rfl
  rw [hlength]
  exact (hthousands 100).trans_lt (hpow (by decide))

theorem moderate_int {n : Int} (h : n.natAbs < 10 ^ 3) : (Number.int n).Moderate := by
  have hlength : 3 ≤ moderateLength := by decide
  exact h.trans_le (Nat.pow_le_pow_right (by decide) hlength)

theorem Moderate.bounded {n : Number} (h : n.Moderate) : n.Bounded := by
  cases n with
  | int n =>
    have hlimit : moderateLength ≤ digitLimit := by decide
    exact lt_of_lt_of_le h (Nat.pow_le_pow_right (by decide) hlimit)
  | float x => exact h

theorem Moderate.exists_toBinary64 {n : Number} (h : n.Moderate) : ∃ x, n.toBinary64 = .ok x := by
  cases n with
  | int n =>
    obtain ⟨x, hx⟩ := Binary64.exists_ofInt? (lt_trans h ten_pow_lt)
    exact ⟨x, by rw [toBinary64, hx]⟩
  | float x => exact ⟨x, rfl⟩

theorem Moderate.exists_half {n : Number} (h : n.Moderate) : ∃ x, n.half = .ok x := by
  cases n with
  | int n =>
    obtain ⟨x, hx⟩ := Binary64.exists_halfOfInt? (lt_trans h ten_pow_lt)
    exact ⟨x, by rw [half, hx]⟩
  | float x => exact ⟨_, rfl⟩

/-- Moving a number by a moderate distance leaves it in range. -/
theorem Moderate.bounded_shift {n : Number} (h : n.Moderate) {k : Int}
    (hk : (Number.int k).Moderate) : (n.shift k).Bounded := by
  cases n with
  | int n =>
    have hn : n.natAbs < 10 ^ moderateLength := h
    have hk : k.natAbs < 10 ^ moderateLength := hk
    have hlimit : moderateLength + 1 ≤ digitLimit := by decide
    calc (n + k).natAbs ≤ n.natAbs + k.natAbs := Int.natAbs_add_le n k
      _ < 10 ^ moderateLength * 10 := by omega
      _ = 10 ^ (moderateLength + 1) := by rw [Nat.pow_succ]
      _ ≤ 10 ^ digitLimit := Nat.pow_le_pow_right (by decide) hlimit
  | float x => exact Binary64.bounded_add _ _

/-- An integer has no more digits than its token. -/
theorem natAbs_lt_of_ofLiteral {text : String} (h : Source.IsNumber text.toList) {m : Int}
    (hread : ofLiteral text = .ok (.int m)) : m.natAbs < 10 ^ digitsIn text := by
  unfold ofLiteral at hread
  split at hread
  · obtain ⟨x, -, hx⟩ := map_eq_ok.1 hread
    cases hx
  · next hpoint =>
    obtain ⟨m', hlt, hm'⟩ := integerOf_eq h (by simpa using hpoint)
    obtain ⟨k, hk, hint⟩ := map_eq_ok.1 hread
    cases hint
    rw [hm'] at hk
    split at hk
    · cases hk
    · cases hk
      exact hlt

/-- A number token of at most `moderateLength` characters is read as a number of moderate size. -/
theorem exists_moderate {text : String} (h : Source.IsNumber text.toList)
    (hlen : text.length ≤ moderateLength) : ∃ n, ofLiteral text = .ok n ∧ n.Moderate := by
  have hdigits : digitsIn text ≤ moderateLength := List.countP_le_length.trans hlen
  have hlimit : moderateLength ≤ digitLimit := by decide
  obtain ⟨n, hn⟩ := exists_ofLiteral h fun hlong =>
    Nat.not_lt.2 (hdigits.trans hlimit) hlong.2
  refine ⟨n, hn, ?_⟩
  cases n with
  | int m =>
    exact (natAbs_lt_of_ofLiteral h hn).trans_le (Nat.pow_le_pow_right (by decide) hdigits)
  | float x => exact bounded_of_ofLiteral hn

end Number

end PlatformGame
