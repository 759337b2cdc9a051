import PlatformGame.Proofs.Number.Form

/-! # What the text of a number means

A finite number is written as a literal that means it: the same integer, or a quantity of which the
number is the nearest fractional one. A number that is not finite is not written as a literal
(`Number.conveyed_literal`). -/

namespace PlatformGame

variable {n : Number} {negative : Bool} {s : String}

/-! ## Quantities -/

def withSign (negative : Bool) (v : ℚ) : ℚ := if negative then -v else v

namespace Binary64

/-- The quantity that a value is, if it is finite. -/
def quantity? : Binary64 → Option ℚ
  | finite s m e => some (withSign s (m * 2 ^ e))
  | infinite _ | nan => none

/-- The value nearest to a quantity. -/
def nearest (v : ℚ) : Binary64 := round (decide (v < 0)) v.num.natAbs v.den

theorem natAbs_num_div_den (v : ℚ) : (v.num.natAbs / v.den : ℚ) = |v| := by
  rw [← Rat.num_div_den |v|]
  simp

theorem abs_withSign (negative : Bool) {v : ℚ} (hv : 0 ≤ v) : |withSign negative v| = v := by
  cases negative
  · exact abs_of_nonneg hv
  · exact (abs_neg v).trans (abs_of_nonneg hv)

theorem nearest_withSign {s : Bool} {m : Nat} {e : Int} {v : ℚ} (hb : (finite s m e).Bounded)
    (hv : 0 ≤ v) (h : RoundsTo m e v) (negative : Bool) :
    nearest (withSign negative v) = finite (decide (withSign negative v < 0)) m e := by
  refine round_eq _ (Rat.den_ne_zero _) hb.1 hb.2 ?_
  rwa [natAbs_num_div_den, abs_withSign negative hv]

/-- What rounds to the size of a value is nearest to the value, whatever the sign of a zero. -/
theorem quantity?_nearest {s : Bool} {m : Nat} {e : Int} {v : ℚ} (hb : (finite s m e).Bounded)
    (hv : 0 ≤ v) (h : RoundsTo m e v) (hsign : m ≠ 0 → negative = s) :
    (nearest (withSign negative v)).quantity? = (finite s m e).quantity? := by
  rw [nearest_withSign hb hv h, quantity?, quantity?]
  by_cases hm : m = 0
  · simp [hm, withSign]
  · have hpos := h.pos hm
    have hneg : decide (withSign negative v < 0) = s := by
      rw [hsign hm]
      cases s <;> simp [withSign, hpos, hpos.le]
    rw [hneg]

end Binary64

theorem Numeric.value_nonneg (n : Numeric) : 0 ≤ n.value :=
  mul_nonneg (Nat.cast_nonneg _) (by positivity)

namespace Number

/-- A quantity stands for a number: it is the integer, or the fractional number is nearest to it. -/
def Means : Number → ℚ → Prop
  | int n, v => v = n
  | float x, v => ∃ w, x.quantity? = some w ∧ (Binary64.nearest v).quantity? = some w

def isZero : Number → Bool
  | int n => n == 0
  | float (.finite _ m _) => m == 0
  | float _ => false

/-- With the sign of the number, what has its size means it. -/
theorem HasSize.means {v : ℚ} (h : n.HasSize v) (hrange : n.InRange) (hv : 0 ≤ v)
    (hsign : n.isZero = false → negative = n.isNegative) : n.Means (withSign negative v) := by
  cases n with
  | int k =>
    rw [HasSize] at h
    rw [Means, h]
    by_cases hk : k = 0
    · simp [hk, withSign]
    · rw [hsign (by simpa [isZero] using hk), isNegative, withSign, Nat.cast_natAbs]
      split
      · next hneg =>
        rw [abs_of_neg (of_decide_eq_true hneg), Int.cast_neg, neg_neg]
      · next hneg =>
        rw [abs_of_nonneg (Int.not_lt.1 (mt decide_eq_true hneg))]
  | float x =>
    cases x with
    | finite s m e =>
      refine ⟨_, rfl, Binary64.quantity?_nearest hrange hv h fun hm => ?_⟩
      rw [hsign (by simpa [isZero] using hm), isNegative, bne_iff_ne.2 hm, Bool.and_true]
    | infinite | nan => exact h.elim

end Number

/-! ## Literals with a sign -/

/-- A numeric literal with at most one minus sign in front, and its quantity. -/
def SignedLiteral (cs : List Char) (v : ℚ) : Prop :=
  ∃ (negative : Bool) (num : Numeric), cs = signText negative ++ num.text ∧ num.Strict ∧
    v = withSign negative num.value

/-- A literal starts with a digit, or with a minus sign and a digit. -/
theorem SignedLiteral.exists_digit {cs : List Char} {v : ℚ} (h : SignedLiteral cs v) :
    ∃ negative c ds, cs = signText negative ++ c :: ds ∧ c.isDigit = true := by
  obtain ⟨negative, num, rfl, -, -⟩ := h
  obtain ⟨c, ds, hwhole⟩ := List.exists_cons_of_ne_nil num.whole_digits.1
  refine ⟨negative, c, _, by rw [Numeric.text, hwhole]; rfl, ?_⟩
  exact num.whole_digits.2 c (hwhole ▸ List.mem_cons_self)

/-- A finite number is written as a literal that means it, any other number not as a literal. -/
structure Number.Conveyed (n : Number) (cs : List Char) : Prop where
  literal : n.isFinite = true → ∃ v, SignedLiteral cs v ∧ n.Means v
  word : n.isFinite = false → ∀ v, ¬ SignedLiteral cs v

/-- The numbers that are not finite are written as words, perhaps with a minus sign. -/
theorem not_signedLiteral_of_word {c : Char} {ds : List Char} (hc : c.isDigit = false)
    (hminus : c ≠ '-') (v : ℚ) : ¬ SignedLiteral (signText negative ++ c :: ds) v := by
  intro h
  obtain ⟨negative', c', ds', heq, hdigit⟩ := h.exists_digit
  have hminus' : c' ≠ '-' := by
    rintro rfl
    cases hdigit
  cases negative <;> cases negative' <;> cases heq
  · rw [hc] at hdigit
    cases hdigit
  · exact hminus rfl
  · exact hminus' rfl
  · rw [hc] at hdigit
    cases hdigit

/-- Neither a digit nor a minus sign stands in front. -/
def StartsWord (s : String) : Prop := ∃ c cs, s.toList = c :: cs ∧ c.isDigit = false ∧ c ≠ '-'

theorem Binary64.not_signedLiteral_textWith {x : Binary64} {infinity nanWord : String}
    (hx : (Number.float x).isFinite = false) (hinfinity : StartsWord infinity)
    (hnan : StartsWord nanWord) (v : ℚ) :
    ¬ SignedLiteral (x.textWith infinity nanWord).toList v := by
  cases x with
  | finite => cases hx
  | infinite negative =>
    obtain ⟨c, cs, hcs, hc, hminus⟩ := hinfinity
    have hs : ((infinite negative).textWith infinity nanWord).toList =
        signText negative ++ c :: cs := by
      rw [textWith, String.toList_append, hcs]
      cases negative <;> rfl
    rw [hs]
    exact not_signedLiteral_of_word hc hminus v
  | nan =>
    obtain ⟨c, cs, hcs, hc, hminus⟩ := hnan
    rw [textWith, hcs]
    exact @not_signedLiteral_of_word false c cs hc hminus v

theorem Number.conveyed_literal (hrange : n.InRange) (h : n.literal = .ok s) :
    n.Conveyed s.toList where
  literal hfin := by
    obtain ⟨num, hs, hnum⟩ := exists_numeric hfin h
    obtain ⟨hstrict, hsize⟩ := hnum hrange
    exact ⟨_, ⟨n.isNegative, num, hs, hstrict, rfl⟩,
      hsize.means hrange num.value_nonneg fun _ => rfl⟩
  word hfin v := by
    cases n with
    | int k => cases hfin
    | float x =>
      have hwords := @Binary64.not_signedLiteral_textWith x "inf" "nan" hfin
        ⟨_, _, rfl, rfl, by decide⟩ ⟨_, _, rfl, rfl, by decide⟩ v
      cases x with
      | finite => cases hfin
      | infinite | nan =>
        cases h
        exact hwords

/-- A text is a literal for the number with its sign changed, if the number is finite and not below
zero, and no literal otherwise. -/
structure Number.Negated (n : Number) (cs : List Char) : Prop where
  literal : n.isFinite = true → n.isNegative = false → ∃ v, SignedLiteral cs (-v) ∧ n.Means v
  other : n.isFinite = false ∨ n.isNegative = true → ∀ v, ¬ SignedLiteral cs v

/-- After a minus sign, a literal has no sign of its own. -/
theorem exists_numeric_of_minus {cs : List Char} {v : ℚ} (h : SignedLiteral ('-' :: cs) v) :
    ∃ num : Numeric, cs = num.text ∧ num.Strict ∧ v = -num.value := by
  obtain ⟨negative, num, hcs, hstrict, hv⟩ := h
  cases negative with
  | true =>
    injection hcs with _ hcs
    exact ⟨num, hcs, hstrict, hv⟩
  | false =>
    refine absurd ?_ num.magnitude_text.head
    rw [show num.text = '-' :: cs from hcs.symm]
    rfl

/-- A minus sign in front of a number changes its sign only if it has none. -/
theorem Number.negated_minus_literal (hrange : n.InRange) (h : n.literal = .ok s) :
    n.Negated ('-' :: s.toList) where
  literal hfin hneg := by
    obtain ⟨num, hs, hnum⟩ := exists_numeric hfin h
    obtain ⟨hstrict, hsize⟩ := hnum hrange
    rw [hneg] at hs
    refine ⟨num.value, ⟨true, num, congrArg _ hs, hstrict, rfl⟩, ?_⟩
    exact hsize.means hrange num.value_nonneg fun _ => hneg.symm
  other hother v hminus := by
    obtain ⟨num, hs, hstrict, -⟩ := exists_numeric_of_minus hminus
    rcases hother with hfin | hneg
    · exact (conveyed_literal hrange h).word hfin _ ⟨false, num, hs, hstrict, rfl⟩
    · obtain ⟨cs, hcs, -⟩ := exists_magnitude h
      rw [hneg, hs] at hcs
      refine absurd ?_ num.magnitude_text.head
      rw [hcs]
      rfl

/-- Payloads write numbers in the same way. -/
theorem Json.conveyed_numberLiteral (hrange : n.InRange) (h : numberLiteral n = .ok s) :
    n.Conveyed s.toList := by
  cases n with
  | int k => exact Number.conveyed_literal hrange h
  | float x =>
    cases h
    refine ⟨fun hfin => ?_, fun hfin => ?_⟩
    · cases x with
      | infinite | nan => cases hfin
      | finite s m e =>
        obtain ⟨num, hs, hnum⟩ := Binary64.exists_numeric_textWith s m e "Infinity" "NaN"
        obtain ⟨hstrict, hround⟩ := hnum hrange.1
        have hsize : (Number.float (.finite s m e)).HasSize num.value := hround
        refine ⟨_, ⟨s, num, hs, hstrict, rfl⟩, hsize.means hrange num.value_nonneg fun hzero => ?_⟩
        rw [Number.isNegative, bne, show (m == 0) = false from hzero, Bool.not_false,
          Bool.and_true]
    · exact x.not_signedLiteral_textWith hfin ⟨_, _, rfl, rfl, by decide⟩
        ⟨_, _, rfl, rfl, by decide⟩

end PlatformGame
