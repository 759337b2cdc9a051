import PlatformGame.Draft.Assemble
import PlatformGame.Proofs.Source.Lexeme
import Mathlib.Algebra.Group.Nat.Defs

/-! # Writing literals

The string literal of a text is read as that text (`Draft.unquote_literal`), and the decimal of an
integer is read as that integer (`Number.ofLiteral_decimal`). The integers for which this works are
exactly those that literals without a point have for values (`Number.whole_of_ofLiteral`): a literal
has at most `digitLimit` digits. -/

namespace PlatformGame

open Source

variable {c : Char} {cs : List Char}

/-! ## Strings -/

namespace Text

/-- A character of a string literal, with a backslash in front if it needs one. -/
def escapeChar (c : Char) : List Char :=
  if c = '\\' ∨ c = '"' then ['\\', c] else if c = '\n' then ['\\', 'n'] else [c]

def escape (cs : List Char) : List Char := cs.flatMap escapeChar

/-- The string literal of a text. -/
def literal (s : String) : String := String.ofList ('"' :: (escape s.toList ++ ['"']))

theorem stringBody_escape (cs : List Char) : StringBody (escape cs) := by
  induction cs with
  | nil => exact .nil
  | cons c cs ih =>
    rw [escape, List.flatMap_cons, escapeChar]
    split
    · next h =>
      refine .escape ?_ ih
      rcases h with rfl | rfl <;> decide
    · next h =>
      rw [not_or] at h
      split
      · exact .escape (by decide) ih
      · next hline => exact .plain h.2 h.1 hline ih

theorem isString_literal (s : String) : IsString (literal s).toList :=
  ⟨_, stringBody_escape s.toList, by rw [literal, String.toList_ofList]⟩

end Text

namespace Draft

open Text

theorem unescape_cons (hc : c ≠ '\\') (cs : List Char) : unescape (c :: cs) = c :: unescape cs := by
  cases cs <;> simp [unescape, hc]

theorem unescape_escape (cs : List Char) : unescape (escape cs) = cs := by
  induction cs with
  | nil => rfl
  | cons c cs ih =>
    rw [escape, List.flatMap_cons, escapeChar, ← escape]
    split
    · next h => rcases h with rfl | rfl <;> simp [unescape, ih]
    · next h =>
      rw [not_or] at h
      split
      · next hline => simp [unescape, ih, hline]
      · rw [List.singleton_append, unescape_cons h.1, ih]

theorem unquote_literal (s : String) : unquote (literal s) = s := by
  simp [unquote, literal, unescape_escape]

end Draft

/-! ## Integers -/

namespace Number

/-- Integers are written in decimal. -/
def decimal : Number → String
  | int n => (if n < 0 then "-" else "") ++ Nat.repr n.natAbs
  | float x => x.text

/-- An integer of at most as many digits as are read. -/
def Whole (n : Number) : Prop := ∃ m : Int, n = .int m ∧ m.natAbs < 10 ^ digitLimit

theorem natOfDigits_append (cs : List Char) (c : Char) :
    natOfDigits (cs ++ [c]) = natOfDigits cs * 10 + (c.toNat - 48) := by
  simp [natOfDigits]

theorem toNat_sub_lt (h : c.isDigit = true) : c.toNat - 48 < 10 := by
  simp only [Char.isDigit, Bool.and_eq_true, decide_eq_true_eq, ge_iff_le,
    UInt32.le_iff_toNat_le] at h
  change 48 ≤ c.toNat ∧ c.toNat ≤ 57 at h
  omega

theorem natOfDigits_lt (h : ∀ c ∈ cs, c.isDigit = true) : natOfDigits cs < 10 ^ cs.length := by
  -- from the back, since the last digit is added last
  have back : ∀ ds : List Char, (∀ c ∈ ds.reverse, c.isDigit = true) →
      natOfDigits ds.reverse < 10 ^ ds.length := by
    intro ds
    induction ds with
    | nil => exact fun _ => by decide
    | cons d ds ih =>
      intro h
      rw [List.reverse_cons, List.forall_mem_append] at h
      have hd := toNat_sub_lt (h.2 d List.mem_cons_self)
      have hds := ih h.1
      rw [List.reverse_cons, natOfDigits_append, List.length_cons, Nat.pow_succ]
      omega
  simpa using back cs.reverse (by simpa using h)

theorem natOfDigits_toDigits (n : Nat) : natOfDigits (Nat.toDigits 10 n) = n := by
  have heq : ∀ (cs : List Char) (m : Nat), cs.foldl (fun n c => n * 10 + (c.toNat - 48)) m =
      Nat.ofDigitChars 10 cs m := by
    intro cs m
    simp only [Nat.ofDigitChars, Nat.mul_comm 10]
    rfl
  rw [natOfDigits, heq, Nat.ofDigitChars_toDigits (by decide) (by decide)]

theorem isDigit_of_mem_dropUnderscores
    (h : c ∈ dropUnderscores (cs.takeWhile fun c => c.isDigit || c == '_')) : c.isDigit = true := by
  obtain ⟨hmem, hne⟩ := List.mem_filter.1 h
  have hc := List.all_eq_true.1 List.all_takeWhile c hmem
  simp only [bne_iff_ne, ne_eq] at hne
  simpa [hne] using hc

/-- Too many digits are not read. -/
theorem natAbs_lt_of_integerOf {text : String} {m : Int} (h : integerOf text = .ok m) :
    m.natAbs < 10 ^ digitLimit := by
  simp only [integerOf] at h
  generalize splitSign _ = signed at h
  generalize hds : dropUnderscores _ = ds at h
  have hdigits : natOfDigits ds < 10 ^ ds.length := natOfDigits_lt fun c hc =>
    isDigit_of_mem_dropUnderscores (hds ▸ hc)
  split at h
  · cases h
  · split at h
    · cases h
    · next hlen =>
      split at h
      · cases h
      · have hpow : 10 ^ ds.length ≤ 10 ^ digitLimit :=
          Nat.pow_le_pow_right (by decide) (Nat.le_of_not_lt hlen)
        have hlt := Nat.lt_of_lt_of_le hdigits hpow
        cases h
        split
        · rwa [Int.natAbs_neg, Int.natAbs_natCast]
        · rwa [Int.natAbs_natCast]

theorem whole_of_ofLiteral {text : String} {n : Number} (hpoint : '.' ∉ text.toList)
    (h : ofLiteral text = .ok n) : n.Whole := by
  rw [ofLiteral, if_neg (by simpa using hpoint)] at h
  cases hm : integerOf text with
  | error e =>
    rw [hm] at h
    cases h
  | ok m =>
    rw [hm] at h
    cases h
    exact ⟨m, rfl, natAbs_lt_of_integerOf hm⟩

/-! ### Decimals -/

/-- The characters of a decimal: digits, after a minus sign if it is negative. -/
theorem toList_decimal (m : Int) : (decimal (.int m)).toList =
    (if m < 0 then ['-'] else []) ++ Nat.toDigits 10 m.natAbs := by
  rw [decimal, Nat.repr_eq_ofList_toDigits]
  split <;> simp

theorem isDigits_toDigits (n : Nat) : IsDigits (Nat.toDigits 10 n) :=
  ⟨Nat.toDigits_ne_nil, fun _ hc => Nat.isDigit_of_mem_toDigits (by decide) (by decide) hc⟩

theorem isNumber_decimal (m : Int) : IsNumber (decimal (.int m)).toList := by
  have hdigits : IsDecimal (Nat.toDigits 10 m.natAbs) := .inl (isDigits_toDigits _)
  rw [toList_decimal]
  split
  · exact .inr ⟨_, hdigits, rfl⟩
  · exact .inl hdigits

theorem groupsDigits_of_isDigit (h : ∀ c ∈ cs, c.isDigit = true) {before : Char}
    (hb : before ≠ '_') : groupsDigits before cs = true := by
  induction cs generalizing before with
  | nil => simpa [groupsDigits] using hb
  | cons c cs ih =>
    rw [List.forall_mem_cons] at h
    have hc : c ≠ '_' := by
      rintro rfl
      exact absurd h.1 (by decide)
    simp [groupsDigits, hb, ih h.2 hc]

theorem plainChar_of_isDigit (h : c.isDigit = true) : plainChar c = c := by
  simp only [Char.isDigit, Bool.and_eq_true, decide_eq_true_eq, ge_iff_le, UInt32.le_iff_toNat_le]
    at h
  change 48 ≤ c.toNat ∧ c.toNat ≤ 57 at h
  rw [plainChar, if_pos (by omega)]

/-- Digits have no sign, and no white space stands in front of them. -/
theorem splitSign_digits (h : IsDigits cs) :
    splitSign (cs.dropWhile isLiteralSpace) = (false, cs) := by
  obtain ⟨hne, hcs⟩ := h
  cases cs with
  | nil => exact absurd rfl hne
  | cons c cs =>
    have hc := hcs c List.mem_cons_self
    have hspace : isLiteralSpace c = false := by
      rw [Bool.eq_false_iff]
      intro hs
      simp only [isLiteralSpace, Bool.or_eq_true, Bool.and_eq_true, decide_eq_true_eq,
        beq_iff_eq] at hs
      simp only [Char.isDigit, Bool.and_eq_true, decide_eq_true_eq, ge_iff_le,
        UInt32.le_iff_toNat_le] at hc
      change 48 ≤ c.toNat ∧ c.toNat ≤ 57 at hc
      rcases hs with hs | rfl
      · omega
      · exact absurd hc (by decide)
    rw [List.dropWhile_cons, hspace]
    unfold splitSign
    split
    · next heq =>
      cases heq
      exact absurd hc (by decide)
    · next heq =>
      cases heq
      exact absurd hc (by decide)
    · rfl

theorem splitSign_decimal (m : Int) :
    splitSign (((decimal (.int m)).toList.map plainChar).dropWhile isLiteralSpace) =
      (decide (m < 0), Nat.toDigits 10 m.natAbs) := by
  have hdigits := isDigits_toDigits m.natAbs
  have hplain : (Nat.toDigits 10 m.natAbs).map plainChar = (Nat.toDigits 10 m.natAbs).map id :=
    List.map_congr_left fun c hc => plainChar_of_isDigit (hdigits.2 c hc)
  rw [toList_decimal, List.map_append, hplain, List.map_id]
  by_cases hm : m < 0
  · simp [hm, plainChar, isLiteralSpace, splitSign]
  · simp [hm, splitSign_digits hdigits]

theorem integerOf_decimal {m : Int} (h : m.natAbs < 10 ^ digitLimit) :
    integerOf (decimal (.int m)) = .ok m := by
  have hdigits := isDigits_toDigits m.natAbs
  have hrun : ∀ c ∈ Nat.toDigits 10 m.natAbs, (c.isDigit || c == '_') = true := fun c hc => by
    simp [hdigits.2 c hc]
  have hspan : Split.span (fun c => c.isDigit || c == '_') (Nat.toDigits 10 m.natAbs ++ []) =
      ⟨Nat.toDigits 10 m.natAbs, []⟩ := span_append hrun (by simp)
  simp only [Split.span, List.append_nil, Split.mk.injEq] at hspan
  have hline : dropUnderscores (Nat.toDigits 10 m.natAbs) = Nat.toDigits 10 m.natAbs := by
    refine List.filter_eq_self.2 fun c hc => ?_
    rw [bne_iff_ne]
    rintro rfl
    exact absurd (hdigits.2 _ hc) (by decide)
  have hlen : ¬ digitLimit < (Nat.toDigits 10 m.natAbs).length := by
    rw [Nat.not_lt, Nat.length_toDigits_le_iff (by decide) (by decide)]
    exact h
  have hgroups := groupsDigits_of_isDigit hdigits.2 (by decide : ' ' ≠ '_')
  simp only [integerOf, splitSign_decimal, hspan, hline, hgroups, if_neg hlen,
    natOfDigits_toDigits]
  have hempty : (Nat.toDigits 10 m.natAbs).isEmpty = false := by
    simp
  have hvalue : (if decide (m < 0) = true then -(m.natAbs : Int) else m.natAbs) = m := by
    simp only [decide_eq_true_eq]
    split <;> omega
  rw [hempty, hvalue]
  rfl

theorem ofLiteral_decimal {n : Number} (h : n.Whole) : ofLiteral n.decimal = .ok n := by
  obtain ⟨m, rfl, hm⟩ := h
  have hpoint : '.' ∉ (decimal (.int m)).toList := by
    rw [toList_decimal]
    intro hmem
    rcases List.mem_append.1 hmem with hmem | hmem
    · split at hmem <;> simp at hmem
    · exact absurd ((isDigits_toDigits _).2 _ hmem) (by decide)
  rw [ofLiteral, if_neg (by simpa using hpoint), integerOf_decimal hm]
  rfl

end Number

end PlatformGame
