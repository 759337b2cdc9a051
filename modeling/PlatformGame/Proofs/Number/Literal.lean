import PlatformGame.Proofs.Draft.Literals

/-! # Which number tokens are read

A number token has no white space, no underscores and no exponent, so only its length can be wrong:
it is read (`Number.exists_ofLiteral`) unless it is an integer of more than `digitLimit` digits
(`Number.Overlong.ofLiteral_eq`). -/

namespace PlatformGame

open Source

/-- The characters of number tokens. -/
def isLiteralChar (c : Char) : Bool := c.isDigit || c == '.' || c == '-'

theorem toNat_of_isLiteralChar {c : Char} (h : isLiteralChar c = true) :
    45 ≤ c.toNat ∧ c.toNat ≤ 57 := by
  simp only [isLiteralChar, Bool.or_eq_true, beq_iff_eq] at h
  rcases h with (h | rfl) | rfl
  · simp only [Char.isDigit, Bool.and_eq_true, decide_eq_true_eq, ge_iff_le,
      UInt32.le_iff_toNat_le] at h
    change 48 ≤ c.toNat ∧ c.toNat ≤ 57 at h
    omega
  · decide
  · decide

theorem isLiteralChar_of_isDecimal {cs : List Char} (h : IsDecimal cs) :
    ∀ c ∈ cs, isLiteralChar c = true := by
  have hdigit {c : Char} (hc : c.isDigit = true) : isLiteralChar c = true := by
    rw [isLiteralChar, hc, Bool.true_or, Bool.true_or]
  intro c hc
  rcases h with h | ⟨whole, fraction, hwhole, hfraction, rfl⟩
  · exact hdigit (h.2 c hc)
  · rcases List.mem_append.1 hc with hc | hc
    · exact hdigit (hwhole.2 c hc)
    · rcases List.mem_cons.1 hc with rfl | hc
      · rfl
      · exact hdigit (hfraction.2 c hc)

theorem isLiteralChar_of_isNumber {cs : List Char} (h : IsNumber cs) :
    ∀ c ∈ cs, isLiteralChar c = true := by
  rcases h with h | ⟨ds, h, rfl⟩
  · exact isLiteralChar_of_isDecimal h
  · exact List.forall_mem_cons.2 ⟨rfl, isLiteralChar_of_isDecimal h⟩

namespace Number

/-! ## Characters of tokens -/

section

variable {cs : List Char} (h : ∀ c ∈ cs, isLiteralChar c = true)

include h

theorem map_plainChar : cs.map plainChar = cs := by
  have hplain : cs.map plainChar = cs.map id := List.map_congr_left fun c hc => by
    have := toNat_of_isLiteralChar (h c hc)
    rw [plainChar, if_pos (by omega), id_eq]
  rw [hplain, List.map_id]

theorem dropWhile_isLiteralSpace : cs.dropWhile isLiteralSpace = cs := by
  cases cs with
  | nil => rfl
  | cons c cs =>
    have hc := toNat_of_isLiteralChar (h c List.mem_cons_self)
    have hspace : isLiteralSpace c = false := by
      have hne : c ≠ ' ' := by
        rintro rfl
        exact absurd hc (by decide)
      simp only [isLiteralSpace, Bool.or_eq_false_iff, Bool.and_eq_false_iff,
        decide_eq_false_iff_not, beq_eq_false_iff_ne]
      exact ⟨.inr (by omega), hne⟩
    rw [List.dropWhile_cons, hspace, if_neg Bool.false_ne_true]

theorem ne_underscore : ∀ c ∈ cs, c ≠ '_' := by
  rintro c hc rfl
  exact absurd (h _ hc) (by decide)

theorem dropUnderscores_eq_self : dropUnderscores cs = cs :=
  List.filter_eq_self.2 fun c hc => bne_iff_ne.2 (ne_underscore h c hc)

theorem groupsDigits_of_isLiteralChar {before : Char} (hb : before ≠ '_') :
    groupsDigits before cs = true := by
  induction cs generalizing before with
  | nil => simpa [groupsDigits] using hb
  | cons c cs ih =>
    have hc := ne_underscore h c List.mem_cons_self
    rw [List.forall_mem_cons] at h
    simp [groupsDigits, hb, ih h.2 hc]

end

/-- The sign of a number token is split off. -/
theorem exists_splitSign {cs : List Char} (h : IsNumber cs) :
    ∃ negative body, splitSign cs = (negative, body) ∧ IsDecimal body ∧
      (cs = body ∨ cs = '-' :: body) := by
  rcases h with h | ⟨ds, h, rfl⟩
  · refine ⟨false, cs, ?_, h, .inl rfl⟩
    obtain ⟨c, ds, rfl, hc⟩ := h.exists_cons
    unfold splitSign
    split
    · next heq =>
      cases heq
      exact absurd hc (by decide)
    · next heq =>
      cases heq
      exact absurd hc (by decide)
    · rfl
  · exact ⟨true, ds, rfl, h, .inr rfl⟩

/-! ## Integers -/

def digitsIn (text : String) : Nat := text.toList.countP Char.isDigit

/-- An integer literal with more digits than are read. -/
def Overlong (text : String) : Prop := '.' ∉ text.toList ∧ digitLimit < digitsIn text

instance (text : String) : Decidable (Overlong text) := inferInstanceAs (Decidable (_ ∧ _))

/-- The digits of an integer token, and the sign in front of them. -/
theorem exists_digits {cs : List Char} (h : IsNumber cs) (hpoint : '.' ∉ cs) :
    ∃ negative ds, splitSign cs = (negative, ds) ∧ IsDigits ds ∧
      cs.countP Char.isDigit = ds.length := by
  obtain ⟨negative, body, hsplit, hbody, hcs⟩ := exists_splitSign h
  have hdigits : IsDigits body := by
    rcases hbody with hbody | ⟨whole, fraction, -, -, rfl⟩
    · exact hbody
    · refine absurd ?_ hpoint
      rcases hcs with rfl | rfl <;> simp
  have hcount : body.countP Char.isDigit = body.length := List.countP_eq_length.2 hdigits.2
  refine ⟨negative, body, hsplit, hdigits, ?_⟩
  rcases hcs with rfl | rfl
  · exact hcount
  · rw [List.countP_cons_of_neg (by decide), hcount]

theorem integerOf_eq {text : String} (h : IsNumber text.toList) (hpoint : '.' ∉ text.toList) :
    ∃ m, m.natAbs < 10 ^ digitsIn text ∧ integerOf text =
      if digitLimit < digitsIn text then .error (.tooLong (digitsIn text)) else .ok m := by
  obtain ⟨negative, ds, hsplit, hdigits, hcount⟩ := exists_digits h hpoint
  have hchars := isLiteralChar_of_isNumber h
  have hplain := isLiteralChar_of_isDecimal (.inl hdigits)
  have hrun : ∀ c ∈ ds, (c.isDigit || c == '_') = true := fun c hc => by
    rw [hdigits.2 c hc, Bool.true_or]
  have hspan : Split.span (fun c => c.isDigit || c == '_') (ds ++ []) = ⟨ds, []⟩ :=
    span_append hrun (by simp)
  simp only [Split.span, List.append_nil, Split.mk.injEq] at hspan
  have hempty : ds.isEmpty = false := List.isEmpty_eq_false_iff.2 hdigits.1
  refine ⟨if negative then -(natOfDigits ds : Int) else natOfDigits ds, ?_, ?_⟩
  · have hvalue : (if negative then -(natOfDigits ds : Int) else natOfDigits ds).natAbs =
        natOfDigits ds := by
      cases negative <;> simp
    rw [hvalue, digitsIn, hcount]
    exact natOfDigits_lt hdigits.2
  · simp only [integerOf, map_plainChar hchars, dropWhile_isLiteralSpace hchars, hsplit, hspan,
      dropUnderscores_eq_self hplain, groupsDigits_of_isLiteralChar hplain (by decide : ' ' ≠ '_'),
      digitsIn, hcount, hempty]
    rfl

/-! ## Fractions -/

theorem exists_fractionalOf {text : String} (h : IsNumber text.toList)
    (hpoint : '.' ∈ text.toList) : ∃ x, fractionalOf text = .ok x := by
  obtain ⟨negative, body, hsplit, hbody, hcs⟩ := exists_splitSign h
  have hchars := isLiteralChar_of_isNumber h
  have hback : text.toList.reverse.dropWhile isLiteralSpace = text.toList.reverse :=
    dropWhile_isLiteralSpace (by simpa using hchars)
  rcases hbody with hbody | ⟨whole, fraction, hwhole, hfraction, rfl⟩
  · have hnone : '.' ∉ body := fun hmem => absurd (hbody.2 _ hmem) (by decide)
    refine absurd hpoint ?_
    rcases hcs with hcs | hcs <;> simp [hcs, hnone]
  · have hspan : Split.span Char.isDigit (whole ++ '.' :: fraction) = ⟨whole, '.' :: fraction⟩ :=
      span_append hwhole.2 (by simp)
    have htail : Split.span Char.isDigit (fraction ++ []) = ⟨fraction, []⟩ :=
      span_append hfraction.2 (by simp)
    simp only [Split.span, List.append_nil, Split.mk.injEq] at hspan htail
    have hempty : whole.isEmpty = false := List.isEmpty_eq_false_iff.2 hwhole.1
    refine ⟨scaled negative (whole ++ fraction) (0 - fraction.length), ?_⟩
    simp only [fractionalOf, map_plainChar hchars, dropWhile_isLiteralSpace hchars, hback,
      List.reverse_reverse, dropUnderscores_eq_self hchars, hsplit, hspan, htail, hempty,
      groupsDigits_of_isLiteralChar hchars (by decide : ' ' ≠ '_'), exponentOf?]
    rfl

/-! ## Tokens -/

theorem Overlong.ofLiteral_eq {text : String} (hlong : Overlong text) (h : IsNumber text.toList) :
    ofLiteral text = .error (.tooLong (digitsIn text)) := by
  obtain ⟨m, -, hm⟩ := integerOf_eq h hlong.1
  rw [ofLiteral, if_neg (by simpa using hlong.1), hm, if_pos hlong.2]
  rfl

theorem exists_ofLiteral {text : String} (h : IsNumber text.toList) (hshort : ¬ Overlong text) :
    ∃ n, ofLiteral text = .ok n := by
  by_cases hpoint : '.' ∈ text.toList
  · obtain ⟨x, hx⟩ := exists_fractionalOf h hpoint
    refine ⟨float x, ?_⟩
    rw [ofLiteral, if_pos (by simpa using hpoint), hx]
    rfl
  · obtain ⟨m, -, hm⟩ := integerOf_eq h hpoint
    refine ⟨int m, ?_⟩
    rw [ofLiteral, if_neg (by simpa using hpoint), hm, if_neg fun hlong => hshort ⟨hpoint, hlong⟩]
    rfl

end Number

end PlatformGame
