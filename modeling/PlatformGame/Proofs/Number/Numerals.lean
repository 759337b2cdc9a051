import PlatformGame.Data.Json
import Mathlib.Tactic.SplitIfs

/-! # Characters of numbers

Whatever its size and form, the text of a number is made of a few characters: digits, the point,
the signs, the mark of the exponent, and the letters of what is not finite. -/

namespace PlatformGame

/-- The characters of numbers, and of the commas between them. -/
def isNumeral (c : Char) : Bool :=
  c.isDigit || ['.', '-', '+', ',', ' ', 'e', 'i', 'n', 'f', 'a', 't', 'y', 'I', 'N'].contains c

def Numerals (s : String) : Prop := ∀ c ∈ s.toList, isNumeral c = true

theorem numerals_ofList : Numerals (String.ofList cs) ↔ ∀ c ∈ cs, isNumeral c = true := by
  rw [Numerals, String.toList_ofList]

theorem numerals_of_all (h : cs.all isNumeral = true) : Numerals (String.ofList cs) :=
  numerals_ofList.2 (List.all_eq_true.1 h)

theorem Numerals.append (hs : Numerals s) (ht : Numerals t) : Numerals (s ++ t) := by
  intro c hc
  rw [String.toList_append, List.mem_append] at hc
  exact hc.elim (hs c) (ht c)

theorem isNumeral_of_mem_repr {n : Nat} (h : c ∈ (Nat.repr n).toList) : isNumeral c = true := by
  rw [Nat.repr_eq_ofList_toDigits, String.toList_ofList] at h
  have hdigit : c.isDigit = true := Nat.isDigit_of_mem_toDigits (by decide) (by decide) h
  rw [isNumeral, hdigit, Bool.true_or]

theorem numerals_integerText (h : integerText n = .ok s) : Numerals s := by
  have hdigits : Numerals (Nat.repr n.natAbs) := fun c hc => isNumeral_of_mem_repr hc
  have hsign : Numerals "-" := numerals_of_all rfl
  dsimp only [integerText] at h
  split at h
  · cases h
  · rw [← Except.ok.inj h]
    split
    · exact hsign.append hdigits
    · exact hdigits

namespace Decimal

theorem numerals_zeros (n : Nat) : Numerals (zeros n) :=
  numerals_ofList.2 fun c hc => List.eq_of_mem_replicate hc ▸ by decide

theorem numerals_text (d : Decimal) : Numerals d.text := by
  have hrepr (n : Nat) : Numerals (Nat.repr n) := fun c hc => isNumeral_of_mem_repr hc
  have hzero : Numerals "0." := numerals_of_all rfl
  have hpoint : Numerals "." := numerals_of_all rfl
  have hwhole : Numerals ".0" := numerals_of_all rfl
  have hexponent (b : Prop) [Decidable b] : Numerals (if b then "e-" else "e+") := by
    split
    · exact numerals_of_all rfl
    · exact numerals_of_all rfl
  have hdigits : ∀ c ∈ (Nat.repr d.digits).toList, isNumeral c = true := hrepr d.digits
  dsimp only [text]
  generalize (Nat.repr d.digits).toList = digits at hdigits
  split
  · split
    · exact (hzero.append (numerals_zeros _)).append (numerals_ofList.2 hdigits)
    · split
      · exact ((numerals_ofList.2 hdigits).append (numerals_zeros _)).append hwhole
      · have htake : Numerals (String.ofList (digits.take d.point.toNat)) :=
          numerals_ofList.2 fun c hc => hdigits c (List.mem_of_mem_take hc)
        have hdrop : Numerals (String.ofList (digits.drop d.point.toNat)) :=
          numerals_ofList.2 fun c hc => hdigits c (List.mem_of_mem_drop hc)
        exact (htake.append hpoint).append hdrop
  · refine ((Numerals.append ?_ (hexponent _)).append (numerals_zeros _)).append (hrepr _)
    split
    · exact numerals_ofList.2 hdigits
    · rw [List.forall_mem_cons] at hdigits
      refine numerals_ofList.2 (List.forall_mem_cons.2 ⟨hdigits.1, ?_⟩)
      exact List.forall_mem_cons.2 ⟨by decide, hdigits.2⟩
    · exact numerals_of_all rfl

end Decimal

theorem Binary64.numerals_textWith {infinity nanWord : String} (hinfinity : Numerals infinity)
    (hnan : Numerals nanWord) (x : Binary64) : Numerals (x.textWith infinity nanWord) := by
  have hsign (s : Bool) : Numerals (if s then "-" else "") := by
    cases s
    · exact numerals_of_all rfl
    · exact numerals_of_all rfl
  cases x with
  | finite s m e =>
    refine (hsign s).append ?_
    split_ifs
    · exact numerals_of_all rfl
    · exact Decimal.numerals_text _
  | infinite s => exact (hsign s).append hinfinity
  | nan => exact hnan

theorem Number.numerals_literal {n : Number} (h : n.literal = .ok s) : Numerals s := by
  cases n with
  | int n => exact numerals_integerText h
  | float x =>
    rw [literal] at h
    split at h
    · exact numerals_integerText h
    · cases h
      exact x.numerals_textWith (numerals_of_all rfl) (numerals_of_all rfl)

theorem Json.numerals_numberLiteral {n : Number} (h : numberLiteral n = .ok s) : Numerals s := by
  cases n with
  | int n => exact numerals_integerText h
  | float x =>
    cases h
    exact x.numerals_textWith (numerals_of_all rfl) (numerals_of_all rfl)

end PlatformGame
