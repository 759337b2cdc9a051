import PlatformGame.Data.Json
import PlatformGame.Proofs.Number.Shortest
import Mathlib.Data.List.Chain

/-! # The form of numbers

A finite number is written as a numeric literal: digits, a fraction and an exponent, the last two
not always, with a minus sign in front if the number is negative (`Number.exists_numeric`). What is
not finite is written as a word. In both there is no minus sign next to another one
(`Number.exists_magnitude`). -/

namespace PlatformGame

open Source

variable {cs ds : List Char} {s : String} {n : Number}

/-! ## Minus signs -/

/-- No two minus signs stand next to each other. -/
def Undoubled (cs : List Char) : Prop := cs.IsChain fun c d => ¬ (c = '-' ∧ d = '-')

theorem Undoubled.of_notMem (h : '-' ∉ cs) : Undoubled cs := by
  induction cs with
  | nil => exact .nil
  | cons c cs ih =>
    rw [List.mem_cons, not_or] at h
    exact List.isChain_cons.2 ⟨fun _ _ hd => h.1 hd.1.symm, ih h.2⟩

theorem Undoubled.append (hc : Undoubled cs) (hd : Undoubled ds)
    (hends : cs.getLast? ≠ some '-' ∨ ds.head? ≠ some '-') : Undoubled (cs ++ ds) := by
  refine List.isChain_append.2 ⟨hc, hd, ?_⟩
  rintro c hlast d hhead ⟨rfl, rfl⟩
  exact hends.elim (· hlast) (· hhead)

/-- A text in which no minus sign is doubled, and none is first or last. -/
structure Magnitude (cs : List Char) : Prop where
  ne_nil : cs ≠ []
  undoubled : Undoubled cs
  head : cs.head? ≠ some '-'
  last : cs.getLast? ≠ some '-'

namespace Magnitude

theorem of_notMem (hne : cs ≠ []) (h : '-' ∉ cs) : Magnitude cs where
  ne_nil := hne
  undoubled := .of_notMem h
  head hmem := h (List.mem_of_mem_head? hmem)
  last hmem := h (List.mem_of_getLast? hmem)

theorem append (hc : Magnitude cs) (hd : Magnitude ds) : Magnitude (cs ++ ds) where
  ne_nil := List.append_ne_nil_of_left_ne_nil hc.ne_nil ds
  undoubled := hc.undoubled.append hd.undoubled (.inl hc.last)
  head := by
    rw [List.head?_append_of_ne_nil _ hc.ne_nil]
    exact hc.head
  last := by
    rw [List.getLast?_append_of_ne_nil _ hd.ne_nil]
    exact hd.last

theorem append_of_eq_nil_or (hc : Magnitude cs) (hd : ds = [] ∨ Magnitude ds) :
    Magnitude (cs ++ ds) := by
  rcases hd with rfl | hd
  · rwa [List.append_nil]
  · exact hc.append hd

end Magnitude

theorem minus_notMem_of_isDigit (h : ∀ c ∈ cs, c.isDigit = true) : '-' ∉ cs :=
  fun hmem => absurd (h _ hmem) (by decide)

/-! ## Numeric literals -/

/-- A numeric literal without a sign. The exponent has a sign, and `true` stands for minus. -/
structure Numeric where
  whole : List Char
  fraction : List Char
  exponent : Option (Bool × List Char)
  whole_digits : IsDigits whole
  fraction_digits : ∀ c ∈ fraction, c.isDigit = true
  exponent_digits : ∀ e ∈ exponent, IsDigits e.2

namespace Numeric

def fractionText : List Char → List Char
  | [] => []
  | ds => '.' :: ds

def exponentText : Option (Bool × List Char) → List Char
  | none => []
  | some (negative, ds) => 'e' :: (if negative then '-' else '+') :: ds

def text (n : Numeric) : List Char :=
  n.whole ++ (fractionText n.fraction ++ exponentText n.exponent)

theorem fractionText_of_ne_nil (h : ds ≠ []) : fractionText ds = '.' :: ds := by
  cases ds with
  | nil => exact absurd rfl h
  | cons d ds => rfl

/-- The first digit is not zero, unless it is the only one in front of the point. -/
def Strict (n : Numeric) : Prop := n.whole = ['0'] ∨ n.whole.head? ≠ some '0'

def power : Option (Bool × List Char) → Int
  | none => 0
  | some (negative, ds) =>
    if negative then -(Number.natOfDigits ds : Int) else Number.natOfDigits ds

def value (n : Numeric) : ℚ :=
  Number.natOfDigits (n.whole ++ n.fraction) * 10 ^ (power n.exponent - n.fraction.length)

theorem value_mk {whole fraction : List Char} {exponent : Option (Bool × List Char)}
    (hw : IsDigits whole) (hf : ∀ c ∈ fraction, c.isDigit = true)
    (he : ∀ e ∈ exponent, IsDigits e.2) : (mk whole fraction exponent hw hf he).value =
      Number.natOfDigits (whole ++ fraction) * 10 ^ (power exponent - fraction.length) := rfl

theorem magnitude_text (n : Numeric) : Magnitude n.text := by
  have hwhole : Magnitude n.whole :=
    .of_notMem n.whole_digits.1 (minus_notMem_of_isDigit n.whole_digits.2)
  have hfraction : fractionText n.fraction = [] ∨ Magnitude (fractionText n.fraction) := by
    cases hf : n.fraction with
    | nil => exact .inl rfl
    | cons d ds =>
      refine .inr (.of_notMem (List.cons_ne_nil '.' _) fun hmem => ?_)
      rcases List.mem_cons.1 hmem with hmem | hmem
      · exact absurd hmem (by decide)
      · exact minus_notMem_of_isDigit n.fraction_digits (hf ▸ hmem)
  have hexponent : exponentText n.exponent = [] ∨ Magnitude (exponentText n.exponent) := by
    cases he : n.exponent with
    | none => exact .inl rfl
    | some e =>
      obtain ⟨negative, ds⟩ := e
      have hds := n.exponent_digits _ he
      have hmem := minus_notMem_of_isDigit hds.2
      refine .inr ⟨List.cons_ne_nil 'e' _, ?_, by simp [exponentText], ?_⟩
      · refine List.isChain_cons.2 ⟨fun _ _ h => absurd h.1 (by decide), ?_⟩
        refine List.isChain_cons.2 ⟨fun d hd h => hmem ?_, Undoubled.of_notMem hmem⟩
        exact h.2 ▸ List.mem_of_mem_head? hd
      · rw [exponentText, List.getLast?_cons_cons, List.getLast?_cons_of_ne_nil hds.1]
        exact fun h => hmem (List.mem_of_getLast? h)
  rw [text, ← List.append_assoc]
  exact (hwhole.append_of_eq_nil_or hfraction).append_of_eq_nil_or hexponent

end Numeric

theorem natOfDigits_zero_cons (cs : List Char) :
    Number.natOfDigits ('0' :: cs) = Number.natOfDigits cs := rfl

theorem natOfDigits_replicate_append (n : Nat) (cs : List Char) :
    Number.natOfDigits (List.replicate n '0' ++ cs) = Number.natOfDigits cs := by
  induction n with
  | zero => rfl
  | succ n ih => rw [List.replicate_succ, List.cons_append, natOfDigits_zero_cons, ih]

theorem natOfDigits_append_replicate (cs : List Char) (n : Nat) :
    Number.natOfDigits (cs ++ List.replicate n '0') = Number.natOfDigits cs * 10 ^ n := by
  induction n with
  | zero => simp
  | succ n ih =>
    rw [List.replicate_succ', ← List.append_assoc, Number.natOfDigits_append, ih, Nat.pow_succ,
      Nat.mul_assoc]
    rfl

/-- Only zero is written with a zero in front. -/
theorem head?_toDigits {n : Nat} (h : n ≠ 0) : (Nat.toDigits 10 n).head? ≠ some '0' := by
  intro hhead
  obtain ⟨rest, hrest⟩ := List.head?_eq_some_iff.1 hhead
  have hdigits := (Number.isDigits_toDigits n).2
  rw [hrest, List.forall_mem_cons] at hdigits
  have hvalue := Number.natOfDigits_toDigits n
  rw [hrest, natOfDigits_zero_cons] at hvalue
  have hlt : n < 10 ^ rest.length := hvalue ▸ Number.natOfDigits_lt hdigits.2
  cases rest with
  | nil => exact h (by simpa using hlt)
  | cons c rest =>
    have hlen := (Nat.length_toDigits_le_iff (by decide) (by simp)).2 hlt
    rw [hrest, List.length_cons] at hlen
    omega

theorem isDigits_repr (n : Nat) : IsDigits (Nat.repr n).toList := by
  rw [Nat.repr_eq_ofList_toDigits, String.toList_ofList]
  exact Number.isDigits_toDigits n

theorem head?_repr {n : Nat} (h : n ≠ 0) : (Nat.repr n).toList.head? ≠ some '0' := by
  rw [Nat.repr_eq_ofList_toDigits, String.toList_ofList]
  exact head?_toDigits h

theorem isDigits_append (hc : IsDigits cs) (hd : ∀ d ∈ ds, d.isDigit = true) :
    IsDigits (cs ++ ds) :=
  ⟨List.append_ne_nil_of_left_ne_nil hc.1 ds, List.forall_mem_append.2 ⟨hc.2, hd⟩⟩

namespace Decimal

theorem isDigit_zeros (n : Nat) : ∀ c ∈ (zeros n).toList, c.isDigit = true := by
  intro c hc
  rw [zeros, String.toList_ofList] at hc
  rw [List.eq_of_mem_replicate hc]
  rfl

theorem toList_zeros (n : Nat) : (zeros n).toList = List.replicate n '0' := String.toList_ofList ..

/-! A decimal is written as a numeric literal in one of four forms. -/

section

variable {digits : List Char} {point : Int}

/-- Digits that are written as a numeric literal with the point moved, without a needless zero in
front if there is none in the digits. -/
def Written (digits : List Char) (point : Int) (cs : List Char) : Prop :=
  ∃ n : Numeric, cs = n.text ∧
    n.value = Number.natOfDigits digits * 10 ^ (point - digits.length) ∧
    (digits.head? ≠ some '0' → n.Strict)

theorem written_below (h : IsDigits digits) (hpoint : point ≤ 0) :
    Written digits point ("0.".toList ++ (zeros (-point).toNat).toList ++ digits) := by
  refine ⟨⟨['0'], (zeros (-point).toNat).toList ++ digits, none, isDigits_zero,
    List.forall_mem_append.2 ⟨isDigit_zeros _, h.2⟩, nofun⟩, ?_, ?_, fun _ => .inl rfl⟩
  · rw [Numeric.text, Numeric.fractionText_of_ne_nil (List.append_ne_nil_of_right_ne_nil _ h.1)]
    simp [Numeric.exponentText]
  · refine (Numeric.value_mk ..).trans ?_
    rw [List.singleton_append, natOfDigits_zero_cons, toList_zeros, natOfDigits_replicate_append]
    congr 2
    rw [Numeric.power, List.length_append, List.length_replicate]
    omega

theorem written_whole (h : IsDigits digits) (hpoint : digits.length ≤ point) :
    Written digits point
      (digits ++ (zeros (point - digits.length).toNat).toList ++ ".0".toList) := by
  refine ⟨⟨digits ++ (zeros (point - digits.length).toNat).toList, ['0'], none,
    isDigits_append h (isDigit_zeros _), isDigits_zero.2, nofun⟩, ?_, ?_, fun hhead => .inr ?_⟩
  · simp [Numeric.text, Numeric.fractionText, Numeric.exponentText]
  · refine (Numeric.value_mk ..).trans ?_
    have hsize : ((point - digits.length).toNat : Int) = point - digits.length :=
      Int.toNat_of_nonneg (by omega)
    rw [toList_zeros, List.append_assoc, ← List.replicate_succ', natOfDigits_append_replicate,
      Nat.cast_mul, Nat.cast_pow, ← zpow_natCast, mul_assoc, Nat.cast_ofNat,
      ← zpow_add₀ (by norm_num), Nat.cast_succ, hsize]
    simp [Numeric.power]
  · rwa [List.head?_append_of_ne_nil _ h.1]

theorem written_split (h : IsDigits digits) (hpos : 0 < point) (hpoint : point < digits.length) :
    Written digits point
      (digits.take point.toNat ++ ".".toList ++ digits.drop point.toNat) := by
  have hne : point.toNat ≠ 0 := by omega
  have htake : digits.take point.toNat ≠ [] := by
    simp [hne, h.1]
  have hdrop : digits.drop point.toNat ≠ [] := by
    rw [Ne, List.drop_eq_nil_iff]
    omega
  refine ⟨⟨digits.take point.toNat, digits.drop point.toNat, none,
    ⟨htake, fun c hc => h.2 c (List.mem_of_mem_take hc)⟩,
    fun c hc => h.2 c (List.mem_of_mem_drop hc), nofun⟩, ?_, ?_, fun hhead => .inr ?_⟩
  · rw [Numeric.text, Numeric.fractionText_of_ne_nil hdrop]
    simp [Numeric.exponentText]
  · refine (Numeric.value_mk ..).trans ?_
    rw [List.take_append_drop, Numeric.power, List.length_drop]
    congr 2
    omega
  · rwa [List.head?_take, if_neg hne]

theorem written_scientific {c : Char} {rest : List Char} (h : IsDigits (c :: rest)) (point : Int) :
    Written (c :: rest) point (c :: (Numeric.fractionText rest ++ Numeric.exponentText
      (some (decide (point - 1 < 0), List.replicate (2 - (Nat.repr (point - 1).natAbs).length) '0'
        ++ (Nat.repr (point - 1).natAbs).toList)))) := by
  rw [IsDigits, List.forall_mem_cons] at h
  have hsize := isDigits_repr (point - 1).natAbs
  have hvalue : Number.natOfDigits (Nat.repr (point - 1).natAbs).toList = (point - 1).natAbs := by
    rw [Nat.repr_eq_ofList_toDigits, String.toList_ofList, Number.natOfDigits_toDigits]
  generalize Nat.repr (point - 1).natAbs = size at hsize hvalue
  refine ⟨⟨[c], rest, _, ⟨List.cons_ne_nil c [], List.forall_mem_singleton.2 h.2.1⟩, h.2.2, ?_⟩,
    rfl, ?_, .inr⟩
  · rintro e ⟨⟩
    refine ⟨List.append_ne_nil_of_right_ne_nil _ hsize.1, List.forall_mem_append.2 ⟨?_, hsize.2⟩⟩
    rw [← toList_zeros]
    exact isDigit_zeros _
  · refine (Numeric.value_mk ..).trans ?_
    rw [Numeric.power, natOfDigits_replicate_append, hvalue, List.singleton_append,
      List.length_cons]
    congr 2
    split
    · next hneg =>
      rw [decide_eq_true_iff] at hneg
      omega
    · next hneg =>
      rw [decide_eq_true_iff] at hneg
      omega

end

theorem written_text (d : Decimal) :
    Written (Nat.repr d.digits).toList d.point d.text.toList := by
  have hdigits := isDigits_repr d.digits
  dsimp only [text]
  generalize (Nat.repr d.digits).toList = digits at hdigits
  have hlist (cs : List Char) : (String.ofList cs).toList = cs := String.toList_ofList
  split
  · split
    · next hpoint =>
      rw [String.toList_append, String.toList_append, hlist digits]
      exact written_below hdigits hpoint
    · next hpos =>
      split
      · next hcount =>
        rw [String.toList_append, String.toList_append, hlist digits]
        exact written_whole hdigits hcount
      · next hcount =>
        rw [String.toList_append, String.toList_append, hlist (digits.take _),
          hlist (digits.drop _)]
        exact written_split hdigits (Int.lt_of_not_ge hpos) (Int.lt_of_not_ge hcount)
  · cases digits with
    | nil => exact absurd rfl hdigits.1
    | cons c rest =>
      have h := written_scientific hdigits d.point
      cases rest <;> by_cases hneg : d.point - 1 < 0 <;>
        simpa [Numeric.fractionText, Numeric.exponentText, hneg, toList_zeros] using h

/-- A decimal is written as a numeric literal of its quantity, with no needless zero in front unless
all its digits are zero. -/
theorem exists_numeric (d : Decimal) :
    ∃ n : Numeric, d.text.toList = n.text ∧ n.value = d.value ∧ (d.digits ≠ 0 → n.Strict) := by
  obtain ⟨n, htext, hvalue, hstrict⟩ := d.written_text
  refine ⟨n, htext, hvalue.trans ?_, fun hne => hstrict (head?_repr hne)⟩
  rw [Nat.repr_eq_ofList_toDigits, String.toList_ofList, Number.natOfDigits_toDigits]
  rfl

end Decimal

/-- A natural number as a numeric literal. -/
def Numeric.ofNat (n : Nat) : Numeric where
  whole := Nat.toDigits 10 n
  fraction := []
  exponent := none
  whole_digits := Number.isDigits_toDigits n
  fraction_digits := nofun
  exponent_digits := nofun

theorem Numeric.text_ofNat (n : Nat) : (ofNat n).text = Nat.toDigits 10 n := List.append_nil _

theorem Numeric.strict_ofNat (n : Nat) : (ofNat n).Strict := by
  by_cases h : n = 0
  · subst h
    exact .inl rfl
  · exact .inr (head?_toDigits h)

theorem Numeric.value_ofNat (n : Nat) : (ofNat n).value = n := by
  simp [value, ofNat, power, Number.natOfDigits_toDigits]

/-- A minus sign in front of negative numbers. -/
def signText (negative : Bool) : List Char := if negative then ['-'] else []

theorem toList_integerText {n : Int} (h : integerText n = .ok s) :
    s.toList = signText (decide (n < 0)) ++ (Numeric.ofNat n.natAbs).text := by
  dsimp only [integerText] at h
  split at h
  · cases h
  · rw [← Except.ok.inj h, Numeric.text_ofNat, signText, Nat.repr_eq_ofList_toDigits]
    by_cases hn : n < 0 <;> simp [hn]

namespace Binary64

theorem digits_shortest_ne_zero {m : Nat} {e : Int} (hm : m ≠ 0) (hfit : Fitting m e) :
    (shortest m e).digits ≠ 0 := by
  intro hzero
  have hpos := (roundsTo_shortest hm hfit).pos hm
  rw [Decimal.value, hzero, Nat.cast_zero, zero_mul] at hpos
  exact lt_irrefl _ hpos

/-- A value is written as a numeric literal that rounds to it. -/
theorem exists_numeric_textWith (s : Bool) (m : Nat) (e : Int) (infinity nanWord : String) :
    ∃ n : Numeric, ((finite s m e).textWith infinity nanWord).toList = signText s ++ n.text ∧
      (Fitting m e → n.Strict ∧ RoundsTo m e n.value) := by
  have hsign : (if s then "-" else "" : String).toList = signText s := by cases s <;> rfl
  rw [textWith, String.toList_append, hsign]
  by_cases hm : m = 0
  · subst hm
    rw [if_pos rfl, String.toList_ofList]
    refine ⟨⟨['0'], ['0'], none, isDigits_zero, isDigits_zero.2, nofun⟩, rfl,
      fun _ => ⟨.inl rfl, ?_⟩⟩
    rw [Numeric.value_mk, show Number.natOfDigits (['0'] ++ ['0']) = 0 from rfl, Nat.cast_zero,
      zero_mul]
    simpa using roundsTo_self 0 e
  · obtain ⟨n, hn, hvalue, hstrict⟩ := (shortest m e).exists_numeric
    rw [if_neg hm, hn]
    exact ⟨n, rfl, fun hfit => ⟨hstrict (digits_shortest_ne_zero hm hfit),
      hvalue ▸ roundsTo_shortest hm hfit⟩⟩

end Binary64

namespace Number

def isFinite : Number → Bool
  | int _ => true
  | float (.finite ..) => true
  | float _ => false

/-- Below zero; a zero has no sign. -/
def isNegative : Number → Bool
  | int n => n < 0
  | float (.finite s m _) => s && m != 0
  | float (.infinite s) => s
  | float .nan => false

/-- Any integer, or a value in the range of fractional numbers. -/
def InRange : Number → Prop
  | int _ => True
  | float x => x.Bounded

/-- A quantity that is the size of an integer, or rounds to that of a fractional number. -/
def HasSize : Number → ℚ → Prop
  | int n, v => v = n.natAbs
  | float (.finite _ m e), v => Binary64.RoundsTo m e v
  | float _, _ => False

/-- A fractional number that is an integer has the sign of that integer. -/
theorem isNegative_of_toInt? {x : Binary64} {n : Int} (h : x.toInt? = some n) :
    isNegative (float x) = decide (n < 0) := by
  cases x with
  | finite s m e =>
    obtain ⟨k, rfl, hzero, -⟩ := Binary64.exists_of_toInt? h
    have hbne : (m != 0) = !decide (k = 0) := by
      rw [Bool.eq_iff_iff]
      simp [hzero]
    cases s <;> simp [isNegative, hbne, Nat.pos_iff_ne_zero]
  | infinite | nan => cases h

theorem exists_numeric (hfin : n.isFinite = true) (h : n.literal = .ok s) :
    ∃ num : Numeric, s.toList = signText n.isNegative ++ num.text ∧
      (n.InRange → num.Strict ∧ n.HasSize num.value) := by
  cases n with
  | int k =>
    exact ⟨.ofNat k.natAbs, toList_integerText h,
      fun _ => ⟨Numeric.strict_ofNat _, Numeric.value_ofNat _⟩⟩
  | float x =>
    cases x with
    | finite negative m e =>
      rw [literal] at h
      split at h
      · next k hk =>
        rw [isNegative_of_toInt? hk]
        refine ⟨.ofNat k.natAbs, toList_integerText h, fun _ => ⟨Numeric.strict_ofNat _, ?_⟩⟩
        rw [Numeric.value_ofNat, HasSize, Binary64.cast_natAbs_of_toInt? hk]
        exact Binary64.roundsTo_self m e
      · next hnone =>
        cases h
        obtain ⟨num, htext, hnum⟩ := Binary64.exists_numeric_textWith negative m e "inf" "nan"
        have hm : m ≠ 0 := by
          rintro rfl
          have hsome := Binary64.toInt?_zero negative e
          rw [hnone] at hsome
          cases hsome
        refine ⟨num, ?_, fun hrange => hnum hrange.1⟩
        rw [Binary64.text, htext, isNegative, bne_iff_ne.2 hm, Bool.and_true]
    | infinite | nan => cases hfin

/-- Of a number that is not finite, a word is written. -/
theorem exists_magnitude (h : n.literal = .ok s) :
    ∃ cs, s.toList = signText n.isNegative ++ cs ∧ Magnitude cs := by
  cases hfin : n.isFinite with
  | true =>
    obtain ⟨num, hs, -⟩ := exists_numeric hfin h
    exact ⟨num.text, hs, num.magnitude_text⟩
  | false =>
    cases n with
    | int k => cases hfin
    | float x =>
      cases x with
      | finite => cases hfin
      | infinite s =>
        cases h
        refine ⟨['i', 'n', 'f'], ?_, .of_notMem (by decide) (by decide)⟩
        cases s <;> rfl
      | nan =>
        cases h
        exact ⟨['n', 'a', 'n'], rfl, .of_notMem (by decide) (by decide)⟩

end Number

/-- Numbers of payloads are written in the same way. -/
theorem Json.exists_magnitude (h : numberLiteral n = .ok s) :
    ∃ negative cs, s.toList = signText negative ++ cs ∧ Magnitude cs := by
  cases n with
  | int k => exact ⟨_, _, toList_integerText h, Numeric.magnitude_text _⟩
  | float x =>
    cases h
    cases x with
    | finite s m e =>
      obtain ⟨num, htext, -⟩ := Binary64.exists_numeric_textWith s m e "Infinity" "NaN"
      exact ⟨s, num.text, htext, num.magnitude_text⟩
    | infinite s =>
      refine ⟨s, ['I', 'n', 'f', 'i', 'n', 'i', 't', 'y'], ?_, .of_notMem (by decide) (by decide)⟩
      cases s <;> rfl
    | nan => exact ⟨false, ['N', 'a', 'N'], rfl, .of_notMem (by decide) (by decide)⟩

end PlatformGame
