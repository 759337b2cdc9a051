import PlatformGame.Proofs.Number.Form

/-! # Reading JSON

A reader of JSON values, with `Infinity` and `-Infinity` as further numbers. White space may stand
between all parts. A number with a fraction or an exponent is a fractional number, the value nearest
to it; any other is an integer. A text holds characters and UTF-16 units, of which the two halves of
a pair have to stand side by side.

What is read here of the text of one number (`readNumber_text`) and of one text
(`exists_readText`) is what was written. -/

namespace PlatformGame.Json

open Text

variable {rest : List Char}

/-! ## White space -/

def isWhite (c : Char) : Bool := c == ' ' || c == '\t' || c == '\n' || c == '\r'

def skipWhite (cs : List Char) : List Char := cs.dropWhile isWhite

/-! ## Texts -/

def hexValue? (c : Char) : Option Nat :=
  if c.isDigit then some (c.toNat - 48)
  else if 97 ≤ c.toNat ∧ c.toNat ≤ 102 then some (c.toNat - 87)
  else if 65 ≤ c.toNat ∧ c.toNat ≤ 70 then some (c.toNat - 55)
  else none

def hexNumber? (cs : List Char) : Option Nat :=
  cs.foldlM (fun n c => (hexValue? c).map (n * 16 + ·)) 0

/-- The character that a letter after a backslash stands for. -/
def escaped? : Char → Option Char
  | '"' => some '"'
  | '\\' => some '\\'
  | '/' => some '/'
  | 'b' => some '\x08'
  | 'f' => some '\x0c'
  | 'n' => some '\n'
  | 'r' => some '\r'
  | 't' => some '\t'
  | _ => none

/-- Characters and units up to the closing quote, as numbers. -/
def readUnits : List Char → Option (List Nat × List Char)
  | [] => none
  | '"' :: cs => some ([], cs)
  | '\\' :: 'u' :: a :: b :: c :: d :: cs =>
    match hexNumber? [a, b, c, d] with
    | some n => (readUnits cs).map fun (us, rest) => (n :: us, rest)
    | none => none
  | '\\' :: e :: cs =>
    match escaped? e with
    | some c => (readUnits cs).map fun (us, rest) => (c.toNat :: us, rest)
    | none => none
  | c :: cs =>
    if c = '\\' || c.toNat < 0x20 then none
    else (readUnits cs).map fun (us, rest) => (c.toNat :: us, rest)

def isHigh (n : Nat) : Bool := 0xd800 ≤ n && n < 0xdc00

def isLow (n : Nat) : Bool := 0xdc00 ≤ n && n < 0xe000

/-- Joins the two halves of each pair of units; a half on its own is no character. -/
def joinUnits : List Nat → Option (List Char)
  | [] => some []
  | [n] => if isHigh n || isLow n then none else some [Char.ofNat n]
  | n :: m :: us =>
    if isHigh n then
      if isLow m then
        (joinUnits us).map (Char.ofNat (0x10000 + (n - 0xd800) * 0x400 + (m - 0xdc00)) :: ·)
      else none
    else if isLow n then none
    else (joinUnits (m :: us)).map (Char.ofNat n :: ·)

/-- A text after its opening quote. -/
def readText (cs : List Char) : Option (String × List Char) :=
  match readUnits cs with
  | some (us, rest) => (joinUnits us).map fun cs => (String.ofList cs, rest)
  | none => none

/-! ## Numbers -/

/-- The digits after a point, if there is one. -/
def readFraction : List Char → Option (List Char × List Char)
  | '.' :: cs =>
    if (cs.takeWhile Char.isDigit).isEmpty then none
    else some (cs.takeWhile Char.isDigit, cs.dropWhile Char.isDigit)
  | cs => some ([], cs)

def readExponent : List Char → Option (Option Int × List Char)
  | [] => some (none, [])
  | c :: cs =>
    if c = 'e' || c = 'E' then
      let (negative, cs) := Number.splitSign cs
      let digits := cs.takeWhile Char.isDigit
      let size : Int := Number.natOfDigits digits
      if digits.isEmpty then none
      else some (some (if negative then -size else size), cs.dropWhile Char.isDigit)
    else some (none, c :: cs)

/-- A number without its sign: no zero stands in front of other digits. -/
def readUnsigned (negative : Bool) (cs : List Char) : Option (Number × List Char) :=
  let whole := cs.takeWhile Char.isDigit
  if whole.isEmpty || (whole.head? == some '0' && whole != ['0']) then none
  else
    match readFraction (cs.dropWhile Char.isDigit) with
    | none => none
    | some (fraction, cs) =>
      match readExponent cs with
      | none => none
      | some (exponent, cs) =>
        let digits := Number.natOfDigits (whole ++ fraction)
        if fraction.isEmpty && exponent.isNone then
          some (.int (if negative then -(digits : Int) else digits), cs)
        else
          some (.float (.ofDecimal negative digits (exponent.getD 0 - fraction.length)), cs)

def readNumber : List Char → Option (Number × List Char)
  | '-' :: cs => readUnsigned true cs
  | cs => readUnsigned false cs

/-! ## Values -/

def words : List (String × Json) :=
  [("null", .null), ("true", .bool true), ("false", .bool false),
    ("Infinity", .number (.float (.infinite false))),
    ("-Infinity", .number (.float (.infinite true)))]

def readWord (cs : List Char) : Option (Json × List Char) :=
  (words.find? fun (w, _) => w.toList.isPrefixOf cs).map fun (w, j) => (j, cs.drop w.length)

/-- Items with commas between them, up to the closing bracket. -/
def readSeries (item : List Char → Option (α × List Char)) (closing : Char) :
    (fuel : Nat) → List Char → Option (List α × List Char)
  | 0, _ => none
  | fuel + 1, cs =>
    match item cs with
    | none => none
    | some (x, cs) =>
      match skipWhite cs with
      | [] => none
      | c :: cs =>
        if c = closing then some ([x], cs)
        else if c = ',' then
          (readSeries item closing fuel cs).map fun (xs, rest) => (x :: xs, rest)
        else none

/-- The inside of a container after its opening bracket, which may be empty. There are no more items
than characters. -/
def readContainer (item : List Char → Option (α × List Char)) (closing : Char) (cs : List Char) :
    Option (List α × List Char) :=
  match skipWhite cs with
  | [] => none
  | c :: rest => if c = closing then some ([], rest) else readSeries item closing cs.length cs

def readMember (value : List Char → Option (Json × List Char)) (cs : List Char) :
    Option ((String × Json) × List Char) :=
  match skipWhite cs with
  | '"' :: cs =>
    match readText cs with
    | none => none
    | some (key, cs) =>
      match skipWhite cs with
      | ':' :: cs => (value cs).map fun (x, rest) => ((key, x), rest)
      | _ => none
  | _ => none

/-- A value inside at most the given number of containers. -/
def readValue : (depth : Nat) → List Char → Option (Json × List Char)
  | 0, _ => none
  | depth + 1, cs =>
    match skipWhite cs with
    | '"' :: cs => (readText cs).map fun (s, rest) => (.text s, rest)
    | '[' :: cs =>
      (readContainer (readValue depth) ']' cs).map fun (xs, rest) => (.list xs, rest)
    | '{' :: cs =>
      (readContainer (readMember (readValue depth)) '}' cs).map fun (ms, rest) =>
        (.object ms, rest)
    | cs => readWord cs <|> (readNumber cs).map fun (n, rest) => (.number n, rest)

/-- The value that a whole text is. -/
def read? (text : String) : Option Json :=
  match readValue text.length text.toList with
  | some (j, rest) => if (skipWhite rest).isEmpty then some j else none
  | none => none

/-! ## Reading a text back -/

theorem hexValue?_hexDigit : ∀ n < 16, hexValue? (hexDigit n) = some n := by decide

theorem hexNumber?_hexDigits {n : Nat} (h : n < 0x10000) : hexNumber? (hexDigits 4 n) = some n := by
  have hdigit (k : Nat) : hexValue? (hexDigit (k % 16)) = some (k % 16) :=
    hexValue?_hexDigit _ (Nat.mod_lt _ (by decide))
  simp only [hexNumber?, hexDigits, List.nil_append, List.cons_append, List.foldlM_cons,
    List.foldlM_nil, hdigit, Option.map_some, Option.bind_eq_bind, Option.bind_some,
    Option.pure_def, Option.some.injEq]
  omega

/-- The units of a character, one for each of its escapes. -/
def units (c : Char) : List Nat :=
  if c.toNat < 0x10000 then [c.toNat]
  else [0xd800 + (c.toNat - 0x10000) / 0x400, 0xdc00 + (c.toNat - 0x10000) % 0x400]

theorem readUnits_unit {n : Nat} (h : n < 0x10000) (cs : List Char) :
    readUnits (unit n ++ cs) = (readUnits cs).map fun (us, rest) => (n :: us, rest) := by
  have hhex := hexNumber?_hexDigits h
  simp only [hexDigits, List.nil_append, List.cons_append] at hhex
  simp only [unit, hexDigits, List.nil_append, List.cons_append, readUnits, hhex]

/-- No character is half of a pair. -/
theorem toNat_valid (c : Char) : c.toNat < 0xd800 ∨ 0xdfff < c.toNat ∧ c.toNat < 0x110000 :=
  c.valid

theorem readUnits_escapeChar (c : Char) (cs : List Char) :
    readUnits (escapeChar c ++ cs) =
      (readUnits cs).map fun (us, rest) => (units c ++ us, rest) := by
  have hone (h : c.toNat < 0x10000) : units c = [c.toNat] := if_pos h
  unfold escapeChar
  dsimp only
  split_ifs with hquote hslash hn hr ht hb hf hplain hsmall
  iterate 7
    · subst_vars
      simp [readUnits, escaped?, units]
  · rw [hone (by omega)]
    simp [readUnits, hslash, Nat.not_lt.2 hplain.1]
  · rw [hone hsmall, readUnits_unit hsmall]
    rfl
  · have hvalid := toNat_valid c
    rw [List.append_assoc, readUnits_unit (by omega), readUnits_unit (by omega), Option.map_map,
      units, if_neg hsmall]
    rfl

theorem joinUnits_units (c : Char) (us : List Nat) :
    joinUnits (units c ++ us) = (joinUnits us).map (c :: ·) := by
  have hvalid := toNat_valid c
  unfold units
  split
  · have hhigh : isHigh c.toNat = false := by simp [isHigh]; omega
    have hlow : isLow c.toNat = false := by simp [isLow]; omega
    cases us with
    | nil => simp [joinUnits, hhigh, hlow]
    | cons m us => simp [joinUnits, hhigh, hlow]
  · have hhigh : isHigh (0xd800 + (c.toNat - 0x10000) / 0x400) = true := by simp [isHigh]; omega
    have hlow : isLow (0xdc00 + (c.toNat - 0x10000) % 0x400) = true := by simp [isLow]; omega
    have hpair : 0x10000 + (0xd800 + (c.toNat - 0x10000) / 0x400 - 0xd800) * 0x400 +
        (0xdc00 + (c.toNat - 0x10000) % 0x400 - 0xdc00) = c.toNat := by omega
    rw [List.cons_append, List.singleton_append, joinUnits, if_pos hhigh, if_pos hlow, hpair,
      Char.ofNat_toNat]

theorem readUnits_flatMap (cs rest : List Char) :
    readUnits (cs.flatMap escapeChar ++ '"' :: rest) = some (cs.flatMap units, rest) := by
  induction cs with
  | nil => rfl
  | cons c cs ih => 
    rw [List.flatMap_cons, List.append_assoc, readUnits_escapeChar, ih]
    rfl

theorem joinUnits_flatMap (cs : List Char) : joinUnits (cs.flatMap units) = some cs := by
  induction cs with
  | nil => rfl
  | cons c cs ih =>
    rw [List.flatMap_cons, joinUnits_units, ih]
    rfl

theorem exists_readText (s : String) :
    ∃ body, (textLiteral s).toList = '"' :: body ∧
      ∀ rest, readText (body ++ rest) = some (s, rest) := by
  refine ⟨s.toList.flatMap escapeChar ++ ['"'], by simp [textLiteral], fun rest => ?_⟩
  rw [List.append_assoc, List.singleton_append, readText, readUnits_flatMap]
  simp [joinUnits_flatMap]

/-! ## Reading a number back -/

/-- Nothing that could be read as more of a number. -/
def Ends (rest : List Char) : Prop :=
  ∀ c ∈ rest.head?, c.isDigit = false ∧ c ≠ '.' ∧ c ≠ 'e' ∧ c ≠ 'E'

theorem span_digits {ds : List Char} (hds : ∀ c ∈ ds, c.isDigit = true)
    (hrest : ∀ c ∈ rest.head?, c.isDigit = false) :
    (ds ++ rest).takeWhile Char.isDigit = ds ∧ (ds ++ rest).dropWhile Char.isDigit = rest := by
  rw [List.takeWhile_append_of_pos hds, List.dropWhile_append_of_pos hds]
  cases rest with
  | nil => simp
  | cons c rest => simp [hrest c rfl]

theorem readFraction_fractionText {ds : List Char} (hds : ∀ c ∈ ds, c.isDigit = true)
    (hrest : ∀ c ∈ rest.head?, c.isDigit = false ∧ c ≠ '.') :
    readFraction (Numeric.fractionText ds ++ rest) = some (ds, rest) := by
  cases ds with
  | nil =>
    rw [Numeric.fractionText, List.nil_append]
    unfold readFraction
    split
    · exact absurd rfl (hrest '.' rfl).2
    · rfl
  | cons d ds =>
    obtain ⟨htake, hdrop⟩ := span_digits hds fun c hc => (hrest c hc).1
    rw [Numeric.fractionText_of_ne_nil (List.cons_ne_nil d ds), List.cons_append, readFraction,
      htake, hdrop]
    rfl

theorem readExponent_exponentText {e : Option (Bool × List Char)}
    (he : ∀ x ∈ e, Source.IsDigits x.2) (hrest : Ends rest) :
    readExponent (Numeric.exponentText e ++ rest) =
      some (e.map fun x => Numeric.power (some x), rest) := by
  cases e with
  | none =>
    cases rest with
    | nil => rfl
    | cons c rest =>
      obtain ⟨-, -, he, hE⟩ := hrest c rfl
      simp [Numeric.exponentText, readExponent, he, hE]
  | some x =>
    obtain ⟨negative, ds⟩ := x
    obtain ⟨hne, hdigits⟩ := he _ rfl
    obtain ⟨htake, hdrop⟩ := span_digits hdigits fun c hc => (hrest c hc).1
    cases negative <;>
      simp [Numeric.exponentText, readExponent, Number.splitSign, htake, hdrop, hne, Numeric.power]

end PlatformGame.Json

namespace PlatformGame

variable {rest : List Char} {n : Numeric}

/-- The number that a numeric literal is read as, with a sign. -/
def Numeric.number (n : Numeric) (negative : Bool) : Number :=
  if n.fraction.isEmpty && n.exponent.isNone then
    .int (if negative then -(Number.natOfDigits n.whole : Int) else Number.natOfDigits n.whole)
  else .float (.ofDecimal negative (Number.natOfDigits (n.whole ++ n.fraction))
    (power n.exponent - n.fraction.length))

namespace Json

theorem head?_fractionText_append (ds : List Char) {cs : List Char}
    (hcs : ∀ c ∈ cs.head?, c.isDigit = false) :
    ∀ c ∈ (Numeric.fractionText ds ++ cs).head?, c.isDigit = false := by
  cases ds with
  | nil => exact hcs
  | cons d ds =>
    rintro c ⟨⟩
    rfl

theorem head?_exponentText_append {e : Option (Bool × List Char)} (hrest : Ends rest) :
    ∀ c ∈ (Numeric.exponentText e ++ rest).head?, c.isDigit = false ∧ c ≠ '.' := by
  cases e with
  | none => exact fun c hc => ⟨(hrest c hc).1, (hrest c hc).2.1⟩
  | some x =>
    rintro c ⟨⟩
    exact ⟨rfl, by decide⟩

theorem readUnsigned_text (hs : n.Strict) (negative : Bool) (hrest : Ends rest) :
    readUnsigned negative (n.text ++ rest) = some (n.number negative, rest) := by
  have htail := head?_exponentText_append (e := n.exponent) hrest
  have hspan := span_digits n.whole_digits.2
    (head?_fractionText_append n.fraction fun c hc => (htail c hc).1)
  have hstrict : (n.whole.isEmpty || (n.whole.head? == some '0' && n.whole != ['0'])) = false := by
    have hne := n.whole_digits.1
    rcases hs with hs | hs <;> simp [hs, hne]
  have hfraction := readFraction_fractionText n.fraction_digits htail
  have hexponent := readExponent_exponentText n.exponent_digits hrest
  rw [Numeric.text, List.append_assoc, List.append_assoc, readUnsigned]
  simp only [hspan.1, hspan.2, hstrict, hfraction, hexponent, Bool.false_eq_true, if_false,
    Option.isNone_map]
  rw [Numeric.number]
  split
  · next hint =>
    rw [Bool.and_eq_true, List.isEmpty_iff] at hint
    rw [hint.1, List.append_nil]
  · have hpower : (n.exponent.map fun x => Numeric.power (some x)).getD 0 =
        Numeric.power n.exponent := by cases n.exponent <;> rfl
    rw [hpower]

theorem readNumber_text (hs : n.Strict) (negative : Bool) (hrest : Ends rest) :
    readNumber (signText negative ++ n.text ++ rest) = some (n.number negative, rest) := by
  cases negative with
  | true => exact readUnsigned_text hs true hrest
  | false =>
    obtain ⟨c, ds, hwhole⟩ := List.exists_cons_of_ne_nil n.whole_digits.1
    have hc : c.isDigit = true := n.whole_digits.2 c (hwhole ▸ List.mem_cons_self)
    have hread := readUnsigned_text hs false hrest
    rw [signText, if_neg Bool.false_ne_true, List.nil_append]
    rw [Numeric.text, hwhole, List.cons_append, List.cons_append] at hread ⊢
    unfold readNumber
    split
    · next heq =>
      cases heq
      cases hc
    · exact hread

end Json

/-! ## Numbers that can be written -/

/-- A number that can be written and read again: an integer that is not too long, or a value of
fractional numbers. -/
def Number.Writable : Number → Prop
  | int n => n.natAbs < 10 ^ digitLimit
  | float x => x.Bounded ∧ x ≠ .nan

/-- A fractional number has a point or an exponent. -/
theorem Decimal.mem_text (d : Decimal) : '.' ∈ d.text.toList ∨ 'e' ∈ d.text.toList := by
  dsimp only [text]
  split_ifs <;> simp

theorem Binary64.mem_textWith (s : Bool) (m : Nat) (e : Int) (infinity nanWord : String) :
    '.' ∈ ((finite s m e).textWith infinity nanWord).toList ∨
      'e' ∈ ((finite s m e).textWith infinity nanWord).toList := by
  rw [textWith, String.toList_append]
  by_cases hm : m = 0
  · rw [if_pos hm]
    exact .inl (List.mem_append_right _ (by simp))
  · rw [if_neg hm]
    exact (shortest m e).mem_text.imp (List.mem_append_right _) (List.mem_append_right _)

/-- Only fractions and exponents have such characters. -/
theorem Numeric.fractional_of_mem {negative : Bool}
    (h : '.' ∈ signText negative ++ n.text ∨ 'e' ∈ signText negative ++ n.text) :
    (n.fraction.isEmpty && n.exponent.isNone) = false := by
  by_contra hint
  rw [Bool.not_eq_false, Bool.and_eq_true, List.isEmpty_iff, Option.isNone_iff_eq_none] at hint
  have htext : n.text = n.whole := by
    rw [text, hint.1, hint.2]
    exact List.append_nil _
  have hnot {c : Char} (hc : c.isDigit = false) (hminus : c ≠ '-') :
      c ∉ signText negative ++ n.text := by
    rw [htext, List.mem_append, not_or]
    refine ⟨?_, fun hmem => ?_⟩
    · cases negative <;> simp [signText, hminus]
    · rw [n.whole_digits.2 c hmem] at hc
      cases hc
  exact h.elim (hnot rfl (by decide)) (hnot rfl (by decide))

theorem Binary64.ofDecimal_eq {s negative : Bool} {m : Nat} {e : Int} {digits : Nat}
    {exponent : Int} (hb : (finite s m e).Bounded) (h : RoundsTo m e (digits * 10 ^ exponent)) :
    ofDecimal negative digits exponent = finite negative m e := by
  unfold ofDecimal
  split
  · next hpos =>
    refine round_eq negative Nat.one_ne_zero hb.1 hb.2 ?_
    rw [Nat.cast_mul, cast_tenPow, Int.toNat_of_nonneg hpos]
    simpa using h
  · next hneg =>
    refine round_eq negative (tenPow_pos _).ne' hb.1 hb.2 ?_
    rw [cast_tenPow, Int.toNat_of_nonneg (by omega), zpow_neg, div_inv_eq_mul]
    exact h

/-- The text of a finite number is that of a numeric literal which is read as the number. -/
theorem Number.Writable.exists_numeric {n : Number} {s : String} (hn : n.Writable)
    (hfin : n.isFinite = true) (h : Json.numberLiteral n = .ok s) :
    ∃ (num : Numeric) (negative : Bool), s.toList = signText negative ++ num.text ∧ num.Strict ∧
      num.number negative = n := by
  cases n with
  | int k =>
    refine ⟨.ofNat k.natAbs, decide (k < 0), toList_integerText h, Numeric.strict_ofNat _, ?_⟩
    have hvalue : natOfDigits (Numeric.ofNat k.natAbs).whole = k.natAbs := natOfDigits_toDigits _
    rw [Numeric.number, hvalue]
    simp only [Numeric.ofNat, List.isEmpty_nil, Option.isNone_none, Bool.and_self, if_true,
      int.injEq, decide_eq_true_eq]
    split <;> omega
  | float x =>
    cases x with
    | infinite | nan => cases hfin
    | finite negative m e =>
      obtain ⟨num, htext, hnum⟩ := Binary64.exists_numeric_textWith negative m e "Infinity" "NaN"
      obtain ⟨hstrict, hrounds⟩ := hnum hn.1.1
      cases h
      refine ⟨num, negative, htext, hstrict, ?_⟩
      have hmem := Binary64.mem_textWith negative m e "Infinity" "NaN"
      rw [htext] at hmem
      rw [Numeric.number, Numeric.fractional_of_mem hmem, if_neg Bool.false_ne_true,
        Binary64.ofDecimal_eq hn.1 hrounds]

end PlatformGame
