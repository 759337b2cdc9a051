import PlatformGame.Proofs.Data.JsonReader
import PlatformGame.Proofs.Program.Holdings

/-! # Reading the long form of JSON

The long form of a value is read as the value, with the members of its objects in the order of their
keys (`Json.sorted`), if its numbers can be written; and then it has a long form, which is ASCII
(`Json.exists_pretty`). -/

namespace PlatformGame.Json

open Text

variable {ts : List (List Char)} {j : Json} {closing : Char} {c : Char}
  {t cs w w' : List Char}

/-! ## Members in order -/

theorem perm_insertMember (m : String × α) (ms : List (String × α)) :
    (insertMember m ms).Perm (m :: ms) := by
  induction ms with
  | nil => exact .refl _
  | cons n ms ih =>
    rw [insertMember]
    split
    · exact .refl _
    · exact (ih.cons n).trans (.swap m n ms)

theorem perm_sortMembers (ms : List (String × α)) : (sortMembers ms).Perm ms := by
  induction ms with
  | nil => exact .refl _
  | cons m ms ih => exact (perm_insertMember m _).trans (ih.cons m)

theorem lookup_insertMember {m : String × α} {ms : List (String × α)} (h : m.1 ∉ ms.map Prod.fst)
    (key : String) : (insertMember m ms).lookup key = (m :: ms).lookup key := by
  induction ms with
  | nil => rfl
  | cons n ms ih =>
    rw [List.map_cons, List.mem_cons, not_or] at h
    rw [insertMember]
    split
    · rfl
    · rw [List.lookup_cons, ih h.2, List.lookup_cons, List.lookup_cons, List.lookup_cons]
      by_cases hm : key = m.1
      · have hn : (key == n.1) = false := beq_eq_false_iff_ne.2 fun heq => h.1 (hm.symm.trans heq)
        rw [hn]
      · have hm : (key == m.1) = false := beq_eq_false_iff_ne.2 hm
        rw [hm]

/-- Where all keys differ, their order does not matter. -/
theorem lookup_sortMembers {ms : List (String × α)} (h : (ms.map Prod.fst).Nodup) (key : String) :
    (sortMembers ms).lookup key = ms.lookup key := by
  induction ms with
  | nil => rfl
  | cons m ms ih =>
    rw [List.map_cons, List.nodup_cons] at h
    have hm : m.1 ∉ (sortMembers ms).map Prod.fst := by
      rw [((perm_sortMembers ms).map Prod.fst).mem_iff]
      exact h.1
    rw [show sortMembers (m :: ms) = insertMember m (sortMembers ms) from rfl,
      lookup_insertMember hm, List.lookup_cons, List.lookup_cons, ih h.2]

theorem forall₂_insertMember {R : String × α → String × β → Prop}
    (hkey : ∀ a b, R a b → a.1 = b.1) {m : String × α} {n : String × β} (hmn : R m n)
    {ms : List (String × α)} {ns : List (String × β)} (h : List.Forall₂ R ms ns) :
    List.Forall₂ R (insertMember m ms) (insertMember n ns) := by
  induction h with
  | nil => exact .cons hmn .nil
  | @cons a b as bs hab hrest ih =>
    rw [insertMember, insertMember, hkey _ _ hmn, hkey _ _ hab]
    split
    · exact .cons hmn (.cons hab hrest)
    · exact .cons hab ih

/-- Members are put in order by their keys only. -/
theorem forall₂_sortMembers {R : String × α → String × β → Prop}
    (hkey : ∀ a b, R a b → a.1 = b.1) {ms : List (String × α)} {ns : List (String × β)}
    (h : List.Forall₂ R ms ns) : List.Forall₂ R (sortMembers ms) (sortMembers ns) := by
  induction h with
  | nil => exact .nil
  | cons hmn _ ih => exact forall₂_insertMember hkey hmn ih

mutual

/-- The value with the members of its objects in the order of their keys. -/
def sorted : Json → Json
  | null => null
  | bool b => bool b
  | number n => number n
  | text s => text s
  | list xs => list (sortedAll xs)
  | object ms => object (sortMembers (sortedMembers ms))

def sortedAll : List Json → List Json
  | [] => []
  | x :: xs => x.sorted :: sortedAll xs

def sortedMembers : List (String × Json) → List (String × Json)
  | [] => []
  | (k, x) :: ms => (k, x.sorted) :: sortedMembers ms

end

theorem sortedAll_eq_map (xs : List Json) : sortedAll xs = xs.map sorted := by
  induction xs with
  | nil => rfl
  | cons x xs ih => rw [sortedAll, ih, List.map_cons]

theorem sortedMembers_eq_map (ms : List (String × Json)) :
    sortedMembers ms = ms.map fun m => (m.1, m.2.sorted) := by
  induction ms with
  | nil => rfl
  | cons m ms ih => rw [sortedMembers, ih, List.map_cons]

/-! ## White space -/

theorem skipWhite_append (hw : ∀ c ∈ w, isWhite c = true) (cs : List Char) :
    skipWhite (w ++ cs) = skipWhite cs := List.dropWhile_append_of_pos hw

theorem skipWhite_cons (h : isWhite c = false) (cs : List Char) :
    skipWhite (c :: cs) = c :: cs := by
  simp [skipWhite, h]

theorem readValue_append (hw : ∀ c ∈ w, isWhite c = true) (depth : Nat) (cs : List Char) :
    readValue depth (w ++ cs) = readValue depth cs := by
  cases depth with
  | zero => rfl
  | succ depth => rw [readValue, readValue, skipWhite_append hw]

theorem readMember_append (hw : ∀ c ∈ w, isWhite c = true)
    (value : List Char → Option (Json × List Char)) (cs : List Char) :
    readMember value (w ++ cs) = readMember value cs := by
  rw [readMember, readMember, skipWhite_append hw]

/-! ## Reading what is written -/

/-- A text that is read as a value, whatever stands behind it. -/
structure Legible (cs : List Char) (j : Json) : Prop where
  starts : ∃ c ds, cs = c :: ds ∧ isWhite c = false ∧ c ≠ ']' ∧ c ≠ '}'
  reads : ∀ depth rest, cs.length ≤ depth → Ends rest →
    readValue depth (cs ++ rest) = some (j, rest)
  ascii : ∀ c ∈ cs, c.toNat < 128

theorem ends_cons (h : c.isDigit = false ∧ c ≠ '.' ∧ c ≠ 'e' ∧ c ≠ 'E') (cs : List Char) :
    Ends (c :: cs) := by
  rintro d ⟨⟩
  exact h

/-- White space and a closing bracket behind a value. -/
theorem ends_append (hw : ∀ c ∈ w, isWhite c = true) (hcs : Ends cs) : Ends (w ++ cs) := by
  cases w with
  | nil => exact hcs
  | cons c w =>
    have hc := hw c List.mem_cons_self
    simp only [isWhite, Bool.or_eq_true, beq_iff_eq] at hc
    apply ends_cons
    rcases hc with ((rfl | rfl) | rfl) | rfl <;> decide

/-- The brackets of containers. -/
def IsClosing (c : Char) : Prop := c = ']' ∨ c = '}'

theorem IsClosing.facts (h : IsClosing c) : isWhite c = false ∧ c ≠ ',' ∧
    c.isDigit = false ∧ c ≠ '.' ∧ c ≠ 'e' ∧ c ≠ 'E' := by
  rcases h with rfl | rfl <;> decide

theorem readSeries_intercalate {item : List Char → Option (α × List Char)}
    (hclosing : IsClosing closing) (hw' : ∀ c ∈ w', isWhite c = true) {xs : List α} (hne : ts ≠ [])
    (h : List.Forall₂
      (fun t x => ∀ rest, Ends rest → item (w ++ (t ++ rest)) = some (x, rest)) ts xs) {fuel : Nat}
    (hfuel : ts.length ≤ fuel) (rest : List Char) :
    readSeries item closing fuel (w ++ ((',' :: w).intercalate ts ++ (w' ++ closing :: rest))) =
      some (xs, rest) := by
  obtain ⟨hwhite, hcomma, hend⟩ := hclosing.facts
  induction h generalizing fuel with
  | nil => exact absurd rfl hne
  | @cons t x ts xs ht hts ih =>
    cases fuel with
    | zero => exact absurd hfuel (Nat.not_succ_le_zero _)
    | succ fuel =>
      cases hts with
      | nil =>
        have hread := ht (w' ++ closing :: rest) (ends_append hw' (ends_cons hend rest))
        rw [List.intercalate_singleton, readSeries, hread]
        simp only [skipWhite_append hw', skipWhite_cons hwhite, if_true]
      | @cons t' x' ts xs ht' hts =>
        have hread := ht
          (',' :: (w ++ ((',' :: w).intercalate (t' :: ts) ++ (w' ++ closing :: rest))))
          (ends_cons (by decide) _)
        have hrest := ih (List.cons_ne_nil _ _) (Nat.le_of_succ_le_succ hfuel)
        rw [List.intercalate_cons_cons, List.append_assoc, List.append_assoc, List.cons_append,
          readSeries, hread]
        simp only [skipWhite_cons (show isWhite ',' = false from rfl), if_neg hcomma.symm, if_true,
          hrest, Option.map_some]

/-! ## Containers -/

/-- What stands in a container behind its opening bracket, with `w` in front of each item and `w'`
in front of the closing bracket. -/
def inside (closing : Char) (w w' : List Char) (ts : List (List Char)) : List Char :=
  if ts.isEmpty then [closing] else w ++ ((',' :: w).intercalate ts ++ (w' ++ [closing]))

theorem inside_nil (closing : Char) (w w' : List Char) : inside closing w w' [] = [closing] := rfl

theorem inside_cons (closing : Char) (w w' t : List Char) (ts : List (List Char)) :
    inside closing w w' (t :: ts) =
      w ++ ((',' :: w).intercalate (t :: ts) ++ (w' ++ [closing])) := rfl

theorem length_le_intercalate (w : List Char) (ts : List (List Char)) :
    ts.length ≤ ((',' :: w).intercalate ts).length + 1 := by
  induction ts with
  | nil => exact Nat.zero_le _
  | cons t ts ih =>
    cases ts with
    | nil => simp
    | cons t' ts =>
      rw [List.intercalate_cons_cons]
      simp only [List.length_append, List.length_cons] at ih ⊢
      omega

theorem exists_intercalate_cons (sep t : List Char) (ts : List (List Char)) :
    ∃ rest, sep.intercalate (t :: ts) = t ++ rest := by
  cases ts with
  | nil => exact ⟨[], by simp⟩
  | cons t' ts => exact ⟨sep ++ sep.intercalate (t' :: ts), by simp [List.intercalate_cons_cons]⟩

theorem isInfix_intercalate {sep : List Char} (h : t ∈ ts) : t <:+: sep.intercalate ts := by
  induction ts with
  | nil => cases h
  | cons u ts ih =>
    rcases List.mem_cons.1 h with rfl | h
    · obtain ⟨rest, hrest⟩ := exists_intercalate_cons sep t ts
      rw [hrest]
      exact (List.prefix_append t rest).isInfix
    · cases ts with
      | nil => cases h
      | cons u' ts =>
        rw [List.intercalate_cons_cons]
        exact (ih h).trans (List.suffix_append _ _).isInfix

theorem infix_inside (h : t ∈ ts) : t <:+: inside closing w w' ts := by
  cases ts with
  | nil => cases h
  | cons u ts =>
    have hinfix : t <:+: (',' :: w).intercalate (u :: ts) := isInfix_intercalate h
    exact hinfix.trans ⟨w, w' ++ [closing], by rw [inside_cons, List.append_assoc]⟩

theorem readContainer_inside {item : List Char → Option (α × List Char)}
    (hclosing : IsClosing closing) (hw : ∀ c ∈ w, isWhite c = true)
    (hw' : ∀ c ∈ w', isWhite c = true) {xs : List α}
    (hstarts : ∀ t ∈ ts, ∃ c ds, t = c :: ds ∧ isWhite c = false ∧ c ≠ closing) (h : List.Forall₂
      (fun t x => ∀ rest, Ends rest → item (w ++ (t ++ rest)) = some (x, rest)) ts xs)
    (rest : List Char) :
    readContainer item closing (inside closing w w' ts ++ rest) = some (xs, rest) := by
  cases h with
  | nil =>
    rw [inside_nil, List.singleton_append, readContainer, skipWhite_cons hclosing.facts.1]
    exact if_pos rfl
  | @cons t x ts xs ht hts =>
    obtain ⟨c, ds, rfl, hwhite, hne⟩ := hstarts t List.mem_cons_self
    obtain ⟨tail, htail⟩ := exists_intercalate_cons (',' :: w) (c :: ds) ts
    have hskip : skipWhite (inside closing w w' ((c :: ds) :: ts) ++ rest) =
        c :: (ds ++ tail ++ (w' ++ [closing]) ++ rest) := by
      rw [inside_cons, htail, List.append_assoc, skipWhite_append hw]
      simp only [List.cons_append, skipWhite_cons hwhite]
    have hfuel : ((c :: ds) :: ts).length ≤
        (inside closing w w' ((c :: ds) :: ts) ++ rest).length := by
      have hle := length_le_intercalate w ((c :: ds) :: ts)
      rw [inside_cons]
      simp only [List.length_append, List.length_cons] at hle ⊢
      omega
    have hread :=
      readSeries_intercalate hclosing hw' (List.cons_ne_nil _ _) (.cons ht hts) hfuel rest
    rw [readContainer, hskip]
    simp only [if_neg hne]
    rw [← hread, inside_cons]
    simp only [List.append_assoc, List.singleton_append]

/-- A line break, and the space in front of a line. -/
def lineStart (depth : Nat) : List Char := '\n' :: List.replicate (2 * depth) ' '

theorem isWhite_lineStart (depth : Nat) : ∀ c ∈ lineStart depth, isWhite c = true := by
  intro c hc
  rcases List.mem_cons.1 hc with rfl | hc
  · rfl
  · rw [List.eq_of_mem_replicate hc]
    rfl

theorem toList_enclose {opening closing : String} {o : Char} (ho : opening.toList = [o])
    (hc : closing.toList = [c]) (depth : Nat) (items : List String) :
    (enclose opening closing depth items).toList =
      o :: inside c (lineStart (depth + 1)) (lineStart depth) (items.map String.toList) := by
  cases items with
  | nil => simp [enclose, inside, ho, hc]
  | cons item items =>
    simp [enclose, inside, ho, hc, lineStart, String.toList_intercalate]

/-! ## Values -/

/-- A text that is no container is read by its first characters. -/
theorem readValue_scalar (hwhite : isWhite c = false) (hquote : c ≠ '"') (hlist : c ≠ '[')
    (hobject : c ≠ '{') (depth : Nat) : readValue (depth + 1) (c :: cs) =
      (readWord (c :: cs) <|> (readNumber (c :: cs)).map fun (n, rest) => (.number n, rest)) := by
  rw [readValue, skipWhite_cons hwhite]
  split <;> simp_all

theorem readWord_append {w : String} (h : (w, j) ∈ words) (rest : List Char) :
    readWord (w.toList ++ rest) = some (j, rest) := by
  simp only [words, List.mem_cons, Prod.mk.injEq, List.not_mem_nil, or_false] at h
  rcases h with ⟨rfl, rfl⟩ | ⟨rfl, rfl⟩ | ⟨rfl, rfl⟩ | ⟨rfl, rfl⟩ | ⟨rfl, rfl⟩ <;> rfl

/-- Characters that start a value which is no text and no container. -/
def startsScalar (c : Char) : Bool :=
  !isWhite c && c != '"' && c != '[' && c != ']' && c != '{' && c != '}'

theorem legible_scalar (hc : startsScalar c = true)
    (hread : ∀ rest, Ends rest → (readWord (c :: cs ++ rest) <|>
      (readNumber (c :: cs ++ rest)).map fun (n, rest) => (.number n, rest)) = some (j, rest))
    (hascii : ∀ d ∈ c :: cs, d.toNat < 128) : Legible (c :: cs) j := by
  simp only [startsScalar, Bool.and_eq_true, Bool.not_eq_true', bne_iff_ne] at hc
  obtain ⟨⟨⟨⟨⟨hwhite, hquote⟩, hlist⟩, hclose⟩, hobject⟩, hclose'⟩ := hc
  refine ⟨⟨c, cs, rfl, hwhite, hclose, hclose'⟩, fun depth rest hdepth hrest => ?_, hascii⟩
  cases depth with
  | zero => cases hdepth
  | succ depth =>
    rw [List.cons_append, readValue_scalar hwhite hquote hlist hobject]
    exact hread rest hrest

theorem legible_word {w : String} (h : (w, j) ∈ words) : Legible w.toList j := by
  have checked : (words.all fun e =>
      e.1.toList.head?.any startsScalar && e.1.toList.all fun c => c.toNat < 128) = true := by
    decide
  have hw := List.all_eq_true.1 checked _ h
  have hread := readWord_append h
  simp only [Bool.and_eq_true, List.all_eq_true, decide_eq_true_eq] at hw
  cases hcs : w.toList with
  | nil => simp [hcs] at hw
  | cons c cs =>
    rw [hcs] at hw hread
    refine legible_scalar (by simpa using hw.1) (fun rest _ => ?_) hw.2
    rw [hread]
    rfl

/-- A digit is none of the characters that are no digits. -/
theorem ne_of_isDigit (hc : c.isDigit = true) {ds : List Char}
    (hds : (ds.all fun d => !d.isDigit) = true) : ∀ d ∈ ds, d ≠ c := by
  rintro d hd rfl
  have hd := List.all_eq_true.1 hds d hd
  rw [hc] at hd
  cases hd

/-- No word starts like a number. -/
theorem readWord_eq_none (negative : Bool) (hc : c.isDigit = true) (cs : List Char) :
    readWord (signText negative ++ c :: cs) = none := by
  have hne := ne_of_isDigit hc
    (show (['n', 't', 'f', 'I', '-'].all fun d => !d.isDigit) = true from rfl)
  simp only [List.forall_mem_cons] at hne
  cases negative <;> simp [readWord, words, signText, hne]

theorem startsScalar_of_isDigit (hc : c.isDigit = true) : startsScalar c = true := by
  have hne := ne_of_isDigit hc (show ([' ', '\t', '\n', '\r', '"', '[', ']', '{', '}'].all
    fun d => !d.isDigit) = true from rfl)
  simp only [List.forall_mem_cons, ne_comm] at hne
  simp [startsScalar, isWhite, hne]

theorem ascii_of_all (h : (cs.all fun c => c.toNat < 128) = true) : ∀ c ∈ cs, c.toNat < 128 := by
  simpa using h

theorem toNat_lt_of_isNumeral (h : isNumeral c = true) : c.toNat < 128 := by
  simp only [isNumeral, Bool.or_eq_true, List.contains_iff_mem] at h
  rcases h with h | h
  · have hle : c.toNat ≤ 57 := by
      simp only [Char.isDigit, Bool.and_eq_true, decide_eq_true_eq] at h
      exact h.2
    omega
  · exact ascii_of_all rfl c h

theorem legible_number {n : Number} {s : String} (hn : n.Writable) (h : numberLiteral n = .ok s) :
    Legible s.toList (.number n) := by
  have hascii : ∀ c ∈ s.toList, c.toNat < 128 := fun c hc =>
    toNat_lt_of_isNumeral (numerals_numberLiteral h c hc)
  cases hfin : n.isFinite with
  | true =>
    obtain ⟨num, negative, htext, hstrict, hnumber⟩ := hn.exists_numeric hfin h
    obtain ⟨c, ds, hwhole⟩ := List.exists_cons_of_ne_nil num.whole_digits.1
    have hc : c.isDigit = true := num.whole_digits.2 c (hwhole ▸ List.mem_cons_self)
    obtain ⟨cs, hcs⟩ : ∃ cs, num.text = c :: cs := ⟨_, by rw [Numeric.text, hwhole]; rfl⟩
    have hread (rest : List Char) (hrest : Ends rest) :
        (readWord (signText negative ++ num.text ++ rest) <|>
          (readNumber (signText negative ++ num.text ++ rest)).map fun (n, rest) =>
            (Json.number n, rest)) = some (.number n, rest) := by
      rw [readNumber_text hstrict negative hrest, hnumber, hcs, List.append_assoc, List.cons_append,
        readWord_eq_none negative hc]
      rfl
    rw [htext] at hascii ⊢
    rw [hcs] at hread hascii ⊢
    cases negative with
    | true => exact legible_scalar rfl hread hascii
    | false => exact legible_scalar (startsScalar_of_isDigit hc) hread hascii
  | false =>
    cases n with
    | int k => cases hfin
    | float x =>
      cases h
      cases x with
      | finite => cases hfin
      | nan => exact absurd rfl hn.2
      | infinite negative =>
        cases negative
        · exact legible_word (by simp [words, Binary64.textWith])
        · exact legible_word (by simp [words, Binary64.textWith])

theorem ascii_unit (n : Nat) : ∀ c ∈ unit n, c.toNat < 128 := by
  have hall : ∀ m < 16, (hexDigit m).toNat < 128 := by decide
  intro c hc
  simp only [unit, List.mem_cons] at hc
  rcases hc with rfl | rfl | hc
  · decide
  · decide
  · obtain ⟨m, hm, rfl⟩ := exists_hexDigit_of_mem hc
    exact hall m hm

theorem ascii_escapeChar (c : Char) : ∀ d ∈ escapeChar c, d.toNat < 128 := by
  unfold escapeChar
  dsimp only
  split_ifs with _ _ _ _ _ _ _ hplain
  iterate 7 exact ascii_of_all rfl
  · rw [List.forall_mem_singleton]
    omega
  · exact ascii_unit _
  · exact List.forall_mem_append.2 ⟨ascii_unit _, ascii_unit _⟩

theorem ascii_textLiteral (s : String) : ∀ c ∈ (textLiteral s).toList, c.toNat < 128 := by
  intro c hc
  simp only [textLiteral, String.toList_ofList, List.cons_append, List.mem_cons, List.mem_append,
    List.mem_flatMap, List.not_mem_nil, or_false] at hc
  rcases hc with rfl | ⟨d, -, hd⟩ | rfl
  · decide
  · exact ascii_escapeChar d c hd
  · decide

theorem legible_text (s : String) : Legible (textLiteral s).toList (.text s) := by
  obtain ⟨body, htext, hread⟩ := exists_readText s
  have hascii := ascii_textLiteral s
  rw [htext] at hascii ⊢
  refine ⟨⟨'"', body, rfl, by decide⟩, fun depth rest hdepth _ => ?_, hascii⟩
  cases depth with
  | zero => cases hdepth
  | succ depth =>
    rw [List.cons_append, readValue, skipWhite_cons rfl]
    simp only [hread, Option.map_some]

theorem ascii_intercalate {sep : List Char} (hsep : ∀ c ∈ sep, c.toNat < 128)
    (h : ∀ t ∈ ts, ∀ c ∈ t, c.toNat < 128) : ∀ c ∈ sep.intercalate ts, c.toNat < 128 := by
  induction ts with
  | nil => exact List.forall_mem_nil _
  | cons t ts ih =>
    rw [List.forall_mem_cons] at h
    cases ts with
    | nil =>
      rw [List.intercalate_singleton]
      exact h.1
    | cons t' ts =>
      rw [List.intercalate_cons_cons, List.append_assoc]
      exact List.forall_mem_append.2 ⟨h.1, List.forall_mem_append.2 ⟨hsep, ih h.2⟩⟩

theorem ascii_of_isWhite (hw : ∀ c ∈ w, isWhite c = true) : ∀ c ∈ w, c.toNat < 128 := by
  intro c hc
  have hc := hw c hc
  simp only [isWhite, Bool.or_eq_true, beq_iff_eq] at hc
  rcases hc with ((rfl | rfl) | rfl) | rfl <;> decide

theorem ascii_inside (hclosing : IsClosing closing) (hw : ∀ c ∈ w, isWhite c = true)
    (hw' : ∀ c ∈ w', isWhite c = true) (h : ∀ t ∈ ts, ∀ c ∈ t, c.toNat < 128) :
    ∀ c ∈ inside closing w w' ts, c.toNat < 128 := by
  have hclose : ∀ c ∈ [closing], c.toNat < 128 := by
    rw [List.forall_mem_singleton]
    rcases hclosing with rfl | rfl <;> decide
  cases ts with
  | nil => exact hclose
  | cons t ts =>
    have hwhite := ascii_of_isWhite hw
    have hsep : ∀ c ∈ ',' :: w, c.toNat < 128 := List.forall_mem_cons.2 ⟨by decide, hwhite⟩
    rw [inside_cons]
    exact List.forall_mem_append.2 ⟨hwhite, List.forall_mem_append.2 ⟨ascii_intercalate hsep h,
      List.forall_mem_append.2 ⟨ascii_of_isWhite hw', hclose⟩⟩⟩

/-- The text of an item of a container, read with any white space in front of it. -/
structure LegibleItem (item : Nat → List Char → Option (α × List Char)) (t : List Char) (x : α) :
    Prop where
  starts : ∃ c ds, t = c :: ds ∧ isWhite c = false ∧ c ≠ ']' ∧ c ≠ '}'
  reads : ∀ depth w rest, (∀ c ∈ w, isWhite c = true) → t.length ≤ depth → Ends rest →
    item depth (w ++ (t ++ rest)) = some (x, rest)
  ascii : ∀ c ∈ t, c.toNat < 128

theorem Legible.item (h : Legible t j) : LegibleItem readValue t j where
  starts := h.starts
  reads depth w rest hw hdepth hrest := by
    rw [readValue_append hw]
    exact h.reads depth rest hdepth hrest
  ascii := h.ascii

theorem Legible.member {t : String} (h : Legible t.toList j) (key : String) :
    LegibleItem (fun depth => readMember (readValue depth)) (textLiteral key ++ ": " ++ t).toList
      (key, j) := by
  obtain ⟨body, htext, hread⟩ := exists_readText key
  have htoList :
      (textLiteral key ++ ": " ++ t).toList = '"' :: (body ++ ':' :: ' ' :: t.toList) := by
    simp [String.toList_append, htext]
  have hascii := ascii_textLiteral key
  rw [htext, List.forall_mem_cons] at hascii
  rw [htoList]
  refine ⟨⟨'"', _, rfl, by decide⟩, fun depth w rest hw hdepth hrest => ?_, ?_⟩
  · have hlength : t.toList.length ≤ depth := by
      simp only [List.length_cons, List.length_append] at hdepth
      omega
    have hspace : ∀ c ∈ [' '], isWhite c = true := List.forall_mem_singleton.2 rfl
    have hvalue := readValue_append hspace depth (t.toList ++ rest)
    rw [h.reads depth rest hlength hrest, List.singleton_append] at hvalue
    rw [readMember_append hw, readMember, List.cons_append, skipWhite_cons rfl]
    simp only [List.append_assoc, List.cons_append, hread,
      skipWhite_cons (show isWhite ':' = false from rfl),
      hvalue, Option.map_some]
  · refine List.forall_mem_cons.2 ⟨hascii.1, List.forall_mem_append.2 ⟨hascii.2, ?_⟩⟩
    exact List.forall_mem_cons.2 ⟨by decide, List.forall_mem_cons.2 ⟨by decide, h.ascii⟩⟩

/-- What holds of the text of every legible item holds of all texts. -/
theorem forall_of_legibleItems {item : Nat → List Char → Option (α × List Char)} {xs : List α}
    (h : List.Forall₂ (LegibleItem item) ts xs) {P : List Char → Prop}
    (hP : ∀ t x, LegibleItem item t x → P t) : ∀ t ∈ ts, P t := by
  have hand : List.Forall₂ (fun t x => P t ∧ LegibleItem item t x) ts xs :=
    h.imp fun t x hx => ⟨hP t x hx, hx⟩
  exact ((List.forall₂_and_left _ _).1 hand).1

/-- A container of legible items is legible. -/
theorem legible_container {item : Nat → List Char → Option (α × List Char)} {make : List α → Json}
    {o : Char} (ho : o = '[' ∨ o = '{') (hclosing : IsClosing closing)
    (hmake : ∀ depth cs, readValue (depth + 1) (o :: cs) =
      (readContainer (item depth) closing cs).map fun (xs, rest) => (make xs, rest))
    (hw : ∀ c ∈ w, isWhite c = true) (hw' : ∀ c ∈ w', isWhite c = true) {xs : List α}
    (h : List.Forall₂ (LegibleItem item) ts xs) :
    Legible (o :: inside closing w w' ts) (make xs) where
  starts := ⟨o, _, rfl, by rcases ho with rfl | rfl <;> decide⟩
  reads depth rest hdepth _ := by
    cases depth with
    | zero => cases hdepth
    | succ depth =>
      have hlength : ∀ t ∈ ts, t.length ≤ depth := by
        intro t ht
        have hinfix : t <:+: inside closing w w' ts := infix_inside ht
        exact hinfix.length_le.trans (Nat.le_of_succ_le_succ hdepth)
      have hstarts := forall_of_legibleItems h fun t x hx => hx.starts
      have hitems : List.Forall₂ (fun t x => ∀ rest, Ends rest →
          item depth (w ++ (t ++ rest)) = some (x, rest)) ts xs := by
        refine ((List.forall₂_and_left _ _).2 ⟨hlength, h⟩).imp fun t x hx rest hrest => ?_
        exact hx.2.reads depth w rest hw hx.1 hrest
      rw [List.cons_append, hmake, readContainer_inside hclosing hw hw' (fun t ht => ?_) hitems]
      · rfl
      · obtain ⟨c, ds, hcs, hwhite, hlist, hobject⟩ := hstarts t ht
        exact ⟨c, ds, hcs, hwhite, by rcases hclosing with rfl | rfl <;> assumption⟩
  ascii := by
    have hitems := forall_of_legibleItems h fun t x hx => hx.ascii
    refine List.forall_mem_cons.2 ⟨?_, ascii_inside hclosing hw hw' hitems⟩
    rcases ho with rfl | rfl <;> decide

theorem legible_list (depth : Nat) {ts : List String} {xs : List Json}
    (h : List.Forall₂ (fun t x => Legible t.toList x) ts xs) :
    Legible (enclose "[" "]" depth ts).toList (.list xs) := by
  rw [toList_enclose (o := '[') (c := ']') rfl rfl]
  have hitems : List.Forall₂ (LegibleItem readValue) (ts.map String.toList) xs :=
    List.forall₂_map_left_iff.2 (h.imp fun t x hx => hx.item)
  refine legible_container (.inl rfl) (.inl rfl) (fun depth cs => ?_) (isWhite_lineStart _)
    (isWhite_lineStart _) hitems
  rw [readValue, skipWhite_cons rfl]
  rfl

theorem legible_object (depth : Nat) {ts : List (String × String)} {ms : List (String × Json)}
    (h : List.Forall₂ (fun t m => t.1 = m.1 ∧ Legible t.2.toList m.2) ts ms) :
    Legible (enclose r"{" r"}" depth (ts.map fun (k, t) => textLiteral k ++ ": " ++ t)).toList
      (.object ms) := by
  rw [toList_enclose (o := '{') (c := '}') rfl rfl]
  have hitems : List.Forall₂ (LegibleItem fun depth => readMember (readValue depth))
      ((ts.map fun (k, t) => textLiteral k ++ ": " ++ t).map String.toList) ms := by
    refine List.forall₂_map_left_iff.2 (List.forall₂_map_left_iff.2 (h.imp fun t m hm => ?_))
    rw [show m = (t.1, m.2) from Prod.ext hm.1.symm rfl]
    exact hm.2.member t.1
  refine legible_container (.inr rfl) (.inr rfl) (fun depth cs => ?_) (isWhite_lineStart _)
    (isWhite_lineStart _) hitems
  rw [readValue, skipWhite_cons rfl]
  rfl

theorem exists_of_writable {n : Number} (hn : n.Writable) : ∃ s, numberLiteral n = .ok s := by
  cases n with
  | int k => exact Number.exists_integerText hn
  | float x => exact ⟨_, rfl⟩

mutual

/-- A value whose numbers can be written has a long form, which is legible. -/
theorem exists_pretty (depth : Nat) : ∀ {j : Json}, (∀ n ∈ j.numbersIn, n.Writable) →
    ∃ s, pretty depth j = .ok s ∧ Legible s.toList j.sorted
  | null, _ => ⟨_, rfl, legible_word (by simp [words, sorted])⟩
  | bool b, _ => ⟨_, rfl, legible_word (by cases b <;> simp [words, sorted])⟩
  | number n, h => by
    have hn := h n (List.mem_singleton_self n)
    obtain ⟨s, hs⟩ := exists_of_writable hn
    exact ⟨s, hs, legible_number hn hs⟩
  | text s, _ => ⟨_, rfl, legible_text s⟩
  | list xs, h => by
    have hxs : ∀ n ∈ numbersInAll xs, n.Writable := h
    obtain ⟨ts, hts, hlegible⟩ := exists_prettyAll (depth + 1) hxs
    refine ⟨_, by rw [pretty, hts]; rfl, ?_⟩
    exact legible_list depth hlegible
  | object ms, h => by
    have hms : ∀ n ∈ numbersInMembers ms, n.Writable := h
    obtain ⟨ts, hts, hlegible⟩ := exists_prettyMembers (depth + 1) hms
    refine ⟨_, by rw [pretty, hts]; rfl, ?_⟩
    exact legible_object depth (forall₂_sortMembers (fun _ _ h => h.1) hlegible)

theorem exists_prettyAll (depth : Nat) : ∀ {xs : List Json},
    (∀ n ∈ numbersInAll xs, n.Writable) → ∃ ts, prettyAll depth xs = .ok ts ∧
      List.Forall₂ (fun t x => Legible t.toList x) ts (sortedAll xs)
  | [], _ => ⟨[], rfl, .nil⟩
  | x :: xs, h => by
    rw [numbersInAll, List.forall_mem_append] at h
    obtain ⟨t, ht, hx⟩ := exists_pretty depth h.1
    obtain ⟨ts, hts, hxs⟩ := exists_prettyAll depth h.2
    exact ⟨t :: ts, by rw [prettyAll, ht, hts]; rfl, .cons hx hxs⟩

theorem exists_prettyMembers (depth : Nat) : ∀ {ms : List (String × Json)},
    (∀ n ∈ numbersInMembers ms, n.Writable) → ∃ ts, prettyMembers depth ms = .ok ts ∧
      List.Forall₂ (fun t m => t.1 = m.1 ∧ Legible t.2.toList m.2) ts (sortedMembers ms)
  | [], _ => ⟨[], rfl, .nil⟩
  | (k, x) :: ms, h => by
    rw [numbersInMembers, List.forall_mem_append] at h
    obtain ⟨t, ht, hx⟩ := exists_pretty depth h.1
    obtain ⟨ts, hts, hms⟩ := exists_prettyMembers depth h.2
    exact ⟨(k, t) :: ts, by rw [prettyMembers, ht, hts]; rfl, .cons ⟨rfl, hx⟩ hms⟩

end

theorem Legible.read? {s : String} (h : Legible s.toList j) : read? s = some j := by
  have hread := h.reads s.length [] (String.length_toList ▸ Nat.le_refl _) nofun
  rw [List.append_nil] at hread
  rw [Json.read?, hread]
  rfl

end PlatformGame.Json
