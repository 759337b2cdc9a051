import PlatformGame.Proofs.Text.Script
import PlatformGame.Text.Blank

/-! # Tokens of a program

Programs are read as words, quoted literals with their escapes undone, and single marks; blanks
separate words and mean nothing else. A text that ends inside a literal has no tokens. So what a
program does can be read off its text, and a text that was quoted when the program was written
cannot pass for code. -/

namespace PlatformGame.Script

open Text

inductive Token
  | word (cs : List Char)
  | literal (s : String)
  | mark (c : Char)
  deriving DecidableEq

inductive Quote
  | single
  | double

def Quote.char : Quote → Char
  | single => '\''
  | double => '"'

/-- Where the reading of a text stands. What has been read of a word or literal is in reverse. -/
inductive State
  | code
  | word (w : List Char)
  | quoted (q : Quote) (s : List Char)
  | escaped (q : Quote) (s : List Char)

def isWordChar (c : Char) : Bool := c.isAlphanum || c == '_' || c == '$'

/-- The character that is meant by one after a backslash. -/
def unescaped (c : Char) : Char :=
  if c = 'n' then '\n' else if c = 'r' then '\r' else if c = 't' then '\t' else c

/-- A character outside words and literals. -/
def opened (c : Char) : State × List Token :=
  if isWordChar c then (.word [c], [])
  else if c = '\'' then (.quoted .single [], [])
  else if c = '"' then (.quoted .double [], [])
  else (.code, if isBlank c then [] else [.mark c])

def step : State → Char → State × List Token
  | .code, c => opened c
  | .word w, c =>
    if isWordChar c then (.word (c :: w), []) else ((opened c).1, .word w.reverse :: (opened c).2)
  | .quoted q s, c =>
    if c = q.char then (.code, [.literal (String.ofList s.reverse)])
    else if c = '\\' then (.escaped q s, [])
    else (.quoted q (c :: s), [])
  | .escaped q s, c => (.quoted q (unescaped c :: s), [])

def scan : State → List Char → State × List Token
  | st, [] => (st, [])
  | st, c :: cs =>
    match step st c with
    | (st', ts) => match scan st' cs with
      | (st'', us) => (st'', ts ++ us)

/-- The tokens of a text that ends here. -/
def settle : State × List Token → Option (List Token)
  | (.code, ts) => some ts
  | (.word w, ts) => some (ts ++ [.word w.reverse])
  | _ => none

def tokensFrom? (st : State) (cs : List Char) : Option (List Token) := settle (scan st cs)

def tokens? (cs : List Char) : Option (List Token) := tokensFrom? .code cs

/-! ## Texts one after the other -/

theorem scan_cons (h : step st c = (st', ts)) (h' : scan st' cs = (st'', us)) :
    scan st (c :: cs) = (st'', ts ++ us) := by
  simp only [scan, h, h']

theorem scan_append (h : scan st cs = (st', ts)) (h' : scan st' ds = (st'', us)) :
    scan st (cs ++ ds) = (st'', ts ++ us) := by
  induction cs generalizing st ts with
  | nil =>
    cases h
    exact h'
  | cons c cs ih =>
    rw [scan] at h
    cases h
    rw [List.cons_append, List.append_assoc]
    exact scan_cons rfl (ih rfl)

theorem settle_append (ts : List Token) (h : settle (st, us) = some vs) :
    settle (st, ts ++ us) = some (ts ++ vs) := by
  cases st with
  | code | word =>
    cases h
    simp [settle]
  | quoted | escaped => cases h

theorem tokensFrom?_append (h : scan st cs = (st', ts)) (h' : tokensFrom? st' ds = some us) :
    tokensFrom? st (cs ++ ds) = some (ts ++ us) := by
  rw [tokensFrom?, scan_append h rfl]
  exact settle_append ts h'

/-- A character that belongs to no word ends the word in front of it. -/
theorem scan_word_cons (hc : isWordChar c = false) :
    scan (.word w) (c :: cs) =
      ((scan .code (c :: cs)).1, .word w.reverse :: (scan .code (c :: cs)).2) := by
  simp [scan, step, hc]

theorem tokensFrom?_append_cons (h : tokensFrom? st cs = some ts) (hd : isWordChar d = false)
    (h' : tokens? (d :: ds) = some us) : tokensFrom? st (cs ++ d :: ds) = some (ts ++ us) := by
  unfold tokensFrom? at h
  rcases hscan : scan st cs with ⟨_ | w | _ | _, ts'⟩ <;> rw [hscan] at h <;> cases h
  · exact tokensFrom?_append hscan h'
  · rw [List.append_assoc]
    refine tokensFrom?_append hscan ?_
    rw [tokensFrom?, scan_word_cons hd]
    exact settle_append [.word w.reverse] h'

/-! ## Blanks -/

/-- The classes of characters are such ranges. -/
theorem toNat_of_range {c : Char} {m n : UInt32} (h : decide (c.val ≥ m ∧ c.val ≤ n) = true) :
    m.toNat ≤ c.toNat ∧ c.toNat ≤ n.toNat := by
  rw [decide_eq_true_eq] at h
  exact ⟨UInt32.le_iff_toNat_le.1 h.1, UInt32.le_iff_toNat_le.1 h.2⟩

theorem toNat_of_isWordChar (h : isWordChar c = true) :
    48 ≤ c.toNat ∧ c.toNat ≤ 122 ∨ c.toNat = 36 := by
  simp only [isWordChar, Bool.or_eq_true, beq_iff_eq] at h
  rcases h with (halnum | rfl) | rfl
  · change ((c.isUpper || c.isLower) || c.isDigit) = true at halnum
    rw [Bool.or_eq_true, Bool.or_eq_true] at halnum
    rcases halnum with (hupper | hlower) | hdigit
    · have : 65 ≤ c.toNat ∧ c.toNat ≤ 90 := toNat_of_range hupper
      omega
    · have : 97 ≤ c.toNat ∧ c.toNat ≤ 122 := toNat_of_range ((Bool.decide_and _ _).trans hlower)
      omega
    · have : 48 ≤ c.toNat ∧ c.toNat ≤ 57 := toNat_of_range ((Bool.decide_and _ _).trans hdigit)
      omega
  · decide
  · decide

theorem toNat_of_isBlank (h : isBlank c = true) : c.toNat ≤ 32 ∨ 133 ≤ c.toNat := by
  simp only [isBlank, Bool.or_eq_true, Bool.and_eq_true, decide_eq_true_eq, beq_iff_eq] at h
  omega

theorem ne_of_isBlank (h : isBlank c = true) (hd : 32 < d.toNat ∧ d.toNat < 133) : c ≠ d := by
  rintro rfl
  have := toNat_of_isBlank h
  omega

theorem isWordChar_of_isBlank (h : isBlank c = true) : isWordChar c = false := by
  by_contra hword
  have := toNat_of_isWordChar (Bool.not_eq_false _ ▸ hword)
  have := toNat_of_isBlank h
  omega

theorem opened_of_isBlank (h : isBlank c = true) : opened c = (.code, []) := by
  simp [opened, isWordChar_of_isBlank h, ne_of_isBlank h, h]

theorem tokens?_cons_blank (h : isBlank c = true) (cs : List Char) :
    tokens? (c :: cs) = tokens? cs := by
  have hstep : step .code c = (.code, []) := opened_of_isBlank h
  rw [tokens?, tokensFrom?, scan_cons hstep rfl]
  rfl

theorem tokens?_append_blank (h : isBlank c = true) (cs : List Char) :
    tokens? (cs ++ [c]) = tokens? cs := by
  have hquote (q : Quote) : c ≠ q.char := by
    cases q <;> exact ne_of_isBlank h (by decide)
  unfold tokens? tokensFrom?
  rcases hscan : scan .code cs with ⟨_ | w | ⟨q, s⟩ | ⟨q, s⟩, ts⟩ <;> rw [scan_append hscan rfl]
  · simp [scan, step, opened_of_isBlank h]
  · simp [scan, step, isWordChar_of_isBlank h, opened_of_isBlank h, settle]
  · simp [scan, step, hquote, ne_of_isBlank h, settle]
  · simp [scan, step, settle]

theorem tokens?_dropWhile_isBlank (cs : List Char) :
    tokens? (cs.dropWhile isBlank) = tokens? cs := by
  induction cs with
  | nil => rfl
  | cons c cs ih =>
    rw [List.dropWhile_cons]
    split
    · next h => rw [ih, tokens?_cons_blank h]
    · rfl

/-- Blanks at the ends of a text do not matter. -/
theorem tokens?_stripChars (cs : List Char) : tokens? (stripChars cs) = tokens? cs := by
  have hend (ds : List Char) : tokens? (ds.dropWhile isBlank).reverse = tokens? ds.reverse := by
    induction ds with
    | nil => rfl
    | cons d ds ih =>
      rw [List.dropWhile_cons]
      split
      · next h => rw [ih, List.reverse_cons, tokens?_append_blank h]
      · rfl
  rw [stripChars, hend, List.reverse_reverse, tokens?_dropWhile_isBlank]

theorem tokens?_append_newline (h : tokens? cs = some ts) (h' : tokens? ds = some us) :
    tokens? (cs ++ '\n' :: ds) = some (ts ++ us) :=
  tokensFrom?_append_cons h (by decide) (by rw [tokens?_cons_blank (by decide), h'])

/-! ## Literals -/

theorem scan_quoted (hq : q.char ∉ cs) (hb : '\\' ∉ cs) :
    scan (.quoted q s) cs = (.quoted q (cs.reverse ++ s), []) := by
  induction cs generalizing s with
  | nil => rfl
  | cons c cs ih =>
    rw [List.mem_cons, not_or] at hq hb
    have hstep : step (.quoted q s) c = (.quoted q (c :: s), []) := by
      simp [step, Ne.symm hq.1, Ne.symm hb.1]
    rw [scan_cons hstep (ih hq.2 hb.2)]
    simp

theorem scan_escapeScriptChar (c : Char) :
    scan (.quoted .single s) (escapeScriptChar c) = (.quoted .single (c :: s), []) := by
  unfold escapeScriptChar
  split_ifs with hb hq hn hr ht
  · subst hb; rfl
  · subst hq; rfl
  · subst hn; rfl
  · subst hr; rfl
  · subst ht; rfl
  · exact scan_quoted (by simpa [Quote.char] using Ne.symm hq) (by simpa using Ne.symm hb)

theorem scan_literalBody (cs : List Char) :
    scan (.quoted .single s) (literalBody cs) = (.quoted .single (cs.reverse ++ s), []) := by
  fun_induction literalBody cs generalizing s with
  | case1 => rfl
  | case2 cs ih =>
    have hsplit : scan (.quoted .single s) ['<', '\\', '/'] =
      (.quoted .single ('/' :: '<' :: s), []) := rfl
    have := scan_append hsplit ih
    simpa using this
  | case3 c cs _ ih =>
    have := scan_append (scan_escapeScriptChar c (s := s)) ih
    simpa using this

/-- What was quoted is read as it was. -/
theorem scan_scriptLiteral (s : String) :
    scan .code (scriptLiteral s).toList = (.code, [.literal s]) := by
  have hopen : step .code '\'' = (.quoted .single [], []) := rfl
  have hbody := scan_literalBody (s := []) s.toList
  have hclose : scan (.quoted .single s.toList.reverse) ['\''] = (.code, [.literal s]) := by
    simp [scan, step, Quote.char]
  rw [List.append_nil] at hbody
  rw [toList_scriptLiteral]
  exact scan_cons hopen (scan_append hbody hclose)

theorem tokens?_scriptLiteral (s : String) :
    tokens? (scriptLiteral s).toList = some [.literal s] := by
  rw [tokens?, tokensFrom?, scan_scriptLiteral]
  rfl

/-! ## Words -/

theorem scan_word (h : ∀ c ∈ cs, isWordChar c = true) :
    scan (.word w) cs = (.word (cs.reverse ++ w), []) := by
  induction cs generalizing w with
  | nil => rfl
  | cons c cs ih =>
    rw [List.forall_mem_cons] at h
    have hstep : step (.word w) c = (.word (c :: w), []) := by simp [step, h.1]
    rw [scan_cons hstep (ih h.2)]
    simp

theorem tokens?_word (hne : cs ≠ []) (h : ∀ c ∈ cs, isWordChar c = true) :
    tokens? cs = some [.word cs] := by
  cases cs with
  | nil => exact absurd rfl hne
  | cons c cs =>
    rw [List.forall_mem_cons] at h
    have hstep : step .code c = (.word [c], []) := by simp [step, opened, h.1]
    rw [tokens?, tokensFrom?, scan_cons hstep (scan_word h.2)]
    simp [settle]

end PlatformGame.Script
