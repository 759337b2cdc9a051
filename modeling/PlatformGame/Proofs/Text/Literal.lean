import PlatformGame.Proofs.Text.Html
import Mathlib.Algebra.Ring.Parity
import Mathlib.Logic.Function.Basic

/-! # Reading literals

A literal is read by the rules of the program's language (`readLiteral?`): up to the next quote
without a backslash, in one line, and with the few escapes that literals are written with. Which
insides of literals denote which texts is also said without reading (`Denotes`), and what holds of
all of them follows from that: their quotes stand after an odd number of backslashes
(`Denotes.quotesEscaped`), and they are read up to the closing quote (`Denotes.readBody?_eq`).

Literals are written in two passes, of which the second puts backslashes into what the first has
escaped. The inside of a literal denotes its text all the same (`denotes_literalBody`). -/

namespace PlatformGame.Text

/-! ## The rules -/

/-- The character that is meant by one after a backslash, of those that may stand there. -/
def escapeMeaning? (c : Char) : Option Char :=
  if c = 'n' then some '\n'
  else if c = 'r' then some '\r'
  else if c = 't' then some '\t'
  else if c = '\\' ∨ c = '\'' ∨ c = '/' then some c
  else none

/-- Reads on inside a literal: the text that is meant up to the closing quote, and what follows the
quote. -/
def readBody? : List Char → Option (List Char × List Char)
  | [] => none
  | '\'' :: cs => some ([], cs)
  | '\\' :: c :: cs =>
    (escapeMeaning? c).bind fun d => (readBody? cs).map fun r => (d :: r.1, r.2)
  | c :: cs =>
    if c = '\\' ∨ c = '\n' ∨ c = '\r' then none
    else (readBody? cs).map fun r => (c :: r.1, r.2)

/-- The text that the literal at the front means, and what follows the literal. -/
def readLiteral? : List Char → Option (String × List Char)
  | '\'' :: cs => (readBody? cs).map fun r => (String.ofList r.1, r.2)
  | _ => none

/-- The inside of a literal, and the text that it denotes. -/
inductive Denotes : List Char → List Char → Prop
  | nil : Denotes [] []
  | char : c ≠ '\'' → c ≠ '\\' → c ≠ '\n' → c ≠ '\r' → Denotes cs vs → Denotes (c :: cs) (c :: vs)
  | escape : escapeMeaning? c = some d → Denotes cs vs → Denotes ('\\' :: c :: cs) (d :: vs)

/-- The number of backslashes at the end of a text. -/
def slashRun (cs : List Char) : Nat := (cs.reverse.takeWhile (· = '\\')).length

/-- Every quote in the text is escaped: an odd number of backslashes stands directly before it. -/
def QuotesEscaped (cs : List Char) : Prop :=
  ∀ front rest, cs = front ++ '\'' :: rest → Odd (slashRun front)

theorem slashRun_slash (cs : List Char) : slashRun (cs ++ ['\\']) = slashRun cs + 1 := by
  simp [slashRun]

theorem slashRun_of_ne (cs : List Char) {c : Char} (h : c ≠ '\\') : slashRun (cs ++ [c]) = 0 := by
  simp [slashRun, h]

/-! ## What denotes a text -/

namespace Denotes

variable {cs vs : List Char}

theorem ne_lineEnd_of_escapeMeaning? {c d : Char} (h : escapeMeaning? c = some d) :
    c ≠ '\n' ∧ c ≠ '\r' := by
  constructor <;>
  · rintro rfl
    cases h

theorem unbroken (h : Denotes cs vs) : '\n' ∉ cs ∧ '\r' ∉ cs := by
  induction h with
  | nil => simp
  | char _ _ hn hr _ ih => simp [Ne.symm hn, Ne.symm hr, ih]
  | escape hc _ ih =>
    have hne := ne_lineEnd_of_escapeMeaning? hc
    simp [Ne.symm hne.1, Ne.symm hne.2, ih]

/-- An escape takes its two characters together, so that the backslashes in front of what follows it
are even in number. -/
theorem odd_slashRun (h : Denotes cs vs) {before front rest : List Char}
    (hbefore : Even (slashRun before)) (hcs : cs = front ++ '\'' :: rest) :
    Odd (slashRun (before ++ front)) := by
  induction h generalizing before front with
  | nil => simp at hcs
  | @char c cs vs hquote hslash _ _ _ ih =>
    cases front with
    | nil =>
      cases hcs
      exact absurd rfl hquote
    | cons d front =>
      cases hcs
      have hnext : Even (slashRun (before ++ [c])) := by
        rw [slashRun_of_ne before hslash]
        exact .zero
      simpa using ih hnext rfl
  | @escape c d cs vs _ _ ih =>
    have hodd : Odd (slashRun (before ++ ['\\'])) := by
      rw [slashRun_slash]
      exact hbefore.add_one
    rcases front with _ | ⟨e, _ | ⟨f, front⟩⟩
    · cases hcs
    · cases hcs
      exact hodd
    · cases hcs
      have hnext : Even (slashRun (before ++ ['\\'] ++ [c])) := by
        by_cases hc : c = '\\'
        · rw [hc, slashRun_slash]
          exact hodd.add_one
        · rw [slashRun_of_ne _ hc]
          exact .zero
      simpa using ih hnext rfl

theorem quotesEscaped (h : Denotes cs vs) : QuotesEscaped cs := by
  intro front rest hcs
  have hempty : Even (slashRun []) := .zero
  exact h.odd_slashRun hempty hcs

theorem readBody?_eq (h : Denotes cs vs) (rest : List Char) :
    readBody? (cs ++ '\'' :: rest) = some (vs, rest) := by
  induction h with
  | nil => rfl
  | @char c cs vs hquote hslash hn hr _ ih =>
    rw [List.cons_append, readBody?, if_neg (by simp [hslash, hn, hr]), ih]
    · rfl
    · exact hquote
    · exact fun _ _ hc => absurd hc hslash
  | escape hc _ ih =>
    rw [List.cons_append, List.cons_append, readBody?, hc, ih]
    rfl

end Denotes

/-! ## What is written -/

theorem denotes_escapeScriptChar (c : Char) {cs vs : List Char} (h : Denotes cs vs) :
    Denotes (escapeScriptChar c ++ cs) (c :: vs) := by
  unfold escapeScriptChar
  split_ifs with hslash hquote hn hr ht
  · subst hslash; exact .escape rfl h
  · subst hquote; exact .escape rfl h
  · subst hn; exact .escape rfl h
  · subst hr; exact .escape rfl h
  · subst ht; exact .escape rfl h
  · exact .char hquote hslash hn hr h

theorem denotes_literalBody (cs : List Char) : Denotes (literalBody cs) cs := by
  fun_induction literalBody cs with
  | case1 => exact .nil
  | case2 cs ih =>
    -- the backslash between the two characters of a tag escapes the second one
    exact .char (by decide) (by decide) (by decide) (by decide) (.escape rfl ih)
  | case3 c cs _ ih => exact denotes_escapeScriptChar c ih

theorem readLiteral?_append (v : String) (rest : List Char) :
    readLiteral? ((scriptLiteral v).toList ++ rest) = some (v, rest) := by
  rw [toList_scriptLiteral, List.cons_append, List.append_assoc, readLiteral?,
    List.singleton_append, (denotes_literalBody v.toList).readBody?_eq]
  simp

theorem closingTags_ne_nil (front rest : List Char) :
    closingTags (front ++ '<' :: '/' :: rest) ≠ [] := by
  induction front with
  | nil => simp [closingTags]
  | cons c front ih =>
    intro h
    exact ih (head?_of_closingTags_cons h).2

/-- A literal that means the text: quotes around an inside that neither ends early nor leaves its
line, without the start of a closing tag. -/
structure LiteralFor (v : String) (cs : List Char) : Prop where
  quoted : ∃ body, cs = '\'' :: (body ++ ['\'']) ∧ QuotesEscaped body ∧ '\n' ∉ body ∧ '\r' ∉ body
  unclosed : ¬ ['<', '/'] <:+: cs
  read : ∀ rest, readLiteral? (cs ++ rest) = some (v, rest)

/-- Every text is written as a literal that means it, whatever characters it has and whatever
follows the literal. So no two texts have the same literal. -/
theorem literalFor_scriptLiteral :
    (∀ v : String, LiteralFor v (scriptLiteral v).toList) ∧ Function.Injective scriptLiteral := by
  refine ⟨fun v => ⟨?_, ?_, readLiteral?_append v⟩, fun v w h => ?_⟩
  · have hbody := denotes_literalBody v.toList
    exact ⟨_, toList_scriptLiteral v, hbody.quotesEscaped, hbody.unbroken⟩
  · rintro ⟨front, rest, h⟩
    refine closingTags_ne_nil front rest ?_
    have htag : front ++ '<' :: '/' :: rest = (scriptLiteral v).toList := by simpa using h
    rw [htag, (unclosed_scriptLiteral v).tags]
  · have hv := readLiteral?_append v []
    rw [h, readLiteral?_append w []] at hv
    cases hv
    rfl

end PlatformGame.Text
