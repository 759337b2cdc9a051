import PlatformGame.Proofs.Parse.Derivation
import PlatformGame.Proofs.Source.Layout

/-! # Words that form a text

`Forms p ws Q` says that tokens which spell the words `ws`, wherever they stand, are a text of the
phrase `p` whose trees satisfy `Q`. There is one rule for each form of phrase. -/

namespace PlatformGame.Source.Word

open Grammar

def ofKeyword (k : Keyword) : Word := ⟨.keyword k, k.text⟩

theorem valid_ofKeyword (k : Keyword) : (ofKeyword k).Valid := rfl

end PlatformGame.Source.Word

namespace PlatformGame.Parse

open Grammar Source

def Forms (p : Phrase) (ws : List Word) (Q : List Tree → Prop) : Prop :=
  ∀ ⦃toks⦄, toks.map Token.word = ws → ∃ trees, Derives p toks trees ∧ Q trees

namespace Forms

variable {p q : Phrase} {us vs ws : List Word} {Q R : List Tree → Prop}

theorem mono (h : Forms p ws Q) (hQR : ∀ ts, Q ts → R ts) : Forms p ws R := by
  intro toks htoks
  obtain ⟨trees, hd, hQ⟩ := h htoks
  exact ⟨trees, hd, hQR trees hQ⟩

theorem nothing : Forms .nothing [] (· = []) := by
  intro toks htoks
  rw [List.map_eq_nil_iff] at htoks
  exact ⟨[], htoks ▸ .nothing, rfl⟩

theorem token (w : Word) (keep : Bool) : Forms (.token w.terminal keep) [w] fun ts =>
    ∃ tok : Token, tok.word = w ∧ ts = if keep then [Tree.ofToken tok] else [] := by
  intro toks htoks
  obtain ⟨tok, rest, rfl, rfl, hrest⟩ := List.map_eq_cons_iff.1 htoks
  obtain rfl := List.map_eq_nil_iff.1 hrest
  exact ⟨_, .token tok keep, tok, rfl, rfl⟩

theorem word (k : Keyword) : Forms (.word k) [.ofKeyword k] (· = []) :=
  (token (.ofKeyword k) false).mono fun _ ⟨_, _, h⟩ => h

theorem seq (hp : Forms p us Q) (hq : Forms q vs R) :
    Forms (.seq p q) (us ++ vs) fun ts => ∃ ts₁ ts₂, ts = ts₁ ++ ts₂ ∧ Q ts₁ ∧ R ts₂ := by
  intro toks htoks
  obtain ⟨toks₁, toks₂, rfl, hus, hvs⟩ := List.map_eq_append_iff.1 htoks
  obtain ⟨ts₁, hd₁, hQ⟩ := hp hus
  obtain ⟨ts₂, hd₂, hR⟩ := hq hvs
  exact ⟨_, .seq hd₁ hd₂, ts₁, ts₂, rfl, hQ, hR⟩

theorem left (h : Forms p ws Q) : Forms (.alt p q) ws Q := by
  intro toks htoks
  obtain ⟨trees, hd, hQ⟩ := h htoks
  exact ⟨trees, .left hd, hQ⟩

theorem right (h : Forms q ws Q) : Forms (.alt p q) ws Q := by
  intro toks htoks
  obtain ⟨trees, hd, hQ⟩ := h htoks
  exact ⟨trees, .right hd, hQ⟩

theorem node (l : Label) (h : Forms p ws Q) (hne : ws ≠ []) :
    Forms (.node l p) ws fun ts => ∃ span children,
      ts = [.node l (some span) children] ∧ Q children := by
  intro toks htoks
  cases toks with
  | nil => exact absurd htoks.symm hne
  | cons tok toks =>
    obtain ⟨trees, hd, hQ⟩ := h htoks
    exact ⟨_, .node l hd, _, trees, rfl, hQ⟩

/-! ## Sequences with keywords -/

theorem skip {k : Keyword} (h : Forms p ws Q) :
    Forms (.seq (.word k) p) (.ofKeyword k :: ws) Q := by
  refine ((word k).seq h).mono ?_
  rintro _ ⟨ts₁, ts₂, rfl, rfl, hQ⟩
  exact hQ

theorem last (h : Forms p ws Q) : Forms (.seq p .nothing) ws Q := by
  have hseq := h.seq nothing
  rw [List.append_nil] at hseq
  refine hseq.mono ?_
  rintro _ ⟨ts₁, ts₂, rfl, hQ, rfl⟩
  rwa [List.append_nil]

theorem closed {k : Keyword} (h : Forms p ws Q) :
    Forms (.seq p (.seq (.word k) .nothing)) (ws ++ [.ofKeyword k]) Q := by
  refine (h.seq (word k).last).mono ?_
  rintro _ ⟨ts₁, ts₂, rfl, hQ, rfl⟩
  rwa [List.append_nil]

theorem braces (h : Forms p ws Q) :
    Forms (Grammar.braces p) (.ofKeyword .openBrace :: ws ++ [.ofKeyword .closeBrace]) Q :=
  h.closed.skip

theorem withComma (h : Forms p ws Q) :
    Forms (Grammar.withComma p) (ws ++ [.ofKeyword .comma]) Q := by
  refine (h.seq (word .comma).left).mono ?_
  rintro _ ⟨ts₁, ts₂, rfl, hQ, rfl⟩
  rwa [List.append_nil]

/-! ## Repetitions -/

theorem manyEnd : Forms (.many p) [] (· = []) := by
  intro toks htoks
  rw [List.map_eq_nil_iff] at htoks
  exact ⟨[], htoks ▸ .manyEnd, rfl⟩

theorem more (hp : Forms p us Q) (hq : Forms (.many p) vs R) :
    Forms (.many p) (us ++ vs) fun ts => ∃ ts₁ ts₂, ts = ts₁ ++ ts₂ ∧ Q ts₁ ∧ R ts₂ := by
  intro toks htoks
  obtain ⟨toks₁, toks₂, rfl, hus, hvs⟩ := List.map_eq_append_iff.1 htoks
  obtain ⟨ts₁, hd₁, hQ⟩ := hp hus
  obtain ⟨ts₂, hd₂, hR⟩ := hq hvs
  exact ⟨_, .more hd₁ hd₂, ts₁, ts₂, rfl, hQ, hR⟩

/-- Several times and then several times more. -/
theorem append (hp : Forms (.many p) us Q) (hq : Forms (.many p) vs R) :
    Forms (.many p) (us ++ vs) fun ts => ∃ ts₁ ts₂, ts = ts₁ ++ ts₂ ∧ Q ts₁ ∧ R ts₂ := by
  have derives_append : ∀ {r : Phrase} {toks₁ toks₂ : List Token} {ts₁ ts₂ : List Tree},
      Derives r toks₁ ts₁ → r = .many p → Derives (.many p) toks₂ ts₂ →
      Derives (.many p) (toks₁ ++ toks₂) (ts₁ ++ ts₂) := by
    intro r toks₁ toks₂ ts₁ ts₂ h hr h₂
    induction h with
    | manyEnd => exact h₂
    | more hd _ _ ih =>
      cases hr
      rw [List.append_assoc, List.append_assoc]
      exact .more hd (ih rfl)
    | _ => cases hr
  intro toks htoks
  obtain ⟨toks₁, toks₂, rfl, hus, hvs⟩ := List.map_eq_append_iff.1 htoks
  obtain ⟨ts₁, hd₁, hQ⟩ := hp hus
  obtain ⟨ts₂, hd₂, hR⟩ := hq hvs
  exact ⟨_, derives_append hd₁ rfl hd₂, ts₁, ts₂, rfl, hQ, hR⟩

/-- What is repeated is there at least once if there are words. -/
theorem some (h : Forms (.many p) ws Q) (hne : ws ≠ []) : Forms (.seq p (.many p)) ws Q := by
  intro toks htoks
  obtain ⟨trees, hd, hQ⟩ := h htoks
  cases hd with
  | manyEnd => exact absurd htoks.symm hne
  | more hd₁ hd₂ => exact ⟨_, .seq hd₁ hd₂, hQ⟩

/-! ## Listings -/

theorem commaEnd : Forms (.afterComma p) [] (· = []) := by
  intro toks htoks
  rw [List.map_eq_nil_iff] at htoks
  exact ⟨[], htoks ▸ .commaEnd, rfl⟩

/-- An item with a comma after it, in front of others. -/
theorem item (hp : Forms p us Q) (hq : Forms (.afterComma p) vs R) :
    Forms (.afterComma p) (us ++ .ofKeyword .comma :: vs) fun ts =>
      ∃ ts₁ ts₂, ts = ts₁ ++ ts₂ ∧ Q ts₁ ∧ R ts₂ := by
  intro toks htoks
  obtain ⟨toks₁, toks₂, rfl, hus, hcomma⟩ := List.map_eq_append_iff.1 htoks
  obtain ⟨tok, toks₃, rfl, htok, hvs⟩ := List.map_eq_cons_iff.1 hcomma
  obtain ⟨ts₁, hd₁, hQ⟩ := hp hus
  obtain ⟨ts₂, hd₂, hR⟩ := hq hvs
  have hterm : tok.terminal = .keyword .comma := congrArg Word.terminal htok
  exact ⟨_, .item hd₁ (.comma hterm hd₂), ts₁, ts₂, rfl, hQ, hR⟩

/-- What may stand after a comma is a listing if there are words. -/
theorem listing (h : Forms (.afterComma p) ws Q) (hne : ws ≠ []) : Forms (.listing p) ws Q := by
  intro toks htoks
  obtain ⟨trees, hd, hQ⟩ := h htoks
  cases hd with
  | commaEnd => exact absurd htoks.symm hne
  | item hd₁ hd₂ => exact ⟨_, .seq hd₁ hd₂, hQ⟩

end Forms

end PlatformGame.Parse
