import PlatformGame.Proofs.Source.Token

/-! # Tokens in a text

`Spelled p cs toks` says that a text which starts at `p` is made of the given tokens in order, with
layout before, between and after them: every character belongs to a token or to layout, every token
has the form of its terminal and is not cut short, and its span is where it stands. Where a comment
to the end of the line or a token may end depends on what stands behind it, so that
`SpelledBefore behind p cs toks` says the same of a text with another one behind it.

`Parts c toks` says the same in terms of the cursor, for tokens that are kept apart: what stands
behind each of them cannot be read as part of it. Words written with a space between them are such
tokens (`parts_spaced`). -/

namespace PlatformGame.Source

open Grammar

/-- White space, a comment up to a newline or the end of the text, or a block comment up to its
first closing mark, with `rest` behind it. -/
inductive LayoutPiece (rest : List Char) : List Char → Prop
  | blank : cs ≠ [] → (∀ c ∈ cs, isSpace c = true) → LayoutPiece rest cs
  | line : (∀ c ∈ cs, c ≠ '\n') → (∀ c ∈ rest.head?, c = '\n') → LayoutPiece rest ('/' :: '/' :: cs)
  | block : ¬ ['*', '/'] <:+: cs ++ ['*'] → LayoutPiece rest ('/' :: '*' :: (cs ++ ['*', '/']))

/-- Any number of pieces of layout, with `rest` behind them. -/
inductive Layout (rest : List Char) : List Char → Prop
  | nil : Layout rest []
  | cons : LayoutPiece (ds ++ rest) cs → Layout rest ds → Layout rest (cs ++ ds)

inductive SpelledBefore (behind : List Char) : Position → List Char → List Token → Prop
  | done : Layout behind gap → SpelledBefore behind p gap []
  | token {tok : Token} : Layout (tok.text.toList ++ (rest ++ behind)) gap →
    tok.terminal.Matches tok.text.toList → tok.terminal.EndsAt tok.text.toList (rest ++ behind) →
    tok.span = ⟨p.after gap, (p.after gap).after tok.text.toList⟩ →
    SpelledBefore behind tok.span.last rest toks →
    SpelledBefore behind p (gap ++ tok.text.toList ++ rest) (tok :: toks)

abbrev Spelled : Position → List Char → List Token → Prop := SpelledBefore []

variable {c : Cursor} {p : Position} {cs behind : List Char}

theorem SpelledBefore.matches {toks : List Token} (h : SpelledBefore behind p cs toks) :
    ∀ tok ∈ toks, tok.terminal.Matches tok.text.toList := by
  induction h with
  | done _ => exact fun _ h => absurd h List.not_mem_nil
  | token _ hm _ _ _ ih =>
    intro tok htok
    rcases List.mem_cons.1 htok with rfl | htok
    · exact hm
    · exact ih tok htok

/-! ## Taking away what stands behind -/

theorem forall_mem_head?_of_append {P : Char → Prop} (h : ∀ c ∈ (cs ++ behind).head?, P c) :
    ∀ c ∈ cs.head?, P c := by
  cases cs with
  | nil => exact fun _ hc => nomatch hc
  | cons => exact h

theorem Layout.of_append {rest : List Char} (h : Layout (rest ++ behind) cs) : Layout rest cs := by
  induction h with
  | nil => exact .nil
  | cons hpiece _ ih =>
    refine .cons ?_ ih
    cases hpiece with
    | blank hne hblank => exact .blank hne hblank
    | line hline hrest =>
      rw [← List.append_assoc] at hrest
      exact .line hline (forall_mem_head?_of_append hrest)
    | block hblock => exact .block hblock

theorem endsAt_of_append {t : Terminal} {rest : List Char} (h : t.EndsAt cs (rest ++ behind)) :
    t.EndsAt cs rest := by
  cases t with
  | name | color => exact forall_mem_head?_of_append h
  | number =>
    refine ⟨forall_mem_head?_of_append h.1, ?_⟩
    rintro hpoint ds rfl
    exact forall_mem_head?_of_append (h.2 hpoint _ rfl)
  | keyword | string | endOfInput => trivial

theorem SpelledBefore.of_append {rest : List Char} {toks : List Token}
    (h : SpelledBefore (rest ++ behind) p cs toks) : SpelledBefore rest p cs toks := by
  induction h with
  | done h => exact .done h.of_append
  | @token more _ _ _ _ hgap hm hends hspan _ ih =>
    rw [← List.append_assoc more] at hends hgap
    rw [← List.append_assoc] at hgap
    exact .token hgap.of_append hm (endsAt_of_append hends) hspan ih

/-! ## Skipping layout -/

theorem of_commentTail {s : Split} (h : commentTail cs = some s) :
    ∃ body, ¬ ['*', '/'] <:+: body ++ ['*'] ∧ s.piece = body ++ ['*', '/'] ∧
      s.piece ++ s.rest = cs := by
  fun_induction commentTail cs generalizing s with
  | case1 => cases h
  | case2 cs =>
    cases h
    exact ⟨[], by decide, rfl, rfl⟩
  | case3 c cs hclose ih =>
    obtain ⟨s', hs, rfl⟩ := Option.map_eq_some_iff.1 h
    obtain ⟨body, hbody, hpiece, htext⟩ := ih hs
    refine ⟨c :: body, ?_, by simp [Split.push, hpiece], by simp [Split.push, htext]⟩
    -- an earlier closing mark would start at `c`
    rw [List.cons_append, List.infix_cons_iff]
    rintro (hpre | hin)
    · obtain ⟨rfl, hslash⟩ := List.cons_prefix_cons.1 hpre
      cases body with
      | nil => simp at hslash
      | cons d body =>
        obtain ⟨rfl, -⟩ := List.cons_prefix_cons.1 hslash
        exact hclose _ rfl (by rw [← htext, hpiece, List.cons_append, List.cons_append])
    · exact hbody hin

theorem of_layout? {s : Split} (h : layout? cs = some s) :
    LayoutPiece s.rest s.piece ∧ s.piece ++ s.rest = cs := by
  unfold layout? at h
  split at h
  · next cs =>
    cases h
    refine ⟨.line (fun c hc => by simpa using of_mem_span c hc) fun c hc => ?_,
      by simp [Split.push, span_text]⟩
    simpa using head_rest_span _ _ c hc
  · obtain ⟨s', hs, rfl⟩ := Option.map_eq_some_iff.1 h
    obtain ⟨body, hbody, hpiece, htext⟩ := of_commentTail hs
    have hblock : LayoutPiece s'.rest ('/' :: '*' :: (body ++ ['*', '/'])) := .block hbody
    exact ⟨by simpa [Split.push, hpiece] using hblock, by simp [Split.push, htext]⟩
  · dsimp only at h
    split at h
    · cases h
    · next hne =>
      cases h
      exact ⟨.blank (by simpa using hne) of_mem_span, span_text _ _⟩

namespace Cursor

theorem exists_layout_skipLayout (fuel : Nat) (c : Cursor) :
    ∃ gap, Layout (c.skipLayout fuel).rest gap ∧ gap ++ (c.skipLayout fuel).rest = c.rest ∧
      (c.skipLayout fuel).position = c.position.after gap := by
  induction fuel generalizing c with
  | zero => exact ⟨[], .nil, rfl, rfl⟩
  | succ fuel ih =>
    simp only [skipLayout]
    split
    · next s hs =>
      obtain ⟨hpiece, htext⟩ := of_layout? hs
      obtain ⟨gap, hgap, hrest, hpos⟩ := ih (c.past s)
      refine ⟨s.piece ++ gap, .cons (hrest.symm ▸ hpiece) hgap, ?_, ?_⟩
      · rw [List.append_assoc, hrest]
        exact htext
      · rw [hpos, Position.after_append]
        rfl
    · exact ⟨[], .nil, rfl, rfl⟩

/-- What stands before the next token is layout. -/
theorem exists_layout_nextStart (c : Cursor) :
    ∃ gap, Layout c.nextStart.rest gap ∧ gap ++ c.nextStart.rest = c.rest ∧
      c.nextStart.position = c.position.after gap := c.exists_layout_skipLayout _

/-- A recognised token stands where the cursor is. -/
theorem of_token? {c' : Cursor} {admitted : List Terminal} {tok : Token}
    (h : c.token? admitted = some (tok, c')) :
    tok.terminal.Matches tok.text.toList ∧ tok.text.toList ++ c'.rest = c.rest ∧
      tok.span = ⟨c.position, c.position.after tok.text.toList⟩ ∧
      c'.position = tok.span.last := by
  obtain ⟨⟨t, s⟩, hs, heq⟩ := Option.map_eq_some_iff.1 h
  cases heq
  obtain ⟨hm, htext⟩ := matches_of_scan hs
  exact ⟨by simpa using hm, by simpa [past] using htext, by simp [past], rfl⟩

theorem endsAt_of_token? {c' : Cursor} {admitted : List Terminal} {tok : Token}
    (h : c.token? admitted = some (tok, c')) : tok.terminal.EndsAt tok.text.toList c'.rest := by
  obtain ⟨⟨t, s⟩, hs, heq⟩ := Option.map_eq_some_iff.1 h
  cases heq
  simpa [past] using endsAt_of_scan hs

end Cursor

/-! ## Tokens that are kept apart -/

inductive Parts : Cursor → List Token → Prop
  | done {c : Cursor} : c.nextStart.rest = [] → Parts c []
  | token {c : Cursor} {tok : Token} : c.nextStart = ⟨tok.text.toList ++ rest, tok.span.first⟩ →
    tok.span.last = tok.span.first.after tok.text.toList → tok.terminal.Matches tok.text.toList →
    Parted rest → Parts ⟨rest, tok.span.last⟩ toks → Parts c (tok :: toks)

/-- There are no more tokens than characters. -/
theorem Parts.length_le {toks : List Token} (h : Parts c toks) : toks.length ≤ c.rest.length := by
  induction h with
  | done _ => exact Nat.zero_le _
  | @token rest toks c tok hstart _ hm _ _ ih =>
    obtain ⟨gap, -, hrest, -⟩ := c.exists_layout_nextStart
    have hpos := List.length_pos_iff.2 hm.ne_nil
    have hlen := congrArg List.length hrest
    simp only [hstart, List.length_append] at hlen
    simp only [List.length_cons] at ih ⊢
    omega

/-- A terminal and a text for it. -/
structure Word where
  terminal : Terminal
  text : String
  deriving DecidableEq

def Token.word (t : Token) : Word := ⟨t.terminal, t.text⟩

variable {ws : List Word}

namespace Word

def Valid (w : Word) : Prop := w.terminal.Matches w.text.toList

/-- Words with a space between them. -/
def spaced (ws : List Word) : String := " ".intercalate (ws.map text)

/-- The tokens of words that stand in a text from `p` on with a space between them. -/
def tokens (p : Position) : List Word → List Token
  | [] => []
  | w :: ws =>
    let last := p.after w.text.toList
    ⟨w.terminal, w.text, p, last⟩ :: tokens (last.next ' ') ws

@[simp] theorem map_word_tokens (p : Position) (ws : List Word) :
    (tokens p ws).map Token.word = ws := by
  induction ws generalizing p with
  | nil => rfl
  | cons w ws ih => simp [tokens, ih, Token.word]

end Word

/-- No layout starts like a token. -/
theorem layout?_append {t : Terminal} (h : t.Matches cs) (rest : List Char) :
    layout? (cs ++ rest) = none := by
  obtain ⟨c, ds, rfl, hspace, hslash⟩ := h.exists_cons
  simp [layout?, hslash, Split.span, hspace]

namespace Cursor

theorem skipLayout_of_none {fuel : Nat} (h : layout? c.rest = none) : c.skipLayout fuel = c := by
  cases fuel with
  | zero => rfl
  | succ fuel => simp [skipLayout, h]

theorem nextStart_of_none (h : layout? c.rest = none) : c.nextStart = c :=
  skipLayout_of_none h

theorem nextStart_space (h : layout? cs = none) (hspace : ∀ c ∈ cs.head?, isSpace c = false) :
    nextStart ⟨' ' :: cs, p⟩ = ⟨cs, p.next ' '⟩ := by
  have hs : layout? (' ' :: cs) = some ⟨[' '], cs⟩ := by
    have hspan : Split.span isSpace ([' '] ++ cs) = ⟨[' '], cs⟩ :=
      span_append (List.forall_mem_singleton.2 rfl) hspace
    rw [List.singleton_append] at hspan
    simp [layout?, hspan]
  have hlen : (' ' :: cs).length = cs.length + 1 := rfl
  simp only [nextStart, hlen, skipLayout, hs]
  exact skipLayout_of_none h

end Cursor

namespace Word

theorem toList_spaced_singleton (w : Word) : (spaced [w]).toList = w.text.toList := by
  simp [spaced]

theorem toList_spaced_cons (w v : Word) (ws : List Word) :
    (spaced (w :: v :: ws)).toList = w.text.toList ++ ' ' :: (spaced (v :: ws)).toList := by
  simp [spaced, List.intercalate]

/-- No layout stands in front of the first word. -/
theorem layout?_spaced (hws : ∀ w ∈ ws, w.Valid) :
    layout? (spaced ws).toList = none ∧ ∀ c ∈ (spaced ws).toList.head?, isSpace c = false := by
  cases ws with
  | nil => exact ⟨rfl, by simp [spaced]⟩
  | cons w ws =>
    obtain ⟨rest, hrest⟩ : ∃ rest, (spaced (w :: ws)).toList = w.text.toList ++ rest := by
      cases ws with
      | nil => exact ⟨[], by simp [toList_spaced_singleton]⟩
      | cons v ws => exact ⟨_, toList_spaced_cons w v ws⟩
    have hw := hws w List.mem_cons_self
    refine ⟨hrest ▸ layout?_append hw rest, ?_⟩
    obtain ⟨c, ds, htext, hspace, -⟩ := Terminal.Matches.exists_cons hw
    simpa [hrest, htext] using hspace

theorem parts_of_nextStart (hws : ∀ w ∈ ws, w.Valid) (hc : c.nextStart = ⟨(spaced ws).toList, p⟩) :
    Parts c (tokens p ws) := by
  induction ws generalizing c p with
  | nil => exact .done (by rw [hc]; rfl)
  | cons w ws ih =>
    have hw := hws w List.mem_cons_self
    cases ws with
    | nil =>
      rw [toList_spaced_singleton] at hc
      rw [← List.append_nil w.text.toList] at hc
      exact .token hc rfl hw (by simp [Parted]) (.done (by rw [Cursor.nextStart_of_none rfl]))
    | cons v ws =>
      rw [toList_spaced_cons] at hc
      have hws' : ∀ u ∈ v :: ws, u.Valid := fun u hu => hws u (.tail _ hu)
      obtain ⟨hnone, hspace⟩ := layout?_spaced hws'
      exact .token hc rfl hw (by simp [Parted, isSpace])
        (ih hws' (Cursor.nextStart_space hnone hspace))

/-- Words with a space between them are the tokens of their text. -/
theorem parts_spaced (hws : ∀ w ∈ ws, w.Valid) : Parts (.ofString (spaced ws)) (tokens .first ws) :=
  parts_of_nextStart hws (Cursor.nextStart_of_none (layout?_spaced hws).1)

end Word

end PlatformGame.Source
