import Mathlib.Data.List.Chain
import PlatformGame.Parse.Failure
import PlatformGame.Proofs.Parse.Feed
import PlatformGame.Proofs.Parse.Form

/-! # What of the grammar is read

A text of the grammar whose tokens are kept apart is read as the tree of its derivation
(`readAs_of_parts`), with one exception: a name spelled `win`, `lose` or `nextLevel` straight after
a string is taken for the keyword, and the text is refused (`exists_readAs_error`). -/

namespace PlatformGame.Parse

open Grammar Source

variable {r r' : Reader} {a b tok : Token} {trees : List Tree} {c c' : Cursor} {toks : List Token}
  {e : String × Phrase} {fuel : Nat}

/-- A string, and then a name that is spelled like a keyword which strings may be followed by. -/
def Clash (v w : Word) : Prop :=
  v.terminal = .string ∧ w.terminal = .name ∧ w.text ∈ clashing.map Keyword.text

instance (v w : Word) : Decidable (Clash v w) :=
  inferInstanceAs (Decidable (_ ∧ _ ∧ _))

namespace Reader

/-! ## Recognising the tokens of a derivation -/

theorem mem_admitted_of_completes (hr : r.Ready) {us : List Token} {xs : List Tree}
    (h : r.Completes (tok :: us) xs) : tok.terminal ∈ r.admitted := by
  have hframes := hr.frames
  cases hf : r.frames with
  | nil =>
    rw [Completes, hf] at h
    obtain ⟨ys, hd, -⟩ := h
    simpa [admitted, hf] using hd.mem_firstOfAll hr.goal.solid []
  | cons f fs =>
    rw [hf] at hframes
    rw [Completes, hf] at h
    obtain ⟨us₁, us₂, ys, hus, hd, h⟩ := h
    simp only [admitted, hf]
    cases us₁ with
    | nil =>
      rw [List.nil_append] at hus
      subst hus
      have hmem := mem_expectedFrom_of_completes hr.goal.solid hframes.2.2 h
      exact mem_firstOfAll_of_nullable hd.eq_nil.1 (hframes.2.1 _ hmem)
    | cons u us₁ =>
      cases hus
      exact hd.mem_firstOfAll hframes.1.solid _

theorem isWord_of_mem_clashing {k : Keyword} (h : k ∈ clashing) : isWord k = true := by
  have hall : (clashing.all isWord) = true := by decide
  exact List.all_eq_true.1 hall k h

theorem namelike_of_isWord {k : Keyword} (h : isWord k = true) : namelike k = true := by
  unfold isWord at h
  split at h
  · next s hs => simp [namelike, hs]
  · cases h

/-- The next token of a derivation is recognised, unless it clashes with the one before it. -/
theorem scan_of_completes (hr : r.Steady) {us : List Token} {xs : List Tree}
    (h : r.Completes (tok :: us) xs) (hm : tok.terminal.Matches tok.text.toList) {rest : List Char}
    (hrest : Parted rest) (hclear : ∀ prev ∈ r.last, ¬ Clash prev.word tok.word) :
    scan r.admitted (tok.text.toList ++ rest) = some (tok.terminal, ⟨tok.text.toList, rest⟩) := by
  refine scan_append (mem_admitted_of_completes hr.ready h) hm hrest ?_ ?_
  · intro hname k hk hlike
    exact isWord_of_mem_clashing (hr.told hname k hk hlike).2
  · intro hname k hk hword heq
    have hmem : .name ∈ r.admitted := hname ▸ mem_admitted_of_completes hr.ready h
    obtain ⟨⟨prev, hprev, hstring⟩, hclash⟩ := hr.told hmem k hk (namelike_of_isWord hword)
    refine hclear prev hprev ⟨hstring, hname, List.mem_map.2 ⟨k, hclash, ?_⟩⟩
    exact String.toList_injective heq

/-! ## Reading a derivation -/

/-- No name stands beside a keyword at the start of a text. -/
theorem steady_start (he : e ∈ entries) : (Reader.start e.2).Steady := by
  have hall : (entries.all fun e => lexical .endOfInput e.2.first.contains
      && apart (e.2.firstOr [.endOfInput])) = true := by decide
  have h := List.all_eq_true.1 hall e he
  rw [Bool.and_eq_true] at h
  have hfirst : ∀ t ∈ (Reader.start e.2).admitted, e.2.first.contains t = true := by
    intro t ht
    simpa [admitted, start, firstOfAll, Phrase.firstOr] using ht
  refine ⟨ready_start (entries_sure he), fun hname k hk hlike => ?_, h.2⟩
  exact absurd (told_of_lexical h.1 hfirst hname k hk hlike).1 (by decide)

theorem finish_of_completes (hr : r.Ready) (h : r.Completes [] trees) : r.finish = .ok trees := by
  have hfeed : r.feed r.endToken = .finished trees := finishedFrom rfl hr rfl h
  simp [finish, hfeed]

theorem token?_of_scan {admitted : List Terminal} {t : Terminal} {rest : List Char}
    (hc : c.nextStart = ⟨tok.text.toList ++ rest, tok.span.first⟩)
    (hspan : tok.span.last = tok.span.first.after tok.text.toList)
    (hs : scan admitted (tok.text.toList ++ rest) = some (t, ⟨tok.text.toList, rest⟩)) :
    c.nextStart.token? admitted = some ({ tok with terminal := t }, ⟨rest, tok.span.last⟩) := by
  simp [Cursor.token?, hc, hs, Cursor.past, ← hspan]

theorem exists_rest_eq_cons {ts : List Terminal} (h : c.token? ts = some (tok, c')) :
    ∃ ch cs, c.rest = ch :: cs := by
  obtain ⟨hm, htext, -⟩ := Cursor.of_token? h
  obtain ⟨ch, cs, hcons, -⟩ := hm.exists_cons
  exact ⟨ch, cs ++ c'.rest, by rw [← htext, hcons]; rfl⟩

theorem run_of_taken (h : c.nextStart.token? r.admitted = some (tok, c'))
    (hfeed : r.feed tok = .taken r') : r.run (fuel + 1) c = r'.run fuel c' := by
  obtain ⟨ch, cs, hrest⟩ := exists_rest_eq_cons h
  simp only [run, hrest, h, hfeed]

theorem run_of_refused (h : c.nextStart.token? r.admitted = some (tok, c'))
    (hfeed : r.feed tok = .refused r') : r.run (fuel + 1) c = .error (.token tok r'.expected) := by
  obtain ⟨ch, cs, hrest⟩ := exists_rest_eq_cons h
  simp only [run, hrest, h, hfeed]

/-- A run goes over the next token of a derivation, unless it clashes with the one before it. -/
theorem exists_run_eq (hr : r.Steady) (hc : r.Completes (tok :: toks) trees) {rest : List Char}
    (hstart : c.nextStart = ⟨tok.text.toList ++ rest, tok.span.first⟩)
    (hspan : tok.span.last = tok.span.first.after tok.text.toList)
    (hm : tok.terminal.Matches tok.text.toList) (hrest : Parted rest)
    (hclear : ∀ prev ∈ r.last, ¬ Clash prev.word tok.word) (fuel : Nat) :
    ∃ r', Takes tok r r' ∧ r'.Completes toks trees ∧
      r.run (fuel + 1) c = r'.run fuel ⟨rest, tok.span.last⟩ := by
  have hne : tok.terminal ≠ .endOfInput := fun h => by
    rw [h] at hm
    exact hm
  obtain ⟨r', hfeed, hc'⟩ := exists_feedFrom hne hr.ready rfl hc
  have hscan := scan_of_completes hr hc hm hrest hclear
  exact ⟨r', takes_of_feedFrom rfl hfeed, hc',
    run_of_taken (token?_of_scan hstart hspan hscan) hfeed⟩

theorem run_of_parts (hp : Parts c toks) (hr : r.Steady) (hfuel : toks.length < fuel)
    (hc : r.Completes toks trees)
    (hclear : ∀ a b, [a, b] <:+: r.last.toList ++ toks → ¬ Clash a.word b.word) :
    r.run fuel c = .ok trees := by
  induction hp generalizing fuel r with
  | done hnil =>
    cases fuel with
    | zero => exact absurd hfuel (Nat.not_lt_zero _)
    | succ fuel => simp [run, hnil, finish_of_completes hr.ready hc]
  | @token rest toks c tok hstart hspan hm hrest _ ih =>
    cases fuel with
    | zero => exact absurd hfuel (Nat.not_lt_zero _)
    | succ fuel =>
      have hprev : ∀ prev ∈ r.last, ¬ Clash prev.word tok.word := fun prev hprev =>
        hclear prev tok ⟨[], toks, by simp [Option.mem_def.1 hprev]⟩
      obtain ⟨r', htakes, hc', hrun⟩ := exists_run_eq hr hc hstart hspan hm hrest hprev fuel
      rw [hrun]
      refine ih (htakes.steady hr.ready) (Nat.lt_of_succ_lt_succ hfuel) hc' fun a b hab => ?_
      rw [htakes.last_eq] at hab
      exact hclear a b (hab.trans ⟨r.last.toList, [], by simp⟩)

end Reader

/-- A text of the grammar whose tokens are kept apart is read as the tree of its derivation, if no
token clashes with the one before it. -/
theorem readAs_of_parts (he : e ∈ entries) {source : String} (hp : Parts (.ofString source) toks)
    (hd : Derives e.2 toks trees) (hclear : ∀ a b, [a, b] <:+: toks → ¬ Clash a.word b.word) :
    readAs e.2 source = .ok trees :=
  Reader.run_of_parts hp (Reader.steady_start he) (Nat.lt_succ_of_le hp.length_le)
    (Reader.completes_start_iff.2 hd) (by simpa [Reader.start] using hclear)

/-! ## Clashing tokens -/

/-- After a string, the innermost node is that of the string, and it is complete. -/
def EndsString (t : Terminal) (fs : List Frame) : Prop :=
  t = .string → ∃ f gs, fs = f :: gs ∧ f.label = .string ∧ f.rest = []

/-- Strings stand in nodes of their own. -/
def stringsApart : Phrase → Bool
  | .nothing => true
  | .token t _ => t != .string
  | .seq p q | .alt p q => stringsApart p && stringsApart q
  | .many p | .afterItem p | .afterComma p => stringsApart p
  | .node l p => stringsApart p || (l == .string && p == .token .string true)

theorem entries_stringsApart : ∀ e ∈ entries, stringsApart e.2 = true := by
  have h : (entries.all fun e => stringsApart e.2) = true := by decide
  exact List.all_eq_true.1 h

structure Opening.StringsApart (o : Opening) (t : Terminal) : Prop where
  rest : ∀ p ∈ o.rest, stringsApart p = true
  frames : ∀ f ∈ o.frames, ∀ p ∈ f.rest, stringsApart p = true
  ends : EndsString t o.frames

namespace Opening.StringsApart

variable {o : Opening} {t : Terminal}

theorem append (h : o.StringsApart t) (ps : List Phrase) (hps : ∀ p ∈ ps, stringsApart p = true) :
    Opening.StringsApart { o with rest := o.rest ++ ps } t where
  rest p hp := (List.mem_append.1 hp).elim (h.rest p) (hps p)
  frames := h.frames
  ends := h.ends

theorem enclose (h : o.StringsApart t) (l : Label) (first : Position) :
    (o.enclose l first).StringsApart t where
  rest := by simp [Opening.enclose]
  frames f hf := by
    rcases List.mem_append.1 hf with hf | hf
    · exact h.frames f hf
    · rw [List.mem_singleton.1 hf]
      exact h.rest
  ends ht := by
    obtain ⟨f, gs, hfs, hl⟩ := h.ends ht
    exact ⟨f, gs ++ [⟨l, first, o.parts, o.rest⟩], by simp [Opening.enclose, hfs], hl⟩

end Opening.StringsApart

theorem Opens.stringsApart {p : Phrase} {o : Opening} (h : Opens tok p o)
    (hp : stringsApart p = true) : o.StringsApart tok.terminal := by
  induction h with
  | token keep =>
    refine ⟨by simp, by simp, fun hs => ?_⟩
    simp [Parse.stringsApart, hs] at hp
  | first _ ih =>
    simp only [Parse.stringsApart, Bool.and_eq_true] at hp
    exact (ih hp.1).append [_] (by simpa using hp.2)
  | left _ ih =>
    simp only [Parse.stringsApart, Bool.and_eq_true] at hp
    exact ih hp.1
  | second _ _ ih | right _ ih =>
    simp only [Parse.stringsApart, Bool.and_eq_true] at hp
    exact ih hp.2
  | more _ ih | item _ ih => exact (ih hp).append [_] (by simpa [Parse.stringsApart] using hp)
  | comma ht =>
    refine ⟨by simpa [Parse.stringsApart] using hp, by simp, fun hs => ?_⟩
    rw [ht] at hs
    cases hs
  | @node _ _ l h ih =>
    simp only [Parse.stringsApart, Bool.or_eq_true, Bool.and_eq_true, beq_iff_eq] at hp
    rcases hp with hp | ⟨rfl, rfl⟩
    · exact (ih hp).enclose l tok.span.first
    · -- the string token itself
      obtain ⟨t, text, span⟩ := tok
      cases h
      exact ⟨by simp [Opening.enclose], by simp [Opening.enclose], fun _ => ⟨_, _, rfl, rfl, rfl⟩⟩

theorem stringsApart_of_takeAll {ps : List Phrase} (hps : ∀ p ∈ ps, stringsApart p = true)
    {o : Opening} (h : takeAll tok ps = some o) : o.StringsApart tok.terminal := by
  replace h := OpensAll.of_takeAll h
  induction h with
  | head h =>
    rw [List.forall_mem_cons] at hps
    exact (h.stringsApart hps.1).append _ hps.2
  | tail _ _ ih => exact ih (List.forall_mem_cons.1 hps).2

namespace Reader

structure StringsApart (r : Reader) : Prop where
  goal : ∀ p ∈ r.goal, stringsApart p = true
  frames : ∀ f ∈ r.frames, ∀ p ∈ f.rest, stringsApart p = true

theorem StringsApart.close {f : Frame} {fs : List Frame} (hr : r.StringsApart)
    (hf : r.frames = f :: fs) : r.close.StringsApart := by
  obtain ⟨hgoal, hframes⟩ := hr
  rw [hf, List.forall_mem_cons] at hframes
  cases fs with
  | nil => exact ⟨by simpa [Reader.close, hf] using hgoal, by simp [Reader.close, hf]⟩
  | cons g gs =>
    exact ⟨by simpa [Reader.close, hf] using hgoal, by simpa [Reader.close, hf] using hframes.2⟩

theorem Takes.stringsApart (h : Takes tok r r') (hr : r.StringsApart) :
    r'.StringsApart ∧ EndsString tok.terminal r'.frames := by
  induction h with
  | goal hf ho =>
    have hop := stringsApart_of_takeAll hr.goal ho
    exact ⟨⟨hop.rest, hop.frames⟩, hop.ends⟩
  | @node r f fs o hf ho =>
    have hframes := hr.frames
    rw [hf, List.forall_mem_cons] at hframes
    have hop := stringsApart_of_takeAll hframes.1 ho
    refine ⟨⟨hr.goal, fun g hg => ?_⟩, fun ht => ?_⟩
    · rcases List.mem_append.1 hg with hg | hg
      · exact hop.frames g hg
      · rcases List.mem_cons.1 hg with rfl | hg
        · exact hop.rest
        · exact hframes.2 g hg
    · obtain ⟨g, gs, hgs, hl⟩ := hop.ends ht
      exact ⟨g, _, by simp [hgs]; rfl, hl⟩
  | close hf _ _ ih => exact ih (hr.close hf)

theorem mem_follow_string {k : Keyword} (hk : k ∈ clashing) : .keyword k ∈ follow .string := by
  have hall : (clashing.all fun k => placesOfNodes.any fun e =>
      e.1 == .string && e.2.contains (.keyword k)) = true := by decide +kernel
  obtain ⟨⟨l, ts⟩, he, h⟩ := List.any_eq_true.1 (List.all_eq_true.1 hall k hk)
  simp only [Bool.and_eq_true, beq_iff_eq, List.contains_iff_mem] at h
  exact mem_follow_iff.2 ⟨ts, h.1 ▸ he, h.2⟩

/-- A name that clashes with the string before it is recognised as a keyword, which cannot stand
where the name does. -/
theorem exists_run_eq_error (hr : r.Steady) {prev : Token}
    (hends : EndsString prev.terminal r.frames) (hc : r.Completes (tok :: toks) trees)
    {rest : List Char} (hstart : c.nextStart = ⟨tok.text.toList ++ rest, tok.span.first⟩)
    (hspan : tok.span.last = tok.span.first.after tok.text.toList) (hrest : Parted rest)
    (hclash : Clash prev.word tok.word) (fuel : Nat) : ∃ e, r.run (fuel + 1) c = .error e := by
  simp only [Clash, Token.word] at hclash
  obtain ⟨hstring, hname, htext⟩ := hclash
  obtain ⟨k, hk, hkt⟩ := List.mem_map.1 htext
  obtain ⟨f, fs, hf, hl, hnil⟩ := hends hstring
  have hadmitted : .keyword k ∈ r.admitted := by
    simpa [admitted, hf, hl, hnil, firstOfAll] using mem_follow_string hk
  have hscan : scan r.admitted (tok.text.toList ++ rest) =
      some (.keyword k, ⟨tok.text.toList, rest⟩) := by
    rw [← hkt]
    exact scan_append hadmitted rfl hrest
      (fun hn k' hk' hlike => isWord_of_mem_clashing (hr.told hn k' hk' hlike).2)
      (by simp)
  have hexpected := mem_expectedFrom_of_completes hr.ready.goal.solid
    hr.ready.frames hc
  rw [← expectedIn_eq, hname] at hexpected
  cases hfeed : r.feed { tok with terminal := .keyword k } with
  | refused r' => exact ⟨_, run_of_refused (token?_of_scan hstart hspan hscan) hfeed⟩
  | finished trees => exact absurd (finishes_of_feedFrom rfl hfeed).1 (by simp)
  | taken r' =>
    have hmem := (takes_of_feedFrom rfl hfeed).mem_expectedIn
    exact absurd hmem (notMem_of_apart hr.apart hexpected hk)

theorem exists_run_error (hp : Parts c toks) (hr : r.Steady) (hstr : r.StringsApart)
    (hends : ∀ prev ∈ r.last, EndsString prev.terminal r.frames) (hfuel : toks.length < fuel)
    (hc : r.Completes toks trees) (hab : [a, b] <:+: r.last.toList ++ toks)
    (hclash : Clash a.word b.word) : ∃ e, r.run fuel c = .error e := by
  induction hp generalizing fuel r with
  | done hnil =>
    -- one token is no pair
    have hle := hab.length_le
    cases hlast : r.last <;> simp [hlast] at hle
  | @token rest toks c tok hstart hspan hm hrest _ ih =>
    cases fuel with
    | zero => exact absurd hfuel (Nat.not_lt_zero _)
    | succ fuel =>
      by_cases hclear : ∀ prev ∈ r.last, ¬ Clash prev.word tok.word
      · obtain ⟨r', htakes, hc', hrun⟩ := exists_run_eq hr hc hstart hspan hm hrest hclear fuel
        obtain ⟨hstr', hends'⟩ := htakes.stringsApart hstr
        have hlast := htakes.last_eq
        rw [hrun]
        refine ih (htakes.steady hr.ready) hstr' (by simpa [hlast] using hends')
          (Nat.lt_of_succ_lt_succ hfuel) hc' ?_
        rw [hlast, Option.toList_some, List.singleton_append]
        cases hprev : r.last with
        | none => simpa [hprev] using hab
        | some prev =>
          rw [hprev, Option.toList_some, List.singleton_append, List.infix_cons_iff] at hab
          rcases hab with hpre | hin
          · obtain ⟨rfl, hsecond⟩ := List.cons_prefix_cons.1 hpre
            obtain ⟨rfl, -⟩ := List.cons_prefix_cons.1 hsecond
            exact absurd hclash (hclear a hprev)
          · exact hin
      · obtain ⟨prev, h⟩ := Classical.not_forall.1 hclear
        obtain ⟨hprev, h⟩ := Classical.not_imp.1 h
        exact exists_run_eq_error hr (hends prev hprev) hc hstart hspan hrest
          (Classical.not_not.1 h) fuel

end Reader

/-- A text of the grammar in which a token clashes with the one before it is refused. -/
theorem exists_readAs_error (he : e ∈ entries) {source : String}
    (hp : Parts (.ofString source) toks) (hd : Derives e.2 toks trees) (hab : [a, b] <:+: toks)
    (hclash : Clash a.word b.word) : ∃ failure, readAs e.2 source = .error failure :=
  Reader.exists_run_error hp (Reader.steady_start he)
    ⟨by simpa [Reader.start] using entries_stringsApart e he, by simp [Reader.start]⟩
    (by simp [Reader.start]) (Nat.lt_succ_of_le hp.length_le) (Reader.completes_start_iff.2 hd)
    (by simpa [Reader.start] using hab) hclash

/-! ## Words with a space between them -/

/-- Some word clashes with the one before it. -/
def Clashing (ws : List Word) : Prop := ∃ v w, [v, w] <:+: ws ∧ Clash v w

theorem Clashing.exists_tokens (h : Clashing (toks.map Token.word)) :
    ∃ a b, [a, b] <:+: toks ∧ Clash a.word b.word := by
  obtain ⟨v, w, ⟨us, vs, heq⟩, hclash⟩ := h
  obtain ⟨ts, ts', rfl, hts, -⟩ := List.map_eq_append_iff.1 heq.symm
  obtain ⟨ts₁, ts₂, rfl, -, hts₂⟩ := List.map_eq_append_iff.1 hts
  obtain ⟨a, ts₃, rfl, rfl, hts₃⟩ := List.map_eq_cons_iff.1 hts₂
  obtain ⟨b, ts₄, rfl, rfl, hts₄⟩ := List.map_eq_cons_iff.1 hts₃
  obtain rfl := List.map_eq_nil_iff.1 hts₄
  exact ⟨a, b, ⟨ts₁, ts', rfl⟩, hclash⟩

theorem Clashing.of_tokens (hab : [a, b] <:+: toks) (h : Clash a.word b.word) :
    Clashing (toks.map Token.word) :=
  ⟨a.word, b.word, hab.map Token.word, h⟩

theorem not_clashing_of_isChain {ws : List Word} (h : ws.IsChain fun v w => ¬ Clash v w) :
    ¬ Clashing ws := by
  rintro ⟨v, w, hinfix, hclash⟩
  have hpair := List.IsChain.infix h hinfix
  exact List.isChain_pair.1 hpair hclash

/-- The words of a derivation are read as its tree if none clashes with the one before it. -/
theorem readAs_of_not_clashing (he : e ∈ entries) {ws : List Word} (hws : ∀ w ∈ ws, w.Valid)
    (hd : Derives e.2 (Word.tokens .first ws) trees) (hclear : ¬ Clashing ws) :
    readAs e.2 (Word.spaced ws) = .ok trees := by
  refine readAs_of_parts he (Word.parts_spaced hws) hd fun a b hab hclash => hclear ?_
  simpa using Clashing.of_tokens hab hclash

/-- The words of a derivation are refused if one clashes with the one before it. -/
theorem exists_readAs_error_of_clashing (he : e ∈ entries) {ws : List Word}
    (hws : ∀ w ∈ ws, w.Valid) (hd : Derives e.2 (Word.tokens .first ws) trees) (h : Clashing ws) :
    ∃ failure, readAs e.2 (Word.spaced ws) = .error failure := by
  rw [← Word.map_word_tokens .first ws] at h
  obtain ⟨a, b, hab, hclash⟩ := h.exists_tokens
  exact exists_readAs_error he (Word.parts_spaced hws) hd hab hclash

/-- The words of a derivation, with a space between them, are read as the tree of the derivation
exactly if no word clashes with the one before it; otherwise the text is refused. -/
theorem readAs_start_spaced {ws : List Word} (hws : ∀ w ∈ ws, w.Valid) {trees : List Tree}
    (hd : Derives start (Word.tokens .first ws) trees) :
    (¬ Clashing ws → readAs start (Word.spaced ws) = .ok trees) ∧
      (Clashing ws → ∃ failure, readAs start (Word.spaced ws) = .error failure) := by
  have he : ("start", start) ∈ entries := List.mem_cons_self
  exact ⟨readAs_of_not_clashing he hws hd, exists_readAs_error_of_clashing he hws hd⟩

/-! ## Layers named like a keyword -/

/-- A game with a level of two layers. The second is named `win`; `gap` stands in front of it. -/
def layeredGame (gap : List Word) : List Word :=
  [.ofKeyword .game, ⟨.string, "\"t\""⟩, .ofKeyword .openBrace, .ofKeyword .level,
    ⟨.string, "\"a\""⟩, .ofKeyword .openBrace, .ofKeyword .layers, .ofKeyword .colon,
    .ofKeyword .openBrace, ⟨.name, "ground"⟩, .ofKeyword .colon, ⟨.string, "\"x\""⟩] ++ gap ++
  [⟨.name, "win"⟩, .ofKeyword .colon, ⟨.string, "\"y\""⟩, .ofKeyword .closeBrace,
    .ofKeyword .closeBrace, .ofKeyword .closeBrace]

theorem forms_layerMapping (name path : String) :
    Forms layerMapping [⟨.name, name⟩, .ofKeyword .colon, ⟨.string, path⟩] fun _ => True := by
  have hname := (Forms.token ⟨.name, name⟩ true).node .ident (List.cons_ne_nil _ _)
  have hpath := (Forms.token ⟨.string, path⟩ true).node .string (List.cons_ne_nil _ _)
  exact ((hname.seq hpath.last.skip).node .layerMapping (List.cons_ne_nil _ _)).mono
    fun _ _ => trivial

/-- The comma between two layers may be there or not. -/
theorem forms_layeredGame {gap : List Word}
    (hgap : Forms (.optional (.word .comma)) gap fun _ => True) :
    Forms start (layeredGame gap) fun _ => True := by
  have hstring (s : String) := (Forms.token ⟨.string, s⟩ true).node .string (List.cons_ne_nil _ _)
  have hnone : Forms (.optional (.word .comma)) [] (· = []) := Forms.nothing.right
  have hlayers := ((forms_layerMapping "ground" "\"x\"").seq hgap).seq
    (((forms_layerMapping "win" "\"y\"").seq hnone).more Forms.manyEnd)
  have hprop : Forms levelProp _ _ :=
    (hlayers.braces.last.skip.skip.node .layers (List.cons_ne_nil _ _)).left.right
  have hlevel : Forms levelBlock _ _ := ((hstring "\"a\"").seq
    ((hprop.seq hnone).more Forms.manyEnd).braces.last).skip.node .levelBlock (List.cons_ne_nil _ _)
  have hblock : Forms gameBlock _ _ := hlevel.left.right.right.right.right.right
  have hgame : Forms game _ _ := ((hstring "\"t\"").seq
    (hblock.more Forms.manyEnd).braces.last).skip.node .game (List.cons_ne_nil _ _)
  have hstart : Forms start _ fun _ => True :=
    (hgame.node .start (List.cons_ne_nil _ _)).mono fun _ _ => trivial
  simpa [layeredGame] using hstart

theorem valid_layeredGame {gap : List Word} (hgap : ∀ w ∈ gap, w.Valid) :
    ∀ w ∈ layeredGame gap, w.Valid := by
  have hstring (c : Char) (hc : c ∉ ['"', '\\', '\n']) : IsString ['"', c, '"'] := by
    simp only [List.mem_cons, List.not_mem_nil, or_false, not_or] at hc
    exact ⟨[c], .plain hc.1 hc.2.1 hc.2.2 .nil, rfl⟩
  have hname {s : String} {c : Char} {cs : List Char} (hs : s.toList = c :: cs)
      (hc : isNameStart c = true) (hcs : cs.all isNameChar = true) (hr : s ∉ reservedWords) :
      IsName s.toList := ⟨c, cs, hs, hc, List.all_eq_true.1 hcs, by rwa [String.ofList_toList]⟩
  simp only [layeredGame, List.forall_mem_append, List.forall_mem_cons]
  refine ⟨⟨⟨rfl, hstring 't' (by decide), rfl, rfl, hstring 'a' (by decide), rfl, rfl, rfl, rfl,
    hname rfl (by decide) (by decide) (by decide), rfl, hstring 'x' (by decide), nofun⟩, hgap⟩,
    hname rfl (by decide) (by decide) (by decide), rfl, hstring 'y' (by decide), rfl, rfl, rfl,
    nofun⟩

/-- With a comma in front of it, a layer may have any name. -/
theorem readAs_layeredGame_comma :
    let ws := layeredGame [.ofKeyword .comma]
    ¬ Clashing ws ∧ ∃ trees, Derives start (Word.tokens .first ws) trees ∧
      readAs start (Word.spaced ws) = .ok trees := by
  intro ws
  have hcomma : Forms (.optional (.word .comma)) [.ofKeyword .comma] fun _ => True :=
    (Forms.word .comma).left.mono fun _ _ => trivial
  obtain ⟨trees, hd, -⟩ := forms_layeredGame hcomma (Word.map_word_tokens .first ws)
  have hvalid : ∀ w ∈ ws, w.Valid := valid_layeredGame (by simpa using Word.valid_ofKeyword .comma)
  have hclear : ¬ Clashing ws := not_clashing_of_isChain (by decide)
  exact ⟨hclear, trees, hd, (readAs_start_spaced hvalid hd).1 hclear⟩

/-- Without the comma the text is still one of the grammar, but it is refused. -/
theorem exists_readAs_layeredGame_error :
    (∃ trees, Derives start (Word.tokens .first (layeredGame [])) trees) ∧
      ∃ failure, readAs start (Word.spaced (layeredGame [])) = .error failure := by
  have hnone : Forms (.optional (.word .comma)) [] fun _ => True :=
    Forms.nothing.right.mono fun _ _ => trivial
  obtain ⟨trees, hd, -⟩ := forms_layeredGame hnone (Word.map_word_tokens .first _)
  have hclash : Clashing (layeredGame []) :=
    ⟨⟨.string, "\"x\""⟩, ⟨.name, "win"⟩,
      ⟨(layeredGame []).take 11, (layeredGame []).drop 13, by decide⟩, by decide⟩
  refine ⟨⟨trees, hd⟩, ?_⟩
  have he : ("start", start) ∈ entries := List.mem_cons_self
  exact exists_readAs_error_of_clashing he (valid_layeredGame (by simp)) hd hclash

end PlatformGame.Parse
