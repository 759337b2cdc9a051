import PlatformGame.Proofs.Parse.Completeness
import PlatformGame.Proofs.Parse.Sentence
import PlatformGame.Proofs.Parse.Settled
import PlatformGame.Proofs.Parse.Shape

/-! # How far a run gets

A run that fails has taken tokens up to some place (`Reader.Reaches`) and stops there in one of
three ways (`Reader.Stops`). What it has taken decides what completes it: a reader that was reached
is completed by just those tokens that complete the text read so far (`Reaches.completes_iff`).

A token that is refused may have closed nodes before. That does not change what is expected
(`Closes.expectedIn_eq`): a node that can be closed has nothing left to read, or it is a listing,
and then the token is the bracket behind it, which is expected. -/

namespace PlatformGame.Grammar

theorem Terminal.Matches.ne_endOfInput {t : Terminal} {cs : List Char} (h : t.Matches cs) :
    t ≠ .endOfInput := by
  rintro rfl
  exact h

end PlatformGame.Grammar

namespace PlatformGame.Source

open Grammar

theorem Layout.append {rest cs ds : List Char} (h : Layout (ds ++ rest) cs)
    (hd : Layout rest ds) : Layout rest (cs ++ ds) := by
  induction h with
  | nil => exact hd
  | cons hpiece _ ih =>
    rw [← List.append_assoc] at hpiece
    rw [List.append_assoc]
    exact .cons hpiece ih

theorem SpelledBefore.append_layout {behind : List Char} {p : Position} {cs gap : List Char}
    {toks : List Token} (h : SpelledBefore (gap ++ behind) p cs toks) (hgap : Layout behind gap) :
    SpelledBefore behind p (cs ++ gap) toks := by
  induction h with
  | done h => exact .done (h.append hgap)
  | @token rest _ _ _ _ h hm hends hspan _ ih =>
    rw [← List.append_assoc rest gap behind] at h hends
    rw [List.append_assoc]
    exact .token h hm hends hspan ih

/-! ## Recognising no token -/

theorem longestKeyword_ne_none {ks : List Keyword} {k : Keyword} (hk : k ∈ ks) {cs : List Char}
    {s : Split} (hs : keyword? k cs = some s) : longestKeyword ks cs ≠ none := by
  -- the best keyword is never given up, and `k` gives one
  have step : ∀ (ks : List Keyword) (best : Option (Keyword × Split)), best ≠ none ∨ k ∈ ks →
      ks.foldl (longerKeyword cs) best ≠ none := by
    intro ks
    induction ks with
    | nil => exact fun best h => h.resolve_right List.not_mem_nil
    | cons k' ks ih =>
      intro best h
      apply ih
      obtain ⟨heq, hbest⟩ | ⟨s', -, heq, -⟩ := longerKeyword_cases cs best k'
      · rw [heq]
        rcases h with h | h
        · exact .inl h
        · rcases List.mem_cons.1 h with rfl | h
          · obtain ⟨b, hb, -⟩ := hbest s hs
            exact .inl (by rw [Option.mem_def.1 hb]; exact Option.some_ne_none b)
          · exact .inr h
      · rw [heq]
        exact .inl (Option.some_ne_none _)
  exact step ks none (.inr hk)

theorem mem_of_longestKeyword {ks : List Keyword} {cs : List Char} {k : Keyword} {s : Split}
    (h : longestKeyword ks cs = some (k, s)) : k ∈ ks := by
  have step : ∀ (ks : List Keyword) (best : Option (Keyword × Split)),
      ∀ b ∈ ks.foldl (longerKeyword cs) best, b ∈ best ∨ b.1 ∈ ks := by
    intro ks
    induction ks with
    | nil => exact fun best b hb => .inl hb
    | cons k' ks ih =>
      intro best b hb
      rcases ih _ b hb with hb | hb
      · obtain ⟨heq, -⟩ | ⟨s', -, heq, -⟩ := longerKeyword_cases cs best k'
        · exact .inl (heq ▸ hb)
        · rw [heq, Option.mem_some] at hb
          exact .inr (hb ▸ List.mem_cons_self)
      · exact .inr (List.mem_cons_of_mem _ hb)
  exact (step ks none (k, s) h).resolve_left (Option.not_mem_none _)

/-- Where no admitted terminal is recognised, the token that stands there is of none of them. -/
theorem notMem_of_scan_eq_none {admitted : List Terminal} {cs : List Char} {t : Terminal}
    {s : Split} (hnone : scan admitted cs = none) (h : scan Terminal.all cs = some (t, s)) :
    t ∉ admitted := by
  have hall (t : Terminal) : t ∈ Terminal.all := Terminal.mem_all t
  simp only [scan, Option.orElse_eq_orElse, Option.orElse_eq_or, Option.or_eq_none_iff,
    Option.map_eq_none_iff, List.contains_iff_mem, ite_eq_right_iff] at hnone
  obtain ⟨hname, hstring, hnumber, hcolor, hkeyword⟩ := hnone
  -- a keyword that the text starts with and that need not be a whole name is recognised
  have hfree {k : Keyword} {s : Split} (hk : keyword? k cs = some s)
      (hembedded : isEmbedded admitted k = false) : .keyword k ∉ admitted := by
    intro hmem
    have hks : k ∈ keywordsOf (scanned admitted) :=
      mem_keywordsOf.2 (List.mem_filter.2 ⟨hmem, by simp [hembedded]⟩)
    exact longestKeyword_ne_none hks hk hkeyword
  simp only [scan, Option.orElse_eq_orElse, Option.orElse_eq_or, Option.or_eq_some_iff,
    List.contains_iff_mem, hall, if_true, Option.map_map] at h
  rcases h with h | ⟨-, h | ⟨-, h | ⟨-, h | ⟨-, h⟩⟩⟩⟩
  · obtain ⟨s', hs, heq⟩ := Option.map_eq_some_iff.1 h
    cases heq
    have hno : .name ∉ admitted := fun hmem => by simp [hname hmem] at hs
    simp only [nameTerminal]
    split
    · next k hfind =>
      have hk := List.find?_some hfind
      simp only [Bool.and_eq_true, beq_iff_eq] at hk
      have htext : k.text.toList = s'.piece := by rw [hk.2, String.toList_ofList]
      refine hfree (s := ⟨k.text.toList, s'.rest⟩) ?_ (by simp [isEmbedded, hno])
      rw [← (of_name? hs).2, ← htext]
      exact keyword?_append k s'.rest
    · exact hno
  · obtain ⟨s', hs, heq⟩ := Option.map_eq_some_iff.1 h
    cases heq
    exact fun hmem => by simp [hstring hmem] at hs
  · obtain ⟨s', hs, heq⟩ := Option.map_eq_some_iff.1 h
    cases heq
    exact fun hmem => by simp [hnumber hmem] at hs
  · obtain ⟨s', hs, heq⟩ := Option.map_eq_some_iff.1 h
    cases heq
    exact fun hmem => by simp [hcolor hmem] at hs
  · obtain ⟨⟨k, s'⟩, hs, heq⟩ := Option.map_eq_some_iff.1 h
    cases heq
    have hmem := mem_keywordsOf.1 (mem_of_longestKeyword hs)
    simp only [scanned, List.mem_filter, isEmbedded, List.contains_iff_mem.2 (hall .name),
      Bool.true_and, Bool.not_eq_true'] at hmem
    exact hfree (of_longestKeyword hs) (by simp [isEmbedded, hmem.2])

end PlatformGame.Source

namespace PlatformGame.Parse.Reader

open Grammar Source

/-! ## Taking tokens one after the other -/

/-- From a place in a text to a later one, by recognising and taking the tokens between them. -/
inductive Reaches : Reader → Cursor → List Token → Reader → Cursor → Prop
  | refl : Reaches r c [] r c
  | step {r r' r'' : Reader} {c c' c'' : Cursor} {tok : Token} {toks : List Token} :
    c.nextStart.token? r.admitted = some (tok, c') → r.feed tok = .taken r' →
    Reaches r' c' toks r'' c'' → Reaches r c (tok :: toks) r'' c''

/-- How a run fails at the place that it has reached: the text ends too early, no admitted token
stands there, or the token is refused. -/
inductive Stops (r : Reader) (c : Cursor) : Failure → Prop
  | early : c.nextStart.rest = [] → r.finish = .error f → Stops r c f
  | unrecognised : c.nextStart.rest = ch :: cs →
    c.nextStart.token? r.admitted = none → Stops r c (r.unrecognised c.nextStart ch)
  | refused : c.nextStart.token? r.admitted = some (tok, c') → r.feed tok = .refused r' →
    Stops r c (.token tok r'.expected)

/-- Closing complete nodes that the terminal may follow. -/
inductive Closes (t : Terminal) : Reader → Reader → Prop
  | refl : Closes t r r
  | close {r r' : Reader} {f : Frame} {fs : List Frame} : r.frames = f :: fs →
    allNullable f.rest = true → t ∈ follow f.label → Closes t r.close r' → Closes t r r'

variable {r r' : Reader} {c c' : Cursor} {tok : Token} {toks : List Token}

namespace Reaches

/-- What every token that is taken keeps. -/
theorem keeps {P : Reader → Prop}
    (hstep : ∀ {tok : Token} {r r' : Reader}, Takes tok r r' → P r → P r')
    (h : Reaches r c toks r' c') (hr : P r) : P r' := by
  induction h with
  | refl => exact hr
  | step _ hfeed _ ih => exact ih (hstep (takes_of_feedFrom rfl hfeed) hr)

theorem ready (h : Reaches r c toks r' c') (hr : r.Ready) : r'.Ready :=
  h.keeps (fun htakes hr => (htakes.steady hr).ready) hr

/-- A reader is completed by what completes the reader that it came from, less the tokens taken. -/
theorem completes_iff (h : Reaches r c toks r' c') (hr : r.Ready) {us : List Token}
    {xs : List Tree} : r'.Completes us xs ↔ r.Completes (toks ++ us) xs := by
  induction h with
  | refl => exact Iff.rfl
  | @step r _ _ c _ _ tok _ htok hfeed _ ih =>
    have htakes := takes_of_feedFrom rfl hfeed
    have hend : tok.terminal ≠ .endOfInput := (Cursor.of_token? htok).1.ne_endOfInput
    rw [ih (htakes.steady hr).ready]
    constructor
    · exact htakes.completes hr
    · intro hc
      obtain ⟨r₂, hfeed₂, hc₂⟩ := exists_feedFrom hend hr rfl hc
      cases hfeed.symm.trans hfeed₂
      exact hc₂

/-- The tokens spell the text between the two places. -/
theorem exists_spelled (h : Reaches r c toks r' c') :
    ∃ cs, c.rest = cs ++ c'.rest ∧ c'.position = c.position.after cs ∧
      SpelledBefore c'.rest c.position cs toks := by
  induction h with
  | refl => exact ⟨[], rfl, rfl, .done .nil⟩
  | @step r _ _ c _ _ tok _ htok _ _ ih =>
    obtain ⟨gap, hgap, hrest, hpos⟩ := c.exists_layout_nextStart
    obtain ⟨hm, htext, hspan, hlast⟩ := Cursor.of_token? htok
    obtain ⟨cs, hcs, hafter, hspelled⟩ := ih
    refine ⟨gap ++ tok.text.toList ++ cs, ?_, ?_, ?_⟩
    · rw [← hrest, ← htext, hcs]
      simp
    · rw [hafter, hlast, hspan, hpos, Position.after_append, Position.after_append]
    · have hends := Cursor.endsAt_of_token? htok
      rw [← htext, hcs] at hgap
      rw [hcs] at hends
      refine .token hgap hm hends (by rw [hspan, hpos]) ?_
      rw [← hlast]
      exact hspelled

theorem last_eq (h : Reaches r c toks r' c') : r'.last = toks.getLast?.or r.last := by
  induction h with
  | refl => rfl
  | step _ hfeed _ ih =>
    rw [ih, (takes_of_feedFrom rfl hfeed).last_eq, List.getLast?_cons]
    simp [Option.or_some]

end Reaches

theorem exists_stops_of_run {fuel : Nat} {f : Failure} (hfuel : c.rest.length < fuel)
    (h : r.run fuel c = .error f) : ∃ toks r' c', Reaches r c toks r' c' ∧ Stops r' c' f := by
  induction fuel generalizing r c with
  | zero => exact absurd hfuel (Nat.not_lt_zero _)
  | succ fuel ih =>
    simp only [run] at h
    split at h
    · next hnil => exact ⟨[], r, c, .refl, .early hnil h⟩
    · next ch cs hcons =>
      split at h
      · next hnone =>
        cases h
        exact ⟨[], r, c, .refl, .unrecognised hcons hnone⟩
      · next tok c' htok =>
        split at h
        · next r' hfeed =>
          have hlt := length_rest_lt_of_token? htok
          have hle := c.length_nextStart_le
          obtain ⟨toks, r'', c'', hreach, hstops⟩ := ih (by omega) h
          exact ⟨tok :: toks, r'', c'', .step htok hfeed hreach, hstops⟩
        · next r' hfeed =>
          cases h
          exact ⟨[], r, c, .refl, .refused htok hfeed⟩
        · cases h

/-! ## Closing nodes before a refusal -/

/-- A refused token has closed nodes, and the end of input is refused only while something is
missing. -/
theorem closes_of_feedFrom {n : Nat} (hn : r.frames.length = n)
    (h : feedFrom tok n r = .refused r') :
    Closes tok.terminal r r' ∧
      (tok.terminal = .endOfInput → r'.frames = [] → allNullable r'.goal = false) := by
  induction n generalizing r with
  | zero =>
    simp only [feedFrom] at h
    split at h
    · split at h
      · cases h
      · next hnull =>
        cases h
        exact ⟨.refl, fun _ _ => Bool.eq_false_iff.2 hnull⟩
    · next hend =>
      split at h
      · cases h
      · cases h
        exact ⟨.refl, fun heq => absurd heq hend⟩
  | succ n ih =>
    obtain ⟨f, fs, hf⟩ := List.exists_cons_of_length_eq_add_one hn
    simp only [feedFrom, hf] at h
    split at h
    · cases h
    · split at h
      · next hclose =>
        rw [Bool.and_eq_true, List.contains_iff_mem] at hclose
        have hlen : r.close.frames.length = n := by
          rw [length_close hf]
          simpa [hf] using hn
        obtain ⟨hcloses, hmissing⟩ := ih hlen h
        exact ⟨.close hf hclose.1 hclose.2 hcloses, hmissing⟩
      · cases h
        exact ⟨.refl, fun _ hnil => by simp [hf] at hnil⟩

/-- Something is expected at every place. -/
theorem exists_mem_expectedFrom {goal : List Phrase} (hg : ∀ p ∈ goal, p.solid = true)
    {fs : List Frame} (hfs : ReadyFrames (firstOfAll goal [.endOfInput]) fs) :
    ∃ u, u ∈ expectedFrom (firstOfAll goal [.endOfInput]) fs := by
  have hexists : ∃ us xs, Parse.Completes [] goal fs [] .first us xs := exists_completes hg hfs _ _
  obtain ⟨us, xs, hc⟩ := hexists
  cases us with
  | nil => exact ⟨_, mem_expectedFrom_of_completes_nil hc⟩
  | cons u us => exact ⟨_, mem_expectedFrom_of_completes hg hfs hc⟩

theorem exists_mem_expectedIn (hr : r.Ready) : ∃ t, t ∈ expectedIn r.goal r.frames := by
  rw [expectedIn_eq]
  exact exists_mem_expectedFrom hr.goal.solid hr.frames

namespace Closes

variable {t : Terminal}

theorem last_eq (h : Closes t r r') : r'.last = r.last := by
  induction h with
  | refl => rfl
  | @close r r' f fs hf _ _ _ ih =>
    rw [ih]
    cases fs <;> simp [Reader.close, hf]

/-- Nodes that a refused terminal closes do not change what is expected. -/
theorem expectedIn_eq (h : Closes t r r') (hr : r.Ready) (hsettled : r.Settled)
    (ht : t ∉ expectedIn r.goal r.frames) :
    expectedIn r'.goal r'.frames = expectedIn r.goal r.frames := by
  induction h with
  | refl => rfl
  | @close r r' f fs hf hnull hfollow _ ih =>
    have hframes := hr.frames
    have hf_settled := hsettled.frames
    rw [hf] at hframes hf_settled
    rw [List.forall_mem_cons] at hf_settled
    have hstay : expectedIn r.goal r.frames = expectedIn r.goal fs := by
      rw [hf, expectedIn]
      rcases hf_settled.1.self with hself | hlisting
      · exact (hself.spent hnull).firstOfAll _
      · -- only the bracket follows a listing, and it is expected here
        obtain ⟨u, hu⟩ := exists_mem_expectedFrom hr.goal.solid hframes.2.2
        have heq : t = u := by
          rw [eq_closeBracket_of_mem_follow hlisting hfollow,
            eq_closeBracket_of_mem_follow hlisting (hframes.2.1 u hu)]
        rw [hf, expectedIn, Parse.expectedIn_eq, heq] at ht
        exact absurd (mem_firstOfAll_of_nullable hnull hu) ht
    rw [hstay] at ht ⊢
    rw [ih (close_ready hr hf) (hsettled.close hf) (by rwa [expectedIn_close hf]),
      expectedIn_close hf]

end Closes

end PlatformGame.Parse.Reader
