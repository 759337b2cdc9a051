import PlatformGame.Proofs.Parse.Reach
import PlatformGame.Proofs.Parse.Soundness
import PlatformGame.Proofs.Text.Order

/-! # Rejected tokens

A text that is rejected at a token, or at its end, is right up to there and wrong with it: the
tokens before it begin a sentence, and with it they begin none. The failure names the place of the
token and just the terminals that could have stood there (`exists_goesWrong_of_readAs`).

A text of another phrase may also run on: a complete text of the phrase, followed by a token that
stands after such texts elsewhere, is closed before the token is refused, and then no terminals are
listed. There is no third way (`exists_goesWrong_or_runsOn_of_readAs`). -/

namespace PlatformGame.Parse

open Grammar Source Text

namespace Reader

/-! ## What can follow the tokens taken so far -/

namespace Reaches

variable {e : String × Phrase} {r : Reader} {c c' : Cursor} {toks : List Token}

theorem derives_iff (h : Reaches (start e.2) c toks r c') (he : e ∈ entries) {us : List Token}
    {xs : List Tree} : r.Completes us xs ↔ Derives e.2 (toks ++ us) xs := by
  rw [h.completes_iff (ready_start (entries_sure he)), completes_start_iff]

/-- A sentence that goes on from the tokens taken is completed by any tokens of its terminals. -/
theorem exists_completes_of_sentence (h : Reaches (start e.2) c toks r c') (he : e ∈ entries)
    (us : List Token)
    (hs : Sentence e.2 (toks.map Token.terminal ++ us.map Token.terminal)) :
    ∃ xs, r.Completes us xs := by
  obtain ⟨toks', xs, hd, heq⟩ := hs
  rw [← List.map_append] at heq
  obtain ⟨xs', hd'⟩ := hd.exists_of_terminals heq.symm
  exact ⟨xs', (h.derives_iff he).2 hd'⟩

theorem exists_sentence (h : Reaches (start e.2) c toks r c') (he : e ∈ entries) :
    ∃ w, Sentence e.2 (toks.map Token.terminal ++ w) := by
  have hr := h.ready (ready_start (entries_sure he))
  have hexists : ∃ us xs, r.Completes us xs := exists_completes hr.goal.solid hr.frames _ _
  obtain ⟨us, xs, hc⟩ := hexists
  exact ⟨us.map Token.terminal, toks ++ us, xs, (h.derives_iff he).1 hc, List.map_append⟩

/-- What a reader expects is what can follow the tokens that it has taken. -/
theorem viable_iff (h : Reaches (start e.2) c toks r c') (he : e ∈ entries) {t : Terminal} :
    Viable e.2 (toks.map Token.terminal ++ [t]) ↔ t ∈ expectedIn r.goal r.frames := by
  rw [mem_expectedIn_iff (h.ready (ready_start (entries_sure he)))]
  constructor
  · rintro ⟨us, v, hs, heq⟩
    rcases List.eq_nil_or_concat us with rfl | ⟨us, u, rfl⟩
    · -- the terminal is the end of input that closes the sentence
      rw [List.append_nil] at heq
      obtain ⟨rfl, ht⟩ := List.append_inj' heq rfl
      have hnil := h.exists_completes_of_sentence he [] (by simpa using hs)
      exact .inr ⟨List.singleton_inj.1 ht, hnil⟩
    · rw [List.concat_eq_append, ← List.append_assoc] at heq
      obtain ⟨rfl, -⟩ := List.append_inj' heq rfl
      have hcons := h.exists_completes_of_sentence he (sample t :: us.map sample) (by
        rw [List.map_cons, map_terminal_sample]
        simpa [sample] using hs)
      obtain ⟨xs, hc⟩ := hcons
      exact .inl ⟨sample t, us.map sample, xs, rfl, hc⟩
  · rintro (⟨tok, us, xs, rfl, hc⟩ | ⟨rfl, xs, hc⟩)
    · refine ⟨us.map Token.terminal ++ [.endOfInput], _, ⟨_, xs, (h.derives_iff he).1 hc, rfl⟩, ?_⟩
      simp
    · refine ⟨[], _, ⟨_, xs, (h.derives_iff he).1 hc, rfl⟩, ?_⟩
      simp

/-- A token that a reader expects is taken. -/
theorem exists_feed (h : Reaches (start e.2) c toks r c') (he : e ∈ entries) {tok : Token}
    (hend : tok.terminal ≠ .endOfInput) (ht : tok.terminal ∈ expectedIn r.goal r.frames) :
    tok.terminal ∈ r.admitted ∧ ∃ r', r.feed tok = .taken r' := by
  have hr := h.ready (ready_start (entries_sure he))
  obtain ⟨tok', us, xs, heq, hc⟩ | ⟨hnil, -⟩ := (mem_expectedIn_iff hr).1 ht
  · have hd := (h.derives_iff he).1 hc
    obtain ⟨xs', hc'⟩ := h.exists_completes_of_sentence he (tok :: us)
      ⟨_, xs, hd, by simp [heq]⟩
    obtain ⟨r', hfeed, -⟩ := exists_feedFrom hend hr rfl hc'
    exact ⟨mem_admitted_of_completes hr hc', r', hfeed⟩
  · exact absurd hnil hend

/-- No token is the end of input, so a reader that expects the end is complete. -/
theorem exists_finish (h : Reaches (start e.2) c toks r c') (he : e ∈ entries)
    (ht : .endOfInput ∈ expectedIn r.goal r.frames) : ∃ xs, r.Completes [] xs := by
  have hr := h.ready (ready_start (entries_sure he))
  obtain ⟨tok, us, xs, heq, hc⟩ | ⟨-, hc⟩ := (mem_expectedIn_iff hr).1 ht
  · have hd := (h.derives_iff he).1 hc
    exact absurd heq (hd.terminal_ne_endOfInput he tok (by simp))
  · exact hc

end Reaches

/-! ## The outermost node -/

/-- All that is read lies in one node, which is labelled `l`. -/
structure Outermost (l : Label) (r : Reader) : Prop where
  goal : r.goal = []
  frames : r.frames.getLast?.map Frame.label = some l

variable {l : Label} {p : Phrase} {r r' : Reader} {c c' : Cursor} {tok : Token} {toks : List Token}
  {expected : List Terminal}

theorem Outermost.close {f g : Frame} {gs : List Frame} (hr : r.Outermost l)
    (hf : r.frames = f :: g :: gs) : r.close.Outermost l := by
  obtain ⟨hgoal, hframes⟩ := hr
  rw [hf, List.getLast?_cons_cons] at hframes
  refine ⟨by simp [Reader.close, hf, hgoal], ?_⟩
  simp only [Reader.close, hf]
  cases gs with
  | nil => exact hframes
  | cons g' gs =>
    rw [List.getLast?_cons_cons] at hframes ⊢
    exact hframes

theorem Takes.outermost (h : Takes tok r r') (hr : r.Outermost l) : r'.Outermost l := by
  induction h with
  | goal hf _ =>
    have hframes := hr.frames
    simp [hf] at hframes
  | @node r f fs o hf ho =>
    have hframes := hr.frames
    refine ⟨hr.goal, ?_⟩
    rw [hf] at hframes
    rw [List.getLast?_append_of_ne_nil _ (List.cons_ne_nil _ _)]
    cases fs with
    | nil => exact hframes
    | cons g gs =>
      rw [List.getLast?_cons_cons] at hframes ⊢
      exact hframes
  | @close f fs r' r hf _ htakes ih =>
    cases fs with
    | cons g gs => exact ih (hr.close hf)
    | nil =>
      -- nothing is read outside the node
      have hnil : r.close.frames = [] := by simp [Reader.close, hf]
      have hgoal : r.close.goal = [] := by simp [Reader.close, hf, hr.goal]
      cases htakes with
      | goal _ ho => simp [hgoal, takeAll] at ho
      | node hf' _ => simp [hnil] at hf'
      | close hf' _ _ => simp [hnil] at hf'

theorem Takes.outermost_start (h : Takes tok (start (.node l p)) r') : r'.Outermost l := by
  cases h with
  | goal _ ho =>
    simp only [start, takeAll] at ho
    split at ho
    · next o ho' =>
      cases ho
      obtain ⟨o', -, rfl⟩ := Option.map_eq_some_iff.1 ho'
      exact ⟨rfl, by simp [Opening.enclose]⟩
    · simp at ho
  | node hf _ => cases hf
  | close hf _ _ => cases hf

theorem Reaches.outermost (h : Reaches (start (.node l p)) c toks r c') :
    r = start (.node l p) ∨ r.Outermost l := by
  cases h with
  | refl => exact .inl rfl
  | step _ hfeed h =>
    exact .inr (h.keeps Takes.outermost (takes_of_feedFrom rfl hfeed).outermost_start)

/-- A terminal that cannot follow the outermost node does not close it. -/
theorem Closes.frames_ne_nil {t : Terminal} (h : Closes t r r') (hr : r.Outermost l)
    (ht : t ∉ follow l) : r'.frames ≠ [] := by
  induction h with
  | refl =>
    intro hnil
    have hframes := hr.frames
    simp [hnil] at hframes
  | @close r r' f fs hf _ hfollow _ ih =>
    cases fs with
    | nil =>
      have hframes := hr.frames
      simp only [hf, List.getLast?_singleton, Option.map_some, Option.some.injEq] at hframes
      exact absurd (hframes ▸ hfollow) ht
    | cons g gs => exact ih (hr.close hf)

/-- A reader that has closed everything has read a complete text. -/
theorem Closes.completes {t : Terminal} (h : Closes t r r') (hr : r.Ready) (hf : r'.frames = [])
    (hn : allNullable r'.goal = true) : ∃ xs, r.Completes [] xs := by
  induction h with
  | refl => exact ⟨_, (Finishes.goal hf hn).completes hr⟩
  | close hframes hnull _ _ ih =>
    obtain ⟨xs, hc⟩ := ih (close_ready hr hframes) hf hn
    exact ⟨xs, completes_of_close hr hframes hnull hc⟩

/-! ## Refusing a token -/

/-- A failure at a token: the token is not expected, and what is reported is what a reader expects
that the token has brought to close nodes. -/
structure Refuses (r : Reader) (c : Cursor) (tok : Token) (expected : List Terminal) : Prop where
  unexpected : tok.terminal ∉ expectedIn r.goal r.frames
  closed : ∃ r', Closes tok.terminal r r' ∧ expected = r'.expected ∧
    (tok.terminal = .endOfInput → r'.frames = [] → allNullable r'.goal = false)
  placed : tok = r.endToken ∧ c.nextStart.rest = [] ∨
    ∃ rest, tok.terminal.Matches tok.text.toList ∧ c.nextStart.rest = tok.text.toList ++ rest ∧
      tok.span.first = c.nextStart.position

theorem endToken_eq_of_last_eq (h : r'.last = r.last) : r'.endToken = r.endToken := by
  rw [endToken, endToken, h]

theorem placed_of_token? {ts : List Terminal} (h : c.nextStart.token? ts = some (tok, c')) :
    ∃ rest, tok.terminal.Matches tok.text.toList ∧ c.nextStart.rest = tok.text.toList ++ rest ∧
      tok.span.first = c.nextStart.position := by
  obtain ⟨hm, htext, hspan, -⟩ := Cursor.of_token? h
  exact ⟨c'.rest, hm, htext.symm, by rw [hspan]⟩

theorem Reaches.refuses {e : String × Phrase} (h : Reaches (start e.2) c toks r c')
    (he : e ∈ entries) (hstops : Stops r c' (.token tok expected)) :
    Refuses r c' tok expected := by
  have hr := h.ready (ready_start (entries_sure he))
  generalize hfail : Failure.token tok expected = f at hstops
  cases hstops with
  | early hnil hfinish =>
    subst hfail
    unfold finish at hfinish
    split at hfinish
    · cases hfinish
    · next r₁ hfeed =>
      -- the end of input is taken nowhere
      have htakes := takes_of_feedFrom rfl hfeed
      obtain ⟨xs, hc⟩ := h.exists_finish he htakes.mem_expectedIn
      have hfinished : r.feed r.endToken = .finished xs := finishedFrom rfl hr rfl hc
      rw [hfinished] at hfeed
      cases hfeed
    · next r₁ hfeed =>
      obtain ⟨hcloses, hmissing⟩ := closes_of_feedFrom rfl hfeed
      cases hfinish
      rw [endToken_eq_of_last_eq hcloses.last_eq]
      refine ⟨fun hmem => ?_, ⟨r₁, hcloses, rfl, hmissing⟩, .inl ⟨rfl, hnil⟩⟩
      obtain ⟨xs, hc⟩ := h.exists_finish he hmem
      have hfinished : r.feed r.endToken = .finished xs := finishedFrom rfl hr rfl hc
      rw [hfinished] at hfeed
      cases hfeed
  | @unrecognised ch cs hcons hnone =>
    unfold Reader.unrecognised at hfail
    split at hfail
    · next tok' c₁ htok =>
      cases hfail
      have hplaced := placed_of_token? htok
      have hend := (Cursor.of_token? htok).1.ne_endOfInput
      refine ⟨fun hmem => ?_, ⟨r, .refl, rfl, fun heq => absurd heq hend⟩, .inr hplaced⟩
      obtain ⟨⟨t, s⟩, hscan, heq⟩ := Option.map_eq_some_iff.1 htok
      cases heq
      have hnot := notMem_of_scan_eq_none (Option.map_eq_none_iff.1 hnone) hscan
      exact hnot (h.exists_feed he hend hmem).1
    · cases hfail
  | @refused tok' c₁ r₁ htok hfeed =>
    cases hfail
    have hplaced := placed_of_token? htok
    have hend := (Cursor.of_token? htok).1.ne_endOfInput
    refine ⟨fun hmem => ?_, ⟨r₁, (closes_of_feedFrom rfl hfeed).1, rfl, fun heq => absurd heq hend⟩,
      .inr hplaced⟩
    obtain ⟨-, r₂, hfeed₂⟩ := h.exists_feed he hend hmem
    rw [hfeed₂] at hfeed
    cases hfeed

/-- What is reported is what is expected, unless the token has brought the reader to close
everything. -/
theorem Refuses.expected_cases (h : Refuses r c tok expected) (hr : r.Ready)
    (hsettled : r.Settled) :
    expected = expectedIn r.goal r.frames ∨
      ∃ r', Closes tok.terminal r r' ∧ tok.terminal ≠ .endOfInput ∧ r'.frames = [] ∧
        allNullable r'.goal = true ∧ expected = [] := by
  obtain ⟨r', hcloses, rfl, hmissing⟩ := h.closed
  by_cases hdone : r'.frames = [] ∧ allNullable r'.goal = true
  · refine .inr ⟨r', hcloses, fun hend => ?_, hdone.1, hdone.2, ?_⟩
    · rw [hmissing hend hdone.1] at hdone
      cases hdone.2
    · simp [Reader.expected, hdone]
  · refine .inl ?_
    rw [← hcloses.expectedIn_eq hr hsettled h.unexpected, Reader.expected, if_neg]
    simpa using hdone

end Reader

/-! ## Texts that go wrong at a token -/

/-- Where a token that cannot be read stands: at `place`, behind the text of the tokens before it.
The end of input is placed at the last of these, or at the start of an empty text. -/
inductive StandsAfter (before : List Token) (tok : Token) (place : Position) : List Char → Prop
  | token {cs rest : List Char} : SpelledBefore (tok.text.toList ++ rest) .first cs before →
    tok.terminal.Matches tok.text.toList → place = Position.first.after cs →
    StandsAfter before tok place (cs ++ (tok.text.toList ++ rest))
  | ending {cs : List Char} : Spelled .first cs before → tok.terminal = .endOfInput →
    place = (before.getLast?.map (·.span.first)).getD .first → StandsAfter before tok place cs

theorem Reader.Reaches.standsAfter {p : Phrase} {r : Reader} {c : Cursor} {source : String}
    {toks : List Token} {tok : Token} {expected : List Terminal}
    (h : Reaches (start p) (.ofString source) toks r c) (hr : Refuses r c tok expected) :
    StandsAfter toks tok tok.span.first source.toList := by
  obtain ⟨cs, hcs, hpos, hspelled⟩ := h.exists_spelled
  obtain ⟨gap, hgap, hrest, hstart⟩ := c.exists_layout_nextStart
  have htext : source.toList = (cs ++ gap) ++ c.nextStart.rest := by
    rw [List.append_assoc, hrest]
    exact hcs
  rw [← hrest] at hspelled
  have hspelled : SpelledBefore c.nextStart.rest .first (cs ++ gap) toks :=
    hspelled.append_layout hgap
  rcases hr.placed with ⟨rfl, hnil⟩ | ⟨rest, hm, hnext, hfirst⟩
  · rw [hnil, List.append_nil] at htext
    rw [hnil] at hspelled
    rw [htext]
    refine .ending hspelled rfl ?_
    rw [endToken, h.last_eq]
    cases toks.getLast? <;> rfl
  · rw [hnext] at hspelled
    rw [htext, hnext]
    refine .token hspelled hm ?_
    rw [hfirst, hstart, hpos, Position.after_append]
    rfl

theorem eq_endOfInput_of_mem_follow_start {t : Terminal} (h : t ∈ follow .start) :
    t = .endOfInput := by
  have checked :
      (placesOfNodes.all fun e => e.1 != .start || e.2.all (· == .endOfInput)) = true := by
    decide +kernel
  obtain ⟨ts, hl, ht⟩ := mem_follow_iff.1 h
  have hts := List.all_eq_true.1 checked (.start, ts) hl
  simp only [bne_self_eq_false, Bool.false_or, List.all_eq_true, beq_iff_eq] at hts
  exact hts t ht

/-- No token closes the outermost node of a game, so what is reported is what is expected. -/
theorem Reader.Reaches.expected_eq {r : Reader} {c c' : Cursor} {toks : List Token} {tok : Token}
    {expected : List Terminal} (h : Reaches (start Grammar.start) c toks r c')
    (hr : Refuses r c' tok expected) : expected = expectedIn r.goal r.frames := by
  have he : ("start", Grammar.start) ∈ entries := List.mem_cons_self
  have hready := h.ready (ready_start (entries_sure he))
  have hsettled := h.keeps Takes.settled (settled_start he)
  obtain heq | ⟨r', hcloses, hend, hnil, hnull, -⟩ := hr.expected_cases hready hsettled
  · exact heq
  · rcases h.outermost with rfl | hout
    · -- nothing has been read, and there is no empty game
      cases hcloses with
      | refl => cases hnull
      | close hf _ _ _ => cases hf
    · have hfollow := fun ht => hend (eq_endOfInput_of_mem_follow_start ht)
      exact absurd hnil (hcloses.frames_ne_nil hout hfollow)

namespace Failure

theorem pairwise_alternatives (tok : Token) (expected : List Terminal) :
    (token tok expected).alternatives.Pairwise (· < ·) := pairwise_sortTexts _

theorem mem_alternatives {tok : Token} {expected : List Terminal} {label : String} :
    label ∈ (token tok expected).alternatives ↔ ∃ t ∈ expected, t.label = label := by
  rw [alternatives, mem_sortTexts, List.mem_map]

theorem summary_of_ne_nil {f : Failure} (h : f.alternatives ≠ []) :
    f.summary = "Invalid DSL syntax: " ++ f.found ++ ". Expected one of: " ++
      ", ".intercalate f.alternatives := by
  unfold summary
  cases hlabels : f.alternatives with
  | nil => exact absurd hlabels h
  | cons label labels => simp only [String.append_assoc]

end Failure

/-- A text goes wrong at a token, or at its end, behind the tokens `before`: these begin a sentence,
and none that goes on with the token. The failure is reported where the token starts, and it lists,
in order, just the labels of the terminals that some sentence has behind the tokens before. -/
structure GoesWrong (p : Phrase) (source : String) (tok : Token) (expected : List Terminal)
    (before : List Token) : Prop where
  stands : StandsAfter before tok (Failure.token tok expected).position source.toList
  begins : ∃ w, Sentence p (before.map Token.terminal ++ w)
  unexpected : ¬ Viable p (before.map Token.terminal ++ [tok.terminal])
  sorted : (Failure.token tok expected).alternatives.Pairwise (· < ·)
  exactly : ∀ label, label ∈ (Failure.token tok expected).alternatives ↔
    ∃ t, Viable p (before.map Token.terminal ++ [t]) ∧ t.label = label
  told : (Failure.token tok expected).summary =
    "Invalid DSL syntax: " ++ (Failure.token tok expected).found ++ ". Expected one of: " ++
      ", ".intercalate (Failure.token tok expected).alternatives

/-- A text runs on behind the tokens `before`: these are a whole sentence, and the failure names the
token behind them and lists nothing. -/
structure RunsOn (p : Phrase) (source : String) (tok : Token) (expected : List Terminal)
    (before : List Token) : Prop where
  stands : StandsAfter before tok (Failure.token tok expected).position source.toList
  complete : Sentence p (before.map Token.terminal)
  further : tok.terminal ≠ .endOfInput
  unexpected : ¬ Viable p (before.map Token.terminal ++ [tok.terminal])
  told : (Failure.token tok expected).summary =
    "Invalid DSL syntax: " ++ (Failure.token tok expected).found

section

variable {e : String × Phrase} {source : String} {tok : Token} {expected : List Terminal}
  {toks : List Token} {r : Reader} {c : Cursor}

theorem Reader.Reaches.not_viable (h : Reaches (start e.2) (.ofString source) toks r c)
    (he : e ∈ entries) (hr : Refuses r c tok expected) :
    ¬ Viable e.2 (toks.map Token.terminal ++ [tok.terminal]) :=
  fun hviable => hr.unexpected ((h.viable_iff he).1 hviable)

theorem Reader.Reaches.goesWrong (h : Reaches (start e.2) (.ofString source) toks r c)
    (he : e ∈ entries) (hr : Refuses r c tok expected)
    (hexpected : expected = expectedIn r.goal r.frames) :
    GoesWrong e.2 source tok expected toks := by
  have hsome : (Failure.token tok expected).alternatives ≠ [] := by
    obtain ⟨t, ht⟩ := Reader.exists_mem_expectedIn (h.ready (ready_start (entries_sure he)))
    exact List.ne_nil_of_mem (Failure.mem_alternatives.2 ⟨t, hexpected ▸ ht, rfl⟩)
  refine ⟨h.standsAfter hr, h.exists_sentence he, h.not_viable he hr,
    Failure.pairwise_alternatives tok expected, fun label => ?_, Failure.summary_of_ne_nil hsome⟩
  rw [Failure.mem_alternatives, hexpected]
  exact exists_congr fun t => and_congr_left fun _ => (h.viable_iff he).symm

/-- A text that is rejected at a token, or at its end, goes wrong there or runs on. -/
theorem exists_goesWrong_or_runsOn_of_readAs (he : e ∈ entries)
    (h : readAs e.2 source = .error (.token tok expected)) :
    ∃ before, GoesWrong e.2 source tok expected before ∨ RunsOn e.2 source tok expected before := by
  obtain ⟨toks, r, c, hreach, hstops⟩ := Reader.exists_stops_of_run (Nat.lt_succ_self _) h
  have hrefuses := hreach.refuses he hstops
  have hready := hreach.ready (Reader.ready_start (entries_sure he))
  have hsettled := hreach.keeps Reader.Takes.settled (Reader.settled_start he)
  obtain hexpected | ⟨r', hcloses, hend, hnil, hnull, rfl⟩ :=
    hrefuses.expected_cases hready hsettled
  · exact ⟨toks, .inl (hreach.goesWrong he hrefuses hexpected)⟩
  · obtain ⟨xs, hc⟩ := hcloses.completes hready hnil hnull
    have hd := (hreach.derives_iff he).1 hc
    rw [List.append_nil] at hd
    exact ⟨toks, .inr ⟨hreach.standsAfter hrefuses, ⟨toks, xs, hd, rfl⟩, hend,
      hreach.not_viable he hrefuses, String.append_empty⟩⟩

example : (match readAs ident "a ," with
    | .error f => f.alternatives.isEmpty
    | .ok _ => false) = true := by decide +kernel

/-- A game that is rejected at a token, or at its end, goes wrong there. -/
theorem exists_goesWrong_of_readAs {source : String} {tok : Token} {expected : List Terminal}
    (h : readAs start source = .error (.token tok expected)) :
    ∃ before, GoesWrong start source tok expected before := by
  have he : ("start", start) ∈ entries := List.mem_cons_self
  obtain ⟨toks, r, c, hreach, hstops⟩ := Reader.exists_stops_of_run (Nat.lt_succ_self _) h
  have hrefuses := hreach.refuses he hstops
  exact ⟨toks, hreach.goesWrong he hrefuses (hreach.expected_eq hrefuses)⟩

end

def namelessLevel : String := r#"game "t" { level // here
  {"#

/-- A level without a name: the brace on the next line is rejected, and a string is expected. -/
theorem exists_goesWrong_of_readAs_nameless :
    ∃ tok expected,
      readAs start namelessLevel = .error (.token tok expected) ∧
      (Failure.token tok expected).position = ⟨2, 3⟩ ∧
      (Failure.token tok expected).alternatives = ["string"] ∧
      ∃ before, GoesWrong start namelessLevel tok expected before := by
  have hcheck : (match readAs start namelessLevel with
      | .error (.token tok expected) => decide ((Failure.token tok expected).position = ⟨2, 3⟩ ∧
          (Failure.token tok expected).alternatives = ["string"])
      | _ => false) = true := by decide +kernel
  cases hread : readAs start namelessLevel with
  | ok trees => simp [hread] at hcheck
  | error failure =>
    rw [hread] at hcheck
    cases failure with
    | character => cases hcheck
    | token tok expected =>
      obtain ⟨hposition, hlabels⟩ := of_decide_eq_true hcheck
      exact ⟨tok, expected, rfl, hposition, hlabels, exists_goesWrong_of_readAs hread⟩

end PlatformGame.Parse
