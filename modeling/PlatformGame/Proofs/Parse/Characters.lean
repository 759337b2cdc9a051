import Mathlib.Data.List.Basic
import PlatformGame.Proofs.Parse.Endings

/-! # Characters that start no token

A text may also be rejected at a character where no token stands. The failure then lists the
terminals among which the next token was to be recognised. These are the terminals that can follow
the tokens before, and more where the last token can end a node: there all that stands behind a node
of that label in any text is listed (`exists_breaksOff_of_readAs`). Keywords in the form of a name
are left out where names are listed, and so is the end of input, which has a text of its own. -/

namespace PlatformGame.Parse

open Grammar Source Text

/-! ## What is told apart at a place -/

namespace Reader

theorem mem_firstOfAll_iff {ps : List Phrase} {far : List Terminal} {t : Terminal} :
    t ∈ firstOfAll ps far ↔ t ∈ firstOfAll ps [] ∨ allNullable ps = true ∧ t ∈ far := by
  induction ps with
  | nil => simp [firstOfAll, allNullable]
  | cons p ps ih =>
    rw [allNullable_cons]
    simp only [firstOfAll, Phrase.firstOr, List.mem_append, or_assoc]
    by_cases hn : p.nullable = true
    · simp [hn, ih]
    · simp [hn]

theorem entries_nullable : ∀ e ∈ entries, e.2.nullable = false := by
  have h : (entries.all fun e => !e.2.nullable) = true := by decide
  exact fun e he => by simpa using List.all_eq_true.1 h e he

/-- The next token is recognised among what can follow, and among what follows such nodes, just if
the last token ends one. -/
theorem Reaches.exists_ended {e : String × Phrase} {source : String} {toks : List Token}
    {r : Reader} {c : Cursor} (h : Reaches (start e.2) (.ofString source) toks r c)
    (he : e ∈ entries) :
    ∃ ended : Option Label, (∀ l ∈ ended, Ends e.2 toks l) ∧
      (ended = none → ∀ l, ¬ Ends e.2 toks l) ∧
      ∀ t, t ∈ r.admitted ↔
        t ∈ expectedIn r.goal r.frames ∨ ∃ l ∈ ended, t ∈ follow l := by
  cases hf : r.frames with
  | nil =>
    obtain rfl := h.frames_eq_nil (entries_single e he) hf
    refine ⟨none, by simp, fun _ => h.not_ends he (by simp [start]), fun t => ?_⟩
    simp [admitted, expectedIn, start, firstOfAll, Phrase.firstOr, entries_nullable e he]
  | cons f fs =>
    have hframes := (h.ready (ready_start (entries_sure he))).frames
    rw [hf] at hframes
    have hfollow : ∀ t ∈ expectedIn r.goal fs, t ∈ follow f.label := by
      rw [Parse.expectedIn_eq]
      exact hframes.2.1
    have hadmitted (t : Terminal) : t ∈ r.admitted ↔
        t ∈ firstOfAll f.rest [] ∨ allNullable f.rest = true ∧ t ∈ follow f.label := by
      rw [admitted, hf]
      exact mem_firstOfAll_iff
    have hexpected (t : Terminal) : t ∈ expectedIn r.goal (f :: fs) ↔
        t ∈ firstOfAll f.rest [] ∨ allNullable f.rest = true ∧ t ∈ expectedIn r.goal fs :=
      mem_firstOfAll_iff
    cases hnull : allNullable f.rest with
    | true =>
      refine ⟨some f.label, fun l hl => ?_, by simp, fun t => ?_⟩
      · cases hl
        exact h.ends he hf hnull
      · rw [hadmitted, hexpected]
        simp only [hnull, true_and, Option.mem_some, exists_eq_left']
        constructor
        · rintro (ht | ht)
          · exact .inl (.inl ht)
          · exact .inr ht
        · rintro ((ht | ht) | ht)
          · exact .inl ht
          · exact .inr (hfollow t ht)
          · exact .inr ht
    | false =>
      refine ⟨none, by simp, fun _ => h.not_ends he (by simp [hf, hnull]), fun t => ?_⟩
      rw [hadmitted, hexpected]
      simp [hnull]

end Reader

/-! ## Texts that break off at a character -/

theorem mem_scanned_iff {admitted : List Terminal} {t : Terminal} :
    t ∈ scanned admitted ↔ t ∈ admitted ∧ t ≠ .endOfInput ∧
      ∀ k, t = .keyword k → isWord k = true → .name ∉ admitted := by
  rw [scanned, List.mem_filter]
  cases t with
  | keyword k =>
    simp only [isEmbedded, Bool.not_eq_true', Bool.and_eq_false_iff, List.contains_eq_mem,
      decide_eq_false_iff_not]
    refine and_congr_right fun _ => ⟨fun h => ⟨by simp, fun k' hk hword => ?_⟩, fun h => ?_⟩
    · cases hk
      exact h.resolve_right (by simp [hword])
    · cases hword : isWord k with
      | false => exact .inr rfl
      | true => exact .inl (h.2 k rfl hword)
  | endOfInput => simp
  | _ => simp

namespace Failure

variable {ch : Char} {place : Position} {listed : List Terminal}

theorem alternatives_character_of_ne_nil (h : listed ≠ []) :
    (character ch place listed).alternatives = sortTexts (listed.map Terminal.label) := by
  cases listed with
  | nil => exact absurd rfl h
  | cons t ts => rfl

theorem pairwise_alternatives_character :
    (character ch place listed).alternatives.Pairwise (· < ·) := by
  cases listed with
  | nil => exact List.pairwise_singleton _ _
  | cons t ts => exact pairwise_sortTexts _

theorem mem_alternatives_character {label : String} :
    label ∈ (character ch place listed).alternatives ↔
      (∃ t ∈ listed, t.label = label) ∨ listed = [] ∧ label = "<END-OF-FILE>" := by
  by_cases h : listed = []
  · subst h
    simp [alternatives]
  · rw [alternatives_character_of_ne_nil h, mem_sortTexts, List.mem_map]
    simp [h]

theorem alternatives_character_ne_nil : (character ch place listed).alternatives ≠ [] := by
  cases listed with
  | nil => exact List.cons_ne_nil _ _
  | cons t ts =>
    exact List.ne_nil_of_mem (mem_alternatives_character.2 (.inl ⟨t, List.mem_cons_self, rfl⟩))

end Failure

/-- Among these terminals the token behind `before` is recognised: those that can follow, and if the
last token ends a node, those that follow such nodes in any text. -/
def Admitted (p : Phrase) (before : List Token) (ended : Option Label) (t : Terminal) : Prop :=
  Viable p (before.map Token.terminal ++ [t]) ∨ ∃ l ∈ ended, Follows l t

/-- A text breaks off at a character, behind the tokens `before`: these begin a sentence, and no
token starts with the character. The failure lists, in order, the labels of the terminals that are
admitted there, without keywords that are recognised as names. Where only the end of input can
follow, it says so. -/
structure BreaksOff (p : Phrase) (source : String) (ch : Char) (place : Position)
    (listed : List Terminal) (before : List Token) : Prop where
  stands : ∃ cs rest, source.toList = cs ++ ch :: rest ∧
    SpelledBefore (ch :: rest) .first cs before ∧ place = Position.first.after cs ∧
    scan Terminal.all (ch :: rest) = none
  begins : ∃ w, Sentence p (before.map Token.terminal ++ w)
  exactly : ∃ ended : Option Label, (∀ l ∈ ended, Ends p before l) ∧
    (ended = none → ∀ l, ¬ Ends p before l) ∧
    ∀ t, t ∈ listed ↔ Admitted p before ended t ∧ t ≠ .endOfInput ∧
      ∀ k, t = .keyword k → isWord k = true → ¬ Admitted p before ended .name
  ended : listed = [] → ∀ t, Viable p (before.map Token.terminal ++ [t]) ↔ t = .endOfInput
  sorted : (Failure.character ch place listed).alternatives.Pairwise (· < ·)
  labels : ∀ label, label ∈ (Failure.character ch place listed).alternatives ↔
    (∃ t ∈ listed, t.label = label) ∨ listed = [] ∧ label = "<END-OF-FILE>"
  told : (Failure.character ch place listed).summary =
    "Invalid DSL syntax: " ++ (Failure.character ch place listed).found ++
      ". Expected one of: " ++ ", ".intercalate (Failure.character ch place listed).alternatives

namespace Reader

variable {e : String × Phrase} {source : String} {toks : List Token} {r : Reader} {c : Cursor}
  {ch : Char} {place : Position} {listed : List Terminal}

theorem Stops.character (h : Stops r c (.character ch place listed)) :
    ∃ rest, c.nextStart.rest = ch :: rest ∧ place = c.nextStart.position ∧
      listed = scanned r.admitted ∧ scan Terminal.all (ch :: rest) = none := by
  generalize hfail : Failure.character ch place listed = f at h
  cases h with
  | early _ hfinish =>
    subst hfail
    unfold finish at hfinish
    split at hfinish <;> cases hfinish
  | @unrecognised ch' rest hcons hnone =>
    unfold Reader.unrecognised at hfail
    split at hfail
    · cases hfail
    · next hall =>
      cases hfail
      refine ⟨rest, hcons, rfl, rfl, ?_⟩
      rw [← hcons]
      exact Option.map_eq_none_iff.1 hall
  | refused _ _ => cases hfail

theorem Reaches.stands (h : Reaches (start e.2) (.ofString source) toks r c) {rest : List Char}
    (hrest : c.nextStart.rest = ch :: rest) :
    ∃ cs, source.toList = cs ++ ch :: rest ∧ SpelledBefore (ch :: rest) .first cs toks ∧
      c.nextStart.position = Position.first.after cs := by
  obtain ⟨cs, hcs, hpos, hspelled⟩ := h.exists_spelled
  obtain ⟨gap, hgap, hnext, hstart⟩ := c.exists_layout_nextStart
  rw [← hnext] at hspelled
  refine ⟨cs ++ gap, ?_, hrest ▸ hspelled.append_layout hgap, ?_⟩
  · rw [List.append_assoc, ← hrest, hnext]
    exact hcs
  · rw [hstart, hpos, Position.after_append]
    rfl

end Reader

/-- A text that is rejected at a character breaks off there. -/
theorem exists_breaksOff_of_readAs {e : String × Phrase} (he : e ∈ entries) {source : String}
    {ch : Char} {place : Position} {listed : List Terminal}
    (h : readAs e.2 source = .error (.character ch place listed)) :
    ∃ before, BreaksOff e.2 source ch place listed before := by
  obtain ⟨toks, r, c, hreach, hstops⟩ := Reader.exists_stops_of_run (Nat.lt_succ_self _) h
  obtain ⟨rest, hrest, rfl, rfl, hscan⟩ := hstops.character
  obtain ⟨cs, hsource, hspelled, hplace⟩ := hreach.stands hrest
  obtain ⟨ended, hended, hnone, hadmitted⟩ := hreach.exists_ended he
  have hiff (t : Terminal) : t ∈ r.admitted ↔ Admitted e.2 toks ended t := by
    simp only [hadmitted, Admitted, hreach.viable_iff he, mem_follow_iff_follows]
  refine ⟨toks, ⟨cs, rest, hsource, hspelled, hplace, hscan⟩, hreach.exists_sentence he,
    ⟨ended, hended, hnone, fun t => ?_⟩, fun hnil => ?_, Failure.pairwise_alternatives_character,
    fun label => Failure.mem_alternatives_character,
    Failure.summary_of_ne_nil Failure.alternatives_character_ne_nil⟩
  · simp only [mem_scanned_iff, hiff]
  · -- a keyword could only be missing from the list because of a name, which would be on it
    have hends : ∀ t, t ∈ Reader.expectedIn r.goal r.frames → t = .endOfInput := by
      intro t ht
      by_contra hne
      have hname : .name ∉ r.admitted := fun hmem =>
        List.not_mem_nil (hnil ▸ mem_scanned_iff.2 ⟨hmem, by simp, by simp⟩)
      have hmem := mem_scanned_iff.2 ⟨(hadmitted t).2 (.inl ht), hne, fun _ _ _ => hname⟩
      exact List.not_mem_nil (hnil ▸ hmem)
    obtain ⟨u, hu⟩ := Reader.exists_mem_expectedIn (hreach.ready (Reader.ready_start
      (entries_sure he)))
    intro t
    rw [hreach.viable_iff he]
    exact ⟨hends t, fun ht => by rwa [ht, ← hends u hu]⟩

/-- An enemy whose name is followed by a character that starts no token. -/
def strayedGame : String := r#"game "t" { enemy a @"#

theorem exists_readAs_strayedGame :
    ∃ listed, readAs start strayedGame = .error (.character '@' ⟨1, 20⟩ listed) ∧
      .keyword .colon ∈ listed := by
  have hcheck : (match readAs start strayedGame with
      | .error (.character ch place listed) =>
        decide (ch = '@' ∧ place = ⟨1, 20⟩ ∧ .keyword .colon ∈ listed)
      | _ => false) = true := by decide +kernel
  cases hread : readAs start strayedGame with
  | ok trees => simp [hread] at hcheck
  | error failure =>
    rw [hread] at hcheck
    cases failure with
    | token => cases hcheck
    | character ch place listed =>
      obtain ⟨rfl, rfl, hcolon⟩ := of_decide_eq_true hcheck
      exact ⟨listed, rfl, hcolon⟩

theorem exists_breaksOff_of_readAs_strayedGame :
    ∃ listed, readAs start strayedGame = .error (.character '@' ⟨1, 20⟩ listed) ∧
      ∃ before, BreaksOff start strayedGame '@' ⟨1, 20⟩ listed before := by
  have he : ("start", start) ∈ entries := List.mem_cons_self
  obtain ⟨listed, hread, -⟩ := exists_readAs_strayedGame
  exact ⟨listed, hread, exists_breaksOff_of_readAs he hread⟩

/-- A token that is refused cannot follow the tokens before it. -/
theorem exists_standsAfter_of_readAs {e : String × Phrase} (he : e ∈ entries) {source : String}
    {tok : Token} {expected : List Terminal}
    (h : readAs e.2 source = .error (.token tok expected)) :
    ∃ before, StandsAfter before tok tok.span.first source.toList ∧
      (∃ w, Sentence e.2 (before.map Token.terminal ++ w)) ∧
      ¬ Viable e.2 (before.map Token.terminal ++ [tok.terminal]) := by
  obtain ⟨toks, r, c, hreach, hstops⟩ := Reader.exists_stops_of_run (Nat.lt_succ_self _) h
  have hrefuses := hreach.refuses he hstops
  exact ⟨toks, hreach.standsAfter hrefuses, hreach.exists_sentence he, fun hviable =>
    hrefuses.unexpected ((hreach.viable_iff he).1 hviable)⟩

theorem StandsAfter.spelled_of_notMem {before : List Token} {tok : Token} {place : Position}
    {cs text : List Char} (h : StandsAfter before tok place text) {ch : Char}
    (htext : text = cs ++ [ch]) (hch : ch ∉ cs) (htok : tok.text.toList = [ch])
    (hend : tok.terminal ≠ .endOfInput) : Spelled .first cs before := by
  cases h with
  | @token ds rest hspelled _ _ =>
    rw [htok] at htext
    obtain ⟨rfl, -⟩ := (List.append_cons_inj_of_notMem hch List.not_mem_nil).1 htext.symm
    have happend : SpelledBefore ([] ++ ([ch] ++ rest)) .first cs before := htok ▸ hspelled
    exact happend.of_append
  | ending _ heq _ => exact absurd heq hend

theorem exists_readAs_colon :
    ∃ tok expected, readAs start r#"game "t" { enemy a :"# = .error (.token tok expected) ∧
      tok.terminal = .keyword .colon ∧ tok.text = ":" := by
  have hcheck : (match readAs start r#"game "t" { enemy a :"# with
      | .error (.token tok _) => decide (tok.terminal = .keyword .colon ∧ tok.text = ":")
      | _ => false) = true := by decide +kernel
  cases hread : readAs start r#"game "t" { enemy a :"# with
  | ok trees => simp [hread] at hcheck
  | error failure =>
    rw [hread] at hcheck
    cases failure with
    | character => cases hcheck
    | token tok expected => exact ⟨tok, expected, rfl, of_decide_eq_true hcheck⟩

/-- Behind the name of an enemy only a brace can follow. A colon follows other names, so it is
listed too. -/
theorem exists_listed_not_viable :
    ∃ place listed before, readAs start strayedGame = .error (.character '@' place listed) ∧
      Spelled .first r#"game "t" { enemy a "#.toList before ∧
      (∃ w, Sentence start (before.map Token.terminal ++ w)) ∧
      .keyword .colon ∈ listed ∧
      ¬ Viable start (before.map Token.terminal ++ [.keyword .colon]) := by
  have he : ("start", start) ∈ entries := List.mem_cons_self
  obtain ⟨listed, hread, hcolon⟩ := exists_readAs_strayedGame
  -- with a colon in place of the character the text is refused at it
  obtain ⟨tok, expected, hrefused, hterminal, htext⟩ := exists_readAs_colon
  obtain ⟨before, hstands, hbegins, hnot⟩ := exists_standsAfter_of_readAs he hrefused
  rw [hterminal] at hnot
  have hsource : r#"game "t" { enemy a :"#.toList =
      r#"game "t" { enemy a "#.toList ++ [':'] := by decide
  have hspelled := hstands.spelled_of_notMem hsource (by decide) (by rw [htext]; decide)
    (by simp [hterminal])
  exact ⟨⟨1, 20⟩, listed, before, hread, hspelled, hbegins, hcolon, hnot⟩

end PlatformGame.Parse
