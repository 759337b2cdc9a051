import PlatformGame.Compile.Artifact
import PlatformGame.Proofs.Draft.Failures
import PlatformGame.Proofs.Draft.Pointing
import PlatformGame.Proofs.Parse.Characters
import PlatformGame.Proofs.Source.Quoting

/-! # What is said about a text

A text that cannot be read is reported with the place where reading stopped, and a text that can be
read is built with warnings about places in it. Both kinds of messages quote the text in the same
way (`exists_quotes_of_diagnosed`). -/

namespace PlatformGame

open Grammar Parse Source Text

/-- The summary, place and message of what is said about a text that is read as a phrase: that it
cannot be read, or a warning. -/
inductive Diagnosed (p : Phrase) (source : String) : String → Option Position → String → Prop
  | failure {f : Failure} : readAs p source = .error f →
    Diagnosed p source f.summary (some f.position) (f.message source)
  | warning {w : Draft.Warning} : w ∈ (readSketch p source).warnings →
    Diagnosed p source w.summary w.place (w.message (some source))

variable {e : String × Phrase} {source : String}

/-- Reading stops somewhere in the text. -/
theorem exists_after_of_readAs (he : e ∈ entries) {f : Failure}
    (h : readAs e.2 source = .error f) :
    ∃ before after, source.toList = before ++ after ∧
      f.position = Position.first.after before := by
  cases f with
  | character ch place listed =>
    obtain ⟨toks, r, c, hreach, hstops⟩ := Reader.exists_stops_of_run (Nat.lt_succ_self _) h
    obtain ⟨rest, hrest, rfl, -⟩ := hstops.character
    obtain ⟨cs, hsource, -, hplace⟩ := hreach.stands hrest
    exact ⟨cs, ch :: rest, hsource, hplace⟩
  | token tok expected =>
    obtain ⟨before, hstands, -⟩ := exists_standsAfter_of_readAs he h
    change ∃ before after, source.toList = before ++ after ∧
      tok.span.first = Position.first.after before
    generalize tok.span.first = place at hstands
    generalize source.toList = text at hstands
    cases hstands with
    | token hspelled _ hplace => exact ⟨_, _, rfl, hplace⟩
    | ending hspelled _ hplace =>
      cases hlast : before.getLast? with
      | none => exact ⟨[], text, rfl, by rw [hplace, hlast]; rfl⟩
      | some last =>
        obtain ⟨cs, ds, heq, hfirst⟩ :=
          hspelled.exists_after last (List.mem_of_getLast? hlast)
        exact ⟨cs, ds, heq, by rw [hplace, hlast]; exact hfirst⟩

/-- Warnings point at places in the text, also where building fails in the end. -/
theorem exists_after_of_warning (he : e ∈ entries) {w : Draft.Warning}
    (h : w ∈ (readSketch e.2 source).warnings) :
    ∃ p before after, w.place = some p ∧ source.toList = before ++ after ∧
      p = Position.first.after before := by
  cases hread : readAs e.2 source with
  | error failure =>
    rw [readSketch, hread] at h
    cases h
  | ok trees =>
    obtain ⟨toks, tree, rfl, hd, hs⟩ := exists_derives_of_readAs he hread
    have hsketch := Draft.sketch_of_derives hd (entries_single e he) tree List.mem_cons_self
    simp only [readSketch, hread, sketchTree, hsketch] at h
    have hw : w ∈ (Draft.meanings [tree]).warnings := by
      rw [Draft.meanings_singleton]
      exact Draft.Build.mem_warnings_bind.2 (.inl h)
    obtain ⟨tok, htok, hplace⟩ := (Draft.points_of_derives hd).warnings w hw
    obtain ⟨before, after, hsource, hfirst⟩ := hs.exists_after tok htok
    exact ⟨tok.span.first, before, after, hplace, hsource, hfirst⟩

/-- Every message about a text points at a line of it and quotes the displayed line of the same
number. -/
theorem exists_quotes_of_diagnosed (he : e ∈ entries) {summary message : String}
    {place : Option Position} (h : Diagnosed e.2 source summary place message) :
    ∃ p above line below shown, place = some p ∧
      Quotes source summary p message above line below shown := by
  cases h with
  | @failure f hread =>
    obtain ⟨before, after, hsource, hplace⟩ := exists_after_of_readAs he hread
    obtain ⟨above, line, below, shown, hquotes⟩ := exists_quotes_locate hsource hplace f.summary
    exact ⟨f.position, above, line, below, shown, rfl, hquotes⟩
  | @warning w hw =>
    obtain ⟨p, before, after, hplace, hsource, hp⟩ := exists_after_of_warning he hw
    obtain ⟨above, line, below, shown, hquotes⟩ := exists_quotes_locate hsource hp w.summary
    refine ⟨p, above, line, below, shown, hplace, ?_⟩
    rw [Draft.Warning.message, hplace]
    exact hquotes

/-- A game without a title, behind a comment with a form feed in it. -/
def fedGame : String := "/* a\x0cb */\n" ++ r"game {"

theorem exists_readAs_fedGame :
    ∃ f, readAs start fedGame = .error f ∧ f.position = ⟨2, 6⟩ := by
  have hcheck : (match readAs start fedGame with
      | .error f => decide (f.position = ⟨2, 6⟩)
      | _ => false) = true := by decide +kernel
  cases hread : readAs start fedGame with
  | ok trees => simp [hread] at hcheck
  | error f =>
    rw [hread] at hcheck
    exact ⟨f, rfl, of_decide_eq_true hcheck⟩

theorem exists_quotes_of_diagnosed_fedGame :
    ∃ summary message, Diagnosed start fedGame summary (some ⟨2, 6⟩) message ∧
      ∃ p above line below shown, some ⟨2, 6⟩ = some p ∧
        Quotes fedGame summary p message above line below shown := by
  have he : ("start", start) ∈ entries := List.mem_cons_self
  obtain ⟨f, hread, hplace⟩ := exists_readAs_fedGame
  have hdiagnosed := Diagnosed.failure hread
  rw [hplace] at hdiagnosed
  exact ⟨f.summary, f.message fedGame, hdiagnosed, exists_quotes_of_diagnosed he hdiagnosed⟩

/-- The form feed ends a displayed line, so the rest of the comment is quoted instead of the line
that the position stands in. -/
theorem exists_message_fedGame_ne :
    ∃ f, readAs start fedGame = .error f ∧
      StandsIn fedGame.toList f.position "/* a\x0cb */\n".toList r"game {".toList [] ∧
      f.message fedGame = report f.summary f.position "b */".toList ∧
      f.message fedGame ≠ report f.summary f.position (stripChars r"game {".toList) := by
  obtain ⟨f, hread, hplace⟩ := exists_readAs_fedGame
  have hmessage : f.message fedGame = report f.summary f.position "b */".toList := by
    have hshown : stripChars (((linesFrom [] fedGame.toList)[2 - 1]?).getD []) =
        "b */".toList := by decide
    rw [← hshown, Failure.message, locate_eq_report _ _ (by simp [hplace]) (by simp [hplace]),
      hplace]
  refine ⟨f, hread, ?_, hmessage, ?_⟩
  · rw [hplace]
    exact ⟨by decide, wholeLines_append_newline "/* a\x0cb */".toList, by decide, by simp,
      by decide, "game ".toList, ['{'], by decide, by decide⟩
  · rw [hmessage, Ne, report_inj]
    decide

end PlatformGame
