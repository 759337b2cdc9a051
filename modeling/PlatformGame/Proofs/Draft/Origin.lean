import PlatformGame.Game.Complete
import PlatformGame.Proofs.Data.Except
import PlatformGame.Proofs.Draft.RoundTrip

/-! # Drafts and games that are read

Whatever a text contains, with or without warnings, a draft that is read from it is one that can be
written (`written_of_readDraft_outcome`): references and names of things are names of the language.
Completing it keeps the names, so the same is true of a game (`exists_written_of_readGame`). -/

namespace PlatformGame

open Grammar Parse Source

variable {source : String} {d : Draft}

namespace Draft

/-- Where a draft is read, its text is read as a tree that means the draft's sketch. -/
theorem exists_meanings_of_readDraft (h : (readDraft source).outcome = .ok d) :
    ∃ toks tree x, readAs start source = .ok [tree] ∧ Derives start toks [tree] ∧
      Spelled .first source.toList toks ∧ (meanings [tree]).outcome = .ok [x] ∧
      (meanings [tree]).warnings = (readDraft source).warnings ∧ ofSketch? x = some d := by
  have he : ("start", start) ∈ entries := List.mem_cons_self
  cases hread : readAs start source with
  | error failure =>
    rw [readDraft, readSketch, hread] at h
    cases h
  | ok trees =>
    obtain ⟨toks, tree, rfl, hd, hs⟩ := exists_derives_of_readAs he hread
    have hsketch := sketch_of_derives hd rfl tree List.mem_cons_self
    simp only [readDraft, readSketch, hread, sketchTree, hsketch] at h ⊢
    obtain ⟨x, hx, h⟩ := bind_eq_ok.1 h
    have hmeaning := mapError_eq_ok.1 hx
    refine ⟨toks, tree, x, rfl, hd, hs, ?_, ?_, ?_⟩
    · rw [meanings_singleton]
      exact (Build.outcome_bind hmeaning _).trans rfl
    · rw [meanings_singleton, Build.warnings_bind hmeaning]
      exact List.append_nil _
    · split at h
      · next hd' => rw [hd', Except.ok.inj h]
      · cases h

/-- The numbers of a draft that is read are those that a literal can stand for. -/
theorem written_of_outcome {Num : Number → Prop}
    (hnum : ∀ {s n}, Number.ofLiteral s = .ok n → Num n) (h : (readDraft source).outcome = .ok d) :
    d.Written Num False := by
  obtain ⟨toks, tree, x, -, hd, hs, hx, -, hsketch⟩ := exists_meanings_of_readDraft h
  have hreadable : ∀ tok ∈ toks, Readable Num tok := fun tok htok =>
    ⟨hs.matches tok htok, fun hnumber => by
      obtain ⟨_, n, hn⟩ := exists_ofLiteral_of_derives hd start_numbersLabelled hx htok hnumber
      exact ⟨n, hn, hnum hn⟩⟩
  have hmeans : Means Num False start _ := means_start
  obtain ⟨xs, hxs, hone⟩ := hmeans hd hreadable False.elim
  cases Except.ok.inj (hx.symm.trans hxs)
  obtain ⟨d', rfl, hd'⟩ := one_singleton.1 hone
  rw [ofSketch?_toSketch] at hsketch
  cases hsketch
  exact hd'

theorem written_of_readDraft_outcome (h : (readDraft source).outcome = .ok d) :
    d.Written (fun _ => True) False :=
  written_of_outcome (fun _ => trivial) h

/-- A text whose number literals can all be read describes a draft of such numbers. -/
theorem exists_readDraft {Num : Number → Prop} {trees : List Tree}
    (hread : readAs start source = .ok trees)
    (hnum : ∀ s ∈ Tree.numbersOf trees, IsNumber s.toList →
      ∃ n, Number.ofLiteral s = .ok n ∧ Num n) :
    ∃ d, (readDraft source).outcome = .ok d ∧ d.Written Num False := by
  have he : ("start", start) ∈ entries := List.mem_cons_self
  obtain ⟨toks, tree, rfl, hd, hs⟩ := exists_derives_of_readAs he hread
  have hreadable : ∀ tok ∈ toks, Readable Num tok := fun tok htok => by
    have hm := hs.matches tok htok
    refine ⟨hm, fun hnumber => ?_⟩
    rw [hnumber] at hm
    exact hnum _ (hd.mem_numbersOf start_numbersLabelled htok hnumber) hm
  have hmeans : Means Num False start _ := means_start
  obtain ⟨xs, hxs, hone⟩ := hmeans hd hreadable False.elim
  rw [meanings_singleton] at hxs
  obtain ⟨x, hx, hpure⟩ := Build.exists_of_outcome_bind hxs
  cases hpure
  obtain ⟨d, rfl, hwritten⟩ := one_singleton.1 hone
  have hsketch := sketch_of_derives hd rfl tree List.mem_cons_self
  refine ⟨d, ?_, hwritten⟩
  simp only [readDraft, readSketch, hread, sketchTree, hsketch]
  refine bind_eq_ok.2 ⟨_, mapError_eq_ok.2 hx, ?_⟩
  rw [ofSketch?_toSketch]
  rfl

end Draft

theorem exists_written_of_readGame {g : Game} (h : (readGame source).outcome = .ok g) :
    ∃ d : Draft, d.Written (fun _ => True) False ∧ d.complete = g := by
  rw [readGame, Reading.map] at h
  obtain ⟨d, hd, h⟩ := map_eq_ok.1 h
  exact ⟨d, Draft.written_of_readDraft_outcome hd, h⟩

theorem readGame_print (h : d.Written Number.Whole True) :
    (readGame d.print).outcome = .ok d.complete := by
  have hread : readDraft d.print = ⟨[], .ok d⟩ := Draft.readDraft_of_renders (Draft.renders_words h)
  rw [readGame, hread]
  rfl

/-- The numbers of a text that is written for a draft are among its words. -/
theorem Draft.exists_word_of_mem_numbersOf (h : d.Written Number.Whole True) {trees : List Tree}
    (hread : readAs start d.print = .ok trees) {s : String} (hs : s ∈ Tree.numbersOf trees) :
    ∃ w ∈ d.words, w.terminal = .number ∧ w.text = s := by
  obtain ⟨tree, htree, hd, -⟩ := exists_readAs_of_renders (renders_words h)
  cases hread.symm.trans htree
  obtain ⟨tok, htok, hnumber, htext⟩ := hd.exists_token_of_mem_numbersOf hs
  refine ⟨tok.word, ?_, hnumber, htext⟩
  rw [← Word.map_word_tokens .first d.words]
  exact List.mem_map_of_mem htok

theorem named_ofList {c : Char} {cs : List Char} (hc : isNameStart c = true)
    (hcs : cs.all isNameChar = true) (hfree : String.ofList (c :: cs) ∉ reservedWords) :
    Named (String.ofList (c :: cs)) := by
  unfold Named
  rw [String.toList_ofList]
  exact ⟨c, cs, rfl, hc, List.all_eq_true.1 hcs, hfree⟩

theorem Named.ne_empty {s : String} (h : Named s) : s ≠ "" := by
  rintro rfl
  obtain ⟨c, ds, h, -⟩ := h
  cases h

/-- The player of a game that is read has a sprite. -/
theorem sprite_ne_empty_of_readGame {g : Game} (h : (readGame source).outcome = .ok g) :
    g.player.sprite ≠ "" := by
  obtain ⟨d, hd, rfl⟩ := exists_written_of_readGame h
  change (d.player.getD {}).sprite.getD Defaults.player.sprite ≠ ""
  have hdefault : Defaults.player.sprite ≠ "" := by decide
  cases hp : d.player with
  | none => exact hdefault
  | some p =>
    rw [Option.getD_some]
    cases hs : p.sprite with
    | none => exact hdefault
    | some s => exact ((hd.player p hp).sprite s hs).ne_empty

end PlatformGame
