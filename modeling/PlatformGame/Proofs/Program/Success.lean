import PlatformGame.Proofs.Number.Moderate
import PlatformGame.Proofs.Program.Emitters

/-! # When a text compiles

A text that is read compiles, if its numbers are of moderate size: nothing that the program computes
from them overflows, and nothing that its parts need is missing from the game
(`compile_eq_error_iff`). What is wrong with the game itself, such as references to things it does
not have, stops nothing. -/

namespace PlatformGame

open Grammar Parse Source Program

/-! ## Quantities -/

namespace Program

/-- A quantity whose numbers are of moderate size. -/
def Quantity.Moderate : Quantity → Prop
  | value n => n.Moderate
  | shifted n k => n.Moderate ∧ (Number.int k).Moderate
  | middle start extent => start.Moderate ∧ extent.Moderate
  | centred extent _ => extent.Moderate
  | absent => False

/-- Computing a quantity of moderate size does not overflow. -/
theorem Quantity.Moderate.exists_compute {q : Quantity} (h : q.Moderate) :
    ∃ n, q.compute = .ok n ∧ n.Bounded := by
  cases q with
  | value n => exact ⟨n, rfl, Number.Moderate.bounded h⟩
  | shifted n k => exact ⟨_, rfl, h.1.bounded_shift h.2⟩
  | middle start extent =>
    obtain ⟨x, hx⟩ := h.2.exists_half
    obtain ⟨y, hy⟩ := h.1.exists_toBinary64
    refine ⟨.float (y.add x), ?_, Binary64.bounded_add _ _⟩
    rw [compute, Number.middle, hx, hy]
    rfl
  | centred extent width =>
    obtain ⟨x, hx⟩ := Number.Moderate.exists_half h
    refine ⟨.float (x.sub (Binary64.round false width 1)), ?_, Binary64.bounded_add _ _⟩
    rw [compute, hx]
    rfl
  | absent => exact h.elim

theorem moderate_anchorPlace (a : Anchor) {width height : Number} (hw : width.Moderate)
    (hh : height.Moderate) :
    (anchorPlace a width height).1.Moderate ∧ (anchorPlace a width height).2.Moderate := by
  obtain ⟨top, side⟩ := a
  constructor
  · cases side with
    | left => exact Number.moderate_int (by decide)
    | center => exact hw
    | right => exact ⟨hw, Number.moderate_int (by decide)⟩
  · cases top with
    | true => exact Number.moderate_int (by decide)
    | false => exact ⟨hh, Number.moderate_int (by decide)⟩

/-- The page around a program is always written. -/
theorem writes_pageListing {g : Game} (h : ∀ r ∈ programListing g, r.Writes) (url : String) :
    ∀ r ∈ pageListing g url, r.Writes := by
  simpa [pageListing, indent, line, Row.Writes, Piece.write, or_imp, forall_and] using h

end Program

/-! ## Games -/

theorem Draft.Written.computes {d : Draft} (h : d.Written Number.Moderate quiet) :
    Computes Quantity.Moderate d.complete := by
  have hconfig : d.complete.config.width.Moderate ∧ d.complete.config.height.Moderate := by
    change (d.config.getD {}).complete.width.Moderate ∧ (d.config.getD {}).complete.height.Moderate
    cases hc : d.config with
    | none => exact ⟨Number.moderate_int (by decide), Number.moderate_int (by decide)⟩
    | some c =>
      exact ⟨forall_getD (h.config c hc).width (Number.moderate_int (by decide)),
        forall_getD (h.config c hc).height (Number.moderate_int (by decide))⟩
  refine ⟨fun l hl p hp => ?_, ⟨hconfig.2, Number.moderate_int (by decide)⟩,
    fun a => moderate_anchorPlace a hconfig.1 hconfig.2⟩
  have hp := (h.levels l hl).platforms p hp
  exact ⟨⟨hp.place.1, hp.size.1⟩, hp.place.2, hp.size.2⟩

theorem Program.isInfix_sceneClass (key : String) (body : Listing) :
    body <:+: sceneClass key body := by
  have hindent : body <:+: indent body := ⟨[.indent], [.dedent], rfl⟩
  exact hindent.trans ⟨[_], [_], rfl⟩

/-- Whatever the parts of a program take from the game without looking is there. -/
structure Game.Supplied (g : Game) : Prop where
  frames : ∀ a ∈ g.assets, a.kind = .spritesheet → ∃ size, a.frames = some size
  tilemap : ∀ l ∈ g.levels, tilemapCreate l g.assets ≠ [] → ∃ key, l.tilemap = some key
  restart : ∀ l i, (l, i) ∈ g.levels.zipIdx → ∃ first rest, g.levels = first :: rest ∧
    gameOverHandler g (sceneKey first.name) <:+: levelListing g l i

theorem Game.Proper.supplied {g : Game} (h : g.Proper) : g.Supplied where
  frames a ha hkind := Option.isSome_iff_exists.1 ((h.assets a ha).frames.2 hkind)
  tilemap l hl hne := by
    cases htilemap : l.tilemap with
    | none => exact absurd (by simp [tilemapCreate, tiledLayers, htilemap]) hne
    | some key => exact ⟨key, rfl⟩
  restart l i hl := by
    cases hlevels : g.levels with
    | nil => simp [hlevels] at hl
    | cons first rest =>
      refine ⟨first, rest, rfl, ?_⟩
      simp only [levelListing, hlevels, List.head?_cons, Option.map_some, Option.getD_some]
      exact (List.suffix_append _ _).isInfix.trans (isInfix_sceneClass _ _)

/-! ## Compiling -/

theorem outcome_compile_of_error {source : String} {f : Failure}
    (h : readAs start source = .error f) (options : Except OptionError Options) :
    (compile source options).outcome = .error (.unreadable f source) := by
  have hgame : (readGame source).outcome = .error (.unreadable f source) := by
    rw [readGame, readDraft, readSketch, h]
    rfl
  change (readGame source).outcome >>= _ = _
  rw [hgame]
  rfl

/-- A text that is read and has only short number literals describes a game whose program is
written. -/
theorem exists_game_of_readAs {source : String} {trees : List Tree}
    (hread : readAs start source = .ok trees)
    (hshort : ∀ s ∈ Tree.numbersOf trees, s.length ≤ Number.moderateLength) :
    ∃ g, (readGame source).outcome = .ok g ∧ g.Proper ∧ ∀ r ∈ programListing g, r.Writes := by
  obtain ⟨d, hd, hwritten⟩ := Draft.exists_readDraft hread fun s hs hnumber =>
    Number.exists_moderate hnumber (hshort s hs)
  have hg : (readGame source).outcome = .ok d.complete := map_eq_ok.2 ⟨d, hd, rfl⟩
  have hproper := proper_of_readGame hg
  have hholds := hwritten.computes.holdsAll hproper
  exact ⟨d.complete, hg, hproper, fun r hr p hp =>
    (hholds r hr p hp).exists_write fun _ => Quantity.Moderate.exists_compute⟩

/-- A game is compiled where its program is written. -/
theorem exists_artifact {source : String} {g : Game} (hg : (readGame source).outcome = .ok g)
    {o : Options} {url : String} (hurl : o.url = .ok url)
    (h : ∀ r ∈ programListing g, r.Writes) : ∃ page,
      (compile source (.ok o)).outcome = .ok ⟨page, g.violations o.strictReferences.isTrue⟩ := by
  obtain ⟨b, hb⟩ := exists_sheet (writes_pageListing h url)
  have hpage : g.page url o.minify.isTrue = .ok (b.render o.minify.isTrue) :=
    bind_eq_ok.2 ⟨b, hb, rfl⟩
  refine ⟨b.render o.minify.isTrue, bind_eq_ok.2 ⟨g, hg, ?_⟩⟩
  refine bind_eq_ok.2 ⟨o, rfl, bind_eq_ok.2 ⟨url, mapError_eq_ok.2 hurl, ?_⟩⟩
  exact mapError_eq_ok.2 (bind_eq_ok.2 ⟨_, hpage, rfl⟩)

/-- Let no number literal of a text have more than 300 characters, and let the address of the engine
be a text. Compiling then fails exactly if the text cannot be read, and with that failure. A text
that is read gives a page, whatever the violations of its game: all parts of its program find what
they need, and each of them is written. -/
theorem compile_eq_error_iff {source : String} {o : Options} {url : String}
    (hurl : o.url = .ok url)
    (hshort : ∀ trees, readAs start source = .ok trees → ∀ s ∈ Tree.numbersOf trees,
      s.length ≤ 300) :
    (∀ e, (compile source (.ok o)).outcome = .error e ↔
      ∃ f, readAs start source = .error f ∧ e = .unreadable f source) ∧
    ∀ trees, readAs start source = .ok trees → ∃ g page, (readGame source).outcome = .ok g ∧
      (compile source (.ok o)).outcome = .ok ⟨page, g.violations o.strictReferences.isTrue⟩ ∧
      g.Supplied ∧ ∀ rows, Emitted g rows → ∃ b, rows.sheet = .ok b := by
  cases hread : readAs start source with
  | error f =>
    refine ⟨fun e => ?_, fun trees htrees => by cases htrees⟩
    simp [outcome_compile_of_error hread, eq_comm]
  | ok trees =>
    obtain ⟨g, hg, hproper, hprogram⟩ := exists_game_of_readAs hread (hshort trees hread)
    obtain ⟨page, hout⟩ := exists_artifact hg hurl hprogram
    refine ⟨fun e => by simp [hout], fun _ _ => ?_⟩
    refine ⟨g, page, hg, hout, hproper.supplied, fun rows hrows => ?_⟩
    obtain ⟨b, hb⟩ := exists_sheet (hrows.writes hproper hprogram)
    exact ⟨b, hb⟩

/-! ### A game with a wide platform -/

/-- Two levels of one name without a place to start, one with a platform that no asset shows. -/
def wideDraft (width : Nat) : Draft :=
  { title := some "t"
    levels := [{ name := "l", platforms := [⟨"plank", .int 0, .int 0, .int width, .int 1⟩] },
      { name := "l" }] }

theorem written_wideDraft {width : Nat} (h : width < 10 ^ Number.moderateLength) :
    (wideDraft width).Written Number.Whole True where
  title := rfl
  config := by simp [wideDraft]
  assets := List.forall_mem_nil _
  player := by simp [wideDraft]
  enemies := List.forall_mem_nil _
  collectibles := List.forall_mem_nil _
  levels := by
    have hwhole {m : Int} (h : (Number.int m).Moderate) : (Number.int m).Whole :=
      ⟨m, rfl, h.bounded⟩
    have hzero : (Number.int 0).Whole := hwhole (Number.moderate_int (by decide))
    have hone : (Number.int 1).Whole := hwhole (Number.moderate_int (by decide))
    have hplank : Named "plank" := named_ofList (by decide) (by decide) (by decide)
    refine List.forall_mem_cons.2 ⟨?_, List.forall_mem_singleton.2 ?_⟩
    · refine ⟨by simp, by simp, by simp, by simp, by simp, List.forall_mem_singleton.2 ?_, by simp⟩
      have hwidth : (Number.int width).Moderate := h
      exact ⟨hplank, ⟨hzero, hzero⟩, hwhole hwidth, hone⟩
    · exact ⟨by simp, by simp, by simp, by simp, by simp, by simp, by simp⟩
  hud := by simp [wideDraft]
  rules := by simp [wideDraft]
  sounds := by simp [wideDraft]

/-- The width of the platform is beyond all integers that fractional numbers hold exactly, and the
game has violations. -/
theorem compile_eq_error_iff_wide :
    let d := wideDraft (10 ^ 60 - 1)
    ∃ trees, readAs start d.print = .ok trees ∧
      (∀ s ∈ Tree.numbersOf trees, s.length ≤ 300) ∧ d.complete.violations false ≠ [] ∧
      ∃ page, (compile d.print (.ok {})).outcome = .ok ⟨page, d.complete.violations false⟩ ∧
        d.complete.Supplied ∧ ∀ rows, Emitted d.complete rows → ∃ b, rows.sheet = .ok b := by
  intro d
  have hwidth : 10 ^ 60 - 1 < 10 ^ Number.moderateLength :=
    (Nat.sub_lt (Nat.pow_pos (by decide)) Nat.one_pos).trans_le
      (Nat.pow_le_pow_right (by decide) (by decide))
  have hd : d.Written Number.Whole True := written_wideDraft hwidth
  have hwords : (d.words.all fun w => w.terminal != .number || w.text.length ≤ 300) = true := by
    decide +kernel
  have hshort : ∀ trees, readAs start d.print = .ok trees → ∀ s ∈ Tree.numbersOf trees,
      s.length ≤ 300 := by
    intro trees hread s hs
    obtain ⟨w, hw, hnumber, rfl⟩ := Draft.exists_word_of_mem_numbersOf hd hread hs
    simpa [hnumber] using List.all_eq_true.1 hwords w hw
  obtain ⟨tree, hread, -⟩ := Draft.exists_readAs_of_renders (Draft.renders_words hd)
  obtain ⟨-, hok⟩ := compile_eq_error_iff (o := {}) rfl hshort
  obtain ⟨g, page, hg, hrest⟩ := hok _ hread
  cases hg.symm.trans (readGame_print hd)
  exact ⟨_, hread, hshort _ hread, by decide +kernel, page, hrest⟩

end PlatformGame
