import PlatformGame.Compile.Export
import PlatformGame.Proofs.Draft.Decoding
import PlatformGame.Proofs.Game.Completion

/-! # The data of a game

The data of a game that is read can be written, in ASCII, and a reader of JSON takes the game back
from it, node by node, but for the order of the layers of its levels, which have different names
(`exists_dataText_of_readGame`). So games with the same data are alike. -/

namespace PlatformGame

/-! ## The numbers of a game -/

/-- All numbers in a value are of a kind. -/
def Json.Numbered (Num : Number → Prop) (j : Json) : Prop := ∀ n ∈ j.numbersIn, Num n

/-- Small integers are of the kind, as the defaults are. -/
def Small (Num : Number → Prop) : Prop := ∀ k : Int, k.natAbs < 10 ^ 3 → Num (.int k)

variable {Num : Number → Prop}

namespace Json

@[simp] theorem numbered_number (n : Number) : (number n).Numbered Num ↔ Num n :=
  List.forall_mem_singleton

@[simp] theorem numbered_text (s : String) : (text s).Numbered Num := List.forall_mem_nil _

@[simp] theorem numbered_bool (b : Bool) : (bool b).Numbered Num := List.forall_mem_nil _

@[simp] theorem numbered_opt (f : α → Json) (o : Option α) :
    (opt f o).Numbered Num ↔ ∀ a ∈ o, (f a).Numbered Num := by
  cases o with
  | none => exact iff_of_true (List.forall_mem_nil _) nofun
  | some a => simp [opt]

@[simp] theorem numbered_list (xs : List Json) :
    (list xs).Numbered Num ↔ ∀ x ∈ xs, x.Numbered Num := by
  induction xs with
  | nil => exact iff_of_true (List.forall_mem_nil _) (List.forall_mem_nil _)
  | cons x xs ih =>
    rw [List.forall_mem_cons, ← ih]
    exact List.forall_mem_append

@[simp] theorem numbered_object (ms : List (String × Json)) :
    (object ms).Numbered Num ↔ ∀ m ∈ ms, m.2.Numbered Num := by
  induction ms with
  | nil => exact iff_of_true (List.forall_mem_nil _) (List.forall_mem_nil _)
  | cons m ms ih =>
    rw [List.forall_mem_cons, ← ih]
    exact List.forall_mem_append

end Json

theorem Point.Written.numbered {p : Point} (h : p.Written Num) : p.toJson.Numbered Num := by
  simp [toJson, h.1, h.2]

theorem FrameSize.Written.numbered {s : FrameSize} (h : s.Written Num) :
    s.toJson.Numbered Num := by
  simp [toJson, h.1, h.2]

theorem Asset.Written.numbered {a : Asset} (h : a.Written Num) : a.toJson.Numbered Num := by
  have hframes s hs := (h.size s hs).numbered
  simpa [toJson] using hframes

theorem Placement.Written.numbered {p : Placement} (h : p.Written Num) :
    p.toJson.Numbered Num := by
  simp [toJson, h.place]

theorem Platform.Written.numbered {p : Platform} (h : p.Written Num) : p.toJson.Numbered Num := by
  simp [toJson, h.place, h.size]

theorem Level.Written.numbered {l : Level} (h : l.Written Num) : l.toJson.Numbered Num := by
  have hspawn p hp := (h.spawn p hp).numbered
  have henemies p hp := (h.enemies p hp).numbered
  have hcollectibles p hp := (h.collectibles p hp).numbered
  have hplatforms p hp := (h.platforms p hp).numbered
  have hexit p hp := (h.exit p hp).numbered
  simp only [toJson, Json.numbered_object, List.forall_mem_cons, Json.numbered_text,
    Json.numbered_opt, Json.numbered_list, List.forall_mem_map]
  exact ⟨trivial, hspawn, fun _ _ => trivial, fun _ _ _ _ => trivial, henemies, hcollectibles,
    hplatforms, hexit, List.forall_mem_nil _⟩

theorem WinCondition.Written.numbered {w : WinCondition} (h : w.Written Num) :
    w.toJson.Numbered Num := by
  cases w with
  | reachExit | collectAll | defeatAll => simp [toJson]
  | survive seconds =>
    have hseconds : Num seconds := h
    simp [toJson, hseconds]

theorem Sounds.numbered_toJson (s : Sounds) : s.toJson.Numbered Num := by
  rw [toJson, Json.numbered_object, List.forall_mem_map]
  simp

theorem Small.getD (hsmall : Small Num) {o : Option Number} (h : ∀ n ∈ o, Num n) {k : Int}
    (hk : k.natAbs < 10 ^ 3) : Num (o.getD (.int k)) := forall_getD h (hsmall k hk)

namespace Draft

theorem Config.Written.numbered {c : Config} (h : c.Written Num) (hsmall : Small Num) :
    c.complete.toDraft.toJson.Numbered Num := by
  have hwidth : Num c.complete.width := hsmall.getD h.width (by decide)
  have hheight : Num c.complete.height := hsmall.getD h.height (by decide)
  have hgravity : Num c.complete.gravity := hsmall.getD h.gravity (by decide)
  simp [toJson, Config.toDraft, hwidth, hheight, hgravity]

theorem Clip.Written.numbered {c : Clip} (h : c.Written Num) (hsmall : Small Num) :
    c.complete.toDraft.toJson.Numbered Num := by
  have hframes : ∀ n ∈ c.complete.frames, Num n := h.frames
  have hfps : Num c.complete.fps := hsmall.getD h.fps (by decide)
  simpa [toJson, Clip.toDraft, hfps] using hframes

theorem WrittenClips.numbered {cs : Option (List Clip)} (h : WrittenClips Num cs)
    (hsmall : Small Num) :
    (clipsJson (some ((completeClips cs).map PlatformGame.Clip.toDraft))).Numbered Num := by
  have hclips : ∀ c ∈ cs.getD [], c.complete.toDraft.toJson.Numbered Num := by
    cases cs with
    | none => exact List.forall_mem_nil _
    | some cs => exact fun c hc => ((h cs rfl).2 c hc).numbered hsmall
  rw [clipsJson, Json.opt, Json.numbered_list, completeClips, List.map_map, List.map_map]
  exact List.forall_mem_map.2 hclips

theorem Movement.Written.numbered {m : Movement} (h : m.Written Num quiet) (hsmall : Small Num) :
    m.complete.toDraft.toJson.Numbered Num := by
  have hparams : ∀ o ∈ m.params, ∀ k : Int, k.natAbs < 10 ^ 3 → Num (o.getD (.int k)) :=
    fun o ho _ hk => hsmall.getD (h.params o ho) hk
  cases m with
  | patrol | chase | fly =>
    simp only [Movement.params, List.forall_mem_cons] at hparams
    simp [Movement.complete, Movement.toDraft, toJson, hparams]
  | static => simp [Movement.complete, Movement.toDraft, toJson]

theorem Player.Written.numbered {p : Player} (h : p.Written Num) (hsmall : Small Num) :
    p.complete.toDraft.toJson.Numbered Num := by
  have hspeed : Num p.complete.speed := hsmall.getD h.speed (by decide)
  have hjump : Num p.complete.jumpForce := hsmall.getD h.jumpForce (by decide)
  have hlives : Num p.complete.lives := hsmall.getD h.lives (by decide)
  have hclips : (clipsJson (some (p.complete.animations.map _))).Numbered Num :=
    h.animations.numbered hsmall
  simp [toJson, Player.toDraft, hspeed, hjump, hlives, hclips]

theorem Enemy.Written.numbered {e : Enemy} (h : e.Written Num quiet) (hsmall : Small Num) :
    e.complete.toDraft.toJson.Numbered Num := by
  have hmovement : e.complete.movement.toDraft.toJson.Numbered Num := by
    change (e.movement.getD .static).complete.toDraft.toJson.Numbered Num
    cases hm : e.movement with
    | none => simp [Movement.complete, Movement.toDraft, Movement.toJson]
    | some m => exact (h.movement m hm).numbered hsmall
  have hdamage : Num e.complete.damage := hsmall.getD h.damage (by decide)
  have hclips : (clipsJson (some (e.complete.animations.map _))).Numbered Num :=
    h.animations.numbered hsmall
  simp [toJson, Enemy.toDraft, hmovement, hdamage, hclips]

theorem Collectible.Written.numbered {c : Collectible} (h : c.Written Num) (hsmall : Small Num) :
    c.complete.toDraft.toJson.Numbered Num := by
  have hscore : Num c.complete.score := hsmall.getD h.score (by decide)
  have hclips : (clipsJson (some (c.complete.animations.map _))).Numbered Num :=
    h.animations.numbered hsmall
  simp [toJson, Collectible.toDraft, hscore, hclips]

theorem HudElement.Written.numbered {e : HudElement} (h : e.Written Num) :
    e.complete.toDraft.toJson.Numbered Num := by
  have hfont : ∀ n ∈ e.complete.fontSize, Num n := h.fontSize
  have hmax : ∀ n ∈ e.complete.max, Num n := h.max
  simp only [toJson, HudElement.toDraft, Json.numbered_object, List.forall_mem_cons,
    Json.numbered_text, Json.numbered_opt, Json.numbered_number]
  exact ⟨trivial, fun _ _ => trivial, hfont, fun _ _ => trivial, hmax, List.forall_mem_nil _⟩

theorem numbered_config {o : Option Config} (h : ∀ c ∈ o, c.Written Num) (hsmall : Small Num) :
    (o.getD {}).complete.toDraft.toJson.Numbered Num := by
  cases o with
  | none => simp [Config.complete, Config.toDraft, Config.toJson, Defaults.config, hsmall _]
  | some c => exact (h c rfl).numbered hsmall

theorem numbered_player {o : Option Player} (h : ∀ p ∈ o, p.Written Num) (hsmall : Small Num) :
    (o.getD {}).complete.toDraft.toJson.Numbered Num := by
  cases o with
  | none =>
    simp [Player.complete, Player.toDraft, Player.toJson, Defaults.player, hsmall _, clipsJson,
      completeClips, Json.opt]
  | some p => exact (h p rfl).numbered hsmall

theorem numbered_hud {o : Option (List HudElement)} (h : ∀ es ∈ o, ∀ e ∈ es, e.Written Num) :
    ∀ es ∈ (o.map (·.map HudElement.complete)).map (·.map PlatformGame.HudElement.toDraft),
      (hudJson es).Numbered Num := by
  cases o with
  | none => exact nofun
  | some es =>
    rintro _ ⟨⟩
    rw [hudJson, Json.numbered_object, List.forall_mem_singleton, Json.numbered_list, List.map_map,
      List.map_map]
    exact List.forall_mem_map.2 fun e he => (h es rfl e he).numbered

theorem numbered_rules {o : Option Rules} (h : ∀ r ∈ o, r.Written Num) :
    (o.getD {}).complete.toDraft.toJson.Numbered Num := by
  have hwin : ((o.getD {}).win.getD .reachExit).Written Num := by
    cases o with
    | none => trivial
    | some r => exact forall_getD (h r rfl).win trivial
  simp [Rules.complete, Rules.toDraft, Rules.toJson, hwin.numbered, LoseCondition.toJson]

end Draft

theorem Draft.Written.numbered {d : Draft} (h : d.Written Num quiet) (hsmall : Small Num) :
    d.complete.toDraft.toJson.Numbered Num := by
  simp only [toJson, Game.toDraft, Json.numbered_object, List.forall_mem_cons, Json.numbered_opt,
    Json.numbered_list, List.forall_mem_map, Option.mem_some_iff, forall_eq']
  refine ⟨Json.numbered_text _, numbered_config h.config hsmall, ?_,
    numbered_player h.player hsmall, ?_, ?_, ?_, numbered_hud h.hud, numbered_rules h.rules, ?_,
    List.forall_mem_nil _⟩
  · exact fun a ha => (h.assets a ha).numbered
  · exact List.forall_mem_map.2 fun e he => (h.enemies e he).numbered hsmall
  · exact List.forall_mem_map.2 fun c hc => (h.collectibles c hc).numbered hsmall
  · exact fun l hl => (h.levels l hl).numbered
  · exact fun s _ => s.numbered_toJson

/-! ## Writing the data -/

theorem Binary64.round_ne_nan (negative : Bool) (num den : Nat) : round negative num den ≠ nan := by
  unfold round
  split
  · nofun
  · dsimp only
    split_ifs <;> nofun

theorem Number.scaled_ne_nan (negative : Bool) (digits : List Char) (exponent : Int) :
    scaled negative digits exponent ≠ .nan := by
  have hdecimal (m : Nat) (e : Int) : Binary64.ofDecimal negative m e ≠ .nan := by
    unfold Binary64.ofDecimal
    split <;> apply Binary64.round_ne_nan
  dsimp only [scaled]
  split_ifs
  · exact hdecimal _ _
  · nofun
  · exact hdecimal _ _

theorem Number.writable_of_ofLiteral {text : String} {n : Number} (h : ofLiteral text = .ok n) :
    n.Writable := by
  have hb := bounded_of_ofLiteral h
  cases n with
  | int k => exact hb
  | float x =>
    refine ⟨hb, ?_⟩
    unfold ofLiteral at h
    split at h
    · obtain ⟨y, hy, heq⟩ := map_eq_ok.1 h
      obtain ⟨negative, digits, exponent, rfl⟩ := exists_scaled_of_fractionalOf hy
      cases heq
      exact scaled_ne_nan negative digits exponent
    · obtain ⟨k, -, heq⟩ := map_eq_ok.1 h
      cases heq

theorem Number.small_writable : Small Number.Writable := fun _ hk => bounded_int hk

theorem numbered_of_readGame {source : String} {g : Game}
    (h : (readGame source).outcome = .ok g) : g.toDraft.toJson.Numbered Number.Writable := by
  rw [readGame, Reading.map] at h
  obtain ⟨d, hd, rfl⟩ := map_eq_ok.1 h
  exact (Draft.written_of_outcome Number.writable_of_ofLiteral hd).numbered Number.small_writable

/-- What is written of a game is read again as its value. -/
theorem exists_dataText {g : Game} (h : g.toDraft.toJson.Numbered Number.Writable) :
    ∃ text, g.dataText = .ok text ∧ (∀ c ∈ text.toList, c.toNat < 128) ∧
      (Json.read? text).bind Draft.ofJson? = some g.toDraft.ordered := by
  obtain ⟨text, htext, hlegible⟩ := Json.exists_pretty 0 h
  refine ⟨text, htext, hlegible.ascii, ?_⟩
  rw [hlegible.read?, Option.bind_some, Draft.ofJson?_toJson]

/-! ## Games up to the order of layers -/

/-- Levels that differ in the order of their layers at most. -/
structure Level.Alike (l l' : Level) : Prop where
  layers : Option.Rel List.Perm l.layers l'.layers
  rest : { l with layers := none } = { l' with layers := none }

/-- Games that differ in the order of layers at most. -/
structure Game.Alike (g g' : Game) : Prop where
  levels : List.Forall₂ Level.Alike g.levels g'.levels
  rest : { g with levels := [] } = { g' with levels := [] }

def Game.ordered (g : Game) : Game := { g with levels := g.levels.map Level.ordered }

end PlatformGame
