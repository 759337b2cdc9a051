import PlatformGame.Draft.Decode

/-! # Sketches of drafts

Every part of a draft has a sketch, from which it is got back: `Draft.ofSketch?_toSketch` for whole
drafts. -/

namespace PlatformGame

namespace Sketch

/-- A value that may be unset. -/
def ofOption (enc : α → Sketch) (o : Option α) : Sketch := (o.map enc).getD null

def ofItems (enc : α → Sketch) (xs : List α) : Sketch := tuple (xs.map enc)

/-- Sketches from which a value is got back, and which are not taken for an unset one. -/
def Decodes (enc : α → Sketch) (dec : Sketch → Option α) : Prop :=
  ∀ a, dec (enc a) = some a ∧ enc a ≠ null

namespace Decodes

variable {enc : α → Sketch} {dec : Sketch → Option α}

theorem option (h : Decodes enc dec) (o : Option α) :
    (ofOption enc o).asOption? dec = some o := by
  cases o with
  | none => rfl
  | some a =>
    change (enc a).asOption? dec = _
    unfold asOption?
    split
    · next heq => exact absurd heq (h a).2
    · simp [(h a).1]

theorem items (h : Decodes enc dec) : Decodes (ofItems enc) (asList? dec) := by
  intro xs
  refine ⟨?_, nofun⟩
  induction xs with
  | nil => rfl
  | cons x xs ih =>
    simp only [asList?, ofItems, List.map_cons, List.mapM_cons, (h x).1] at ih ⊢
    simp [ih]

end Decodes

end Sketch

open Sketch

/-! ## Parts of a game -/

def Point.toSketch (p : Point) : Sketch := .record .point [.number p.x, .number p.y]

def FrameSize.toSketch (f : FrameSize) : Sketch :=
  .record .frameSize [.number f.width, .number f.height]

def Asset.toSketch (a : Asset) : Sketch :=
  .record .asset [.choice (.asset a.kind), .text a.key, .text a.path,
    .ofOption FrameSize.toSketch a.frames]

def Placement.toSketch (p : Placement) : Sketch :=
  .record .placement [.text p.entity, .number p.x, .number p.y]

def Platform.toSketch (p : Platform) : Sketch :=
  .record .platform [.text p.asset, .number p.x, .number p.y, .number p.width, .number p.height]

/-- Names of layers with their names in the tilemap. -/
def layersSketch (layers : List (String × String)) : Sketch :=
  .mapping (layers.map fun l => (.text l.1, .text l.2))

def Level.toSketch (l : Level) : Sketch :=
  .record .level [.text l.name, .ofOption Point.toSketch l.spawn, .ofOption .text l.tilemap,
    .ofOption layersSketch l.layers, .ofItems Placement.toSketch l.enemies,
    .ofItems Placement.toSketch l.collectibles, .ofItems Platform.toSketch l.platforms,
    .ofOption Point.toSketch l.exit]

def WinCondition.toSketch : WinCondition → Sketch
  | reachExit => .record .reachExit []
  | collectAll entity => .record .collectAll [.text entity]
  | defeatAll => .record .defeatAll []
  | survive seconds => .record .survive [.number seconds]

def LoseCondition.toSketch : LoseCondition → Sketch
  | noLives => .record .noLives []
  | timerExpires => .record .timerExpires []
  | fallOff => .record .fallOff []

def Sounds.toSketch (s : Sounds) : Sketch :=
  .record .sounds [.ofOption .text s.jump, .ofOption .text s.collect, .ofOption .text s.hurt,
    .ofOption .text s.win, .ofOption .text s.lose, .ofOption .text s.bgm]

namespace Draft

def Config.toSketch (c : Config) : Sketch :=
  .record .config [.ofOption .number c.width, .ofOption .number c.height,
    .ofOption .number c.gravity, .ofOption .text c.background]

def Clip.toSketch (c : Clip) : Sketch :=
  .record .clip [.text c.name, .ofItems .number c.frames, .ofOption .number c.fps,
    .ofOption .flag c.loop]

def Movement.toSketch : Movement → Sketch
  | patrol speed distance =>
    .record .patrol [.ofOption .number speed, .ofOption .number distance]
  | chase speed range => .record .chase [.ofOption .number speed, .ofOption .number range]
  | fly speed amplitude frequency =>
    .record .fly [.ofOption .number speed, .ofOption .number amplitude, .ofOption .number frequency]
  | static => .record .static []

def Player.toSketch (p : Player) : Sketch :=
  .record .player [.ofOption .text p.sprite, .ofOption .number p.speed,
    .ofOption .number p.jumpForce, .ofOption .number p.lives,
    .ofOption (fun c => .choice (.controls c)) p.controls,
    .ofOption (.ofItems Clip.toSketch) p.animations]

def Enemy.toSketch (e : Enemy) : Sketch :=
  .record .enemy [.text e.name, .ofOption .text e.sprite, .ofOption Movement.toSketch e.movement,
    .ofOption .number e.damage, .ofOption .flag e.stompable,
    .ofOption (.ofItems Clip.toSketch) e.animations]

def Collectible.toSketch (c : Collectible) : Sketch :=
  .record .collectible [.text c.name, .ofOption .text c.sprite, .ofOption .number c.score,
    .ofOption (fun e => .choice (.effect e)) c.effect,
    .ofOption (.ofItems Clip.toSketch) c.animations]

def HudElement.toSketch (h : HudElement) : Sketch :=
  .record .hudElement [.choice (.hud h.kind), .ofOption (fun a => .choice (.anchor a)) h.position,
    .ofOption .number h.fontSize, .ofOption .text h.color, .ofOption .number h.max]

def Rules.toSketch (r : Rules) : Sketch :=
  .record .rules [.ofOption WinCondition.toSketch r.win, .ofOption LoseCondition.toSketch r.lose,
    .ofOption .text r.nextLevel]

def hudSketch (elements : List HudElement) : Sketch :=
  .record .hud [.ofItems HudElement.toSketch elements]

def toSketch (d : Draft) : Sketch :=
  .record .game [.ofOption .text d.title, .ofOption Config.toSketch d.config,
    .ofItems Asset.toSketch d.assets, .ofOption Player.toSketch d.player,
    .ofItems Enemy.toSketch d.enemies, .ofItems Collectible.toSketch d.collectibles,
    .ofItems Level.toSketch d.levels, .ofOption hudSketch d.hud, .ofOption Rules.toSketch d.rules,
    .ofOption Sounds.toSketch d.sounds]

end Draft

/-! ## Getting a draft back -/

theorem decodes_number : Decodes .number asNumber? := fun _ => ⟨rfl, nofun⟩

theorem decodes_text : Decodes .text asText? := fun _ => ⟨rfl, nofun⟩

theorem decodes_flag : Decodes .flag asFlag? := fun _ => ⟨rfl, nofun⟩

theorem decodes_point : Decodes Point.toSketch asPoint? := fun _ => ⟨rfl, nofun⟩

theorem decodes_frameSize : Decodes FrameSize.toSketch asFrameSize? := fun _ => ⟨rfl, nofun⟩

theorem decodes_placement : Decodes Placement.toSketch asPlacement? := fun _ => ⟨rfl, nofun⟩

theorem decodes_platform : Decodes Platform.toSketch asPlatform? := fun _ => ⟨rfl, nofun⟩

theorem decodes_asset : Decodes Asset.toSketch asAsset? := by
  refine fun a => ⟨?_, nofun⟩
  simp [asAsset?, Asset.toSketch, asText?, decodes_frameSize.option]

theorem decodes_layers : Decodes layersSketch asLayers? := by
  refine fun ls => ⟨?_, nofun⟩
  induction ls with
  | nil => rfl
  | cons l ls ih =>
    simp only [asLayers?, layersSketch, List.map_cons, List.mapM_cons] at ih ⊢
    rw [ih]
    rfl

theorem decodes_level : Decodes Level.toSketch asLevel? := by
  refine fun l => ⟨?_, nofun⟩
  simp [asLevel?, Level.toSketch, asText?, decodes_point.option, decodes_text.option,
    decodes_layers.option, (decodes_placement.items _).1, (decodes_platform.items _).1]

theorem decodes_win : Decodes WinCondition.toSketch asWin? := by
  intro w
  cases w <;> exact ⟨rfl, nofun⟩

theorem decodes_lose : Decodes LoseCondition.toSketch asLose? := by
  intro l
  cases l <;> exact ⟨rfl, nofun⟩

theorem decodes_sounds : Decodes Sounds.toSketch asSounds? := by
  refine fun s => ⟨?_, nofun⟩
  simp [asSounds?, Sounds.toSketch, decodes_text.option]

namespace Draft

theorem decodes_config : Decodes Config.toSketch asConfig? := by
  refine fun c => ⟨?_, nofun⟩
  simp [asConfig?, Config.toSketch, decodes_number.option, decodes_text.option]

theorem decodes_clip : Decodes Clip.toSketch asClip? := by
  refine fun c => ⟨?_, nofun⟩
  simp [asClip?, Clip.toSketch, asText?, (decodes_number.items _).1, decodes_number.option,
    decodes_flag.option]

theorem decodes_movement : Decodes Movement.toSketch asMovement? := by
  intro m
  cases m with
  | static => exact ⟨rfl, nofun⟩
  | _ =>
    refine ⟨?_, nofun⟩
    simp [asMovement?, Movement.toSketch, decodes_number.option]

theorem decodes_controls : Decodes (fun c => .choice (.controls c)) asControls? :=
  fun _ => ⟨rfl, nofun⟩

theorem decodes_effect : Decodes (fun e => .choice (.effect e)) asEffect? := fun _ => ⟨rfl, nofun⟩

theorem decodes_anchor : Decodes (fun a => .choice (.anchor a)) asAnchor? := fun _ => ⟨rfl, nofun⟩

theorem decodes_player : Decodes Player.toSketch asPlayer? := by
  refine fun p => ⟨?_, nofun⟩
  simp [asPlayer?, Player.toSketch, decodes_text.option, decodes_number.option,
    decodes_controls.option, decodes_clip.items.option]

theorem decodes_enemy : Decodes Enemy.toSketch asEnemy? := by
  refine fun e => ⟨?_, nofun⟩
  simp [asEnemy?, Enemy.toSketch, asText?, decodes_text.option, decodes_movement.option,
    decodes_number.option, decodes_flag.option, decodes_clip.items.option]

theorem decodes_collectible : Decodes Collectible.toSketch asCollectible? := by
  refine fun c => ⟨?_, nofun⟩
  simp [asCollectible?, Collectible.toSketch, asText?, decodes_text.option, decodes_number.option,
    decodes_effect.option, decodes_clip.items.option]

theorem decodes_hudElement : Decodes HudElement.toSketch asHudElement? := by
  refine fun h => ⟨?_, nofun⟩
  simp [asHudElement?, HudElement.toSketch, asHudKind?, decodes_anchor.option,
    decodes_number.option, decodes_text.option]

theorem decodes_hud : Decodes hudSketch asHud? := by
  refine fun es => ⟨?_, nofun⟩
  exact (decodes_hudElement.items es).1

theorem decodes_rules : Decodes Rules.toSketch asRules? := by
  refine fun r => ⟨?_, nofun⟩
  simp [asRules?, Rules.toSketch, decodes_win.option, decodes_lose.option, decodes_text.option]

theorem ofSketch?_toSketch (d : Draft) : ofSketch? d.toSketch = some d := by
  simp [ofSketch?, toSketch, decodes_text.option, decodes_config.option,
    (decodes_asset.items _).1, decodes_player.option, (decodes_enemy.items _).1,
    (decodes_collectible.items _).1, (decodes_level.items _).1, decodes_hud.option,
    decodes_rules.option, decodes_sounds.option]

end Draft

end PlatformGame
