import PlatformGame.Draft.Basic
import PlatformGame.Proofs.Source.Lexeme

/-! # Drafts that can be written

What a draft is like that comes from a text, part by part: references and names of things are names
of the language, colours have six digits, and a block that must have a property has one. `Num` says
which numbers there are. -/

namespace PlatformGame

open Source

/-- A text in the form of a name. -/
def Named (s : String) : Prop := IsName s.toList

variable (Num : Number → Prop)

/-! ## Parts of a game -/

def Point.Written (p : Point) : Prop := Num p.x ∧ Num p.y

def FrameSize.Written (f : FrameSize) : Prop := Num f.width ∧ Num f.height

/-- Spritesheets, and no other assets, have a size of frames. -/
structure Asset.Written (a : Asset) : Prop where
  key : Named a.key
  frames : a.frames.isSome = true ↔ a.kind = .spritesheet
  size : ∀ f ∈ a.frames, f.Written Num

structure Placement.Written (p : Placement) : Prop where
  entity : Named p.entity
  place : Num p.x ∧ Num p.y

structure Platform.Written (p : Platform) : Prop where
  asset : Named p.asset
  place : Num p.x ∧ Num p.y
  size : Num p.width ∧ Num p.height

/-- Layers with different names, at least one. -/
structure WrittenLayers (layers : List (String × String)) : Prop where
  ne_nil : layers ≠ []
  nodup : (layers.map (·.1)).Nodup
  named : ∀ l ∈ layers, Named l.1

structure Level.Written (l : Level) : Prop where
  spawn : ∀ p ∈ l.spawn, p.Written Num
  tilemap : ∀ t ∈ l.tilemap, Named t
  layers : ∀ ls ∈ l.layers, WrittenLayers ls
  enemies : ∀ p ∈ l.enemies, p.Written Num
  collectibles : ∀ p ∈ l.collectibles, p.Written Num
  platforms : ∀ p ∈ l.platforms, p.Written Num
  exit : ∀ p ∈ l.exit, p.Written Num

def WinCondition.Written : WinCondition → Prop
  | collectAll entity => Named entity
  | survive seconds => Num seconds
  | reachExit | defeatAll => True

structure Sounds.Written (s : Sounds) : Prop where
  ne_empty : s ≠ {}
  named : ∀ e, ∀ key ∈ s.get e, Named key

namespace Draft

structure Config.Written (c : Config) : Prop where
  ne_empty : c ≠ {}
  width : ∀ n ∈ c.width, Num n
  height : ∀ n ∈ c.height, Num n
  gravity : ∀ n ∈ c.gravity, Num n
  background : ∀ s ∈ c.background, IsColor s.toList

structure Clip.Written (c : Clip) : Prop where
  name : Named c.name
  frames : ∀ n ∈ c.frames, Num n
  fps : ∀ n ∈ c.fps, Num n

/-- Clips, if there are any at all. -/
def WrittenClips (clips : Option (List Clip)) : Prop :=
  ∀ cs ∈ clips, cs ≠ [] ∧ ∀ c ∈ cs, c.Written Num

/-- The parameters of a movement. -/
def Movement.params : Movement → List (Option Number)
  | patrol speed distance => [speed, distance]
  | chase speed range => [speed, range]
  | fly speed amplitude frequency => [speed, amplitude, frequency]
  | static => []

/-- A movement whose parameters were all its own has one of them, unless it takes none. -/
structure Movement.Written (quiet : Prop) (m : Movement) : Prop where
  params : ∀ o ∈ m.params, ∀ n ∈ o, Num n
  exists_param : quiet → m = .static ∨ ∃ o ∈ m.params, o.isSome = true

structure Player.Written (p : Player) : Prop where
  ne_empty : p ≠ {}
  sprite : ∀ s ∈ p.sprite, Named s
  speed : ∀ n ∈ p.speed, Num n
  jumpForce : ∀ n ∈ p.jumpForce, Num n
  lives : ∀ n ∈ p.lives, Num n
  animations : WrittenClips Num p.animations

structure Enemy.Written (quiet : Prop) (e : Enemy) : Prop where
  ne_empty : e ≠ { name := e.name }
  name : Named e.name
  sprite : ∀ s ∈ e.sprite, Named s
  movement : ∀ m ∈ e.movement, m.Written Num quiet
  damage : ∀ n ∈ e.damage, Num n
  animations : WrittenClips Num e.animations

structure Collectible.Written (c : Collectible) : Prop where
  ne_empty : c ≠ { name := c.name }
  name : Named c.name
  sprite : ∀ s ∈ c.sprite, Named s
  score : ∀ n ∈ c.score, Num n
  animations : WrittenClips Num c.animations

structure HudElement.Written (h : HudElement) : Prop where
  ne_empty : h ≠ { kind := h.kind }
  fontSize : ∀ n ∈ h.fontSize, Num n
  color : ∀ s ∈ h.color, IsColor s.toList
  max : ∀ n ∈ h.max, Num n

structure Rules.Written (r : Rules) : Prop where
  ne_empty : r ≠ {}
  win : ∀ w ∈ r.win, w.Written Num

end Draft

/-- A draft that a text describes. -/
structure Draft.Written (quiet : Prop) (d : Draft) : Prop where
  title : d.title.isSome = true
  config : ∀ c ∈ d.config, c.Written Num
  assets : ∀ a ∈ d.assets, a.Written Num
  player : ∀ p ∈ d.player, p.Written Num
  enemies : ∀ e ∈ d.enemies, e.Written Num quiet
  collectibles : ∀ c ∈ d.collectibles, c.Written Num
  levels : ∀ l ∈ d.levels, l.Written Num
  hud : ∀ es ∈ d.hud, ∀ e ∈ es, e.Written Num
  rules : ∀ r ∈ d.rules, r.Written Num
  sounds : ∀ s ∈ d.sounds, s.Written

end PlatformGame
