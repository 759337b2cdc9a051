import PlatformGame.Draft.Basic

/-! # Complete games

A game has a value for everything that a program needs. What may be missing in a game is missing
for good: the display, the text style of its elements, sounds, and what a level leaves out. Every
game is also a draft (`Game.toDraft`), one that sets all it can. -/

namespace PlatformGame

structure Clip where
  name : String
  frames : List Number
  fps : Number
  loop : Bool
  deriving DecidableEq

inductive Movement
  | patrol (speed distance : Number)
  | chase (speed range : Number)
  | fly (speed amplitude frequency : Number)
  | static
  deriving DecidableEq

inductive MovementKind
  | patrol | chase | fly | static
  deriving DecidableEq

def MovementKind.text : MovementKind → String
  | patrol => "patrol"
  | chase => "chase"
  | fly => "fly"
  | static => "static"

def Movement.kind : Movement → MovementKind
  | patrol _ _ => .patrol
  | chase _ _ => .chase
  | fly _ _ _ => .fly
  | static => .static

structure Config where
  width : Number
  height : Number
  gravity : Number
  background : String
  deriving DecidableEq

structure Player where
  sprite : String
  speed : Number
  jumpForce : Number
  lives : Number
  controls : ControlScheme
  animations : List Clip
  deriving DecidableEq

structure Enemy where
  name : String
  sprite : String
  movement : Movement
  damage : Number
  stompable : Bool
  animations : List Clip
  deriving DecidableEq

structure Collectible where
  name : String
  sprite : String
  score : Number
  effect : Effect
  animations : List Clip
  deriving DecidableEq

structure HudElement where
  kind : HudKind
  position : Anchor
  fontSize : Option Number
  color : Option String
  max : Option Number
  deriving DecidableEq

structure Rules where
  win : WinCondition
  lose : LoseCondition
  nextLevel : Option String
  deriving DecidableEq

structure Game where
  title : String
  config : Config
  assets : List Asset
  player : Player
  enemies : List Enemy
  collectibles : List Collectible
  levels : List Level
  hud : Option (List HudElement)
  rules : Rules
  sounds : Option Sounds
  deriving DecidableEq

/-! ## Games as drafts -/

def Clip.toDraft (c : Clip) : Draft.Clip := ⟨c.name, c.frames, some c.fps, some c.loop⟩

def Movement.toDraft : Movement → Draft.Movement
  | patrol s d => .patrol (some s) (some d)
  | chase s r => .chase (some s) (some r)
  | fly s a f => .fly (some s) (some a) (some f)
  | static => .static

def Config.toDraft (c : Config) : Draft.Config :=
  ⟨some c.width, some c.height, some c.gravity, some c.background⟩

def Player.toDraft (p : Player) : Draft.Player :=
  ⟨some p.sprite, some p.speed, some p.jumpForce, some p.lives, some p.controls,
    some (p.animations.map Clip.toDraft)⟩

def Enemy.toDraft (e : Enemy) : Draft.Enemy :=
  ⟨e.name, some e.sprite, some e.movement.toDraft, some e.damage, some e.stompable,
    some (e.animations.map Clip.toDraft)⟩

def Collectible.toDraft (c : Collectible) : Draft.Collectible :=
  ⟨c.name, some c.sprite, some c.score, some c.effect, some (c.animations.map Clip.toDraft)⟩

def HudElement.toDraft (e : HudElement) : Draft.HudElement :=
  ⟨e.kind, some e.position, e.fontSize, e.color, e.max⟩

def Rules.toDraft (r : Rules) : Draft.Rules := ⟨some r.win, some r.lose, r.nextLevel⟩

def Game.toDraft (g : Game) : Draft where
  title := some g.title
  config := some g.config.toDraft
  assets := g.assets
  player := some g.player.toDraft
  enemies := g.enemies.map Enemy.toDraft
  collectibles := g.collectibles.map Collectible.toDraft
  levels := g.levels
  hud := g.hud.map (·.map HudElement.toDraft)
  rules := some g.rules.toDraft
  sounds := g.sounds

end PlatformGame
