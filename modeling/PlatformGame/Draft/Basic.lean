import PlatformGame.Game.Parts

/-! # Drafts

A draft is a game as it was written: what was not written is unset. -/

namespace PlatformGame

namespace Draft

structure Config where
  width : Option Number := none
  height : Option Number := none
  gravity : Option Number := none
  background : Option String := none
  deriving DecidableEq

structure Clip where
  name : String
  frames : List Number := []
  fps : Option Number := none
  loop : Option Bool := none
  deriving DecidableEq

inductive Movement
  | patrol (speed distance : Option Number)
  | chase (speed range : Option Number)
  | fly (speed amplitude frequency : Option Number)
  | static
  deriving DecidableEq

def Movement.kind : Movement → String
  | patrol _ _ => "patrol"
  | chase _ _ => "chase"
  | fly _ _ _ => "fly"
  | static => "static"

structure Player where
  sprite : Option String := none
  speed : Option Number := none
  jumpForce : Option Number := none
  lives : Option Number := none
  controls : Option ControlScheme := none
  animations : Option (List Clip) := none
  deriving DecidableEq

structure Enemy where
  name : String
  sprite : Option String := none
  movement : Option Movement := none
  damage : Option Number := none
  stompable : Option Bool := none
  animations : Option (List Clip) := none
  deriving DecidableEq

structure Collectible where
  name : String
  sprite : Option String := none
  score : Option Number := none
  effect : Option Effect := none
  animations : Option (List Clip) := none
  deriving DecidableEq

structure HudElement where
  kind : HudKind
  position : Option Anchor := none
  fontSize : Option Number := none
  color : Option String := none
  max : Option Number := none
  deriving DecidableEq

structure Rules where
  win : Option WinCondition := none
  lose : Option LoseCondition := none
  nextLevel : Option String := none
  deriving DecidableEq

end Draft

structure Draft where
  title : Option String := none
  config : Option Draft.Config := none
  assets : List Asset := []
  player : Option Draft.Player := none
  enemies : List Draft.Enemy := []
  collectibles : List Draft.Collectible := []
  levels : List Level := []
  hud : Option (List Draft.HudElement) := none
  rules : Option Draft.Rules := none
  sounds : Option Sounds := none
  deriving DecidableEq

end PlatformGame
