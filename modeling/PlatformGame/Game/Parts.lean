import PlatformGame.Number.Basic

/-! # Parts of a game

What a game description consists of, as far as it is the same in a draft and in a complete game. -/

namespace PlatformGame

inductive AssetKind
  | image | spritesheet | tilemap | audio
  deriving DecidableEq

def AssetKind.text : AssetKind → String
  | image => "image"
  | spritesheet => "spritesheet"
  | tilemap => "tilemap"
  | audio => "audio"

def AssetKind.ofText? (s : String) : Option AssetKind :=
  [image, spritesheet, tilemap, audio].find? (·.text == s)

inductive ControlScheme
  | arrows | wasd | both
  deriving DecidableEq

def ControlScheme.text : ControlScheme → String
  | arrows => "arrows"
  | wasd => "wasd"
  | both => "both"

def ControlScheme.ofText? (s : String) : Option ControlScheme :=
  [arrows, wasd, both].find? (·.text == s)

/-- What picking up a collectible does besides scoring. -/
inductive Effect
  | extraLife | speedBoost | invincible | nothing
  deriving DecidableEq

def Effect.text : Effect → String
  | extraLife => "extraLife"
  | speedBoost => "speedBoost"
  | invincible => "invincible"
  | nothing => "none"

def Effect.ofText? (s : String) : Option Effect :=
  [extraLife, speedBoost, invincible, nothing].find? (·.text == s)

/-- What an element of the head-up display shows. -/
inductive HudKind
  | score | lives | timer
  deriving DecidableEq

def HudKind.text : HudKind → String
  | score => "score"
  | lives => "lives"
  | timer => "timer"

def HudKind.ofText? (s : String) : Option HudKind :=
  [score, lives, timer].find? (·.text == s)

inductive Side
  | left | right | center
  deriving DecidableEq

/-- A place on the edge of the screen: at the top or at the bottom, and on which side. -/
structure Anchor where
  top : Bool
  side : Side
  deriving DecidableEq

namespace Anchor

def text (a : Anchor) : String :=
  (if a.top then "top-" else "bottom-") ++
    match a.side with
    | .left => "left"
    | .right => "right"
    | .center => "center"

def all : List Anchor :=
  [⟨true, .left⟩, ⟨true, .right⟩, ⟨true, .center⟩, ⟨false, .left⟩, ⟨false, .right⟩,
    ⟨false, .center⟩]

def ofText? (s : String) : Option Anchor := all.find? (·.text == s)

end Anchor

structure Point where
  x : Number
  y : Number
  deriving DecidableEq

structure FrameSize where
  width : Number
  height : Number
  deriving DecidableEq

structure Asset where
  kind : AssetKind
  key : String
  path : String
  frames : Option FrameSize
  deriving DecidableEq

/-- An enemy or collectible at a place of a level. -/
structure Placement where
  entity : String
  x : Number
  y : Number
  deriving DecidableEq

structure Platform where
  asset : String
  x : Number
  y : Number
  width : Number
  height : Number
  deriving DecidableEq

structure Level where
  name : String
  spawn : Option Point := none
  tilemap : Option String := none
  /-- Layer names with the names they have in the tilemap, in order of first mention. -/
  layers : Option (List (String × String)) := none
  enemies : List Placement := []
  collectibles : List Placement := []
  platforms : List Platform := []
  exit : Option Point := none
  deriving DecidableEq

inductive WinCondition
  | reachExit
  | collectAll (entity : String)
  | defeatAll
  | survive (seconds : Number)
  deriving DecidableEq

def WinCondition.kind : WinCondition → String
  | reachExit => "reachExit"
  | collectAll _ => "collectAll"
  | defeatAll => "defeatAll"
  | survive _ => "survive"

inductive LoseCondition
  | noLives | timerExpires | fallOff
  deriving DecidableEq

def LoseCondition.kind : LoseCondition → String
  | noLives => "noLives"
  | timerExpires => "timerExpires"
  | fallOff => "fallOff"

inductive SoundEvent
  | jump | collect | hurt | win | lose | bgm
  deriving DecidableEq

namespace SoundEvent

def text : SoundEvent → String
  | jump => "jump"
  | collect => "collect"
  | hurt => "hurt"
  | win => "win"
  | lose => "lose"
  | bgm => "bgm"

def all : List SoundEvent := [jump, collect, hurt, win, lose, bgm]

def ofText? (s : String) : Option SoundEvent := all.find? (·.text == s)

end SoundEvent

/-- The asset that sounds at each event. -/
structure Sounds where
  jump : Option String := none
  collect : Option String := none
  hurt : Option String := none
  win : Option String := none
  lose : Option String := none
  bgm : Option String := none
  deriving DecidableEq

namespace Sounds

def get (s : Sounds) : SoundEvent → Option String
  | .jump => s.jump
  | .collect => s.collect
  | .hurt => s.hurt
  | .win => s.win
  | .lose => s.lose
  | .bgm => s.bgm

def set (s : Sounds) (key : String) : SoundEvent → Sounds
  | .jump => { s with jump := some key }
  | .collect => { s with collect := some key }
  | .hurt => { s with hurt := some key }
  | .win => { s with win := some key }
  | .lose => { s with lose := some key }
  | .bgm => { s with bgm := some key }

/-- All events with their assets, in the order in which the language lists them. -/
def events (s : Sounds) : List (SoundEvent × Option String) :=
  SoundEvent.all.map fun e => (e, s.get e)

end Sounds

end PlatformGame
