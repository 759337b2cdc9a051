import PlatformGame.Game.Parts
import PlatformGame.Source.Position
import PlatformGame.Text.Quoted

/-! # Sketches

What a tree describes is first put together as a `Sketch`, in which any value may stand in any
place: trees made by hand may give a level where a number belongs, and such a sketch can still be
looked at. A tree that was read from a text gives a sketch in which everything has its proper kind,
so that it is a draft (`Draft.ofSketch?`). -/

namespace PlatformGame

open Source Text

/-- A word of a fixed choice. -/
inductive Choice
  | asset (k : AssetKind)
  | controls (c : ControlScheme)
  | effect (e : Effect)
  | hud (k : HudKind)
  | anchor (a : Anchor)
  deriving DecidableEq

/-- The fixed choices. -/
inductive ChoiceKind
  | asset | controls | effect | hud | anchor
  deriving DecidableEq

namespace ChoiceKind

def name : ChoiceKind → String
  | asset => "AssetKind"
  | controls => "ControlScheme"
  | effect => "CollectibleEffect"
  | hud => "HudElementType"
  | anchor => "HudPosition"

end ChoiceKind

namespace Choice

def kind : Choice → ChoiceKind
  | asset _ => .asset
  | controls _ => .controls
  | effect _ => .effect
  | hud _ => .hud
  | anchor _ => .anchor

def text : Choice → String
  | asset k => k.text
  | controls c => c.text
  | effect e => e.text
  | hud k => k.text
  | anchor a => a.text

/-- The name of a word, in which its parts are written in capitals and divided by underscores. -/
def name : Choice → String
  | asset .image => "IMAGE" | asset .spritesheet => "SPRITESHEET"
  | asset .tilemap => "TILEMAP" | asset .audio => "AUDIO"
  | controls .arrows => "ARROWS" | controls .wasd => "WASD" | controls .both => "BOTH"
  | effect .extraLife => "EXTRA_LIFE" | effect .speedBoost => "SPEED_BOOST"
  | effect .invincible => "INVINCIBLE" | effect .nothing => "NONE"
  | hud .score => "SCORE" | hud .lives => "LIVES" | hud .timer => "TIMER"
  | anchor a => (if a.top then "TOP_" else "BOTTOM_") ++
      match a.side with
      | .left => "LEFT"
      | .right => "RIGHT"
      | .center => "CENTER"

/-- The word of a choice with the given text. -/
def ofText? : ChoiceKind → String → Option Choice
  | .asset, s => (AssetKind.ofText? s).map asset
  | .controls, s => (ControlScheme.ofText? s).map controls
  | .effect, s => (Effect.ofText? s).map effect
  | .hud, s => (HudKind.ofText? s).map hud
  | .anchor, s => (Anchor.ofText? s).map anchor

end Choice

/-- The things that have named fields. -/
inductive RecordKind
  | config | frameSize | asset | clip
  | patrol | chase | fly | static
  | player | enemy | collectible
  | point | placement | platform | level
  | hudElement | hud
  | reachExit | collectAll | defeatAll | survive
  | noLives | timerExpires | fallOff
  | rules | sounds | game
  deriving DecidableEq

namespace RecordKind

def name : RecordKind → String
  | config => "GameConfig" | frameSize => "SpritesheetConfig" | asset => "AssetDeclaration"
  | clip => "AnimationClip"
  | patrol => "PatrolMovement" | chase => "ChaseMovement" | fly => "FlyMovement"
  | static => "StaticMovement"
  | player => "PlayerDefinition" | enemy => "EnemyDefinition"
  | collectible => "CollectibleDefinition"
  | point => "Point" | placement => "EntityPlacement" | platform => "PlatformRect"
  | level => "LevelDefinition"
  | hudElement => "HudElement" | hud => "HudDefinition"
  | reachExit => "ReachExit" | collectAll => "CollectAll" | defeatAll => "DefeatAll"
  | survive => "Survive"
  | noLives => "NoLives" | timerExpires => "TimerExpires" | fallOff => "FallOff"
  | rules => "RulesDefinition" | sounds => "SoundsDefinition" | game => "GameDocument"

/-- The fields of a thing, in order. -/
def fields : RecordKind → List String
  | config => ["width", "height", "gravity", "background"]
  | frameSize => ["frame_width", "frame_height"]
  | asset => ["kind", "key", "path", "frames"]
  | clip => ["name", "frames", "fps", "loop"]
  | patrol => ["speed", "distance"]
  | chase => ["speed", "range"]
  | fly => ["speed", "amplitude", "frequency"]
  | player => ["sprite", "speed", "jump_force", "lives", "controls", "animations"]
  | enemy => ["name", "sprite", "movement", "damage", "stompable", "animations"]
  | collectible => ["name", "sprite", "score", "effect", "animations"]
  | point => ["x", "y"]
  | placement => ["entity", "x", "y"]
  | platform => ["asset", "x", "y", "width", "height"]
  | level =>
    ["name", "spawn", "tilemap", "layers", "enemies", "collectibles", "platforms", "exit"]
  | hudElement => ["type", "position", "font_size", "color", "max"]
  | hud => ["elements"]
  | collectAll => ["entity"]
  | survive => ["seconds"]
  | rules => ["win", "lose", "next_level"]
  | sounds => SoundEvent.all.map SoundEvent.text
  | game => ["title", "config", "assets", "player", "enemies", "collectibles", "levels", "hud",
      "rules", "sounds"]
  | static | reachExit | defeatAll | noLives | timerExpires | fallOff => []

/-- The fields that hold lists, which are empty where nothing is written. -/
def lists : RecordKind → List String
  | clip => ["frames"]
  | level => ["enemies", "collectibles", "platforms"]
  | game => ["assets", "enemies", "collectibles", "levels"]
  | _ => []

/-- The word for a thing that is one of several of its sort. -/
def tag? : RecordKind → Option String
  | patrol => some "patrol"
  | chase => some "chase"
  | fly => some "fly"
  | static => some "static"
  | reachExit => some "reachExit"
  | collectAll => some "collectAll"
  | defeatAll => some "defeatAll"
  | survive => some "survive"
  | noLives => some "noLives"
  | timerExpires => some "timerExpires"
  | fallOff => some "fallOff"
  | _ => none

end RecordKind

/-- The kinds of blocks that a game consists of. -/
inductive BlockKind
  | config | assets | player | enemy | collectible | level | hud | rules | sounds
  deriving DecidableEq

def BlockKind.text : BlockKind → String
  | config => "config"
  | assets => "assets"
  | player => "player"
  | enemy => "enemy"
  | collectible => "collectible"
  | level => "level"
  | hud => "hud"
  | rules => "rules"
  | sounds => "sounds"

inductive Sketch
  | null
  | flag (b : Bool)
  | number (n : Number)
  | text (s : String)
  /-- A leaf as it stands in the tree. -/
  | token (kind text : String)
  | choice (c : Choice)
  /-- A thing with the values of its fields, in order. -/
  | record (kind : RecordKind) (values : List Sketch)
  | tuple (items : List Sketch)
  | list (items : List Sketch)
  | mapping (entries : List (Sketch × Sketch))
  /-- A property of the body of a block; it may be appended to an earlier one. -/
  | property (key value : Sketch) (appends : Bool)
  /-- A block of a game, with its place where a warning may need it. -/
  | block (kind : BlockKind) (value : Sketch) (place : Option Position)

namespace Sketch

/-! ## Texts of sketches -/

def shownFlag (b : Bool) : String := if b then "True" else "False"

def shownNumber (n : Number) : String :=
  match n.text with
  | .ok s => s
  | .error e => e.message

def shownToken (kind text : String) : String :=
  "Token(" ++ quoted kind ++ ", " ++ quoted text ++ ")"

def shownChoice (c : Choice) : String :=
  "<" ++ c.kind.name ++ "." ++ c.name ++ ": " ++ quoted c.text ++ ">"

def shownTuple : List String → String
  | [s] => "(" ++ s ++ ",)"
  | ss => "(" ++ ", ".intercalate ss ++ ")"

mutual

/-- How a sketch is shown in a message about it. -/
def shown : Sketch → String
  | null => "None"
  | flag b => shownFlag b
  | number n => shownNumber n
  | text s => quoted s
  | token kind s => shownToken kind s
  | choice c => shownChoice c
  | record kind values =>
    kind.name ++ "(" ++ ", ".intercalate (shownFields kind.fields values) ++ ")"
  | tuple items => shownTuple (shownAll items)
  | list items => "[" ++ ", ".intercalate (shownAll items) ++ "]"
  | mapping entries => r"{" ++ ", ".intercalate (shownEntries entries) ++ r"}"
  | property key value appends => "_Prop(key=" ++ shown key ++ ", value=" ++ shown value ++
      ", appends=" ++ shownFlag appends ++ ")"
  | block kind value _ =>
    "_Block(kind=" ++ quoted kind.text ++ ", value=" ++ shown value ++ ", meta=None)"

def shownAll : List Sketch → List String
  | [] => []
  | x :: xs => shown x :: shownAll xs

def shownFields : List String → List Sketch → List String
  | name :: names, x :: xs => (name ++ "=" ++ shown x) :: shownFields names xs
  | _, _ => []

def shownEntries : List (Sketch × Sketch) → List String
  | [] => []
  | (k, x) :: es => (shown k ++ ": " ++ shown x) :: shownEntries es

end

/-- The text of what is a text, be it as a leaf or as a word of a choice. -/
def text? : Sketch → Option String
  | text s => some s
  | token _ s => some s
  | choice c => some c.text
  | _ => none

/-- A text as it is, anything else as it is shown. -/
def plain (x : Sketch) : String := x.text?.getD x.shown

/-- The word for the sort of a value. -/
def sortName : Sketch → String
  | null => "NoneType"
  | flag _ => "bool"
  | number (.int _) => "int"
  | number (.float _) => "float"
  | text _ => "str"
  | token _ _ => "Token"
  | choice c => c.kind.name
  | record kind _ => kind.name
  | tuple _ => "tuple"
  | list _ => "list"
  | mapping _ => "dict"
  | property _ _ _ => "_Prop"
  | block _ _ _ => "_Block"

/-! ## Items and keys -/

def ofChars (cs : List Char) : List Sketch := cs.map fun c => text (String.ofList [c])

/-- The items of what has items: a text has its characters, a mapping its keys. -/
def items? : Sketch → Option (List Sketch)
  | tuple items => some items
  | list items => some items
  | mapping entries => some (entries.map (·.1))
  | x => x.text?.map fun s => ofChars s.toList

mutual

/-- The sort of the first part that keeps a value from being a key: nothing with a list or a mapping
in it is one. -/
def unkeyed? : Sketch → Option String
  | list _ => some "list"
  | mapping _ => some "dict"
  | record _ values => unkeyedAmong? values
  | tuple items => unkeyedAmong? items
  | property key value _ => (unkeyed? key).or (unkeyed? value)
  | block _ value _ => unkeyed? value
  | _ => none

def unkeyedAmong? : List Sketch → Option String
  | [] => none
  | x :: xs => (unkeyed? x).or (unkeyedAmong? xs)

end

/-- The number that a value counts as when it is compared. -/
def quantity? : Sketch → Option Number
  | number n => some n
  | flag b => some (.int (if b then 1 else 0))
  | _ => none

/-- Whether one of two values is no leaf of the tree, or both are leaves of one kind. -/
def sameTokenKind : Sketch → Sketch → Bool
  | token k _, token l _ => k == l
  | _, _ => true

/-- Whether two values without parts are the same key. -/
def sameLeaf (x y : Sketch) : Bool :=
  match x.text?, y.text?, x.quantity?, y.quantity? with
  | some s, some t, _, _ => s == t && sameTokenKind x y
  | _, _, some m, some n => m.equals n
  | _, _, _, _ => false

mutual

/-- Whether two values are the same key: texts and numbers count by what they say, other values by
their parts. A leaf is the same key as a text, but not as a leaf of another kind, so a bag may have
several keys that say the same. -/
def sameKey : Sketch → Sketch → Bool
  | null, null => true
  | record k xs, record l ys => k == l && sameKeys xs ys
  | tuple xs, tuple ys => sameKeys xs ys
  | property k v a, property l w b => sameKey k l && sameKey v w && a == b
  | block k v p, block l w q => k == l && sameKey v w && p == q
  | x, y => sameLeaf x y

def sameKeys : List Sketch → List Sketch → Bool
  | [], [] => true
  | x :: xs, y :: ys => sameKey x y && sameKeys xs ys
  | _, _ => false

end

end Sketch

end PlatformGame
