import PlatformGame.Data.Json
import PlatformGame.Draft.Basic
import PlatformGame.Draft.Sketch

/-! # Drafts as JSON

A thing becomes an object with a member for each of its fields, unset ones being null. Movements and
win and lose conditions carry their kind. Sketches are written in the same way, and values from
outside are taken for sketches where they have to be shown. -/

namespace PlatformGame

def Json.opt (f : α → Json) : Option α → Json
  | some a => f a
  | none => .null

def Json.texts (ss : List String) : Json := .list (ss.map .text)

def Point.toJson (p : Point) : Json := .object [("x", .number p.x), ("y", .number p.y)]

def FrameSize.toJson (s : FrameSize) : Json :=
  .object [("frame_width", .number s.width), ("frame_height", .number s.height)]

def Asset.toJson (a : Asset) : Json :=
  .object [("kind", .text a.kind.text), ("key", .text a.key), ("path", .text a.path),
    ("frames", .opt FrameSize.toJson a.frames)]

def Placement.toJson (p : Placement) : Json :=
  .object [("entity", .text p.entity), ("x", .number p.x), ("y", .number p.y)]

def Platform.toJson (p : Platform) : Json :=
  .object [("asset", .text p.asset), ("x", .number p.x), ("y", .number p.y),
    ("width", .number p.width), ("height", .number p.height)]

def Level.toJson (l : Level) : Json :=
  .object [("name", .text l.name), ("spawn", .opt Point.toJson l.spawn),
    ("tilemap", .opt .text l.tilemap),
    ("layers", .opt (fun ls => .object (ls.map fun (k, v) => (k, .text v))) l.layers),
    ("enemies", .list (l.enemies.map Placement.toJson)),
    ("collectibles", .list (l.collectibles.map Placement.toJson)),
    ("platforms", .list (l.platforms.map Platform.toJson)),
    ("exit", .opt Point.toJson l.exit)]

def WinCondition.toJson (w : WinCondition) : Json :=
  .object (("kind", .text w.kind) ::
    match w with
    | .collectAll entity => [("entity", .text entity)]
    | .survive seconds => [("seconds", .number seconds)]
    | _ => [])

def LoseCondition.toJson (l : LoseCondition) : Json := .object [("kind", .text l.kind)]

def Sounds.toJson (s : Sounds) : Json :=
  .object (s.events.map fun (e, key) => (e.text, .opt .text key))

namespace Draft

def Config.toJson (c : Config) : Json :=
  .object [("width", .opt .number c.width), ("height", .opt .number c.height),
    ("gravity", .opt .number c.gravity), ("background", .opt .text c.background)]

def Clip.toJson (c : Clip) : Json :=
  .object [("name", .text c.name), ("frames", .list (c.frames.map .number)),
    ("fps", .opt .number c.fps), ("loop", .opt .bool c.loop)]

def clipsJson (cs : Option (List Clip)) : Json := .opt (fun cs => .list (cs.map Clip.toJson)) cs

def Movement.toJson (m : Movement) : Json :=
  .object (("kind", .text m.kind) ::
    match m with
    | .patrol s d => [("speed", .opt .number s), ("distance", .opt .number d)]
    | .chase s r => [("speed", .opt .number s), ("range", .opt .number r)]
    | .fly s a f => [("speed", .opt .number s), ("amplitude", .opt .number a),
        ("frequency", .opt .number f)]
    | .static => [])

def Player.toJson (p : Player) : Json :=
  .object [("sprite", .opt .text p.sprite), ("speed", .opt .number p.speed),
    ("jump_force", .opt .number p.jumpForce), ("lives", .opt .number p.lives),
    ("controls", .opt (fun c => .text c.text) p.controls), ("animations", clipsJson p.animations)]

def Enemy.toJson (e : Enemy) : Json :=
  .object [("name", .text e.name), ("sprite", .opt .text e.sprite),
    ("movement", .opt Movement.toJson e.movement), ("damage", .opt .number e.damage),
    ("stompable", .opt .bool e.stompable), ("animations", clipsJson e.animations)]

def Collectible.toJson (c : Collectible) : Json :=
  .object [("name", .text c.name), ("sprite", .opt .text c.sprite),
    ("score", .opt .number c.score), ("effect", .opt (fun e => .text e.text) c.effect),
    ("animations", clipsJson c.animations)]

def HudElement.toJson (e : HudElement) : Json :=
  .object [("type", .text e.kind.text), ("position", .opt (fun a => .text a.text) e.position),
    ("font_size", .opt .number e.fontSize), ("color", .opt .text e.color),
    ("max", .opt .number e.max)]

def hudJson (es : List HudElement) : Json :=
  .object [("elements", .list (es.map HudElement.toJson))]

def Rules.toJson (r : Rules) : Json :=
  .object [("win", .opt WinCondition.toJson r.win), ("lose", .opt LoseCondition.toJson r.lose),
    ("next_level", .opt .text r.nextLevel)]

end Draft

def Draft.toJson (d : Draft) : Json :=
  .object [("title", .opt .text d.title), ("config", .opt Draft.Config.toJson d.config),
    ("assets", .list (d.assets.map Asset.toJson)), ("player", .opt Draft.Player.toJson d.player),
    ("enemies", .list (d.enemies.map Draft.Enemy.toJson)),
    ("collectibles", .list (d.collectibles.map Draft.Collectible.toJson)),
    ("levels", .list (d.levels.map Level.toJson)), ("hud", .opt Draft.hudJson d.hud),
    ("rules", .opt Draft.Rules.toJson d.rules), ("sounds", .opt Sounds.toJson d.sounds)]

namespace Sketch

mutual

/-- A sketch by itself. A block gives its kind; a mapping takes its keys as texts. -/
def toJson : Sketch → Json
  | null => .null
  | flag b => .bool b
  | number n => .number n
  | text s => .text s
  | token _ s => .text s
  | choice c => .text c.text
  | record kind values =>
    let members := fieldsJson kind.fields values
    match kind.tag? with
    | some tag => .object (("kind", .text tag) :: members)
    | none => .object members
  | tuple items => .list (listJson items)
  | list items => .list (listJson items)
  | mapping entries => .object (entriesJson entries)
  | property key value appends =>
    .object [("key", toJson key), ("value", toJson value), ("appends", .bool appends)]
  | block kind value _ => .object [("block", .text kind.text), ("value", toJson value)]

def listJson : List Sketch → List Json
  | [] => []
  | x :: xs => toJson x :: listJson xs

def fieldsJson : List String → List Sketch → List (String × Json)
  | name :: names, x :: xs => (name, toJson x) :: fieldsJson names xs
  | _, _ => []

def entriesJson : List (Sketch × Sketch) → List (String × Json)
  | [] => []
  | (k, x) :: es => (k.plain, toJson x) :: entriesJson es

end

mutual

/-- The sketch of a value that is given from outside. -/
def ofJson : Json → Sketch
  | .null => null
  | .bool b => flag b
  | .number n => number n
  | .text s => text s
  | .list xs => list (ofJsons xs)
  | .object members => mapping (ofMembers members)

def ofJsons : List Json → List Sketch
  | [] => []
  | x :: xs => ofJson x :: ofJsons xs

def ofMembers : List (String × Json) → List (Sketch × Sketch)
  | [] => []
  | (k, x) :: ms => (text k, ofJson x) :: ofMembers ms

end

end Sketch

end PlatformGame
