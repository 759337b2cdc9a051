import PlatformGame.Draft.Basic
import PlatformGame.Proofs.Draft.Literals
import PlatformGame.Proofs.Parse.Form

/-! # Printing drafts

`Draft.print` writes a draft as a text of the language, in a fixed order: configuration, assets,
player, enemies, collectibles, levels, head-up display, rules and sounds. A comma stands after every
property and every item, and a space between any two words. In strings, backslashes, quotes and
newlines are escaped. -/

namespace PlatformGame

open Grammar (Keyword)
open Source

/-! ## Words -/

namespace Source.Word

def ofName (s : String) : Word := ⟨.name, s⟩

def ofColor (s : String) : Word := ⟨.color, s⟩

def ofString (s : String) : Word := ⟨.string, Text.literal s⟩

def ofNumber (n : Number) : Word := ⟨.number, n.decimal⟩

def comma : Word := ofKeyword .comma

/-! ## Shapes -/

/-- Items with a comma after each. -/
def items (f : α → List Word) (as : List α) : List Word := as.flatMap fun a => f a ++ [comma]

def braces (ws : List Word) : List Word := ofKeyword .openBrace :: ws ++ [ofKeyword .closeBrace]

def field (k : Keyword) (ws : List Word) : List Word := ofKeyword k :: ofKeyword .colon :: ws

/-- A property that may be unset. -/
def property (k : Keyword) (value : α → List Word) (o : Option α) : List Word :=
  items (fun a => field k (value a)) o.toList

/-- A property with a list of items. -/
def listed (k : Keyword) (f : α → List Word) (as : List α) : List Word :=
  field k (ofKeyword .openBracket :: items f as ++ [ofKeyword .closeBracket]) ++ [comma]

def nameWords (s : String) : List Word := [ofName s]

def colorWords (s : String) : List Word := [ofColor s]

def stringWords (s : String) : List Word := [ofString s]

def numberWords (n : Number) : List Word := [ofNumber n]

def flagWords (b : Bool) : List Word := [ofKeyword (if b then .affirm else .deny)]

def numberPair (k k' : Keyword) (m n : Number) : List Word :=
  braces (items (fun e : Keyword × Number => field e.1 (numberWords e.2)) [(k, m), (k', n)])

end Source.Word

open Source.Word

/-! ## Parts of a game -/

def ControlScheme.keyword : ControlScheme → Keyword
  | arrows => .arrows
  | wasd => .wasd
  | both => .both

def Effect.keyword : Effect → Keyword
  | extraLife => .extraLife
  | speedBoost => .speedBoost
  | invincible => .invincible
  | nothing => .noEffect

def HudKind.keyword : HudKind → Keyword
  | score => .score
  | lives => .lives
  | timer => .timer

def Anchor.keyword (a : Anchor) : Keyword :=
  match a.top, a.side with
  | true, .left => .topLeft
  | true, .right => .topRight
  | true, .center => .topCenter
  | false, .left => .bottomLeft
  | false, .right => .bottomRight
  | false, .center => .bottomCenter

def SoundEvent.keyword : SoundEvent → Keyword
  | jump => .jump
  | collect => .collect
  | hurt => .hurt
  | win => .win
  | lose => .lose
  | bgm => .bgm

def AssetKind.keyword : AssetKind → Keyword
  | image => .image
  | spritesheet => .spritesheet
  | tilemap => .tilemap
  | audio => .audio

def Point.words (p : Point) : List Word := numberPair .xAxis .yAxis p.x p.y

def FrameSize.words (f : FrameSize) : List Word :=
  numberPair .frameWidth .frameHeight f.width f.height

def Asset.words (a : Asset) : List Word :=
  ofKeyword a.kind.keyword :: ofName a.key :: ofString a.path ::
    (a.frames.map FrameSize.words).getD []

def Placement.words (p : Placement) : List Word :=
  [ofName p.entity, ofKeyword .place, ofKeyword .openParen, ofNumber p.x, comma, ofNumber p.y,
    ofKeyword .closeParen]

def Platform.words (p : Platform) : List Word :=
  [ofName p.asset, ofKeyword .place, ofKeyword .openParen, ofNumber p.x, comma, ofNumber p.y, comma,
    ofNumber p.width, comma, ofNumber p.height, ofKeyword .closeParen]

def layerWords (l : String × String) : List Word :=
  [ofName l.1, ofKeyword .colon, ofString l.2]

def Level.body (l : Level) : List Word :=
  property .tilemap nameWords l.tilemap
    ++ property .layers (fun ls => braces (items layerWords ls)) l.layers
    ++ property .spawn Point.words l.spawn
    ++ listed .enemies Placement.words l.enemies
    ++ listed .collectibles Placement.words l.collectibles
    ++ listed .platforms Platform.words l.platforms
    ++ property .exit Point.words l.exit

def Level.words (l : Level) : List Word :=
  ofKeyword .level :: ofString l.name :: braces l.body

def WinCondition.words : WinCondition → List Word
  | reachExit => [ofKeyword .reachExit]
  | collectAll entity => [ofKeyword .collectAll, ofName entity]
  | defeatAll => [ofKeyword .defeatAll]
  | survive seconds => [ofKeyword .survive, ofNumber seconds]

def LoseCondition.words : LoseCondition → List Word
  | noLives => [ofKeyword .noLives]
  | timerExpires => [ofKeyword .timerExpires]
  | fallOff => [ofKeyword .fallOff]

def Sounds.body (s : Sounds) : List Word :=
  SoundEvent.all.flatMap fun e => property e.keyword nameWords (s.get e)

def Sounds.words (s : Sounds) : List Word := ofKeyword .sounds :: braces s.body

/-! ## Drafts -/

namespace Draft

def Config.body (c : Config) : List Word :=
  property .width numberWords c.width ++ property .height numberWords c.height
    ++ property .gravity numberWords c.gravity ++ property .background colorWords c.background

def Config.words (c : Config) : List Word := ofKeyword .config :: braces c.body

def Clip.body (c : Clip) : List Word :=
  listed .frames numberWords c.frames ++ property .fps numberWords c.fps ++
    property .loop flagWords c.loop

def Clip.words (c : Clip) : List Word :=
  ofKeyword .animation :: ofName c.name :: braces c.body

/-- Clips stand in a body as they are. -/
def clipsWords (clips : Option (List Clip)) : List Word := items Clip.words (clips.getD [])

def Player.body (p : Player) : List Word :=
  property .sprite nameWords p.sprite ++ property .speed numberWords p.speed
    ++ property .jumpForce numberWords p.jumpForce ++ property .lives numberWords p.lives
    ++ property .controls (fun c => [ofKeyword c.keyword]) p.controls ++ clipsWords p.animations

def Player.words (p : Player) : List Word := ofKeyword .player :: braces p.body

def Movement.body : Movement → List Word
  | patrol speed distance =>
    property .speed numberWords speed ++ property .distance numberWords distance
  | chase speed range => property .speed numberWords speed ++ property .range numberWords range
  | fly speed amplitude frequency =>
    property .speed numberWords speed ++ property .amplitude numberWords amplitude
      ++ property .frequency numberWords frequency
  | static => []

def Movement.words : Movement → List Word
  | static => [ofKeyword .static]
  | m@(patrol ..) => ofKeyword .patrol :: braces m.body
  | m@(chase ..) => ofKeyword .chase :: braces m.body
  | m@(fly ..) => ofKeyword .fly :: braces m.body

def Enemy.body (e : Enemy) : List Word :=
  property .sprite nameWords e.sprite ++ property .movement Movement.words e.movement
    ++ property .damage numberWords e.damage ++ property .stompable flagWords e.stompable
    ++ clipsWords e.animations

def Enemy.words (e : Enemy) : List Word :=
  ofKeyword .enemy :: ofName e.name :: braces e.body

def Collectible.body (c : Collectible) : List Word :=
  property .sprite nameWords c.sprite ++ property .score numberWords c.score
    ++ property .effect (fun e => [ofKeyword e.keyword]) c.effect ++ clipsWords c.animations

def Collectible.words (c : Collectible) : List Word :=
  ofKeyword .collectible :: ofName c.name :: braces c.body

def HudElement.body (h : HudElement) : List Word :=
  property .position (fun a => [ofKeyword a.keyword]) h.position
    ++ property .fontSize numberWords h.fontSize ++ property .color colorWords h.color
    ++ property .max numberWords h.max

def HudElement.words (h : HudElement) : List Word := ofKeyword h.kind.keyword :: braces h.body

def hudWords (elements : List HudElement) : List Word :=
  ofKeyword .hud :: braces (items HudElement.words elements)

def Rules.body (r : Rules) : List Word :=
  property .win WinCondition.words r.win ++ property .lose LoseCondition.words r.lose
    ++ property .nextLevel stringWords r.nextLevel

def Rules.words (r : Rules) : List Word := ofKeyword .rules :: braces r.body

def assetsWords (assets : List Asset) : List Word :=
  ofKeyword .assets :: braces (items Asset.words assets)

def body (d : Draft) : List Word :=
  d.config.toList.flatMap Config.words ++ assetsWords d.assets
    ++ d.player.toList.flatMap Player.words ++ d.enemies.flatMap Enemy.words
    ++ d.collectibles.flatMap Collectible.words ++ d.levels.flatMap Level.words
    ++ d.hud.toList.flatMap hudWords ++ d.rules.toList.flatMap Rules.words
    ++ d.sounds.toList.flatMap Sounds.words

def gameWords (title : String) (body : List Word) : List Word :=
  ofKeyword .game :: ofString title :: braces body

def words (d : Draft) : List Word := gameWords (d.title.getD "") d.body

def print (d : Draft) : String := spaced d.words

end Draft

end PlatformGame
