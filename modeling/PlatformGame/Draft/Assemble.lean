import PlatformGame.Draft.Build
import PlatformGame.Parse.Tree

/-! # From trees to sketches

Every node of a parse tree means a sketch, put together from the sketches of its parts
(`assemble`). Parts come first, from left to right, so their warnings and failures do too.

The body of a block becomes a `Bag` of values by key: a single value replaces an earlier one, a list
is appended to what was there. The thing that the block describes then takes its fields out of the
bag. -/

namespace PlatformGame.Draft

open Grammar Parse Source Text

/-! ## Texts -/

/-- Replaces escapes: a backslash and `n`, `t`, a quote or a backslash stand for a character, and
any other character stands for itself after a backslash, except a newline. -/
def unescape : List Char → List Char
  | [] => []
  | ['\\'] => ['\\']
  | '\\' :: c :: cs =>
    if c = '\n' then '\\' :: '\n' :: unescape cs
    else (if c = 'n' then '\n' else if c = 't' then '\t' else c) :: unescape cs
  | c :: cs => c :: unescape cs

/-- The text that a string literal stands for. -/
def unquote (literal : String) : String :=
  String.ofList (unescape (literal.toList.drop 1).dropLast)

/-! ## Bags -/

/-- Values by key, in order of first mention. -/
abbrev Bag := List (Sketch × Sketch)

namespace Bag

def get? (bag : Bag) (key : Sketch) : Option Sketch :=
  (bag.find? fun e => e.1.sameKey key).map (·.2)

def put (key value : Sketch) : Bag → Bag
  | [] => [(key, value)]
  | (k, v) :: rest => if k.sameKey key then (k, value) :: rest else (k, v) :: put key value rest

end Bag

/-! ## Nodes -/

/-- A node whose parts are built. A word, which has characters for parts, misses a character where a
node misses a part. -/
structure Node where
  label : Label
  place : Option Position
  parts : List Sketch
  missing : Misfit

namespace Node

def fail (n : Node) (cause : Misfit) : Build α := Build.fail (.misfit n.label.text cause)

/-- The first part; further ones are ignored. -/
def first (n : Node) : Build Sketch :=
  match n.parts with
  | x :: _ => pure x
  | [] => n.fail n.missing

/-- The first part as a text. -/
def firstText (n : Node) : Build String := do pure (← n.first).plain

/-- Makes something of exactly `count` parts. -/
def exactly (n : Node) (count : Nat) (make : List Sketch → Sketch) : Build Sketch :=
  let found := n.parts.length
  if found < count then n.fail (.tooFew count found)
  else if count < found then n.fail (.tooMany count)
  else pure (make n.parts)

/-- The first part, by which the node is named, and the others. -/
def named (n : Node) : Build (Sketch × List Sketch) :=
  match n.parts with
  | x :: xs => pure (x, xs)
  | [] => n.fail .noName

/-! ### Properties -/

/-- A property with a single value. -/
def value (n : Node) (key : String) : Build Sketch := do
  pure (.property (.text key) (← n.first) false)

/-- A property with a list, which is empty if there are no parts. -/
def listing (n : Node) (key : String) : Build Sketch :=
  match n.parts with
  | [] => pure (.property (.text key) (.tuple []) true)
  | x :: _ =>
    match x.items? with
    | some items => pure (.property (.text key) (.tuple items) true)
    | none => n.fail (.noItems x.sortName)

/-- The value under a key; a key that comes again keeps its place. -/
def put (n : Node) (bag : Bag) (key value : Sketch) : Build Bag :=
  match key.unkeyed? with
  | some sort => n.fail (.notKey sort)
  | none => pure (bag.put key value)

/-- Appends to the list under a key. -/
def append (n : Node) (bag : Bag) (key : Sketch) (items : List Sketch) : Build Bag :=
  match bag.get? key with
  | none => n.put bag key (.tuple items)
  | some (.tuple earlier) => n.put bag key (.tuple (earlier ++ items))
  | some earlier => n.fail (.notAppendable earlier)

/-- Adds a part of a body; clips stand in it without being properties. -/
def addPart (n : Node) (bag : Bag) : Sketch → Build Bag
  | .record .clip values => n.append bag (.text "animations") [.record .clip values]
  | .property key value appends =>
    if appends then n.append bag key (value.items?.getD []) else n.put bag key value
  | x => Build.fail (.unexpectedInBody x)

def addParts (n : Node) (bag : Bag) : List Sketch → Build Bag
  | [] => pure bag
  | x :: xs => do
    let bag ← n.addPart bag x
    n.addParts bag xs

/-! ### Things with fields -/

/-- The value of a field for which nothing is written. -/
def unset (kind : RecordKind) (field : String) : Sketch :=
  if kind.lists.contains field then .tuple [] else .null

/-- Why keys do not set the fields of a thing, if the keys in `taken` are set already. -/
def keyFault? (kind : RecordKind) (taken : List String) : List String → Option Misfit
  | [] => none
  | key :: keys =>
    if taken.contains key then some (.keyTwice kind key)
    else if kind.fields.contains key then keyFault? kind (key :: taken) keys
    else some (.unknownField kind key)

/-- The key under which a thing refers to itself. -/
def ownKey : String := "self"

/-- A thing with the given fields and those of a bag. -/
def construct (n : Node) (kind : RecordKind) (given : List (String × Sketch)) (bag : Bag) :
    Build Sketch :=
  match given.find? fun g => (bag.get? (.text g.1)).isSome with
  | some (key, _) => n.fail (.fieldTwice kind key)
  | none =>
    match bag.mapM fun e => e.1.text? with
    | none => n.fail .keyNotText
    | some keys =>
      match keyFault? kind [ownKey] keys with
      | some cause => n.fail cause
      | none => pure (.record kind (kind.fields.map fun field =>
          ((given.lookup field).or (bag.get? (.text field))).getD (unset kind field)))

/-- A thing that is described by its body. -/
def described (n : Node) (kind : RecordKind) : Build Sketch := do
  n.construct kind [] (← n.addParts [] n.parts)

/-- A thing that is described by its name, or what else comes first, and its body. -/
def describedAs (n : Node) (kind : RecordKind) (field : String) : Build Sketch := do
  let (name, body) ← n.named
  n.construct kind [(field, name)] (← n.addParts [] body)

/-- Whether a movement uses a parameter. -/
def uses (kind : RecordKind) (key : Sketch) : Bool :=
  match key.text? with
  | some k => kind.fields.contains k
  | none => false

/-- A movement with the parameters that it uses; the others are warned about. -/
def movement (n : Node) (kind : RecordKind) : Build Sketch := do
  let bag ← n.addParts [] n.parts
  Build.warnAll ((bag.filter fun e => !uses kind e.1).map fun e =>
    .ignoredParameter (kind.tag?.getD "") e.1.plain n.place)
  n.construct kind [] (bag.filter fun e => uses kind e.1)

/-- An asset with a key, a path and, if it is a spritesheet, a size of frames. -/
def asset (n : Node) (kind : AssetKind) : Build Sketch :=
  let kindSketch : Sketch := .choice (.asset kind)
  match kind with
  | .spritesheet => n.exactly 3 fun xs => .record .asset (kindSketch :: xs)
  | _ => n.exactly 2 fun xs => .record .asset (kindSketch :: xs ++ [.null])

def chosen (n : Node) (kind : ChoiceKind) : Build Sketch := do
  let s ← n.firstText
  match Choice.ofText? kind s with
  | some c => pure (.choice c)
  | none => n.fail (.notOfChoice s kind)

def number (n : Node) : Build Sketch := do
  match Number.ofLiteral (← n.firstText) with
  | .ok x => pure (.number x)
  | .error e => n.fail (.literal e)

/-- Adds pairs of a layer and its name in the tilemap, of which the next has the given index. -/
def addLayers (n : Node) (index : Nat) (bag : Bag) : List Sketch → Build Bag
  | [] => pure bag
  | x :: xs =>
    match x.items? with
    | some [key, value] => do
      let bag ← n.put bag key value
      n.addLayers (index + 1) bag xs
    | some items => n.fail (.layerSize index items.length)
    | none => n.fail (.noLayer index)

def layers (n : Node) : Build Sketch := do
  pure (.property (.text "layers") (.mapping (← n.addLayers 0 [] n.parts)) false)

/-- A property that is named by its first part. -/
def keyed (n : Node) : Build Sketch :=
  n.exactly 2 fun xs =>
    match xs with
    | [key, value] => .property key value false
    | _ => .tuple xs

/-! ### Games -/

/-- Blocks of which the last one counts. -/
def isSingle : BlockKind → Bool
  | .config | .player | .hud | .rules | .sounds => true
  | .assets | .enemy | .collectible | .level => false

def addBlock (blocks : List (BlockKind × Sketch)) : Sketch → Build (List (BlockKind × Sketch))
  | .block kind value place => do
    if isSingle kind && blocks.any (·.1 == kind) then
      Build.warn (.duplicateBlock kind.text place)
    pure (blocks ++ [(kind, value)])
  | x => Build.fail (.unexpectedInGame x)

def addBlocks (blocks : List (BlockKind × Sketch)) :
    List Sketch → Build (List (BlockKind × Sketch))
  | [] => pure blocks
  | x :: xs => do
    let blocks ← addBlock blocks x
    addBlocks blocks xs

/-- The blocks of a kind, in order. -/
def ofKind (kind : BlockKind) (blocks : List (BlockKind × Sketch)) : List Sketch :=
  (blocks.filter (·.1 == kind)).map (·.2)

def lastOfKind (kind : BlockKind) (blocks : List (BlockKind × Sketch)) : Sketch :=
  (ofKind kind blocks).getLast?.getD .null

/-- A game of a title and blocks. -/
def gameOf (title : Sketch) (blocks : List (BlockKind × Sketch)) : Sketch :=
  .record .game [title, lastOfKind .config blocks,
    .tuple ((ofKind .assets blocks).flatMap fun x => x.items?.getD []),
    lastOfKind .player blocks, .tuple (ofKind .enemy blocks), .tuple (ofKind .collectible blocks),
    .tuple (ofKind .level blocks), lastOfKind .hud blocks, lastOfKind .rules blocks,
    lastOfKind .sounds blocks]

def game (n : Node) : Build Sketch := do
  let (title, parts) ← n.named
  pure (gameOf title (← addBlocks [] parts))

/-- A block at the place of the node. -/
def block (n : Node) (kind : BlockKind) (thing : RecordKind) : Build Sketch := do
  pure (.block kind (← n.described thing) n.place)

/-- A block that is named by its first part. -/
def namedBlock (n : Node) (kind : BlockKind) (thing : RecordKind) : Build Sketch := do
  pure (.block kind (← n.describedAs thing "name") none)

/-! ### Names of the builder

A tree made by hand may have labels that are no productions but that the builder uses for something
of its own. Such a node gets what the builder has under that name. -/

inductive OwnName
  /-- Gives its parts back. -/
  | parts
  /-- Gives nothing. -/
  | nothing
  /-- A step that needs more than parts. -/
  | step
  /-- A step that takes nothing. -/
  | bareStep
  /-- A step on trees. -/
  | walk
  /-- A value of the given sort. -/
  | constant (sort : String)

def ownName? (name : String) : Option OwnName :=
  [("transform", OwnName.parts), ("_call_userfunc_token", .parts), ("__default_token__", .parts),
    ("__init__", .nothing), ("_movement", .step), ("__default__", .step),
    ("__hash__", .bareStep), ("__repr__", .bareStep), ("__str__", .bareStep),
    ("_call_userfunc", .walk), ("_transform_tree", .walk),
    ("__visit_tokens__", .constant "bool"), ("__doc__", .constant "str"),
    ("__module__", .constant "str"), ("__dict__", .constant "dict")].lookup name

/-- What the builder makes of the parts, which are given as they are in `whole`. -/
def own (n : Node) (name : String) (whole : Sketch) : OwnName → Build Sketch
  | .parts => pure whole
  | .nothing => pure .null
  | .step => n.fail (.stepNeedsMore name)
  | .bareStep => n.fail .stepTakesNothing
  | .walk => n.fail (.noTree whole.sortName)
  | .constant sort => n.fail (.noStep sort)

/-! ### All labels -/

/-- The meaning of a node. -/
def assemble (n : Node) : Build Sketch :=
  match n.label with
  | .start => n.first
  | .game => n.game
  -- configuration
  | .configBlock => n.block .config .config
  | .width => n.value "width"
  | .height => n.value "height"
  | .gravity => n.value "gravity"
  | .background => n.value "background"
  -- assets
  | .assetsBlock => pure (.block .assets (.tuple n.parts) none)
  | .imageAsset => n.asset .image
  | .spritesheetAsset => n.asset .spritesheet
  | .tilemapAsset => n.asset .tilemap
  | .audioAsset => n.asset .audio
  | .frameConfig => n.exactly 2 (.record .frameSize)
  -- player
  | .playerBlock => n.block .player .player
  | .sprite => n.value "sprite"
  | .speed => n.value "speed"
  | .jumpForce => n.value "jump_force"
  | .lives => n.value "lives"
  | .controls => n.value "controls"
  | .controlScheme => n.chosen .controls
  -- enemies
  | .enemyBlock => n.namedBlock .enemy .enemy
  | .movementProp => n.value "movement"
  | .damage => n.value "damage"
  | .stompable => n.value "stompable"
  | .patrol => n.movement .patrol
  | .chase => n.movement .chase
  | .fly => n.movement .fly
  | .staticMovement => pure (.record .static [])
  | .distance => n.value "distance"
  | .chaseRange => n.value "range"
  | .amplitude => n.value "amplitude"
  | .frequency => n.value "frequency"
  -- collectibles
  | .collectibleBlock => n.namedBlock .collectible .collectible
  | .score => n.value "score"
  | .effect => n.value "effect"
  | .collectibleEffect => n.chosen .effect
  -- levels
  | .levelBlock => n.namedBlock .level .level
  | .levelTilemap => n.value "tilemap"
  | .layers => n.layers
  | .layerMapping => n.exactly 2 .tuple
  | .spawn => n.value "spawn"
  | .exitPoint => n.value "exit"
  | .enemyPlacements => n.listing "enemies"
  | .collectiblePlacements => n.listing "collectibles"
  | .platforms => n.listing "platforms"
  | .point => n.exactly 2 (.record .point)
  | .placementList => pure (.list n.parts)
  | .placement => n.exactly 3 (.record .placement)
  | .platformList => pure (.list n.parts)
  | .platform => n.exactly 5 (.record .platform)
  -- head-up display
  | .hudBlock => pure (.block .hud (.record .hud [.tuple n.parts]) n.place)
  | .hudElement => n.describedAs .hudElement "type"
  | .hudType => n.chosen .hud
  | .position => n.value "position"
  | .fontSize => n.value "font_size"
  | .colorProp => n.value "color"
  | .maxValue => n.value "max"
  | .hudPosition => n.chosen .anchor
  -- rules
  | .rulesBlock => n.block .rules .rules
  | .win => n.value "win"
  | .lose => n.value "lose"
  | .nextLevel => n.value "next_level"
  | .reachExit => pure (.record .reachExit [])
  | .collectAll => do pure (.record .collectAll [← n.first])
  | .defeatAll => pure (.record .defeatAll [])
  | .survive => do pure (.record .survive [← n.first])
  | .noLives => pure (.record .noLives [])
  | .timerExpires => pure (.record .timerExpires [])
  | .fallOff => pure (.record .fallOff [])
  -- sounds
  | .soundsBlock => n.block .sounds .sounds
  | .soundProp => n.keyed
  | .soundEvent => do pure (.text (← n.firstText))
  -- animations
  | .animation => n.describedAs .clip "name"
  | .frames => n.listing "frames"
  | .fps => n.value "fps"
  | .loop => n.value "loop"
  | .numberList => pure (.list n.parts)
  -- values
  | .ident => do pure (.text (← n.firstText))
  | .string => do pure (.text (unquote (← n.firstText)))
  | .number => n.number
  | .color => do pure (.text (← n.firstText))
  | .boolean => do pure (.flag ((← n.firstText) == "true"))
  | .other name =>
    match ownName? name with
    | some o => n.own name (.list n.parts) o
    | none => Build.fail (.unknownProduction name)

/-- Whether nodes of a label need their place. -/
def isPlaced : Label → Bool
  | .game | .configBlock | .playerBlock | .hudBlock | .rulesBlock | .soundsBlock | .patrol
  | .chase | .fly => true
  | _ => false

/-- The meaning of a leaf. Only a leaf made by hand has a label for its kind; it means what a node
does that has the characters of its text for parts. -/
def ofLeaf (kind text : String) : Build Sketch :=
  let label := Label.ofText kind
  let whole : Sketch := .token kind text
  let n : Node := ⟨label, none, Sketch.ofChars text.toList, .noCharacter⟩
  match label with
  | .other name =>
    match ownName? name with
    | some o => n.own name whole o
    | none => pure whole
  | .placementList | .platformList | .numberList => pure whole
  | label => if isPlaced label then n.fail (.wordWithoutPlace label.text) else n.assemble

end Node

mutual

/-- The meaning of a tree. -/
def meaning : Tree → Build Sketch
  | .leaf kind s _ => Node.ofLeaf kind s
  | .node label span children => do
    let parts ← meanings children
    Node.assemble ⟨label, span.map (·.first), parts, .noPart⟩

def meanings : List Tree → Build (List Sketch)
  | [] => pure []
  | t :: ts => do
    let x ← meaning t
    let xs ← meanings ts
    pure (x :: xs)

end

/-- The sketch that a tree as a whole describes; the tree may not be a leaf. -/
def sketch : Tree → Build Sketch
  | .leaf kind s _ => Build.fail (.leaf kind s)
  | t => meaning t

end PlatformGame.Draft
