import PlatformGame.Grammar.Phrase

/-! # The game description language

One definition for each kind of block, property group and value. Bodies of blocks are properties
with an optional comma after each; the inside of brackets is a comma-divided listing. The keywords
of `choice` are values themselves and stay in the tree.

`entries` are the phrases that a text may be read as on its own. `follow l` is what may stand after
a node labelled `l` anywhere in a text of any of them: wider than what may follow it at a given
place, and what decides which words are recognised there. -/

namespace PlatformGame.Grammar

open Phrase

/-! ## Shapes -/

def field (l : Label) (k : Keyword) (value : Phrase) : Phrase :=
  node l (chain [word k, word .colon, value])

def choice (l : Label) (ks : List Keyword) : Phrase :=
  node l (oneOf (ks.map fun k => token (.keyword k) true))

def braces (p : Phrase) : Phrase := chain [word .openBrace, p, word .closeBrace]

def withComma (p : Phrase) : Phrase := seq p (optional (word .comma))

/-- At least one item, each with an optional comma after it. -/
def items (p : Phrase) : Phrase := seq (withComma p) (many (withComma p))

def listed (l : Label) (k : Keyword) (items : Phrase) : Phrase :=
  node l (chain [word k, word .colon, word .openBracket, optional items, word .closeBracket])

/-! ## Values -/

def ident : Phrase := node .ident (token .name true)

def string : Phrase := node .string (token .string true)

def number : Phrase := node .number (token .number true)

def color : Phrase := node .color (token .color true)

def boolean : Phrase := choice .boolean [.affirm, .deny]

/-- Two numbers under two keys, in this order. -/
def numberPair (l : Label) (k k' : Keyword) : Phrase :=
  node l (braces (chain [withComma (chain [word k, word .colon, number]),
    withComma (chain [word k', word .colon, number])]))

def point : Phrase := numberPair .point .xAxis .yAxis

def numberList : Phrase := node .numberList (listing number)

/-! ## Animations -/

def animProp : Phrase := oneOf [listed .frames .frames numberList, field .fps .fps number,
  field .loop .loop boolean]

def animation : Phrase :=
  node .animation (chain [word .animation, ident, braces (items animProp)])

/-! ## Configuration and assets -/

def configProp : Phrase := oneOf [field .width .width number, field .height .height number,
  field .gravity .gravity number, field .background .background color]

def configBlock : Phrase := node .configBlock (seq (word .config) (braces (items configProp)))

def frameConfig : Phrase := numberPair .frameConfig .frameWidth .frameHeight

def assetDef : Phrase := oneOf [
  node .imageAsset (chain [word .image, ident, string]),
  node .spritesheetAsset (chain [word .spritesheet, ident, string, frameConfig]),
  node .tilemapAsset (chain [word .tilemap, ident, string]),
  node .audioAsset (chain [word .audio, ident, string])]

def assetsBlock : Phrase :=
  node .assetsBlock (seq (word .assets) (braces (many (withComma assetDef))))

/-! ## Player, enemies, collectibles -/

def controlScheme : Phrase := choice .controlScheme [.arrows, .wasd, .both]

def playerProp : Phrase := oneOf [field .sprite .sprite ident, field .speed .speed number,
  field .jumpForce .jumpForce number, field .lives .lives number,
  field .controls .controls controlScheme, animation]

def playerBlock : Phrase := node .playerBlock (seq (word .player) (braces (items playerProp)))

def movementParam : Phrase := oneOf [field .speed .speed number,
  field .distance .distance number, field .chaseRange .range number,
  field .amplitude .amplitude number, field .frequency .frequency number]

def pattern (l : Label) (k : Keyword) : Phrase :=
  node l (seq (word k) (braces (items movementParam)))

def movement : Phrase := oneOf [pattern .patrol .patrol, pattern .chase .chase,
  pattern .fly .fly, node .staticMovement (word .static)]

def enemyProp : Phrase := oneOf [field .sprite .sprite ident,
  field .movementProp .movement movement, field .damage .damage number,
  field .stompable .stompable boolean, animation]

def enemyBlock : Phrase :=
  node .enemyBlock (chain [word .enemy, ident, braces (items enemyProp)])

def collectibleEffect : Phrase :=
  choice .collectibleEffect [.extraLife, .speedBoost, .invincible, .noEffect]

def collectibleProp : Phrase := oneOf [field .sprite .sprite ident, field .score .score number,
  field .effect .effect collectibleEffect, animation]

def collectibleBlock : Phrase :=
  node .collectibleBlock (chain [word .collectible, ident, braces (items collectibleProp)])

/-! ## Levels -/

def layerMapping : Phrase := node .layerMapping (chain [ident, word .colon, string])

def placement : Phrase := node .placement (chain [ident, word .place, word .openParen,
  number, word .comma, number, word .closeParen])

def placementList : Phrase := node .placementList (listing placement)

def platform : Phrase := node .platform (chain [ident, word .place, word .openParen,
  number, word .comma, number, word .comma, number, word .comma, number, word .closeParen])

def platformList : Phrase := node .platformList (listing platform)

def levelProp : Phrase := oneOf [field .levelTilemap .tilemap ident,
  field .layers .layers (braces (items layerMapping)),
  field .spawn .spawn point,
  listed .enemyPlacements .enemies placementList,
  listed .collectiblePlacements .coins placementList,
  listed .collectiblePlacements .collectibles placementList,
  listed .platforms .platforms platformList,
  field .exitPoint .exit point]

def levelBlock : Phrase :=
  node .levelBlock (chain [word .level, string, braces (many (withComma levelProp))])

/-! ## Head-up display, rules, sounds -/

def hudType : Phrase := choice .hudType [.score, .lives, .timer]

def hudPosition : Phrase := choice .hudPosition
  [.topLeft, .topRight, .topCenter, .bottomLeft, .bottomRight, .bottomCenter]

def hudProp : Phrase := oneOf [field .position .position hudPosition,
  field .fontSize .fontSize number, field .colorProp .color color, field .maxValue .max number]

def hudElement : Phrase := node .hudElement (seq hudType (braces (items hudProp)))

def hudBlock : Phrase :=
  node .hudBlock (seq (word .hud) (braces (many (withComma hudElement))))

def winCondition : Phrase := oneOf [node .reachExit (word .reachExit),
  node .collectAll (seq (word .collectAll) ident), node .defeatAll (word .defeatAll),
  node .survive (seq (word .survive) number)]

def loseCondition : Phrase := oneOf [node .noLives (word .noLives),
  node .timerExpires (word .timerExpires), node .fallOff (word .fallOff)]

def ruleProp : Phrase := oneOf [field .win .win winCondition, field .lose .lose loseCondition,
  field .nextLevel .nextLevel string]

def rulesBlock : Phrase := node .rulesBlock (seq (word .rules) (braces (items ruleProp)))

def soundEvent : Phrase := choice .soundEvent [.jump, .collect, .hurt, .win, .lose, .bgm]

def soundProp : Phrase := node .soundProp (chain [soundEvent, word .colon, ident])

def soundsBlock : Phrase := node .soundsBlock (seq (word .sounds) (braces (items soundProp)))

/-! ## Whole games -/

def gameBlock : Phrase := oneOf [configBlock, assetsBlock, playerBlock, enemyBlock,
  collectibleBlock, levelBlock, hudBlock, rulesBlock, soundsBlock]

def game : Phrase := node .game (chain [word .game, string, braces (many gameBlock)])

def start : Phrase := node .start game

/-- What a text may be read as, under the name that callers use. -/
def entries : List (String × Phrase) :=
  [("start", start), ("config_block", configBlock), ("assets_block", assetsBlock),
    ("player_block", playerBlock), ("enemy_block", enemyBlock),
    ("collectible_block", collectibleBlock), ("level_block", levelBlock),
    ("hud_block", hudBlock), ("rules_block", rulesBlock), ("sounds_block", soundsBlock),
    ("animation", animation), ("movement", movement), ("ident", ident), ("string", string),
    ("number", number), ("color", color), ("boolean", boolean)]

/-- What follows each node at each of its places. -/
def placesOfNodes : List (Label × List Terminal) :=
  entries.flatMap fun (_, p) => p.followers [.endOfInput]

def follow (l : Label) : List Terminal :=
  placesOfNodes.foldr (fun (m, ts) set => if m = l then ts.foldr List.insert set else set) []

end PlatformGame.Grammar
