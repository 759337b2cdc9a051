/-! # Terminals of the game description language

A word of the language is a keyword or punctuation mark with one fixed spelling, or belongs to one
of four lexical classes: names, quoted strings, numbers and colours. Input is closed by the
terminal `endOfInput`, which has no text. -/

namespace PlatformGame.Grammar

/-- Keywords and punctuation, each with one spelling (`Keyword.text`). -/
inductive Keyword
  | openBrace | closeBrace | openBracket | closeBracket | openParen | closeParen | comma | colon
  | game | config | assets | player | enemy | collectible | level | hud | rules | sounds
  | animation | image | spritesheet | tilemap | audio | affirm | deny
  | width | height | gravity | background
  | frameWidth | frameHeight
  | sprite | speed | jumpForce | lives | controls | arrows | wasd | both
  | movement | damage | stompable | patrol | chase | fly | static
  | distance | range | amplitude | frequency
  | score | effect | extraLife | speedBoost | invincible | noEffect
  | layers | spawn | enemies | coins | collectibles | platforms | exit | xAxis | yAxis | place
  | timer | position | fontSize | color | max
  | topLeft | topRight | topCenter | bottomLeft | bottomRight | bottomCenter
  | win | lose | nextLevel | reachExit | collectAll | defeatAll | survive
  | noLives | timerExpires | fallOff
  | jump | collect | hurt | bgm
  | frames | fps | loop
  deriving DecidableEq

namespace Keyword

def text : Keyword → String
  | openBrace => r"{" | closeBrace => r"}" | openBracket => "[" | closeBracket => "]"
  | openParen => "(" | closeParen => ")" | comma => "," | colon => ":"
  | game => "game" | config => "config" | assets => "assets" | player => "player"
  | enemy => "enemy" | collectible => "collectible" | level => "level" | hud => "hud"
  | rules => "rules" | sounds => "sounds" | animation => "animation" | image => "image"
  | spritesheet => "spritesheet" | tilemap => "tilemap" | audio => "audio"
  | affirm => "true" | deny => "false"
  | width => "width" | height => "height" | gravity => "gravity" | background => "background"
  | frameWidth => "frameWidth" | frameHeight => "frameHeight"
  | sprite => "sprite" | speed => "speed" | jumpForce => "jumpForce" | lives => "lives"
  | controls => "controls" | arrows => "arrows" | wasd => "wasd" | both => "both"
  | movement => "movement" | damage => "damage" | stompable => "stompable"
  | patrol => "patrol" | chase => "chase" | fly => "fly" | static => "static"
  | distance => "distance" | range => "range" | amplitude => "amplitude"
  | frequency => "frequency"
  | score => "score" | effect => "effect" | extraLife => "extraLife"
  | speedBoost => "speedBoost" | invincible => "invincible" | noEffect => "none"
  | layers => "layers" | spawn => "spawn" | enemies => "enemies" | coins => "coins"
  | collectibles => "collectibles" | platforms => "platforms" | exit => "exit"
  | xAxis => "x" | yAxis => "y" | place => "at"
  | timer => "timer" | position => "position" | fontSize => "fontSize" | color => "color"
  | max => "max"
  | topLeft => "top-left" | topRight => "top-right" | topCenter => "top-center"
  | bottomLeft => "bottom-left" | bottomRight => "bottom-right"
  | bottomCenter => "bottom-center"
  | win => "win" | lose => "lose" | nextLevel => "nextLevel" | reachExit => "reachExit"
  | collectAll => "collectAll" | defeatAll => "defeatAll" | survive => "survive"
  | noLives => "noLives" | timerExpires => "timerExpires" | fallOff => "fallOff"
  | jump => "jump" | collect => "collect" | hurt => "hurt" | bgm => "bgm"
  | frames => "frames" | fps => "fps" | loop => "loop"

def all : List Keyword :=
  [openBrace, closeBrace, openBracket, closeBracket, openParen, closeParen, comma, colon,
    game, config, assets, player, enemy, collectible, level, hud, rules, sounds,
    animation, image, spritesheet, tilemap, audio, affirm, deny,
    width, height, gravity, background, frameWidth, frameHeight,
    sprite, speed, jumpForce, lives, controls, arrows, wasd, both,
    movement, damage, stompable, patrol, chase, fly, static,
    distance, range, amplitude, frequency,
    score, effect, extraLife, speedBoost, invincible, noEffect,
    layers, spawn, enemies, coins, collectibles, platforms, exit, xAxis, yAxis, place,
    timer, position, fontSize, color, max,
    topLeft, topRight, topCenter, bottomLeft, bottomRight, bottomCenter,
    win, lose, nextLevel, reachExit, collectAll, defeatAll, survive,
    noLives, timerExpires, fallOff, jump, collect, hurt, bgm, frames, fps, loop]

/-- The keywords that are never names, in the order in which the language lists them. -/
def reserved : List Keyword :=
  [game, config, assets, player, enemy, collectible, level, hud, rules, sounds,
    animation, image, spritesheet, tilemap, audio, affirm, deny]

theorem mem_all (k : Keyword) : k ∈ all := by cases k <;> decide

end Keyword

/-- Words that a name may not be. -/
def reservedWords : List String := Keyword.reserved.map Keyword.text

inductive Terminal
  | keyword (k : Keyword)
  | name
  | string
  | number
  | color
  | endOfInput
  deriving DecidableEq

namespace Terminal

def all : List Terminal :=
  [name, string, number, color, endOfInput] ++ Keyword.all.map keyword

theorem mem_all (t : Terminal) : t ∈ all := by
  cases t with
  | keyword k => simp [all, Keyword.mem_all k]
  | _ => simp [all]

/-- How a terminal is named in messages: keywords are quoted, classes are described. -/
def label : Terminal → String
  | keyword k => "\"" ++ k.text ++ "\""
  | name => "identifier"
  | string => "string"
  | number => "number"
  | color => "color"
  | endOfInput => "end of input"

end Terminal

end PlatformGame.Grammar
