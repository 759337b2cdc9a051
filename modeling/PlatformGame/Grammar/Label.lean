/-! # Names of parse tree nodes

Every production that leaves a node in the parse tree names it by a `Label`. Trees made by hand may
carry names that no production has; `other` keeps them. -/

namespace PlatformGame.Grammar

inductive Label
  | start | game
  | configBlock | width | height | gravity | background
  | assetsBlock | imageAsset | spritesheetAsset | tilemapAsset | audioAsset | frameConfig
  | playerBlock | sprite | speed | jumpForce | lives | controls | controlScheme
  | enemyBlock | movementProp | damage | stompable
  | patrol | chase | fly | staticMovement | distance | chaseRange | amplitude | frequency
  | collectibleBlock | score | effect | collectibleEffect
  | levelBlock | levelTilemap | layers | layerMapping | spawn | exitPoint
  | enemyPlacements | collectiblePlacements | platforms
  | point | placementList | placement | platformList | platform
  | hudBlock | hudElement | hudType | position | fontSize | colorProp | maxValue | hudPosition
  | rulesBlock | win | lose | nextLevel
  | reachExit | collectAll | defeatAll | survive | noLives | timerExpires | fallOff
  | soundsBlock | soundProp | soundEvent
  | animation | frames | fps | loop | numberList
  | ident | string | number | color | boolean
  | other (name : String)
  deriving DecidableEq

namespace Label

def text : Label → String
  | start => "start" | game => "game"
  | configBlock => "config_block" | width => "width" | height => "height"
  | gravity => "gravity" | background => "background"
  | assetsBlock => "assets_block" | imageAsset => "image_asset"
  | spritesheetAsset => "spritesheet_asset" | tilemapAsset => "tilemap_asset"
  | audioAsset => "audio_asset" | frameConfig => "frame_config"
  | playerBlock => "player_block" | sprite => "sprite" | speed => "speed"
  | jumpForce => "jump_force" | lives => "lives" | controls => "controls"
  | controlScheme => "control_scheme"
  | enemyBlock => "enemy_block" | movementProp => "movement_prop" | damage => "damage"
  | stompable => "stompable"
  | patrol => "patrol" | chase => "chase" | fly => "fly" | staticMovement => "static_movement"
  | distance => "distance" | chaseRange => "chase_range" | amplitude => "amplitude"
  | frequency => "frequency"
  | collectibleBlock => "collectible_block" | score => "score" | effect => "effect"
  | collectibleEffect => "collectible_effect"
  | levelBlock => "level_block" | levelTilemap => "level_tilemap" | layers => "layers"
  | layerMapping => "layer_mapping" | spawn => "spawn" | exitPoint => "exit_point"
  | enemyPlacements => "enemy_placements" | collectiblePlacements => "collectible_placements"
  | platforms => "platforms"
  | point => "point" | placementList => "placement_list" | placement => "placement"
  | platformList => "platform_list" | platform => "platform"
  | hudBlock => "hud_block" | hudElement => "hud_element" | hudType => "hud_type"
  | position => "position" | fontSize => "font_size" | colorProp => "color_prop"
  | maxValue => "max_value" | hudPosition => "hud_position"
  | rulesBlock => "rules_block" | win => "win" | lose => "lose" | nextLevel => "next_level"
  | reachExit => "reach_exit" | collectAll => "collect_all" | defeatAll => "defeat_all"
  | survive => "survive" | noLives => "no_lives" | timerExpires => "timer_expires"
  | fallOff => "fall_off"
  | soundsBlock => "sounds_block" | soundProp => "sound_prop" | soundEvent => "sound_event"
  | animation => "animation" | frames => "frames" | fps => "fps" | loop => "loop"
  | numberList => "number_list"
  | ident => "ident" | string => "string" | number => "number" | color => "color"
  | boolean => "boolean"
  | other name => name

/-- The labels that productions give. -/
def known : List Label :=
  [start, game, configBlock, width, height, gravity, background,
    assetsBlock, imageAsset, spritesheetAsset, tilemapAsset, audioAsset, frameConfig,
    playerBlock, sprite, speed, jumpForce, lives, controls, controlScheme,
    enemyBlock, movementProp, damage, stompable,
    patrol, chase, fly, staticMovement, distance, chaseRange, amplitude, frequency,
    collectibleBlock, score, effect, collectibleEffect,
    levelBlock, levelTilemap, layers, layerMapping, spawn, exitPoint,
    enemyPlacements, collectiblePlacements, platforms,
    point, placementList, placement, platformList, platform,
    hudBlock, hudElement, hudType, position, fontSize, colorProp, maxValue, hudPosition,
    rulesBlock, win, lose, nextLevel,
    reachExit, collectAll, defeatAll, survive, noLives, timerExpires, fallOff,
    soundsBlock, soundProp, soundEvent,
    animation, frames, fps, loop, numberList, ident, string, number, color, boolean]

def ofText (name : String) : Label := (known.find? (·.text == name)).getD (.other name)

end Label

end PlatformGame.Grammar
