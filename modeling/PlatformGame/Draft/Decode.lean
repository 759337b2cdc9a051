import PlatformGame.Draft.Basic
import PlatformGame.Draft.Sketch

/-! # Drafts out of sketches

A sketch is a draft if everything in it has the kind that its place asks for. A field for which
nothing is written is null. -/

namespace PlatformGame

namespace Sketch

def asNumber? : Sketch → Option Number
  | number n => some n
  | _ => none

def asText? : Sketch → Option String
  | text s => some s
  | _ => none

def asFlag? : Sketch → Option Bool
  | flag b => some b
  | _ => none

def asControls? : Sketch → Option ControlScheme
  | choice (.controls c) => some c
  | _ => none

def asEffect? : Sketch → Option Effect
  | choice (.effect e) => some e
  | _ => none

def asHudKind? : Sketch → Option HudKind
  | choice (.hud k) => some k
  | _ => none

def asAnchor? : Sketch → Option Anchor
  | choice (.anchor a) => some a
  | _ => none

/-- A value that may be unset. -/
def asOption? (f : Sketch → Option α) : Sketch → Option (Option α)
  | null => some none
  | x => (f x).map some

def asList? (f : Sketch → Option α) : Sketch → Option (List α)
  | tuple items => items.mapM f
  | _ => none

def asPoint? : Sketch → Option Point
  | record .point [x, y] => do pure ⟨← x.asNumber?, ← y.asNumber?⟩
  | _ => none

def asFrameSize? : Sketch → Option FrameSize
  | record .frameSize [w, h] => do pure ⟨← w.asNumber?, ← h.asNumber?⟩
  | _ => none

def asAsset? : Sketch → Option Asset
  | record .asset [choice (.asset kind), key, path, frames] => do
    pure ⟨kind, ← key.asText?, ← path.asText?, ← frames.asOption? asFrameSize?⟩
  | _ => none

def asPlacement? : Sketch → Option Placement
  | record .placement [entity, x, y] => do
    pure ⟨← entity.asText?, ← x.asNumber?, ← y.asNumber?⟩
  | _ => none

def asPlatform? : Sketch → Option Platform
  | record .platform [asset, x, y, w, h] => do
    pure ⟨← asset.asText?, ← x.asNumber?, ← y.asNumber?, ← w.asNumber?, ← h.asNumber?⟩
  | _ => none

def asLayer? (entry : Sketch × Sketch) : Option (String × String) := do
  pure (← entry.1.asText?, ← entry.2.asText?)

def asLayers? : Sketch → Option (List (String × String))
  | mapping entries => entries.mapM asLayer?
  | _ => none

def asLevel? : Sketch → Option Level
  | record .level [name, spawn, tilemap, layers, enemies, collectibles, platforms, exit] => do
    pure {
      name := ← name.asText?
      spawn := ← spawn.asOption? asPoint?
      tilemap := ← tilemap.asOption? asText?
      layers := ← layers.asOption? asLayers?
      enemies := ← enemies.asList? asPlacement?
      collectibles := ← collectibles.asList? asPlacement?
      platforms := ← platforms.asList? asPlatform?
      exit := ← exit.asOption? asPoint? }
  | _ => none

def asWin? : Sketch → Option WinCondition
  | record .reachExit [] => some .reachExit
  | record .collectAll [entity] => do pure (.collectAll (← entity.asText?))
  | record .defeatAll [] => some .defeatAll
  | record .survive [seconds] => do pure (.survive (← seconds.asNumber?))
  | _ => none

def asLose? : Sketch → Option LoseCondition
  | record .noLives [] => some .noLives
  | record .timerExpires [] => some .timerExpires
  | record .fallOff [] => some .fallOff
  | _ => none

def asSounds? : Sketch → Option Sounds
  | record .sounds [jump, collect, hurt, win, lose, bgm] => do
    pure {
      jump := ← jump.asOption? asText?
      collect := ← collect.asOption? asText?
      hurt := ← hurt.asOption? asText?
      win := ← win.asOption? asText?
      lose := ← lose.asOption? asText?
      bgm := ← bgm.asOption? asText? }
  | _ => none

def asConfig? : Sketch → Option Draft.Config
  | record .config [width, height, gravity, background] => do
    pure {
      width := ← width.asOption? asNumber?
      height := ← height.asOption? asNumber?
      gravity := ← gravity.asOption? asNumber?
      background := ← background.asOption? asText? }
  | _ => none

def asClip? : Sketch → Option Draft.Clip
  | record .clip [name, frames, fps, loop] => do
    pure {
      name := ← name.asText?
      frames := ← frames.asList? asNumber?
      fps := ← fps.asOption? asNumber?
      loop := ← loop.asOption? asFlag? }
  | _ => none

def asMovement? : Sketch → Option Draft.Movement
  | record .patrol [speed, distance] => do
    pure (.patrol (← speed.asOption? asNumber?) (← distance.asOption? asNumber?))
  | record .chase [speed, range] => do
    pure (.chase (← speed.asOption? asNumber?) (← range.asOption? asNumber?))
  | record .fly [speed, amplitude, frequency] => do
    pure (.fly (← speed.asOption? asNumber?) (← amplitude.asOption? asNumber?)
      (← frequency.asOption? asNumber?))
  | record .static [] => some .static
  | _ => none

def asPlayer? : Sketch → Option Draft.Player
  | record .player [sprite, speed, jumpForce, lives, controls, animations] => do
    pure {
      sprite := ← sprite.asOption? asText?
      speed := ← speed.asOption? asNumber?
      jumpForce := ← jumpForce.asOption? asNumber?
      lives := ← lives.asOption? asNumber?
      controls := ← controls.asOption? asControls?
      animations := ← animations.asOption? (asList? asClip?) }
  | _ => none

def asEnemy? : Sketch → Option Draft.Enemy
  | record .enemy [name, sprite, movement, damage, stompable, animations] => do
    pure {
      name := ← name.asText?
      sprite := ← sprite.asOption? asText?
      movement := ← movement.asOption? asMovement?
      damage := ← damage.asOption? asNumber?
      stompable := ← stompable.asOption? asFlag?
      animations := ← animations.asOption? (asList? asClip?) }
  | _ => none

def asCollectible? : Sketch → Option Draft.Collectible
  | record .collectible [name, sprite, score, effect, animations] => do
    pure {
      name := ← name.asText?
      sprite := ← sprite.asOption? asText?
      score := ← score.asOption? asNumber?
      effect := ← effect.asOption? asEffect?
      animations := ← animations.asOption? (asList? asClip?) }
  | _ => none

def asHudElement? : Sketch → Option Draft.HudElement
  | record .hudElement [kind, position, fontSize, color, max] => do
    pure {
      kind := ← kind.asHudKind?
      position := ← position.asOption? asAnchor?
      fontSize := ← fontSize.asOption? asNumber?
      color := ← color.asOption? asText?
      max := ← max.asOption? asNumber? }
  | _ => none

def asHud? : Sketch → Option (List Draft.HudElement)
  | record .hud [elements] => elements.asList? asHudElement?
  | _ => none

def asRules? : Sketch → Option Draft.Rules
  | record .rules [win, lose, nextLevel] => do
    pure {
      win := ← win.asOption? asWin?
      lose := ← lose.asOption? asLose?
      nextLevel := ← nextLevel.asOption? asText? }
  | _ => none

end Sketch

open Sketch in
/-- The draft that a sketch is. -/
def Draft.ofSketch? : Sketch → Option Draft
  | record .game [title, config, assets, player, enemies, collectibles, levels, hud, rules,
      sounds] => do
    pure {
      title := ← title.asOption? asText?
      config := ← config.asOption? asConfig?
      assets := ← assets.asList? asAsset?
      player := ← player.asOption? asPlayer?
      enemies := ← enemies.asList? asEnemy?
      collectibles := ← collectibles.asList? asCollectible?
      levels := ← levels.asList? asLevel?
      hud := ← hud.asOption? asHud?
      rules := ← rules.asOption? asRules?
      sounds := ← sounds.asOption? asSounds? }
  | _ => none

end PlatformGame
