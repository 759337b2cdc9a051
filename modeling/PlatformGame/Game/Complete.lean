import PlatformGame.Game.Basic

/-! # Completing a draft

Completion fills in what a draft leaves unset and changes nothing that it sets. It makes up no
levels, assets, enemies, collectibles or display elements. The player's sprite is `player` unless
the draft names one; that word is reserved, so no asset can have it as its key. -/

namespace PlatformGame

namespace Defaults

def title : String := "Untitled Game"

def config : Config := ⟨.int 800, .int 600, .int 500, "#87CEEB"⟩

def player : Player := ⟨"player", .int 160, .int 330, .int 3, .arrows, []⟩

def enemySprite : String := "enemy"

def damage : Number := .int 1

def collectibleSprite : String := "item"

def score : Number := .int 10

def fps : Number := .int 10

def anchor : Anchor := ⟨true, .left⟩

end Defaults

namespace Draft

def Clip.complete (c : Clip) : PlatformGame.Clip :=
  ⟨c.name, c.frames, c.fps.getD Defaults.fps, c.loop.getD false⟩

def completeClips (cs : Option (List Clip)) : List PlatformGame.Clip :=
  (cs.getD []).map Clip.complete

def Movement.complete : Movement → PlatformGame.Movement
  | patrol s d => .patrol (s.getD (.int 50)) (d.getD (.int 100))
  | chase s r => .chase (s.getD (.int 60)) (r.getD (.int 200))
  | fly s a f => .fly (s.getD (.int 50)) (a.getD (.int 50)) (f.getD (.int 2))
  | static => .static

def Config.complete (c : Config) : PlatformGame.Config :=
  ⟨c.width.getD Defaults.config.width, c.height.getD Defaults.config.height,
    c.gravity.getD Defaults.config.gravity, c.background.getD Defaults.config.background⟩

def Player.complete (p : Player) : PlatformGame.Player :=
  ⟨p.sprite.getD Defaults.player.sprite, p.speed.getD Defaults.player.speed,
    p.jumpForce.getD Defaults.player.jumpForce, p.lives.getD Defaults.player.lives,
    p.controls.getD Defaults.player.controls, completeClips p.animations⟩

def Enemy.complete (e : Enemy) : PlatformGame.Enemy :=
  ⟨e.name, e.sprite.getD Defaults.enemySprite, (e.movement.getD .static).complete,
    e.damage.getD Defaults.damage, e.stompable.getD false, completeClips e.animations⟩

def Collectible.complete (c : Collectible) : PlatformGame.Collectible :=
  ⟨c.name, c.sprite.getD Defaults.collectibleSprite, c.score.getD Defaults.score,
    c.effect.getD .nothing, completeClips c.animations⟩

def HudElement.complete (e : HudElement) : PlatformGame.HudElement :=
  ⟨e.kind, e.position.getD Defaults.anchor, e.fontSize, e.color, e.max⟩

def Rules.complete (r : Rules) : PlatformGame.Rules :=
  ⟨r.win.getD .reachExit, r.lose.getD .noLives, r.nextLevel⟩

end Draft

def Draft.complete (d : Draft) : Game where
  title := d.title.getD Defaults.title
  config := (d.config.getD {}).complete
  assets := d.assets
  player := (d.player.getD {}).complete
  enemies := d.enemies.map Draft.Enemy.complete
  collectibles := d.collectibles.map Draft.Collectible.complete
  levels := d.levels
  hud := d.hud.map (·.map Draft.HudElement.complete)
  rules := (d.rules.getD {}).complete
  sounds := d.sounds

end PlatformGame
