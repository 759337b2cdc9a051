import PlatformGame.Program.Boot
import PlatformGame.Program.Collectibles
import PlatformGame.Program.Player
import PlatformGame.Program.Tilemap

/-! # Level scenes

Every level has a scene of its own. A level that is won leads to the level that the rules name or,
if they name none, to the level after it; the last one then ends the game. A lost game starts again
at the first level. -/

namespace PlatformGame.Program

/-- The number of lives that extra lives stop at. -/
def maxLives (g : Game) : Number :=
  let limits := (g.hud.getD []).filterMap fun e => if e.kind = .lives then e.max else none
  limits.head?.getD g.player.lives

/-- The scene that follows when the level with the given number is won. -/
def nextScene (g : Game) (index : Nat) : Option String :=
  match g.rules.nextLevel with
  | some name => if name.isEmpty then after else some (sceneKey name)
  | none => after
where
  after : Option String := (g.levels[index + 1]?).map fun l => sceneKey l.name

def platformCreate (p : Platform) : Row :=
  line ["this.platforms.create(", .number (.middle p.x p.width), ", ",
    .number (.middle p.y p.height), ", ", .literal p.asset, ").setDisplaySize(", num p.width, ", ",
    num p.height, ").refreshBody();"]

def platformsCreate (ps : List Platform) : Listing :=
  [line ["this.platforms = this.physics.add.staticGroup();"]]
  ++ ps.map platformCreate
  ++ [line ["this.physics.add.collider(this.player, this.platforms);"]]

def exitZone (p : Point) : Listing :=
  [line ["this.exitZone = this.add.zone(", num p.x, ", ", num p.y, ", 40, 40);"],
    line ["this.physics.add.existing(this.exitZone);"],
    line ["this.exitZone.body.setAllowGravity(false);"]]
  ++ blockTo r"});" ["this.physics.add.overlap(this.player, this.exitZone, () =>"]
    [line ["if (this.winCondition === 'reachExit') this.handleWin();"]]

def soundSetup (event : SoundEvent) (key : String) : Listing :=
  match event with
  | .bgm => [line ["this.bgm = this.sound.add(", .literal key, r", { loop: true });"],
      line ["this.bgm.play();"]]
  | e => [line ["this.", e.text, "Sound = this.sound.add(", .literal key, ");"]]

def soundsSetup (sounds : Option Sounds) : Listing :=
  match sounds with
  | none => []
  | some s => s.events.flatMap fun (event, key) =>
    match key with
    | some key => if key.isEmpty then [] else soundSetup event key
    | none => []

/-- A part of a scene with a blank line after it, if there is anything in it. -/
def withBlank (rows : Listing) : Listing := if rows.isEmpty then [] else rows ++ [blank]

def goalOf : WinCondition → Option String
  | .collectAll entity => some entity
  | _ => none

/-- What a level's scene sets up. -/
def levelCreate (g : Game) (l : Level) : Listing :=
  let symbols := g.symbols
  let enemies := enemyCreate l symbols
  let collectibles := collectibleCreate l symbols
  block ["create()"]
    ([line ["this.score = this.registry.get('score') ?? 0;"],
        line ["this.lives = this.registry.get('lives') ?? ", num g.player.lives, ";"],
        line ["this.maxLives = ", num (maxLives g), ";"],
        line ["this.winCondition = ", .literal g.rules.win.kind, ";"],
        line ["this.isGameOver = false;"],
        blank,
        line ["this.cameras.main.setBackgroundColor(", .literal g.config.background, ");"],
        blank]
      ++ inputSetup g.player ++ [blank]
      ++ playerCreate g.player l.spawn ++ [blank]
      ++ withBlank (tilemapCreate l g.assets)
      ++ (if l.platforms.isEmpty then [] else platformsCreate l.platforms ++ [blank])
      ++ (if enemies.isEmpty then []
        else enemies ++ enemyCollision l (g.rules.win == .defeatAll) ++ [blank])
      ++ (if collectibles.isEmpty then []
        else collectibles ++ collectibleCollision (goalOf g.rules.win) ++ [blank])
      ++ (match l.exit with
        | some p => exitZone p ++ [blank]
        | none => [])
      ++ soundsSetup g.sounds
      ++ (if g.hud.isSome then
        [line ["if (!this.scene.isActive(", .literal hudScene, ")) this.scene.launch(",
          .literal hudScene, ");"]]
        else [])
      ++ (if g.rules.lose = .fallOff then
        [line ["this.physics.world.setBoundsCollision(true, true, true, false);"],
          line ["this.player.setCollideWorldBounds(false);"]]
        else [])
      ++ match g.rules.win with
        | .survive seconds =>
          [line ["this.surviveTime = ", num seconds, ";"], line ["this.elapsedTime = 0;"]]
        | _ => [])

/-- How far below the screen a player has fallen off. -/
def fallMargin : Int := 100

/-- What a level's scene does in every frame. -/
def levelUpdate (g : Game) (l : Level) : Listing :=
  let behaviour := enemyUpdate g.enemies
  let spawn := spawnPoint l.spawn
  block ["update(time, delta)"]
    ([line ["if (this.isGameOver) return;"], blank]
      ++ playerUpdate g.player
      ++ (if behaviour.isEmpty then [] else blank :: behaviour)
      ++ [blank]
      ++ (if g.rules.lose = .fallOff then
        block ["if (this.player.y > ", .number (.shifted g.config.height fallMargin), ")"]
          [line ["this.handlePlayerDamage(1);"],
            line ["this.player.setPosition(", num spawn.x, ", ", num spawn.y, ");"],
            line ["this.player.setVelocity(0, 0);"]]
        else [])
      ++ (match g.rules.win with
        | .survive _ =>
          [line ["this.elapsedTime += delta / 1000;"],
            line ["this.game.events.emit('updateTimer', ",
              "Math.max(0, this.surviveTime - this.elapsedTime));"]]
          ++ block ["if (this.elapsedTime >= this.surviveTime)"] [line ["this.handleWin();"]]
        | _ => [])
      ++ [line ["this.game.events.emit('updateScore', this.score);"],
        line ["this.game.events.emit('updateLives', this.lives);"]])

def damageHandler : Listing :=
  block ["handlePlayerDamage(amount)"]
    ([line ["if (this.player.invincible) return;"],
        line ["this.lives -= amount;"],
        line ["if (this.hurtSound) this.hurtSound.play();"],
        blank,
        line ["this.player.invincible = true;"],
        line ["this.player.setAlpha(0.5);"]]
      ++ blockTo r"});" ["this.time.delayedCall(1000, () =>"]
        [line [r"if (this.player) { this.player.invincible = false; ",
          r"this.player.setAlpha(1); }"]]
      ++ [blank]
      ++ block ["if (this.lives <= 0)"] [line ["this.handleGameOver();"]])

/-- A text in the middle of the screen. -/
def banner (offset text size color : String) : Row :=
  line ["this.add.text(this.cameras.main.centerX, this.cameras.main.centerY", offset, ", '", text,
    r"', { fontSize: '", size, "', color: '", color, r"' }).setOrigin(0.5);"]

def winHandler (next : Option String) : Listing :=
  block ["handleWin()"]
    ([line ["if (this.isGameOver) return;"],
        line ["this.isGameOver = true;"],
        line ["if (this.bgm) this.bgm.stop();"],
        line ["if (this.winSound) this.winSound.play();"],
        line ["this.registry.set('score', this.score);"],
        line ["this.registry.set('lives', this.lives);"]]
      ++ match next with
        | some key => [startScene key]
        | none => [banner "" "YOU WIN!" "48px" "#00ff00", line ["this.physics.pause();"]])

/-- The scene that a lost game starts again with. -/
def gameOverHandler (g : Game) (restart : String) : Listing :=
  block ["handleGameOver()"]
    ([line ["if (this.isGameOver) return;"],
        line ["this.isGameOver = true;"],
        line ["if (this.bgm) this.bgm.stop();"],
        line ["if (this.loseSound) this.loseSound.play();"],
        line ["this.physics.pause();"],
        line ["this.player.setTint(0xff0000);"],
        banner "" "GAME OVER" "48px" "#ff0000",
        banner " + 60" "Click to restart" "20px" "#ffffff"]
      ++ blockTo r"});" ["this.input.once('pointerdown', () =>"]
        [line ["this.registry.set('score', 0);"],
          line ["this.registry.set('lives', ", num g.player.lives, ");"],
          startScene restart])

/-- The scene of the level with the given number. -/
def levelListing (g : Game) (l : Level) (index : Nat) : Listing :=
  let key := sceneKey l.name
  let first := (g.levels.head?.map fun l => sceneKey l.name).getD key
  sceneClass key
    (sceneConstructor key ""
      ++ [blank] ++ levelCreate g l
      ++ [blank] ++ levelUpdate g l
      ++ [blank] ++ damageHandler
      ++ [blank] ++ winHandler (nextScene g index)
      ++ [blank] ++ gameOverHandler g first)

end PlatformGame.Program
