import PlatformGame.Game.Basic
import PlatformGame.Program.Code
import PlatformGame.Program.Names

/-! # The player in a level scene -/

namespace PlatformGame.Program

def usesArrows (p : Player) : Bool := p.controls != .wasd

def usesWasd (p : Player) : Bool := p.controls != .arrows

def hasClip (cs : List Clip) (name : String) : Bool := cs.any (·.name == name)

def inputSetup (p : Player) : Listing :=
  (if usesArrows p then [line ["this.cursors = this.input.keyboard.createCursorKeys();"]] else [])
  ++ (if usesWasd p then
    blockTo r"};" ["this.wasd ="]
      ([("up", "W"), ("down", "S"), ("left", "A"), ("right", "D")].map fun (direction, key) =>
        line [direction, ": this.input.keyboard.addKey(Phaser.Input.Keyboard.KeyCodes.", key, "),"])
    else [])

/-- Where the player starts in a level; without a spawn point, in the corner. -/
def spawnPoint (spawn : Option Point) : Point := spawn.getD ⟨.int 0, .int 0⟩

def playerCreate (p : Player) (spawn : Option Point) : Listing :=
  let place := spawnPoint spawn
  [line ["this.player = this.physics.add.sprite(", num place.x, ", ", num place.y, ", ",
      .literal p.sprite, ");"],
    line ["this.player.setCollideWorldBounds(true);"],
    line ["this.player.setBounce(0.1);"],
    line ["this.player.speedMultiplier = 1;"],
    line ["this.player.invincible = false;"]]

/-- The condition that one of the player's keys for a direction is down. -/
def keyDown (p : Player) (direction : String) : String :=
  " || ".intercalate
    ((if usesArrows p then ["cursors." ++ direction ++ ".isDown"] else [])
      ++ if usesWasd p then ["wasd." ++ direction ++ ".isDown"] else [])

/-- Code for a clip of the player, if there is such a clip. -/
def withClip (p : Player) (name before after : String) : Listing :=
  if hasClip p.animations name then
    [line [before, "this.player.anims.play(", .literal (animationKey p.sprite name), after]]
  else []

def playerUpdate (p : Player) : Listing :=
  let walk := withClip p "walk" "if (this.player.body.onFloor()) " ", true);"
  (if usesArrows p then [line ["const cursors = this.cursors;"]] else [])
  ++ (if usesWasd p then [line ["const wasd = this.wasd;"]] else [])
  ++ [blank,
    line ["const speed = ", num p.speed, " * (this.player.speedMultiplier || 1);"],
    line ["this.player.setVelocityX(0);"],
    blank]
  ++ block ["if (", keyDown p "left", ")"]
    ([line ["this.player.setVelocityX(-speed);"], line ["this.player.setFlipX(true);"]] ++ walk)
  ++ block ["else if (", keyDown p "right", ")"]
    ([line ["this.player.setVelocityX(speed);"], line ["this.player.setFlipX(false);"]] ++ walk)
  ++ block ["else"]
    (if hasClip p.animations "idle" then withClip p "idle" "" ", true);"
      else [line ["this.player.anims.stop();"]])
  ++ [blank]
  ++ block ["if ((", keyDown p "up", ") && this.player.body.onFloor())"]
    ([line ["this.player.setVelocityY(-", num p.jumpForce, ");"]]
      ++ withClip p "jump" "" ", true);"
      ++ [line ["if (this.jumpSound) this.jumpSound.play();"]])

end PlatformGame.Program
