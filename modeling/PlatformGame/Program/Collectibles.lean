import PlatformGame.Program.Enemies

/-! # Collectibles in a level scene -/

namespace PlatformGame.Program

def collectiblePayload (c : Collectible) : Json :=
  .object [("name", .text c.name), ("score", .number c.score), ("effect", .text c.effect.text)]

def collectibleInstance (c : Collectible) (x y : Number) : Listing :=
  block [] ([line ["const item = this.collectibles.create(", num x, ", ", num y, ", ",
        .literal c.sprite, ");"],
      line ["item.collectDef = ", .payload (collectiblePayload c), ";"]]
    ++ playFirst "item" c.sprite c.animations)

/-- The collectibles of a level; a placement of one that is not declared is left out. -/
def collectibleCreate (l : Level) (symbols : Symbols ε Collectible) : Listing :=
  if l.collectibles.isEmpty then []
  else [line [r"this.collectibles = this.physics.add.group({ allowGravity: false });"], blank]
    ++ l.collectibles.flatMap fun p =>
      match symbols.collectible? p.entity with
      | some c => collectibleInstance c p.x p.y
      | none => []

/-- What happens when the player meets a collectible. If the level is won by collecting all of one
kind, `goal` names it. -/
def collectibleCollision (goal : Option String) : Listing :=
  blockTo r"});" ["this.physics.add.overlap(this.player, this.collectibles, (player, item) =>"]
    ([line ["const def = item.collectDef;"],
        line ["if (!def) return;"],
        blank,
        line ["item.destroy();"],
        line ["this.score += def.score;"],
        line ["if (this.collectSound) this.collectSound.play();"],
        blank]
      ++ block ["if (def.effect === 'extraLife')"]
        [line ["this.lives = Math.min(this.lives + 1, this.maxLives);"]]
      ++ block ["else if (def.effect === 'speedBoost')"]
        [line ["this.player.speedMultiplier = 1.5;"],
          line [r"this.time.delayedCall(5000, () => { this.player.speedMultiplier = 1; });"]]
      ++ block ["else if (def.effect === 'invincible')"]
        [line ["this.player.invincible = true;"],
          line ["this.player.setAlpha(0.5);"],
          line [r"this.time.delayedCall(5000, () => { this.player.invincible = false; ",
            r"this.player.setAlpha(1); });"]]
      ++ match goal with
        | some name =>
          [blank,
            line ["const remaining = this.collectibles.getChildren().filter(",
              "(other) => other.active && other.collectDef && other.collectDef.name === ",
              .literal name, ");"]]
          ++ block ["if (this.winCondition === 'collectAll' && remaining.length === 0)"]
            [line ["this.handleWin();"]]
        | none => [])

end PlatformGame.Program
