import PlatformGame.Game.Symbols
import PlatformGame.Program.Code
import PlatformGame.Program.Names

/-! # Enemies in a level scene -/

namespace PlatformGame.Program

def movementPayload (m : Movement) : Json :=
  .object (("kind", .text m.kind.text) ::
    match m with
    | .patrol s d => [("speed", .number s), ("distance", .number d)]
    | .chase s r => [("speed", .number s), ("range", .number r)]
    | .fly s a f => [("speed", .number s), ("amplitude", .number a), ("frequency", .number f)]
    | .static => [])

def enemyPayload (e : Enemy) : Json :=
  .object [("name", .text e.name), ("movement", movementPayload e.movement),
    ("damage", .number e.damage), ("stompable", .bool e.stompable)]

/-- Plays the first clip of a thing, if it has any. -/
def playFirst (who sprite : String) (clips : List Clip) : Listing :=
  match clips with
  | [] => []
  | c :: _ => [line [who, ".anims.play(", .literal (animationKey sprite c.name), ", true);"]]

/-- The attributes of an enemy that its movement needs. -/
def movementSetup (m : Movement) (x y : Number) : Listing :=
  match m with
  | .patrol speed distance =>
    [line ["enemy.setVelocityX(", num speed, ");"],
      line ["enemy.patrolOriginX = ", num x, ";"],
      line ["enemy.patrolDistance = ", num distance, ";"],
      line ["enemy.patrolSpeed = ", num speed, ";"]]
  | .chase speed range =>
    [line ["enemy.chaseSpeed = ", num speed, ";"],
      line ["enemy.chaseRange = ", num range, ";"]]
  | .fly speed amplitude frequency =>
    [line ["enemy.body.allowGravity = false;"],
      line ["enemy.flyOriginY = ", num y, ";"],
      line ["enemy.flySpeed = ", num speed, ";"],
      line ["enemy.flyAmplitude = ", num amplitude, ";"],
      line ["enemy.flyFrequency = ", num frequency, ";"],
      line ["enemy.setVelocityX(", num speed, ");"]]
  | .static =>
    [line ["enemy.body.allowGravity = false;"],
      line ["enemy.body.immovable = true;"]]

def enemyInstance (e : Enemy) (x y : Number) : Listing :=
  block [] ([line ["const enemy = this.enemies.create(", num x, ", ", num y, ", ",
        .literal e.sprite, ");"],
      line ["enemy.setBounce(0);"],
      line ["enemy.setCollideWorldBounds(true);"],
      line ["enemy.enemyDef = ", .payload (enemyPayload e), ";"]]
    ++ playFirst "enemy" e.sprite e.animations
    ++ movementSetup e.movement x y)

/-- The enemies of a level; a placement of an enemy that is not declared is left out. -/
def enemyCreate (l : Level) (symbols : Symbols Enemy κ) : Listing :=
  if l.enemies.isEmpty then []
  else [line [r"this.enemies = this.physics.add.group({ allowGravity: true });"], blank]
    ++ l.enemies.flatMap fun p =>
      match symbols.enemy? p.entity with
      | some e => enemyInstance e p.x p.y
      | none => []

def usesMovement (es : List Enemy) (k : MovementKind) : Bool := es.any (·.movement.kind == k)

/-- The behaviour of all enemies with one kind of movement. -/
def movementBranch (k : MovementKind) (body : Listing) : Listing :=
  blank :: block ["if (def.movement.kind === '", k.text, "')"] body

def patrolUpdate : Listing :=
  movementBranch .patrol
    (line ["const dist = Math.abs(enemy.x - enemy.patrolOriginX);"]
      :: block ["if (dist >= enemy.patrolDistance)"]
        [line ["enemy.setVelocityX(-enemy.body.velocity.x);"],
          line ["enemy.setFlipX(enemy.body.velocity.x < 0);"]])

def chaseUpdate : Listing :=
  movementBranch .chase
    ([line ["const dist = Phaser.Math.Distance.Between(enemy.x, enemy.y, this.player.x, ",
        "this.player.y);"]]
      ++ block ["if (dist < enemy.chaseRange)"]
        [line ["const angle = Phaser.Math.Angle.Between(enemy.x, enemy.y, this.player.x, ",
            "this.player.y);"],
          line ["enemy.setVelocityX(Math.cos(angle) * enemy.chaseSpeed);"],
          line ["enemy.setFlipX(enemy.body.velocity.x < 0);"]]
      ++ block ["else"] [line ["enemy.setVelocityX(0);"]])

def flyUpdate : Listing :=
  movementBranch .fly
    ([line ["const time = this.time.now / 1000;"],
        line ["enemy.y = enemy.flyOriginY + Math.sin(time * enemy.flyFrequency) * ",
          "enemy.flyAmplitude;"]]
      ++ block ["if (enemy.x <= 10 || enemy.x >= this.physics.world.bounds.width - 10)"]
        [line ["enemy.setVelocityX(-enemy.body.velocity.x);"]])

/-- The behaviour of enemies, with a branch for each kind of movement that the game uses. -/
def enemyUpdate (es : List Enemy) : Listing :=
  let branch (k : MovementKind) (body : Listing) : Listing := if usesMovement es k then body else []
  let branches := branch .patrol patrolUpdate ++ branch .chase chaseUpdate ++ branch .fly flyUpdate
  if branches.isEmpty then []
  else
    block ["if (this.enemies)"]
      (blockTo r"});" ["this.enemies.getChildren().forEach((enemy) =>"]
        ([line ["const def = enemy.enemyDef;"],
          line ["if (!def || !enemy.active) return;"]] ++ branches))

/-- The layers of a level that has a tilemap. -/
def tiledLayers (l : Level) : List (String × String) :=
  match l.tilemap, l.layers with
  | some map, some layers => if map.isEmpty then [] else layers
  | _, _ => []

/-- The field of a scene that holds a layer. -/
def layerField (name : String) : String := "this." ++ identifier name ++ "Layer"

def enemyCollision (l : Level) (defeatAll : Bool) : Listing :=
  [line ["this.physics.add.collider(this.enemies, this.platforms || []);"]]
  ++ (tiledLayers l).map (fun (name, _) =>
      line ["if (", .name (layerField name), ") this.physics.add.collider(this.enemies, ",
        .name (layerField name), ");"])
  ++ [blank]
  ++ blockTo r"});" ["this.physics.add.overlap(this.player, this.enemies, (player, enemy) =>"]
    ([line ["const def = enemy.enemyDef;"],
        line ["if (!def) return;"],
        blank]
      ++ block ["if (def.stompable && player.body.velocity.y > 0 && player.y < enemy.y - 10)"]
        ([line ["enemy.destroy();"],
            line ["player.setVelocityY(-200);"],
            line ["this.score += 50;"]]
          ++ if defeatAll then
            [line ["if (this.winCondition === 'defeatAll' && this.enemies.countActive() === 0) ",
              "this.handleWin();"]]
          else [])
      ++ block ["else"] [line ["this.handlePlayerDamage(def.damage);"]])

end PlatformGame.Program
