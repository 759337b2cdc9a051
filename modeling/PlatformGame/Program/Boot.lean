import PlatformGame.Game.Basic
import PlatformGame.Program.Code
import PlatformGame.Program.Names

/-! # The boot scene

The scene that the program starts with loads every asset, registers every animation and then starts
the first level. -/

namespace PlatformGame.Program

/-- A scene class. -/
def sceneClass (key : String) (body : Listing) : Listing :=
  block ["class ", .name key, " extends Phaser.Scene"] body

def sceneConstructor (key options : String) : Listing :=
  block ["constructor()"] [line [r"super({ key: ", .literal key, options, r" });"]]

def startScene (key : String) : Row := line ["this.scene.start(", .literal key, ");"]

def assetLoad (a : Asset) : Row :=
  match a.kind with
  | .image => line ["this.load.image(", .literal a.key, ", ", .literal a.path, ");"]
  | .spritesheet =>
    line ["this.load.spritesheet(", .literal a.key, ", ", .literal a.path, r", { frameWidth: ",
      .number (.ofOption (a.frames.map FrameSize.width)), ", frameHeight: ",
      .number (.ofOption (a.frames.map FrameSize.height)), r" });"]
  | .tilemap => line ["this.load.tilemapTiledJSON(", .literal a.key, ", ", .literal a.path, ");"]
  | .audio => line ["this.load.audio(", .literal a.key, ", ", .literal a.path, ");"]

/-- The clips of a game with the sprites they belong to. -/
def clips (g : Game) : List (String × Clip) :=
  g.player.animations.map (fun c => (g.player.sprite, c))
  ++ g.enemies.flatMap (fun e => e.animations.map fun c => (e.sprite, c))
  ++ g.collectibles.flatMap fun i => i.animations.map fun c => (i.sprite, c)

def clipCreate (sprite : String) (c : Clip) : Listing :=
  [line [r"this.anims.create({"]]
  ++ indent [
    line ["key: ", .literal (animationKey sprite c.name), ","],
    line ([Piece.code "frames: this.anims.generateFrameNumbers(", .literal sprite,
        r", { frames: ["]
      ++ separate ", " (c.frames.map num) ++ [.code r"] }),"]),
    line ["frameRate: ", num c.fps, ","],
    line ["repeat: ", if c.loop then "-1" else "0", ","]]
  ++ [line [r"});"]]

def bootListing (g : Game) : Listing :=
  sceneClass bootScene
    (sceneConstructor bootScene ""
      ++ [blank]
      ++ block ["preload()"] (g.assets.map assetLoad)
      ++ [blank]
      ++ block ["create()"]
        ((clips g).flatMap (fun (sprite, c) => clipCreate sprite c)
          ++ match g.levels with
            | l :: _ => [startScene (sceneKey l.name)]
            | [] => []))

end PlatformGame.Program
