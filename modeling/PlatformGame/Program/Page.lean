import PlatformGame.Program.Hud
import PlatformGame.Program.LevelScene
import PlatformGame.Program.Sheet

/-! # The page

A game becomes one page: a head that loads the engine, and a script with the scenes of the game and
its configuration. -/

namespace PlatformGame.Program

/-- The scenes of a game, in the order in which the engine gets them. -/
def sceneList (g : Game) : List String :=
  [bootScene] ++ g.levels.map (fun l => sceneKey l.name)
    ++ if g.hud.isSome then [hudScene] else []

def configListing (g : Game) : Listing :=
  blockTo r"};" ["const config ="]
    ([line ["type: Phaser.AUTO,"],
        line ["width: ", num g.config.width, ","],
        line ["height: ", num g.config.height, ","]]
      ++ blockTo r"}," ["physics:"]
        ([line ["default: 'arcade',"]]
          ++ blockTo r"}," ["arcade:"]
            [line [r"gravity: { y: ", num g.config.gravity, r" },"],
              line ["debug: false,"]])
      ++ [line ([Piece.code "scene: ["] ++ separate ", " ((sceneList g).map .name)
        ++ [.code "],"])])
  ++ [blank, line ["const game = new Phaser.Game(config);"]]

def programListing (g : Game) : Listing :=
  bootListing g ++ [blank]
  ++ (g.levels.zipIdx.flatMap fun (l, i) => levelListing g l i ++ [blank])
  ++ (match g.hud with
    | some elements => hudListing g elements ++ [blank]
    | none => [])
  ++ configListing g

def pageListing (g : Game) (runtimeUrl : String) : Listing :=
  [line ["<!DOCTYPE html>"],
    line ["<html lang=\"en\">"],
    line ["<head>"]]
  ++ indent
    ([line ["<meta charset=\"UTF-8\">"],
        line ["<meta name=\"viewport\" content=\"width=device-width, initial-scale=1.0\">"],
        line ["<title>", .html g.title, "</title>"],
        line ["<style>"]]
      ++ indent
        [line [r"* { margin: 0; padding: 0; }"],
          line [r"body { background: #000; display: flex; justify-content: center; ",
            r"align-items: center; min-height: 100vh; }"]]
      ++ [line ["</style>"],
        line ["<script src=\"", .html runtimeUrl, "\"></script>"]])
  ++ [line ["</head>"],
    line ["<body>"],
    line ["<script>"]]
  ++ programListing g
  ++ [line ["</script>"],
    line ["</body>"],
    line ["</html>"]]

end PlatformGame.Program
