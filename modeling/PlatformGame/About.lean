/-! # About this compiler -/

namespace PlatformGame

def version : String := "0.1.0"

/-- What the generated pages are and how their parts are named. -/
def about : String :=
  "platformer-dsl " ++ version ++ "\n" ++
  "Pipeline: parse -> build AST -> apply defaults -> validate -> generate.\n" ++
  "Artifact: one HTML page running Phaser 3 with arcade physics.\n" ++
  "Scene keys: BootScene, Level_<name> (non-alphanumerics become '_'), HudScene.\n" ++
  "Animation keys: <spriteKey>_<clipName>.\n" ++
  "Telemetry events: updateScore, updateLives, updateTimer on game.events.\n" ++
  "Validation: errors are returned with the artifact; only syntax errors abort."

end PlatformGame
