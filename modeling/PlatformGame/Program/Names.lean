/-! # Names in the generated program -/

namespace PlatformGame.Program

def bootScene : String := "BootScene"

def hudScene : String := "HudScene"

/-- The scene of a level: the level's name with every character but ASCII letters and digits
replaced. -/
def sceneKey (level : String) : String :=
  "Level_" ++ String.ofList (level.toList.map fun c => if c.isAlphanum then c else '_')

/-- A text as an identifier. -/
def identifier (s : String) : String :=
  let cs := s.toList.map fun c => if c.isAlphanum || c == '_' then c else '_'
  String.ofList (match cs with
    | c :: _ => if c.isDigit then '_' :: cs else cs
    | [] => [])

def animationKey (sprite clip : String) : String := sprite ++ "_" ++ clip

end PlatformGame.Program
