import PlatformGame.Data.Pairs
import PlatformGame.Game.Complete
import PlatformGame.Game.Symbols
import PlatformGame.Program.Names

/-! # Checking references

A draft is checked for names that are used without being declared and for parts without which a game
cannot be played. All violations are reported, in the order of the description. References to assets
are checked only if the draft declares assets, or on demand: a sketch without assets may name
sprites as it likes. -/

namespace PlatformGame

open Program

inductive Violation
  | noTitle
  | noLevels
  | noPlayer
  | playerSprite (sprite : String)
  | enemySprite (name : String) (sprite : Option String)
  | collectibleSprite (name : String) (sprite : Option String)
  | duplicateLevel (name : String)
  | sceneClash (name other key : String)
  | noSpawn (level : String)
  | undefinedTilemap (level key : String)
  | undefinedEnemy (level entity : String)
  | undefinedCollectible (level entity : String)
  | noLayers (level : String)
  | undefinedNextLevel (name : String)
  | undefinedGoal (entity : String)
  | undefinedSound (event : SoundEvent) (key : String)
  deriving DecidableEq

namespace Violation

private def inQuotes (s : String) : String := "\"" ++ s ++ "\""

/-- An unset sprite is written `None`. The default sprite of the player comes with a hint, because
no asset can be declared under its name. -/
def message : Violation → String
  | noTitle => "Game must have a title"
  | noLevels => "Game must define at least one level"
  | noPlayer => "Game must define a player block"
  | playerSprite s => "Player references undefined asset: " ++ inQuotes s ++
      if s = Defaults.player.sprite then " (set \"sprite:\" in the player block)" else ""
  | enemySprite n s => "Enemy " ++ inQuotes n ++ " references undefined asset: " ++
      inQuotes (s.getD "None")
  | collectibleSprite n s => "Collectible " ++ inQuotes n ++ " references undefined asset: " ++
      inQuotes (s.getD "None")
  | duplicateLevel n => "Duplicate level name: " ++ inQuotes n
  | sceneClash n o k => "Level " ++ inQuotes n ++ " has the same scene key as level " ++
      inQuotes o ++ ": " ++ inQuotes k
  | noSpawn l => "Level " ++ inQuotes l ++ " has no spawn point"
  | undefinedTilemap l k => "Level " ++ inQuotes l ++ " references undefined tilemap: " ++
      inQuotes k
  | undefinedEnemy l e => "Level " ++ inQuotes l ++ " places undefined enemy: " ++ inQuotes e
  | undefinedCollectible l e => "Level " ++ inQuotes l ++ " places undefined collectible: " ++
      inQuotes e
  | noLayers l => "Level " ++ inQuotes l ++ " has a tilemap but no layers defined"
  | undefinedNextLevel n => "Rules reference undefined next level: " ++ inQuotes n
  | undefinedGoal e => "Win condition \"collectAll\" references undefined collectible: " ++
      inQuotes e
  | undefinedSound e k => "Sound " ++ inQuotes e.text ++ " references undefined asset: " ++
      inQuotes k

end Violation

/-- The value of a text that is set and not empty. -/
def filled (s : Option String) : Option String := s.filter (!·.isEmpty)

/-- One violation, if a condition holds. -/
def reportIf (b : Bool) (v : Violation) : List Violation := if b then [v] else []

/-- The levels that have been checked: their names, and for each scene the first level that has
it. -/
structure SeenLevels where
  names : List String := []
  scenes : List (String × String) := []

namespace SeenLevels

/-- A clash with a level that has the same name or, failing that, with the first one that has the
same scene. -/
def clash (seen : SeenLevels) (l : Level) : List Violation :=
  if seen.names.contains l.name then [.duplicateLevel l.name]
  else
    match seen.scenes.lookup (sceneKey l.name) with
    | some other => reportIf (other != l.name) (.sceneClash l.name other (sceneKey l.name))
    | none => []

def add (seen : SeenLevels) (l : Level) : SeenLevels where
  names := l.name :: seen.names
  scenes :=
    if seen.names.contains l.name || (seen.scenes.lookup (sceneKey l.name)).isSome then seen.scenes
    else putPair (sceneKey l.name) l.name seen.scenes

end SeenLevels

namespace Level

/-- The violations of a level that comes after others. -/
def violations (l : Level) (seen : SeenLevels) (symbols : Symbols ε κ) (checkAssets : Bool) :
    List Violation :=
  seen.clash l
  ++ reportIf l.spawn.isNone (.noSpawn l.name)
  ++ (match filled l.tilemap with
    | some key => reportIf (checkAssets && !symbols.hasAsset key) (.undefinedTilemap l.name key)
    | none => [])
  ++ l.enemies.flatMap (fun p =>
      reportIf (symbols.enemy? p.entity).isNone (.undefinedEnemy l.name p.entity))
  ++ l.collectibles.flatMap (fun p =>
      reportIf (symbols.collectible? p.entity).isNone (.undefinedCollectible l.name p.entity))
  ++ reportIf ((filled l.tilemap).isSome && (l.layers.getD []).isEmpty) (.noLayers l.name)

/-- The violations of levels, one after the other. -/
def allViolations (symbols : Symbols ε κ) (checkAssets : Bool) :
    SeenLevels → List Level → List Violation
  | _, [] => []
  | seen, l :: later =>
    l.violations seen symbols checkAssets ++ allViolations symbols checkAssets (seen.add l) later

end Level

namespace Draft

/-- Sprites of the player, the enemies and the collectibles that are no assets. -/
def spriteViolations (d : Draft) : List Violation :=
  let symbols := d.symbols
  (match d.player.bind (filled ·.sprite) with
    | some s => reportIf (!symbols.hasAsset s) (.playerSprite s)
    | none => [])
  ++ d.enemies.flatMap (fun e =>
      reportIf (!e.sprite.any symbols.hasAsset) (.enemySprite e.name e.sprite))
  ++ d.collectibles.flatMap (fun c =>
      reportIf (!c.sprite.any symbols.hasAsset) (.collectibleSprite c.name c.sprite))

def ruleViolations (d : Draft) : List Violation :=
  let symbols := d.symbols
  match d.rules with
  | none => []
  | some r =>
    (match filled r.nextLevel with
      | some name => reportIf (!symbols.hasLevel name) (.undefinedNextLevel name)
      | none => [])
    ++ (match r.win with
      | some (.collectAll entity) =>
        reportIf (symbols.collectible? entity).isNone (.undefinedGoal entity)
      | _ => [])

def soundViolations (d : Draft) : List Violation :=
  match d.sounds with
  | none => []
  | some s => s.events.flatMap fun (event, key) =>
    match filled key with
    | some key => reportIf (!d.symbols.hasAsset key) (.undefinedSound event key)
    | none => []

def violations (d : Draft) (strict : Bool) : List Violation :=
  let symbols := d.symbols
  let checkAssets := strict || symbols.hasAssets
  reportIf (filled d.title).isNone .noTitle
  ++ reportIf d.levels.isEmpty .noLevels
  ++ reportIf d.player.isNone .noPlayer
  ++ (if checkAssets then d.spriteViolations else [])
  ++ Level.allViolations symbols checkAssets {} d.levels
  ++ d.ruleViolations
  ++ (if checkAssets then d.soundViolations else [])

end Draft

def Game.violations (g : Game) (strict : Bool) : List Violation := g.toDraft.violations strict

end PlatformGame
