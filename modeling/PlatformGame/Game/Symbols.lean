import PlatformGame.Game.Basic

/-! # Declared names

Of several declarations of one name the first counts. -/

namespace PlatformGame

/-- Things by name, in order of declaration. -/
abbrev Registry (α : Type) := List (String × α)

def Registry.add (name : String) (a : α) (r : Registry α) : Registry α :=
  if r.any (·.1 == name) then r else r ++ [(name, a)]

def Registry.ofList (name : α → String) (as : List α) : Registry α :=
  as.foldl (fun r a => r.add (name a) a) []

/-- The names that a draft or game declares, with enemies of type `ε` and collectibles of type
`κ`. -/
structure Symbols (ε κ : Type) where
  assets : List String := []
  enemies : Registry ε := []
  collectibles : Registry κ := []
  levels : Registry Level := []

namespace Symbols

def addAsset (s : Symbols ε κ) (key : String) : Symbols ε κ :=
  if s.assets.contains key then s else { s with assets := s.assets ++ [key] }

def addEnemy (s : Symbols ε κ) (name : String) (e : ε) : Symbols ε κ :=
  { s with enemies := s.enemies.add name e }

def addCollectible (s : Symbols ε κ) (name : String) (c : κ) : Symbols ε κ :=
  { s with collectibles := s.collectibles.add name c }

def addLevel (s : Symbols ε κ) (l : Level) : Symbols ε κ :=
  { s with levels := s.levels.add l.name l }

def hasAssets (s : Symbols ε κ) : Bool := !s.assets.isEmpty

def hasAsset (s : Symbols ε κ) (key : String) : Bool := s.assets.contains key

def hasLevel (s : Symbols ε κ) (name : String) : Bool := (s.levels.lookup name).isSome

def enemy? (s : Symbols ε κ) (name : String) : Option ε := s.enemies.lookup name

def collectible? (s : Symbols ε κ) (name : String) : Option κ := s.collectibles.lookup name

end Symbols

def Draft.symbols (d : Draft) : Symbols Draft.Enemy Draft.Collectible where
  assets := d.assets.foldl (fun keys a => if keys.contains a.key then keys else keys ++ [a.key]) []
  enemies := .ofList (·.name) d.enemies
  collectibles := .ofList (·.name) d.collectibles
  levels := .ofList (·.name) d.levels

def Game.symbols (g : Game) : Symbols Enemy Collectible where
  assets := g.assets.foldl (fun keys a => if keys.contains a.key then keys else keys ++ [a.key]) []
  enemies := .ofList (·.name) g.enemies
  collectibles := .ofList (·.name) g.collectibles
  levels := .ofList (·.name) g.levels

end PlatformGame
