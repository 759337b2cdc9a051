import PlatformGame.Proofs.Program.Tokens

/-! # What a program does

A program is read for what it does with scenes and assets: the classes it declares, the scenes its
configuration lists, and the calls that start scenes or load and use assets. `actions` looks at
every place of a program, so that it finds all of them; `Acts` says what a part of a program adds to
them, whatever comes after that part. -/

namespace PlatformGame.Script

/-! ## Calls -/

/-- The calls that concern scenes and assets. -/
inductive Callee
  | startScene
  | launchScene
  /-- Gives a scene its key, in its constructor. -/
  | registerScene
  | loadImage
  | loadSpritesheet
  | loadTilemap
  | loadAudio
  | sprite
  | enemy
  | collectible
  | platform
  | tilemap
  | tileset
  | sound
  deriving DecidableEq

namespace Callee

def all : List Callee :=
  [startScene, launchScene, registerScene, loadImage, loadSpritesheet, loadTilemap, loadAudio,
    sprite, enemy, collectible, platform, tilemap, tileset, sound]

/-- How a call begins. -/
def text : Callee → String
  | startScene => "this.scene.start("
  | launchScene => "this.scene.launch("
  | registerScene => "super("
  | loadImage => "this.load.image("
  | loadSpritesheet => "this.load.spritesheet("
  | loadTilemap => "this.load.tilemapTiledJSON("
  | loadAudio => "this.load.audio("
  | sprite => "this.physics.add.sprite("
  | enemy => "this.enemies.create("
  | collectible => "this.collectibles.create("
  | platform => "this.platforms.create("
  | tilemap => "this.make.tilemap("
  | tileset => "map.addTilesetImage("
  | sound => "this.sound.add("

def opening (c : Callee) : List Token := (scan .code c.text.toList).2

end Callee

inductive Action
  /-- A class is declared. -/
  | declares (name : String)
  /-- The configuration lists the scenes of the program. -/
  | lists (names : List String)
  /-- A call, with the literals among its arguments. -/
  | calls (c : Callee) (literals : List String)
  deriving DecidableEq

def Token.word? : Token → Option String
  | .word cs => some (String.ofList cs)
  | _ => none

def Token.literal? : Token → Option String
  | .literal s => some s
  | _ => none

def classWord : Token := .word ['c', 'l', 'a', 's', 's']

def listOpening : List Token := [.word ['s', 'c', 'e', 'n', 'e'], .mark ':', .mark '[']

def declared? : List Token → Option Action
  | t :: .word name :: _ => if t = classWord then some (.declares (String.ofList name)) else none
  | _ => none

/-- The words of a list, up to its closing bracket. -/
def listedWords (ts : List Token) : List String :=
  (ts.takeWhile (· ≠ .mark ']')).filterMap Token.word?

def listed? (ts : List Token) : Option Action :=
  if listOpening.isPrefixOf ts then some (.lists (listedWords (ts.drop 1))) else none

/-- The literals of a call, up to its closing bracket. -/
def literals (ts : List Token) : List String :=
  (ts.takeWhile (· ≠ .mark ')')).filterMap Token.literal?

def called? (ts : List Token) : Option Action :=
  (Callee.all.find? (·.opening.isPrefixOf ts)).map fun c => .calls c (literals ts)

/-- What begins at the front of the tokens. -/
def action? (ts : List Token) : Option Action :=
  (declared? ts).or ((listed? ts).or (called? ts))

def actions : List Token → List Action
  | [] => []
  | t :: ts => (action? (t :: ts)).toList ++ actions ts

/-- What a text does, if it can be read. -/
def actionsOf? (text : String) : Option (List Action) := (tokens? text.toList).map actions

theorem literals_cons (t : Token) (ts : List Token) :
    literals (t :: ts) = if t = .mark ')' then [] else t.literal?.toList ++ literals ts := by
  by_cases h : t = .mark ')'
  · simp [literals, h]
  · rw [if_neg h, literals, List.takeWhile_cons_of_pos (by simpa using h)]
    cases t <;> rfl

theorem declared?_of_ne (h : t ≠ classWord) (ts : List Token) : declared? (t :: ts) = none := by
  unfold declared?
  split
  · next heq =>
    cases heq
    exact if_neg h
  · rfl

/-! ## Parts of a program -/

/-- Reading `ts` finds `as`, and finds them whatever comes after. -/
def Acts (ts : List Token) (as : List Action) : Prop :=
  ∀ rest, actions (ts ++ rest) = as ++ actions rest

namespace Acts

theorem nil : Acts [] [] := fun _ => rfl

theorem append (h : Acts ts as) (h' : Acts us bs) : Acts (ts ++ us) (as ++ bs) := by
  intro rest
  rw [List.append_assoc, h, h', List.append_assoc]

theorem actions_eq (h : Acts ts as) : actions ts = as := by
  simpa [actions] using h []

theorem cons (h : ∀ rest, (action? (t :: ts ++ rest)).toList = as) (h' : Acts ts bs) :
    Acts (t :: ts) (as ++ bs) := by
  intro rest
  rw [List.cons_append, actions, ← List.cons_append, h, h', List.append_assoc]

end Acts

/-! ## Tokens that begin nothing -/

namespace Callee

/-- The tokens of a dotted path and an opening bracket. -/
def path : List (List Char) → List Token
  | [] => []
  | [w] => [.word w, .mark '(']
  | w :: ws => .word w :: .mark '.' :: path ws

def names : Callee → List (List Char)
  | startScene => [this, ['s', 'c', 'e', 'n', 'e'], ['s', 't', 'a', 'r', 't']]
  | launchScene => [this, ['s', 'c', 'e', 'n', 'e'], ['l', 'a', 'u', 'n', 'c', 'h']]
  | registerScene => [['s', 'u', 'p', 'e', 'r']]
  | loadImage => [this, load, ['i', 'm', 'a', 'g', 'e']]
  | loadSpritesheet => [this, load, ['s', 'p', 'r', 'i', 't', 'e', 's', 'h', 'e', 'e', 't']]
  | loadTilemap => [this, load,
      ['t', 'i', 'l', 'e', 'm', 'a', 'p', 'T', 'i', 'l', 'e', 'd', 'J', 'S', 'O', 'N']]
  | loadAudio => [this, load, ['a', 'u', 'd', 'i', 'o']]
  | sprite => [this, ['p', 'h', 'y', 's', 'i', 'c', 's'], ['a', 'd', 'd'],
      ['s', 'p', 'r', 'i', 't', 'e']]
  | enemy => [this, ['e', 'n', 'e', 'm', 'i', 'e', 's'], create]
  | collectible => [this, ['c', 'o', 'l', 'l', 'e', 'c', 't', 'i', 'b', 'l', 'e', 's'], create]
  | platform => [this, ['p', 'l', 'a', 't', 'f', 'o', 'r', 'm', 's'], create]
  | tilemap => [this, ['m', 'a', 'k', 'e'], ['t', 'i', 'l', 'e', 'm', 'a', 'p']]
  | tileset => [['m', 'a', 'p'],
      ['a', 'd', 'd', 'T', 'i', 'l', 'e', 's', 'e', 't', 'I', 'm', 'a', 'g', 'e']]
  | sound => [this, ['s', 'o', 'u', 'n', 'd'], ['a', 'd', 'd']]
where
  this : List Char := ['t', 'h', 'i', 's']
  load : List Char := ['l', 'o', 'a', 'd']
  create : List Char := ['c', 'r', 'e', 'a', 't', 'e']

theorem opening_eq (c : Callee) : c.opening = path c.names := by
  unfold opening
  -- The text is turned into characters by unification, since evaluating `String.toList` is slow.
  cases c <;> rw [text, String.toList_ofList] <;> rfl

end Callee

/-- The words that something begins with. -/
def heads : List Token :=
  [classWord, .word ['s', 'c', 'e', 'n', 'e'], .word Callee.names.this,
    .word ['s', 'u', 'p', 'e', 'r'], .word ['m', 'a', 'p']]

def Token.Quiet (t : Token) : Prop := t ∉ heads

instance (t : Token) : Decidable t.Quiet := inferInstanceAs (Decidable (t ∉ heads))

theorem quiet_marks (cs : List Char) : ∀ t ∈ cs.map Token.mark, t.Quiet := by
  intro t ht
  obtain ⟨c, _, rfl⟩ := List.mem_map.1 ht
  simp [Token.Quiet, heads, classWord]

theorem Callee.exists_head (c : Callee) : ∃ t ts, c.opening = t :: ts ∧ t ∈ heads := by
  rw [c.opening_eq]
  cases c <;> exact ⟨_, _, rfl, by decide⟩

theorem isPrefixOf_cons_of_quiet (h : t.Quiet) (hu : u ∈ heads) :
    (u :: us).isPrefixOf (t :: ts) = false := by
  have hne : u ≠ t := by
    rintro rfl
    exact h hu
  simp [List.isPrefixOf, hne]

theorem action?_of_quiet (h : t.Quiet) (ts : List Token) : action? (t :: ts) = none := by
  have hdeclared : declared? (t :: ts) = none := by
    refine declared?_of_ne ?_ ts
    rintro rfl
    exact h (by decide)
  have hlisted : listed? (t :: ts) = none := by
    rw [listed?, listOpening, isPrefixOf_cons_of_quiet h (by decide)]
    rfl
  have hcalled : called? (t :: ts) = none := by
    rw [called?, List.find?_eq_none.2, Option.map_none]
    intro c _
    obtain ⟨u, us, hopening, hu⟩ := c.exists_head
    rw [hopening, isPrefixOf_cons_of_quiet h hu]
    exact Bool.false_ne_true
  rw [action?, hdeclared, hlisted, hcalled]
  rfl

theorem Acts.of_quiet (h : ∀ t ∈ ts, t.Quiet) : Acts ts [] := by
  induction ts with
  | nil => exact .nil
  | cons t ts ih =>
    rw [List.forall_mem_cons] at h
    have hnone (rest : List Token) : (action? (t :: ts ++ rest)).toList = [] := by
      rw [List.cons_append, action?_of_quiet h.1]
      rfl
    exact .cons hnone (ih h.2)

end PlatformGame.Script
