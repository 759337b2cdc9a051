import PlatformGame.Proofs.Check.Undeclared
import PlatformGame.Proofs.Program.Emitters
import PlatformGame.Proofs.Program.LevelCode

/-! # Placed things in a level scene

The scene of a level is read for what it does to have enemies and collectibles (`setups`): it makes
a group for them, makes each in a block of its own, and says what happens when the player meets one.
What is made can be read off the block (`Creates`). The main statement compares this with what is
placed in the level and declared in the game (`populates_levelListing`). -/

namespace PlatformGame

open Program

/-- The member of an object. -/
def Json.field? (key : String) : Json → Option Json
  | object ms => ms.lookup key
  | _ => none

/-- The parameters of a movement, with the names they go by. -/
def Movement.parameters : Movement → List (String × Number)
  | patrol s d => [("speed", s), ("distance", d)]
  | chase s r => [("speed", s), ("range", r)]
  | fly s a f => [("speed", s), ("amplitude", a), ("frequency", f)]
  | static => []

/-- What an enemy that moves so is given where it is placed, apart from its definition. -/
def Movement.attributes (x y : Number) : Movement → List (String × Number)
  | patrol s d => [("patrolOriginX", x), ("patrolDistance", d), ("patrolSpeed", s)]
  | chase s r => [("chaseSpeed", s), ("chaseRange", r)]
  | fly s a f => [("flyOriginY", y), ("flySpeed", s), ("flyAmplitude", a), ("flyFrequency", f)]
  | static => []

/-- `j` describes the movement. -/
structure Movement.Described (m : Movement) (j : Json) : Prop where
  kind : j.field? "kind" = some (.text m.kind.text)
  parameters : ∀ p ∈ m.parameters, j.field? p.1 = some (.number p.2)

structure Enemy.Described (e : Enemy) (j : Json) : Prop where
  damage : j.field? "damage" = some (.number e.damage)
  stompable : j.field? "stompable" = some (.bool e.stompable)
  movement : ∃ m, j.field? "movement" = some m ∧ e.movement.Described m

structure Collectible.Described (c : Collectible) (j : Json) : Prop where
  score : j.field? "score" = some (.number c.score)
  effect : j.field? "effect" = some (.text c.effect.text)

theorem Program.described_enemyPayload (e : Enemy) : e.Described (enemyPayload e) := by
  refine ⟨rfl, rfl, _, rfl, rfl, ?_⟩
  cases e.movement with
  | patrol s d => exact List.forall_mem_cons.2 ⟨rfl, List.forall_mem_singleton.2 rfl⟩
  | chase s r => exact List.forall_mem_cons.2 ⟨rfl, List.forall_mem_singleton.2 rfl⟩
  | fly s a f =>
    exact List.forall_mem_cons.2
      ⟨rfl, List.forall_mem_cons.2 ⟨rfl, List.forall_mem_singleton.2 rfl⟩⟩
  | static => exact List.forall_mem_nil _

theorem Program.described_collectiblePayload (c : Collectible) :
    c.Described (collectiblePayload c) := ⟨rfl, rfl⟩

/-- How the statements begin that are made for the things of a family. -/
structure Script.Openings where
  /-- The group of the things is made. -/
  group : List Token
  /-- A thing is made and put into the group. -/
  create : List Token
  /-- What is done when the player meets a thing. -/
  overlap : List Token

namespace Family

open Script

def openings : Family → Openings
  | enemies =>
    { group := tokensOf "this.enemies = this.physics.add.group("
      create := tokensOf "const enemy = this.enemies.create("
      overlap := tokensOf "this.physics.add.overlap(this.player, this.enemies," }
  | collectibles =>
    { group := tokensOf "this.collectibles = this.physics.add.group("
      create := tokensOf "const item = this.collectibles.create("
      overlap := tokensOf "this.physics.add.overlap(this.player, this.collectibles," }

/-- The variable for a thing. -/
def member : Family → Token
  | enemies => .word ['e', 'n', 'e', 'm', 'y']
  | collectibles => .word ['i', 't', 'e', 'm']

/-- The field of a thing with its definition. -/
def definition : Family → String
  | enemies => "enemyDef"
  | collectibles => "collectDef"

/-- The field of a scene with the group of the things. -/
def groupWord : Family → Token
  | enemies => .word ['e', 'n', 'e', 'm', 'i', 'e', 's']
  | collectibles => .word ['c', 'o', 'l', 'l', 'e', 'c', 't', 'i', 'b', 'l', 'e', 's']

/-- The openings in a form that is quick to evaluate. -/
def spelledOpenings (f : Family) : Openings where
  group := this ++ [f.groupWord, .mark '='] ++ physics
    ++ [.mark '.', .word ['g', 'r', 'o', 'u', 'p'], .mark '(']
  create := [.word ['c', 'o', 'n', 's', 't'], f.member, .mark '='] ++ this
    ++ [f.groupWord, .mark '.', .word ['c', 'r', 'e', 'a', 't', 'e'], .mark '(']
  overlap := physics ++ [.mark '.', .word ['o', 'v', 'e', 'r', 'l', 'a', 'p'], .mark '('] ++ this
    ++ [.word ['p', 'l', 'a', 'y', 'e', 'r'], .mark ','] ++ this ++ [f.groupWord, .mark ',']
where
  this : List Token := [.word ['t', 'h', 'i', 's'], .mark '.']
  physics : List Token :=
    this ++ [.word ['p', 'h', 'y', 's', 'i', 'c', 's'], .mark '.', .word ['a', 'd', 'd']]

theorem openings_eq (f : Family) : f.openings = f.spelledOpenings := by
  cases f <;> rw [openings, tokensOf_ofList, tokensOf_ofList, tokensOf_ofList] <;> rfl

end Family

namespace Script

set_option maxRecDepth 2048

/-- What a scene does to have the things of a family. -/
inductive Setup
  | group
  /-- A thing is made, by the statement with the given tokens. -/
  | make (ts : List Token)
  /-- A thing is made in a block of its own, which has the given body. -/
  | thing (body : List (Stmt Token))
  | overlap

def Setup.isMake : Setup → Bool
  | make _ => true
  | _ => false

mutual

def setups (o : Openings) : Stmt Token → List Setup
  | .line ts =>
    if o.group.isPrefixOf ts then [.group]
    else if o.create.isPrefixOf ts then [.make ts]
    else []
  | .block header body =>
    (if o.overlap.isPrefixOf header then [.overlap] else [])
      ++ if (setupsAll o body).any Setup.isMake then [.thing body] else setupsAll o body

def setupsAll (o : Openings) : List (Stmt Token) → List Setup
  | [] => []
  | s :: ss => setups o s ++ setupsAll o ss

end

theorem setupsAll_eq (o : Openings) (ss : List (Stmt Token)) :
    setupsAll o ss = ss.flatMap (setups o) := by
  induction ss with
  | nil => rfl
  | cons s ss ih => rw [setupsAll, ih, List.flatMap_cons]

theorem setupsAll_append (o : Openings) (ss ss' : List (Stmt Token)) :
    setupsAll o (ss ++ ss') = setupsAll o ss ++ setupsAll o ss' := by
  simp only [setupsAll_eq, List.flatMap_append]

theorem isPrefixOf_eq_false {ts us : List Token} (hus : ∃ u ∈ us, u ∈ subjects)
    (h : ∀ t ∈ ts, t ∉ subjects) : us.isPrefixOf ts = false := by
  rw [Bool.eq_false_iff]
  intro hpre
  obtain ⟨u, hu, hsubject⟩ := hus
  exact h u ((List.isPrefixOf_iff_prefix.1 hpre).subset hu) hsubject

/-- Each opening has a word by which it is found. -/
structure Openings.Telling (o : Openings) : Prop where
  group : ∃ t ∈ o.group, t ∈ subjects
  create : ∃ t ∈ o.create, t ∈ subjects
  overlap : ∃ t ∈ o.overlap, t ∈ subjects

theorem telling_openings (f : Family) : f.openings.Telling := by
  rw [f.openings_eq]
  cases f <;> exact ⟨by decide, by decide, by decide⟩

mutual

theorem Openings.Telling.setups_eq_nil {o : Openings} (ho : o.Telling) : ∀ {s : Stmt Token},
    (∀ ts ∈ s.lines, ∀ t ∈ ts, t ∉ subjects) → setups o s = []
  | .line ts, h => by
    have hts := h ts (List.mem_singleton.2 rfl)
    rw [setups, isPrefixOf_eq_false ho.group hts, isPrefixOf_eq_false ho.create hts]
    rfl
  | .block header body, h => by
    rw [Stmt.lines, List.forall_mem_cons] at h
    rw [setups, isPrefixOf_eq_false ho.overlap h.1, ho.setupsAll_eq_nil h.2]
    rfl

theorem Openings.Telling.setupsAll_eq_nil (ho : o.Telling) :
    ∀ {ss : List (Stmt Token)}, (∀ ts ∈ Stmt.linesAll ss, ∀ t ∈ ts, t ∉ subjects) →
      setupsAll o ss = []
  | [], _ => rfl
  | s :: ss, h => by
    rw [Stmt.linesAll, List.forall_mem_append] at h
    rw [setupsAll, ho.setups_eq_nil h.1, ho.setupsAll_eq_nil h.2]
    rfl

end

/-- Only statements about enemies and collectibles matter. -/
theorem Openings.Telling.setupsAll_relevant (ho : o.Telling) (ss : List (Stmt Token)) :
    setupsAll o (relevant ss) = setupsAll o ss := by
  rw [setupsAll_eq, setupsAll_eq]
  exact flatMap_relevant (fun s hs => ho.setups_eq_nil (Stmt.speaks_eq_false_iff.1 hs)) ss

theorem setups_block (h : o.overlap.isPrefixOf header = false)
    (hmake : ∀ s ∈ setupsAll o body, s.isMake = false) :
    setups o (.block header body) = setupsAll o body := by
  rw [setups, h, List.any_eq_false.2 (by simpa using hmake)]
  rfl

/-! ## Things -/

/-- The field of a thing that a statement sets, and the rest of the statement. -/
def Stmt.assigned? (who : Token) : Stmt Token → Option (String × List Token)
  | line (t :: .mark '.' :: .word name :: .mark '=' :: value) =>
    if t = who then some (String.ofList name, value) else none
  | _ => none

/-- `ts` is what is written for the number. -/
def Stands (n : Number) (ts : List Token) : Prop :=
  ∃ s, n.literal = .ok s ∧ tokens? s.toList = some ts

/-- `ts` is what is written for the payload. -/
def Describes (j : Json) (ts : List Token) : Prop :=
  ∃ s, j.compact = .ok s ∧ tokens? s.toList = some ts

/-- The body of a block makes a thing of the family, once, in the given place and with the given
sprite. The thing has a definition, and no attributes but those given. -/
structure Creates (f : Family) (x y : Number) (sprite : String) (defined : Json → Prop)
    (attributes : List (String × Number)) (body : List (Stmt Token)) : Prop where
  made : ∃ xs ys, Stands x xs ∧ Stands y ys ∧
    setupsAll f.openings body = [.make (f.openings.create ++ (xs ++ .mark ',' :: (ys ++
      [.mark ',', .literal sprite, .mark ')', .mark ';'])))]
  assigned : ∃ j ts rest, defined j ∧ Describes j ts ∧
    body.filterMap (Stmt.assigned? f.member) = (f.definition, ts ++ [.mark ';']) :: rest ∧
    List.Forall₂ (fun a b => b.1 = a.1 ∧ ∃ ts, Stands a.2 ts ∧ b.2 = ts ++ [.mark ';'])
      attributes rest

/-- The statements set up the given things of one family, and nothing of the other. -/
def Sets (f : Family) (ss : List (Stmt Token)) (evs : List Setup) : Prop :=
  ∀ f' : Family, setupsAll f'.openings ss = if f' = f then evs else []

theorem Sets.of_spelled
    (h : (setupsAll Family.enemies.spelledOpenings ss = if .enemies = f then evs else []) ∧
      setupsAll Family.collectibles.spelledOpenings ss = if .collectibles = f then evs else []) :
    Sets f ss evs := by
  intro f'
  rw [f'.openings_eq]
  cases f' with
  | enemies => exact h.1
  | collectibles => exact h.2

namespace Sets

theorem nil : Sets f [] [] := fun _ => (ite_self _).symm

theorem append (h : Sets f ss evs) (h' : Sets f ss' evs') : Sets f (ss ++ ss') (evs ++ evs') := by
  intro f'
  rw [setupsAll_append, h, h']
  split
  · rfl
  · rfl

/-- A block in which a thing is made. -/
theorem thing (h : Sets f body [.make ts]) : Sets f [.block [] body] [.thing body] := by
  intro f'
  have hbody := h f'
  have hempty : f'.openings.overlap.isPrefixOf [] = false := by
    rw [f'.openings_eq]
    cases f' <;> rfl
  by_cases hf : f' = f
  · rw [if_pos hf] at hbody ⊢
    rw [setupsAll, setups, setupsAll, hempty, hbody]
    rfl
  · rw [if_neg hf] at hbody ⊢
    rw [setupsAll, setups, setupsAll, hempty, hbody]
    rfl

end Sets

/-- Rows that set up the given things of a family and give fields to them. -/
def Furnishes (f : Family) (rows : Listing) (evs : List Setup)
    (fields : List (String × List Token)) : Prop :=
  ∃ ss, Codes rows ss ∧ Sets f ss evs ∧ ss.filterMap (Stmt.assigned? f.member) = fields

namespace Furnishes

theorem of_signs (hspelled : SpelledAll rows qss)
    (hread : (framedSigns? qss).bind (stmts? Sign.mark?) = some ss)
    (hsets : Sets f (Stmt.images Sign.tokens ss) evs)
    (hfields : (Stmt.images Sign.tokens ss).filterMap (Stmt.assigned? f.member) = fields) :
    Furnishes f rows evs fields :=
  ⟨_, .of_signs hspelled hread rfl, hsets, hfields⟩

theorem append (h : Furnishes f rows evs fields) (h' : Furnishes f rows' evs' fields') :
    Furnishes f (rows ++ rows') (evs ++ evs') (fields ++ fields') := by
  obtain ⟨ss, hss, hsets, hfields⟩ := h
  obtain ⟨ss', hss', hsets', hfields'⟩ := h'
  refine ⟨ss ++ ss', hss.append hss', hsets.append hsets', ?_⟩
  rw [List.filterMap_append, hfields, hfields']

theorem append_fields (h : Furnishes f rows evs [field]) (h' : Furnishes f rows' [] fields) :
    Furnishes f (rows ++ rows') evs (field :: fields) :=
  List.append_nil evs ▸ h.append h'

theorem append_idle (h : Furnishes f rows evs fields) (h' : Furnishes f rows' [] []) :
    Furnishes f (rows ++ rows') evs fields := by
  have happend := h.append h'
  rwa [List.append_nil, List.append_nil] at happend

end Furnishes

/-- The value of a field that is set to a number. -/
def fieldOf (a : String × Number) : String × List Token :=
  (a.1, pieceTokens (num a.2) ++ [.mark ';'])

/-- The statement that makes a thing. -/
def makeTokens (f : Family) (x y : Number) (sprite : String) : List Token :=
  f.spelledOpenings.create ++ (pieceTokens (num x) ++ .mark ',' :: (pieceTokens (num y) ++
    [.mark ',', .literal sprite, .mark ')', .mark ';']))

theorem furnishes_movementSetup (m : Movement) (x y : Number) :
    Furnishes .enemies (movementSetup m x y) [] ((m.attributes x y).map fieldOf) := by
  cases m <;>
    exact .of_signs (by repeat' constructor) rfl (.of_spelled ⟨rfl, rfl⟩) rfl

theorem furnishes_playFirst (f : Family) (hwho : who = "enemy" ∨ who = "item") (sprite : String)
    (cs : List Clip) : Furnishes f (playFirst who sprite cs) [] [] := by
  cases cs with
  | nil => exact ⟨[], .nil, .nil, rfl⟩
  | cons c cs =>
    rcases hwho with rfl | rfl <;> cases f <;>
      exact .of_signs (by repeat' constructor) rfl (.of_spelled ⟨rfl, rfl⟩) rfl

/-- A block in which a thing is made. -/
theorem Furnishes.exists_block (h : Furnishes f rows [.make ts] fields) :
    ∃ body, Codes (block [] rows) [.block [] body] ∧ Sets f body [.make ts] ∧
      body.filterMap (Stmt.assigned? f.member) = fields := by
  obtain ⟨body, hcodes, hbody⟩ := h
  have hframe : Codes (block [] []) [.block [] []] :=
    .of_signs (by repeat' constructor) rfl rfl
  exact ⟨body, hframe.blockTo hcodes, hbody⟩

theorem exists_enemyBody (e : Enemy) (x y : Number) :
    ∃ body, Codes (enemyInstance e x y) [.block [] body] ∧
      Sets .enemies body [.make (makeTokens .enemies x y e.sprite)] ∧
      body.filterMap (Stmt.assigned? Family.enemies.member) =
        ("enemyDef", pieceTokens (.payload (enemyPayload e)) ++ [.mark ';']) ::
          (e.movement.attributes x y).map fieldOf := by
  refine Furnishes.exists_block (.append_fields (.append_idle ?_ (furnishes_playFirst .enemies
    (.inl rfl) e.sprite e.animations)) (furnishes_movementSetup e.movement x y))
  exact .of_signs (by repeat' constructor) rfl (.of_spelled ⟨rfl, rfl⟩) rfl

theorem exists_collectibleBody (c : Collectible) (x y : Number) :
    ∃ body, Codes (collectibleInstance c x y) [.block [] body] ∧
      Sets .collectibles body [.make (makeTokens .collectibles x y c.sprite)] ∧
      body.filterMap (Stmt.assigned? Family.collectibles.member) =
        [("collectDef", pieceTokens (.payload (collectiblePayload c)) ++ [.mark ';'])] := by
  refine Furnishes.exists_block (.append_idle ?_ (furnishes_playFirst .collectibles (.inr rfl)
    c.sprite c.animations))
  exact .of_signs (by repeat' constructor) rfl (.of_spelled ⟨rfl, rfl⟩) rfl

theorem stands_of_write (h : ∃ s, (num n).write = .ok s) : Stands n (pieceTokens (num n)) := by
  obtain ⟨s, hs⟩ := h
  exact ⟨s, hs, tokens?_number hs⟩

/-- What is made is what is meant, once all values are written. -/
theorem creates_of_sets {defined : Json → Prop}
    (hsets : Sets f body [.make (makeTokens f x y sprite)])
    (hassigned : body.filterMap (Stmt.assigned? f.member) =
      (f.definition, pieceTokens (.payload j) ++ [.mark ';']) :: attributes.map fieldOf)
    (hj : defined j) (hwrites : ∀ p ∈ num x :: num y :: .payload j :: attributes.map (num ·.2),
      ∃ s, p.write = .ok s) : Creates f x y sprite defined attributes body := by
  simp only [List.forall_mem_cons, List.forall_mem_map] at hwrites
  obtain ⟨hx, hy, ⟨s, hs⟩, hattributes⟩ := hwrites
  refine ⟨⟨_, _, stands_of_write hx, stands_of_write hy, ?_⟩, j, _, _, hj,
    ⟨s, hs, tokens?_payload hs⟩, hassigned, ?_⟩
  · rw [hsets f, if_pos rfl, f.openings_eq]
    rfl
  · rw [List.forall₂_map_right_iff, List.forall₂_same]
    exact fun a ha => ⟨rfl, _, stands_of_write (hattributes a ha), rfl⟩

theorem writes_of_blockTo (h : ∀ r ∈ blockTo close header body, r.Writes) :
    ∀ r ∈ body, r.Writes := by
  intro r hr
  exact h r (by simp [blockTo, indent, hr])

theorem write_attributes (h : ∀ r ∈ movementSetup m x y, r.Writes) :
    ∀ a ∈ m.attributes x y, ∃ s, (num a.2).write = .ok s := by
  cases m <;> simp_all [movementSetup, Movement.attributes, Row.Writes, line]

/-- An enemy is made in a block of its own. -/
theorem exists_codes_enemyInstance (e : Enemy) (x y : Number) :
    ∃ body, Codes (enemyInstance e x y) [.block [] body] ∧
      Sets .enemies [.block [] body] [.thing body] ∧
      ((∀ r ∈ enemyInstance e x y, r.Writes) →
        Creates .enemies x y e.sprite e.Described (e.movement.attributes x y) body) := by
  obtain ⟨body, hcodes, hsets, hassigned⟩ := exists_enemyBody e x y
  refine ⟨body, hcodes, hsets.thing, fun hwrites => ?_⟩
  have hbody := writes_of_blockTo hwrites
  simp only [List.forall_mem_append, List.forall_mem_cons] at hbody
  obtain ⟨⟨⟨hmake, _, _, hdefinition, _⟩, _⟩, hmovement⟩ := hbody
  refine creates_of_sets hsets hassigned (described_enemyPayload e) ?_
  simp only [List.forall_mem_cons, List.forall_mem_map]
  exact ⟨hmake _ (by simp [line]), hmake _ (by simp [line]), hdefinition _ (by simp [line]),
    write_attributes hmovement⟩

/-- A collectible is made in a block of its own. -/
theorem exists_codes_collectibleInstance (c : Collectible) (x y : Number) :
    ∃ body, Codes (collectibleInstance c x y) [.block [] body] ∧
      Sets .collectibles [.block [] body] [.thing body] ∧
      ((∀ r ∈ collectibleInstance c x y, r.Writes) →
        Creates .collectibles x y c.sprite c.Described [] body) := by
  obtain ⟨body, hcodes, hsets, hassigned⟩ := exists_collectibleBody c x y
  refine ⟨body, hcodes, hsets.thing, fun hwrites => ?_⟩
  have hbody := writes_of_blockTo hwrites
  simp only [List.forall_mem_append, List.forall_mem_cons] at hbody
  obtain ⟨⟨hmake, hdefinition, _⟩, _⟩ := hbody
  refine creates_of_sets hsets hassigned (described_collectiblePayload c) ?_
  simp only [List.forall_mem_cons, List.map_nil]
  exact ⟨hmake _ (by simp [line]), hmake _ (by simp [line]), hdefinition _ (by simp [line]),
    List.forall_mem_nil _⟩

/-! ## Levels -/

/-- Rows that set up the given things of a family. -/
def SetsUp (f : Family) (rows : Listing) (evs : List Setup) : Prop :=
  ∃ ss, Codes rows ss ∧ Sets f ss evs

namespace SetsUp

theorem nil : SetsUp f [] [] := ⟨[], .nil, .nil⟩

theorem of_signs (hspelled : SpelledAll rows qss)
    (hread : (framedSigns? qss).bind (stmts? Sign.mark?) = some ss)
    (hsets : Sets f (Stmt.images Sign.tokens ss) evs) : SetsUp f rows evs :=
  ⟨_, .of_signs hspelled hread rfl, hsets⟩

theorem append (h : SetsUp f rows evs) (h' : SetsUp f rows' evs') :
    SetsUp f (rows ++ rows') (evs ++ evs') := by
  obtain ⟨ss, hss, hsets⟩ := h
  obtain ⟨ss', hss', hsets'⟩ := h'
  exact ⟨ss ++ ss', hss.append hss', hsets.append hsets'⟩

theorem append_idle (h : SetsUp f rows evs) (h' : SetsUp f rows' []) :
    SetsUp f (rows ++ rows') evs :=
  List.append_nil evs ▸ h.append h'

theorem idle_append (h : SetsUp f rows []) (h' : SetsUp f rows' evs) :
    SetsUp f (rows ++ rows') evs :=
  h.append h'

theorem blank : SetsUp f [blank] [] :=
  of_signs (by repeat' constructor) rfl .nil

theorem flatMap {rows : α → Listing} {evs : α → List Setup} {xs : List α}
    (h : ∀ x ∈ xs, SetsUp f (rows x) (evs x)) : SetsUp f (xs.flatMap rows) (xs.flatMap evs) := by
  induction xs with
  | nil => exact nil
  | cons x xs ih =>
    rw [List.forall_mem_cons] at h
    exact h.1.append (ih h.2)

theorem flatMap_idle {rows : α → Listing} {xs : List α} (h : ∀ x ∈ xs, SetsUp f (rows x) []) :
    SetsUp f (xs.flatMap rows) [] := by
  have hsets : SetsUp f (xs.flatMap rows) (xs.flatMap fun _ => []) := flatMap h
  rwa [List.flatMap_eq_nil_iff.2 fun _ _ => rfl] at hsets

/-- Rows for those members of a list for which something is found. -/
theorem filterMap {rows : α → Listing} {find : α → Option β} {ev : β → Setup} {xs : List α}
    (hsome : ∀ x y, find x = some y → SetsUp f (rows x) [ev y])
    (hnone : ∀ x, find x = none → SetsUp f (rows x) []) :
    SetsUp f (xs.flatMap rows) ((xs.filterMap find).map ev) := by
  rw [List.map_filterMap, List.filterMap_eq_flatMap_toList]
  refine flatMap fun x _ => ?_
  cases h : find x with
  | none => exact hnone x h
  | some y => exact hsome x y h

end SetsUp

theorem setsUp_enemyCollision (l : Level) (defeatAll : Bool) :
    SetsUp .enemies (enemyCollision l defeatAll) [.overlap] := by
  have hlayers : SetsUp .enemies ((tiledLayers l).map fun p =>
      line ["if (", .name (layerField p.1), ") this.physics.add.collider(this.enemies, ",
        .name (layerField p.1), ");"]) [] := by
    rw [List.map_eq_flatMap]
    exact .flatMap_idle fun p _ =>
      .of_signs (by repeat' constructor) rfl (.of_spelled ⟨rfl, rfl⟩)
  refine .idle_append (.append_idle (.append_idle ?_ hlayers) .blank) ?_
  · exact .of_signs (by repeat' constructor) rfl (.of_spelled ⟨rfl, rfl⟩)
  · cases defeatAll <;> exact .of_signs (by repeat' constructor) rfl (.of_spelled ⟨rfl, rfl⟩)

theorem setsUp_collectibleCollision (goal : Option String) :
    SetsUp .collectibles (collectibleCollision goal) [.overlap] := by
  cases goal <;> exact .of_signs (by repeat' constructor) rfl (.of_spelled ⟨rfl, rfl⟩)

/-- What a level does to have its things of a family. -/
def populated (ps : List Placement) (bodies : List (List (Stmt Token))) : List Setup :=
  if ps.isEmpty then [] else .group :: bodies.map .thing ++ [.overlap]

/-- The placements of declared things, each with the first declaration of its name. -/
def declared (name : α → String) (as : List α) (ps : List Placement) : List (Placement × α) :=
  ps.filterMap fun p => (as.find? fun a => name a == p.entity).map (p, ·)

/-- The rows for the things of a family, whichever it is. -/
theorem setsUp_section {name : α → String} {as : List α} {rows : Placement → Listing}
    {body : α → Number → Number → List (Stmt Token)} (hgroup : SetsUp f (r :: group) [.group])
    (hcollision : SetsUp f collision [.overlap])
    (hsome : ∀ p a, as.find? (fun a => name a == p.entity) = some a →
      SetsUp f (rows p) [.thing (body a p.x p.y)])
    (hnone : ∀ p : Placement, as.find? (fun a => name a == p.entity) = none →
      SetsUp f (rows p) []) : let create := if ps.isEmpty then [] else r :: group ++ ps.flatMap rows
    SetsUp f (if create.isEmpty then [] else create ++ collision ++ [blank])
      (populated ps ((declared name as ps).map fun q => body q.2 q.1.x q.1.y)) := by
  unfold populated
  cases hps : ps.isEmpty with
  | true => exact .nil
  | false =>
    have hthings : SetsUp f (ps.flatMap rows)
        (((declared name as ps).map fun q => body q.2 q.1.x q.1.y).map .thing) := by
      rw [List.map_map]
      refine .filterMap (fun p q hq => ?_) fun p hp => hnone p (Option.map_eq_none_iff.1 hp)
      obtain ⟨a, ha, rfl⟩ := Option.map_eq_some_iff.1 hq
      exact hsome p a ha
    exact .append_idle (.append (.append hgroup hthings) hcollision) .blank

theorem setsUp_enemySection (g : Game) (l : Level)
    {body : Enemy → Number → Number → List (Stmt Token)}
    (h : ∀ e x y, SetsUp .enemies (enemyInstance e x y) [.thing (body e x y)]) :
    SetsUp .enemies (enemySection g l) (populated l.enemies
      ((declared Enemy.name g.enemies l.enemies).map fun q => body q.2 q.1.x q.1.y)) := by
  have hfind (p : Placement) :
      g.symbols.enemy? p.entity = g.enemies.find? fun e => e.name == p.entity :=
    Registry.lookup_ofList ..
  refine setsUp_section ?_ (setsUp_enemyCollision l _) (fun p e he => ?_) fun p hp => ?_
  · exact .of_signs (by repeat' constructor) rfl (.of_spelled ⟨rfl, rfl⟩)
  · rw [hfind p, he]
    exact h e p.x p.y
  · rw [hfind p, hp]
    exact .nil

theorem setsUp_collectibleSection (g : Game) (l : Level)
    {body : Collectible → Number → Number → List (Stmt Token)}
    (h : ∀ c x y, SetsUp .collectibles (collectibleInstance c x y) [.thing (body c x y)]) :
    SetsUp .collectibles (collectibleSection g l) (populated l.collectibles
      ((declared Collectible.name g.collectibles l.collectibles).map
        fun q => body q.2 q.1.x q.1.y)) := by
  have hfind (p : Placement) :
      g.symbols.collectible? p.entity = g.collectibles.find? fun c => c.name == p.entity :=
    Registry.lookup_ofList ..
  refine setsUp_section ?_ (setsUp_collectibleCollision _) (fun p c hc => ?_) fun p hp => ?_
  · exact .of_signs (by repeat' constructor) rfl (.of_spelled ⟨rfl, rfl⟩)
  · rw [hfind p, hc]
    exact h c p.x p.y
  · rw [hfind p, hp]
    exact .nil

theorem setsUp_enemyUpdate (es : List Enemy) : SetsUp .enemies (enemyUpdate es) [] := by
  rw [enemyUpdate_eq]
  cases usesMovement es .patrol <;> cases usesMovement es .chase <;>
    cases usesMovement es .fly <;>
    exact .of_signs (by repeat' constructor) rfl (.of_spelled ⟨rfl, rfl⟩)

/-- The class of a scene with the given members, of which one sets up the scene, has the things of a
family in the given places. -/
def Populates (f : Family) (ps : List Placement) (things : List (Placement × α))
    (creates : Placement → α → List (Stmt Token) → Prop) (create members : List (Stmt Token)) :
    Prop :=
  ∃ bodies, List.Forall₂ (fun q => creates q.1 q.2) things bodies ∧
    setupsAll f.openings create = populated ps bodies ∧
    setupsAll f.openings members = setupsAll f.openings create

theorem isMake_populated (ps : List Placement) (bodies : List (List (Stmt Token))) :
    ∀ s ∈ populated ps bodies, s.isMake = false := by
  unfold populated
  split
  · exact List.forall_mem_nil _
  · exact List.forall_mem_append.2
      ⟨List.forall_mem_cons.2 ⟨rfl, List.forall_mem_map.2 fun _ _ => rfl⟩,
        List.forall_mem_singleton.2 rfl⟩

namespace LevelCode

theorem setupsAll_create (h : LevelCode enemies collectibles behaviour create update members)
    (f : Family) :
    setupsAll f.openings create =
      setupsAll f.openings enemies ++ setupsAll f.openings collectibles := by
  have ho := telling_openings f
  rw [← ho.setupsAll_relevant create, h.relevant_create, setupsAll_append, ho.setupsAll_relevant,
    ho.setupsAll_relevant]

theorem setupsAll_update (h : LevelCode enemies collectibles behaviour create update members)
    (f : Family) : setupsAll f.openings update = setupsAll f.openings behaviour := by
  have ho := telling_openings f
  rw [← ho.setupsAll_relevant update, h.relevant_update, ho.setupsAll_relevant]

/-- Things are set up where the scene is set up, and nowhere else. -/
theorem setupsAll_members (h : LevelCode enemies collectibles behaviour create update members)
    {f : Family} (hmake : ∀ s ∈ setupsAll f.openings create, s.isMake = false)
    (hupdate : setupsAll f.openings behaviour = []) :
    setupsAll f.openings members = setupsAll f.openings create := by
  have ho := telling_openings f
  have hheader : f.openings.overlap.isPrefixOf (tokensOf "create()") = false := by
    rw [f.openings_eq, tokensOf_ofList]
    cases f <;> rfl
  have hheader' : f.openings.overlap.isPrefixOf (tokensOf "update(time, delta)") = false := by
    rw [f.openings_eq, tokensOf_ofList]
    cases f <;> rfl
  have hnone : setupsAll f.openings update = [] := (h.setupsAll_update f).trans hupdate
  rw [← ho.setupsAll_relevant members, h.relevant_members, ho.setupsAll_relevant, setupsAll,
    setupsAll, setupsAll, setups_block hheader hmake, setups_block hheader' (by simp [hnone]),
    hnone, List.append_nil, List.append_nil]

end LevelCode

theorem writes_levelCreate (h : ∀ r ∈ levelListing g l index, r.Writes) :
    ∀ r ∈ levelCreate g l, r.Writes := by
  have hmembers := writes_of_blockTo h
  simp only [List.forall_mem_append] at hmembers
  exact hmembers.1.1.1.1.1.1.1.1.2

/-- What is written of a section is written of its things, whichever the family. -/
theorem writes_of_section {ps : List Placement} {group collision : Listing}
    {rows : Placement → Listing}
    (h : let create := if ps.isEmpty then [] else group ++ ps.flatMap rows
      ∀ r ∈ if create.isEmpty then [] else create ++ collision ++ [blank], r.Writes)
    (hp : p ∈ ps) : ∀ r ∈ rows p, r.Writes := by
  intro r hr
  have hcreate : r ∈ if ps.isEmpty then [] else group ++ ps.flatMap rows := by
    rw [if_neg (by simpa using List.ne_nil_of_mem hp)]
    exact List.mem_append_right _ (List.mem_flatMap.2 ⟨p, hp, hr⟩)
  apply h
  rw [if_neg (by simpa using List.ne_nil_of_mem hcreate)]
  exact List.mem_append_left _ (List.mem_append_left _ hcreate)

theorem writes_enemyInstance (h : ∀ r ∈ levelListing g l index, r.Writes)
    (hq : (p, e) ∈ declared Enemy.name g.enemies l.enemies) :
    ∀ r ∈ enemyInstance e p.x p.y, r.Writes := by
  have hcreate := writes_of_blockTo (writes_levelCreate h)
  simp only [List.forall_mem_append] at hcreate
  obtain ⟨p', hp, hfind⟩ := List.mem_filterMap.1 hq
  obtain ⟨e', he, heq⟩ := Option.map_eq_some_iff.1 hfind
  cases heq
  have hsymbols : g.symbols.enemy? p.entity = some e := (Registry.lookup_ofList ..).trans he
  have hrows := writes_of_section hcreate.1.1.1.1.1.1.2 hp
  simpa only [hsymbols] using hrows

theorem writes_collectibleInstance (h : ∀ r ∈ levelListing g l index, r.Writes)
    (hq : (p, c) ∈ declared Collectible.name g.collectibles l.collectibles) :
    ∀ r ∈ collectibleInstance c p.x p.y, r.Writes := by
  have hcreate := writes_of_blockTo (writes_levelCreate h)
  simp only [List.forall_mem_append] at hcreate
  obtain ⟨p', hp, hfind⟩ := List.mem_filterMap.1 hq
  obtain ⟨c', hc, heq⟩ := Option.map_eq_some_iff.1 hfind
  cases heq
  have hsymbols : g.symbols.collectible? p.entity = some c := (Registry.lookup_ofList ..).trans hc
  have hrows := writes_of_section hcreate.1.1.1.1.1.2 hp
  simpa only [hsymbols] using hrows

/-- A scene is read as a class, whose methods set up what is placed in the level and do what
enemies do. -/
theorem exists_level {g : Game} {l : Level} {index : Nat} {b : Sheet}
    (hb : (levelListing g l index).sheet = .ok b) (hbs : Codes (enemyUpdate g.enemies) behaviour)
    (hidle : Sets .enemies behaviour []) :
    ∃ key members create update, codeOf? b.lines = some [.block key members] ∧
      methods "create()" members = [create] ∧ methods "update(time, delta)" members = [update] ∧
      relevant update = relevant behaviour ∧
      Populates .enemies l.enemies (declared Enemy.name g.enemies l.enemies)
        (fun p e => Creates .enemies p.x p.y e.sprite e.Described
          (e.movement.attributes p.x p.y)) create members ∧
      Populates .collectibles l.collectibles
        (declared Collectible.name g.collectibles l.collectibles)
        (fun p c => Creates .collectibles p.x p.y c.sprite c.Described []) create members := by
  have hwrites := (written_of_sheet hb).writes
  choose enemy henemy hthing henemy' using exists_codes_enemyInstance
  choose item hitem hthing' hitem' using exists_codes_collectibleInstance
  obtain ⟨enemies, hes, hsets⟩ :=
    setsUp_enemySection g l fun e x y => ⟨_, henemy e x y, hthing e x y⟩
  obtain ⟨collectibles, hcs, hsets'⟩ :=
    setsUp_collectibleSection g l fun c x y => ⟨_, hitem c x y, hthing' c x y⟩
  obtain ⟨key, create, update, members, hcodes, hcode⟩ := exists_levelCode index hes hcs hbs
  have hnone (f : Family) : setupsAll f.openings behaviour = [] := by
    rw [hidle f, ite_self]
  refine ⟨key, members, create, update, hcodes _ _ _ (written_of_sheet hb), hcode.create_eq,
    hcode.update_eq, hcode.relevant_update, ?_, ?_⟩
  · have hcreate := hcode.setupsAll_create .enemies
    rw [hsets .enemies, hsets' .enemies, if_pos rfl, if_neg (by decide), List.append_nil] at hcreate
    refine ⟨_, ?_, hcreate, hcode.setupsAll_members ?_ (hnone .enemies)⟩
    · rw [List.forall₂_map_right_iff, List.forall₂_same]
      exact fun q hq => henemy' _ _ _ (writes_enemyInstance hwrites hq)
    · exact hcreate ▸ isMake_populated _ _
  · have hcreate := hcode.setupsAll_create .collectibles
    rw [hsets .collectibles, hsets' .collectibles, if_pos rfl, if_neg (by decide),
      List.nil_append] at hcreate
    refine ⟨_, ?_, hcreate, hcode.setupsAll_members ?_ (hnone .collectibles)⟩
    · rw [List.forall₂_map_right_iff, List.forall₂_same]
      exact fun q hq => hitem' _ _ _ (writes_collectibleInstance hwrites hq)
    · exact hcreate ▸ isMake_populated _ _

/-- The scene of a level has the enemies and collectibles that are placed there and declared, in the
order of the placements. Each is made where it is placed, as the first declaration of its name says.
A group, and what is done when the player meets one of its things, are there exactly if anything is
placed. The placements that are left out are the ones that are reported. -/
theorem populates_levelListing {g : Game} {l : Level} {index : Nat} {b : Sheet}
    (hb : (levelListing g l index).sheet = .ok b) (strict : Bool) :
    (∃ key members create, codeOf? b.lines = some [.block key members] ∧
      methods "create()" members = [create] ∧
      Populates .enemies l.enemies (declared Enemy.name g.enemies l.enemies)
        (fun p e => Creates .enemies p.x p.y e.sprite e.Described
          (e.movement.attributes p.x p.y)) create members ∧
      Populates .collectibles l.collectibles
        (declared Collectible.name g.collectibles l.collectibles)
        (fun p c => Creates .collectibles p.x p.y c.sprite c.Described []) create members) ∧
    ∀ f : Family, misplaced f (g.violations strict) = g.levels.flatMap fun l =>
      ((f.placements l).filter fun p => !f.declares g p.entity).map
        fun p => (l.name, p.entity) := by
  obtain ⟨behaviour, hbs, hidle⟩ := setsUp_enemyUpdate g.enemies
  obtain ⟨key, members, create, _, hcode, hcreate, _, _, henemies, hcollectibles⟩ :=
    exists_level hb hbs hidle
  exact ⟨⟨key, members, create, hcode, hcreate, henemies, hcollectibles⟩,
    fun f => g.misplaced_violations f strict⟩

/-- A level with two bats, a ghost and a gem. -/
def meadow : Level :=
  { name := "meadow"
    enemies := [⟨"bat", .int 5, .int 6⟩, ⟨"ghost", .int 1, .int 2⟩, ⟨"bat", .int 7, .int 8⟩]
    collectibles := [⟨"gem", .int 3, .int 4⟩] }

/-- Bats are declared twice, ghosts and gems not at all. -/
def meadowGame : Game :=
  { title := some "t"
    enemies := [{ name := "bat", movement := some (.fly none none none) },
      { name := "bat", movement := some (.chase none none) }]
    collectibles := [{ name := "coin" }]
    levels := [meadow] : Draft }.complete

theorem populates_levelListing_meadow :
    ∃ bat b key members create body body', meadowGame.enemies.head? = some bat ∧
      (levelListing meadowGame meadow 0).sheet = .ok b ∧
      codeOf? b.lines = some [.block key members] ∧ methods "create()" members = [create] ∧
      setupsAll Family.enemies.openings create = [.group, .thing body, .thing body', .overlap] ∧
      Creates .enemies (.int 5) (.int 6) bat.sprite bat.Described
        (bat.movement.attributes (.int 5) (.int 6)) body ∧
      Creates .enemies (.int 7) (.int 8) bat.sprite bat.Described
        (bat.movement.attributes (.int 7) (.int 8)) body' ∧
      setupsAll Family.collectibles.openings create = [.group, .overlap] ∧
      misplaced .enemies (meadowGame.violations false) = [("meadow", "ghost")] ∧
      misplaced .collectibles (meadowGame.violations false) = [("meadow", "gem")] := by
  obtain ⟨b, hb⟩ := exists_of_isOk
    (show (levelListing meadowGame meadow 0).sheet.isOk = true by decide +kernel)
  obtain ⟨⟨key, members, create, hcode, hmethod, ⟨bodies, hbodies, hcreate, -⟩,
    ⟨bodies', hbodies', hcreate', -⟩⟩, hmisplaced⟩ := populates_levelListing hb false
  obtain - | ⟨hbody, - | ⟨hbody', ⟨⟩⟩⟩ := hbodies
  cases hbodies'
  exact ⟨_, b, key, members, create, _, _, rfl, hb, hcode, hmethod, hcreate, hbody, hbody',
    hcreate', hmisplaced .enemies, hmisplaced .collectibles⟩

end Script

end PlatformGame
