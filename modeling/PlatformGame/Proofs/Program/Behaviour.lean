import PlatformGame.Proofs.Program.Placements

/-! # How enemies behave

The scene of a level has a branch for each kind of movement that an enemy of the game has, and a
branch reads only what an enemy of its kind is given where it is placed
(`branches_levelListing`). -/

namespace PlatformGame

open Program

/-- The attributes of an enemy that its behaviour depends on, apart from those of all sprites. -/
def MovementKind.attributes : MovementKind → List String
  | patrol => ["patrolOriginX", "patrolDistance"]
  | chase => ["chaseRange", "chaseSpeed"]
  | fly => ["flyOriginY", "flyFrequency", "flyAmplitude"]
  | static => []

theorem Movement.attributes_subset (m : Movement) (x y : Number) :
    m.kind.attributes ⊆ (m.attributes x y).map Prod.fst := by
  cases m <;> simp [kind, MovementKind.attributes, attributes]

namespace Script

-- The longest rows have more than a hundred characters, each a step of the reading.
set_option maxRecDepth 2048

/-! ## Branches -/

mutual

/-- All blocks, also those inside others, with their headers. -/
def Stmt.blocks : Stmt α → List (List α × List (Stmt α))
  | line _ => []
  | block header body => (header, body) :: blocksAll body

def Stmt.blocksAll : List (Stmt α) → List (List α × List (Stmt α))
  | [] => []
  | s :: ss => blocks s ++ blocksAll ss

end

/-- The kind of movement that a header tests for. -/
def tested? (header : List Token) : Option String :=
  if (tokensOf "if (def.movement.kind ===").isPrefixOf header then header.findSome? Token.literal?
  else none

/-- What is done for each kind of movement. -/
def branches (ss : List (Stmt Token)) : List (String × List (Stmt Token)) :=
  (Stmt.blocksAll ss).filterMap fun p => (tested? p.1).map (·, p.2)

/-- The members of an enemy that tokens name. -/
def membersOf (who : Token) : List Token → List String
  | [] => []
  | t :: ts => (member? t ts).toList ++ membersOf who ts
where
  member? (t : Token) : List Token → Option String
    | .mark '.' :: .word name :: _ => if t = who then some (String.ofList name) else none
    | _ => none

/-- What every sprite has. -/
def spriteMembers : List String := ["x", "y", "body", "setVelocityX", "setFlipX"]

/-- The attributes of enemies that statements use, apart from those of all sprites. -/
def attributesIn (ss : List (Stmt Token)) : List String :=
  ((Stmt.linesAll ss).flatMap (membersOf Family.enemies.member)).filter (· ∉ spriteMembers)

/-- Whether a statement, or one inside, names an enemy or the enemies. -/
def Stmt.namesEnemies (s : Stmt Token) : Bool :=
  s.lines.any (·.any (· ∈ [Family.enemies.member, Family.enemies.groupWord]))

theorem Stmt.blocksAll_eq (ss : List (Stmt α)) : blocksAll ss = ss.flatMap blocks := by
  induction ss with
  | nil => rfl
  | cons s ss ih => rw [blocksAll, ih, List.flatMap_cons]

mutual

theorem Stmt.mem_lines_of_mem_blocks : ∀ {s : Stmt α}, p ∈ s.blocks → p.1 ∈ s.lines
  | block header body, h => by
    rw [blocks] at h
    rw [lines]
    rcases List.mem_cons.1 h with rfl | h
    · exact List.mem_cons_self
    · exact List.mem_cons_of_mem _ (mem_linesAll_of_mem_blocksAll h)

theorem Stmt.mem_linesAll_of_mem_blocksAll : ∀ {ss : List (Stmt α)},
    p ∈ blocksAll ss → p.1 ∈ linesAll ss
  | s :: ss, h => by
    rw [linesAll, List.mem_append]
    rcases List.mem_append.1 h with h | h
    · exact .inl (mem_lines_of_mem_blocks h)
    · exact .inr (mem_linesAll_of_mem_blocksAll h)

end

theorem tested?_eq_none (h : ∀ t ∈ header, t ∉ subjects) : tested? header = none := by
  have hkind : ∃ t ∈ tokensOf "if (def.movement.kind ===", t ∈ subjects := by
    rw [tokensOf_ofList]
    decide
  rw [tested?, isPrefixOf_eq_false hkind h]
  rfl

/-- Branches are found in relevant statements. -/
theorem branches_relevant (ss : List (Stmt Token)) : branches (relevant ss) = branches ss := by
  simp only [branches, Stmt.blocksAll_eq, List.filterMap_flatMap]
  refine flatMap_relevant (fun s hs => List.filterMap_eq_nil_iff.2 fun p hp => ?_) ss
  rw [tested?_eq_none (Stmt.speaks_eq_false_iff.1 hs _ (Stmt.mem_lines_of_mem_blocks hp))]
  rfl

theorem Stmt.speaks_of_namesEnemies {s : Stmt Token} (h : s.namesEnemies = true) :
    s.speaks = true := by
  have hsubjects : [Family.enemies.member, Family.enemies.groupWord] ⊆ subjects := by decide
  obtain ⟨ts, hts, h⟩ := List.any_eq_true.1 h
  obtain ⟨t, ht, h⟩ := List.any_eq_true.1 h
  refine List.any_eq_true.2 ⟨ts, hts, List.any_eq_true.2 ⟨t, ht, decide_eq_true ?_⟩⟩
  exact hsubjects (of_decide_eq_true h)

theorem any_namesEnemies_relevant (ss : List (Stmt Token)) :
    (relevant ss).any Stmt.namesEnemies = ss.any Stmt.namesEnemies := by
  rw [relevant, List.any_filter]
  congr
  funext s
  cases h : s.namesEnemies with
  | false => rw [Bool.and_false]
  | true => rw [Stmt.speaks_of_namesEnemies h, Bool.and_true]

theorem usesMovement_iff (es : List Enemy) :
    (usesMovement es .patrol || usesMovement es .chase || usesMovement es .fly) = true ↔
      ∃ e ∈ es, e.movement.kind ≠ .static := by
  have hkind (k : MovementKind) : k ≠ .static ↔ (k = .patrol ∨ k = .chase) ∨ k = .fly := by
    cases k <;> decide
  simp only [usesMovement, Bool.or_eq_true, List.any_eq_true, beq_iff_eq, hkind]
  grind

theorem map_filter_kinds (uses : MovementKind → Bool) (f : MovementKind → α) :
    ([(uses .patrol, MovementKind.patrol), (uses .chase, .chase), (uses .fly, .fly)].filter
      Prod.fst).map (fun p => f p.2) = ([.patrol, .chase, .fly].filter uses).map f := by
  simp only [List.filter_cons]
  cases uses .patrol <;> cases uses .chase <;> cases uses .fly <;> rfl

theorem exists_codes_behaviourOf (patrol chase fly : Bool) :
    ∃ ss, Codes (behaviourOf patrol chase fly) ss ∧ Sets .enemies ss [] ∧
      ss.any Stmt.namesEnemies = (patrol || chase || fly) ∧
      (branches ss).map (fun p => (p.1, attributesIn p.2)) =
        ([(patrol, MovementKind.patrol), (chase, .chase), (fly, .fly)].filter Prod.fst).map
          fun p => (p.2.text, p.2.attributes) := by
  cases patrol <;> cases chase <;> cases fly <;>
    exact ⟨_, .of_signs (by repeat' constructor) rfl rfl, .of_spelled ⟨rfl, rfl⟩, rfl, rfl⟩

/-! ## Levels -/

/-- The body of a block that makes an enemy gives it all that its behaviour depends on, for the
given kind of movement. -/
structure Equips (k : MovementKind) (body : List (Stmt Token)) : Prop where
  attributes : ∀ a ∈ k.attributes,
    ∃ value, (a, value) ∈ body.filterMap (Stmt.assigned? Family.enemies.member)
  kind : ∃ j m ts,
    ("enemyDef", ts ++ [.mark ';']) ∈ body.filterMap (Stmt.assigned? Family.enemies.member) ∧
    Describes j ts ∧ j.field? "movement" = some m ∧ m.field? "kind" = some (.text k.text)

theorem Creates.equips {e : Enemy}
    (h : Creates .enemies x y sprite e.Described (e.movement.attributes x y) body) :
    Equips e.movement.kind body := by
  obtain ⟨j, ts, rest, hj, hts, hassigned, hrest⟩ := h.assigned
  obtain ⟨m, hm, hkind, -⟩ := hj.movement
  refine ⟨fun a ha => ?_, j, m, ts, hassigned ▸ List.mem_cons_self, hts, hm, hkind⟩
  have hnames : List.Forall₂ Eq ((e.movement.attributes x y).map Prod.fst) (rest.map Prod.fst) := by
    rw [List.forall₂_map_left_iff, List.forall₂_map_right_iff]
    exact hrest.imp fun _ _ h => h.1.symm
  rw [List.forall₂_eq_eq_eq] at hnames
  have hmem : a ∈ rest.map Prod.fst := hnames ▸ e.movement.attributes_subset x y ha
  obtain ⟨⟨_, value⟩, hvalue, rfl⟩ := List.mem_map.1 hmem
  exact ⟨value, hassigned ▸ List.mem_cons_of_mem _ hvalue⟩

/-- The scene of a level has a branch for each kind of movement that an enemy of the game has, apart
from enemies that do not move, and no others. A branch depends on what is listed for its kind. If
no enemy moves, nothing is done with enemies in a frame. Every enemy that is placed in the level is
given what its branch depends on, and the kind that the branch tests for. -/
theorem branches_levelListing {g : Game} {l : Level} {index : Nat} {b : Sheet}
    (hb : (levelListing g l index).sheet = .ok b) :
    ∃ key members create update bodies, codeOf? b.lines = some [.block key members] ∧
      methods "create()" members = [create] ∧ methods "update(time, delta)" members = [update] ∧
      (branches update).map (fun p => (p.1, attributesIn p.2)) =
        ([.patrol, .chase, .fly].filter fun k => g.enemies.any (·.movement.kind == k)).map
          (fun k => (k.text, k.attributes)) ∧
      (update.any Stmt.namesEnemies = true ↔ ∃ e ∈ g.enemies, e.movement.kind ≠ .static) ∧
      setupsAll Family.enemies.openings create = populated l.enemies bodies ∧
      List.Forall₂ (fun q => Equips q.2.movement.kind)
        (declared Enemy.name g.enemies l.enemies) bodies := by
  obtain ⟨behaviour, hbs, hidle, hnames, hbranches⟩ := exists_codes_behaviourOf
    (usesMovement g.enemies .patrol) (usesMovement g.enemies .chase) (usesMovement g.enemies .fly)
  rw [← enemyUpdate_eq] at hbs
  obtain ⟨key, members, create, update, hcode, hcreate, hupdate, hrelevant,
    ⟨bodies, hbodies, hsets, _⟩, _⟩ := exists_level hb hbs hidle
  refine ⟨key, members, create, update, bodies, hcode, hcreate, hupdate, ?_, ?_, hsets,
    hbodies.imp fun _ _ h => h.equips⟩
  · rw [← branches_relevant update, hrelevant, branches_relevant, hbranches]
    exact map_filter_kinds (usesMovement g.enemies) fun k => (k.text, k.attributes)
  · rw [← any_namesEnemies_relevant update, hrelevant, any_namesEnemies_relevant, hnames]
    exact usesMovement_iff g.enemies

/-- In the meadow there are bats that fly. The second declaration of bats is in no level, but its
movement has a branch. -/
theorem branches_levelListing_meadow :
    ∃ b key members create update body body',
      (levelListing meadowGame meadow 0).sheet = .ok b ∧
      codeOf? b.lines = some [.block key members] ∧
      methods "create()" members = [create] ∧ methods "update(time, delta)" members = [update] ∧
      (branches update).map (fun p => (p.1, attributesIn p.2)) =
        [("chase", ["chaseRange", "chaseSpeed"]),
          ("fly", ["flyOriginY", "flyFrequency", "flyAmplitude"])] ∧
      update.any Stmt.namesEnemies = true ∧
      setupsAll Family.enemies.openings create = [.group, .thing body, .thing body', .overlap] ∧
      Equips .fly body ∧ Equips .fly body' := by
  obtain ⟨b, hb⟩ := exists_of_isOk
    (show (levelListing meadowGame meadow 0).sheet.isOk = true by decide +kernel)
  obtain ⟨key, members, create, update, bodies, hcode, hcreate, hupdate, hbranches, hnames, hsets,
    hbodies⟩ := branches_levelListing hb
  obtain - | ⟨hbody, - | ⟨hbody', ⟨⟩⟩⟩ := hbodies
  exact ⟨b, key, members, create, update, _, _, hb, hcode, hcreate, hupdate, hbranches,
    hnames.2 (by decide), hsets, hbody, hbody'⟩

end Script

end PlatformGame
