import PlatformGame.Proofs.Check.Violations

/-! # Strict checks

A draft may be checked strictly or not. The two differ only if it declares no assets, and then only
in that every reference to an asset is reported: the strict violations are the others, with those of
the references between them (`tightens_violations`). Each part of the check either looks at assets
or does not, and the parts compose (`Interleaves.append`). -/

namespace PlatformGame

/-- The members of the first two lists make up the third, in their order in each of the two. -/
inductive Interleaves : List α → List α → List α → Prop
  | nil : Interleaves [] [] []
  | left : Interleaves as bs cs → Interleaves (a :: as) bs (a :: cs)
  | right : Interleaves as bs cs → Interleaves as (b :: bs) (b :: cs)

namespace Interleaves

variable {as bs cs as' bs' cs' : List α}

theorem all_left : (as : List α) → Interleaves as [] as
  | [] => .nil
  | _ :: as => .left (all_left as)

theorem all_right : (bs : List α) → Interleaves [] bs bs
  | [] => .nil
  | _ :: bs => .right (all_right bs)

theorem append (h : Interleaves as bs cs) (h' : Interleaves as' bs' cs') :
    Interleaves (as ++ as') (bs ++ bs') (cs ++ cs') := by
  induction h with
  | nil => exact h'
  | left _ ih => exact .left ih
  | right _ ih => exact .right ih

theorem append_left (h : Interleaves as bs cs) (xs : List α) :
    Interleaves (as ++ xs) bs (cs ++ xs) := by
  have happend := h.append (all_left xs)
  rwa [List.append_nil] at happend

theorem append_right (h : Interleaves as bs cs) (xs : List α) :
    Interleaves as (bs ++ xs) (cs ++ xs) := by
  have happend := h.append (all_right xs)
  rwa [List.append_nil] at happend

theorem sublist (h : Interleaves as bs cs) : as.Sublist cs := by
  induction h with
  | nil => exact .slnil
  | left _ ih => exact ih.cons_cons _
  | right _ ih => exact ih.cons _

end Interleaves

/-! ## References to assets -/

/-- The violation of a level that names a tilemap without assets to take it from. -/
def Level.reference (l : Level) : List Violation :=
  (filled l.tilemap).toList.map (.undefinedTilemap l.name)

namespace Draft

/-- One violation for each reference of the draft to an asset, as if none were declared: the sprite
of the player if one is named, the sprite of every enemy and every collectible, the tilemap of every
level that has one, and every sound that is set. -/
def references (d : Draft) : List Violation :=
  (d.player.bind (filled ·.sprite)).toList.map .playerSprite
  ++ d.enemies.map (fun e => .enemySprite e.name e.sprite)
  ++ d.collectibles.map (fun c => .collectibleSprite c.name c.sprite)
  ++ d.levels.flatMap Level.reference
  ++ (d.sounds.elim [] Sounds.events).flatMap fun (event, key) =>
      (filled key).toList.map (.undefinedSound event)

variable {d : Draft}

theorem hasAsset_eq_false (hd : d.assets = []) (key : String) : d.symbols.hasAsset key = false := by
  rw [← Bool.not_eq_true, hasAsset_symbols, hd]
  simp

theorem spriteViolations_eq (hd : d.assets = []) :
    d.spriteViolations = (d.player.bind (filled ·.sprite)).toList.map .playerSprite
      ++ d.enemies.map (fun e => .enemySprite e.name e.sprite)
      ++ d.collectibles.map (fun c => .collectibleSprite c.name c.sprite) := by
  have hany (sprite : Option String) : sprite.any d.symbols.hasAsset = false := by
    cases sprite with
    | none => rfl
    | some s => exact hasAsset_eq_false hd s
  simp only [spriteViolations, hasAsset_eq_false hd, hany, reportIf, Bool.not_false, if_true,
    ← List.map_eq_flatMap]
  cases d.player.bind (filled ·.sprite) <;> rfl

theorem soundViolations_eq (hd : d.assets = []) :
    d.soundViolations = (d.sounds.elim [] Sounds.events).flatMap fun (event, key) =>
      (filled key).toList.map (.undefinedSound event) := by
  unfold soundViolations
  cases d.sounds with
  | none => rfl
  | some s =>
    refine congrArg List.flatten (List.map_congr_left fun p _ => ?_)
    dsimp only
    cases filled p.2 with
    | none => rfl
    | some key =>
      dsimp only
      rw [hasAsset_eq_false hd]
      rfl

end Draft

/-! ## The check of the levels -/

namespace Level

variable {symbols : Symbols ε κ}

theorem interleaves_violations (hs : ∀ key, symbols.hasAsset key = false) (l : Level)
    (seen : SeenLevels) :
    Interleaves (l.violations seen symbols false) l.reference
      (l.violations seen symbols true) := by
  -- scene and spawn, then the tilemap, then placements and layers
  refine ((((Interleaves.all_left _).append ?tilemap).append_left _).append_left _).append_left _
  cases filled l.tilemap with
  | none => exact .nil
  | some key =>
    simp only [hs, reportIf, Bool.false_and, Bool.true_and, Bool.not_false, if_true]
    exact .all_right _

theorem interleaves_allViolations (hs : ∀ key, symbols.hasAsset key = false)
    (seen : SeenLevels) (later : List Level) :
    Interleaves (allViolations symbols false seen later) (later.flatMap reference)
      (allViolations symbols true seen later) := by
  induction later generalizing seen with
  | nil => exact .nil
  | cons l later ih =>
    rw [allViolations, allViolations, List.flatMap_cons]
    exact (l.interleaves_violations hs seen).append (ih _)

end Level

/-! ## The whole check -/

namespace Draft

variable {d : Draft}

theorem hasAssets_eq_false (hd : d.assets = []) : d.symbols.hasAssets = false := by
  rw [← Bool.not_eq_true, hasAssets_symbols, not_not]
  exact hd

theorem interleaves_violations (hd : d.assets = []) :
    Interleaves (d.violations false) d.references (d.violations true) := by
  have hlevels := Level.interleaves_allViolations (hasAsset_eq_false hd) {} d.levels
  rw [references, ← spriteViolations_eq hd, ← soundViolations_eq hd]
  simp only [violations, hasAssets_eq_false hd, Bool.or_false, Bool.false_eq_true, if_false,
    if_true, List.append_nil]
  -- title, levels and player, then sprites, levels, rules and sounds
  exact ((((Interleaves.all_left _).append_right _).append hlevels).append_left _).append_right _

theorem violations_eq (hd : d.assets ≠ []) (strict : Bool) :
    d.violations strict = d.violations false := by
  have hassets := (hasAssets_symbols d).2 hd
  simp only [violations, hassets, Bool.or_true]

/-- How a strict check of a draft differs from one that is not: it reports all that the other does,
the same if there are assets and, if there are none, the references to assets besides. -/
structure Tightens (d : Draft) (check : Bool → List Violation) : Prop where
  sublist : (check false).Sublist (check true)
  told : ((check false).map Violation.message).Sublist ((check true).map Violation.message)
  same : d.assets ≠ [] → check true = check false
  added : d.assets = [] → Interleaves (check false) d.references (check true)

theorem sublist_violations (d : Draft) : (d.violations false).Sublist (d.violations true) := by
  by_cases hd : d.assets = []
  · exact (interleaves_violations hd).sublist
  · exact (violations_eq hd true).symm ▸ .refl _

theorem tightens (d : Draft) : d.Tightens d.violations where
  sublist := d.sublist_violations
  told := d.sublist_violations.map _
  same hd := violations_eq hd true
  added := interleaves_violations

end Draft

/-- A strict check of a draft, or of a complete game as the draft that it is, reports what one that
is not strict does, and the references to assets if none are declared. -/
theorem tightens_violations :
    (∀ d : Draft, d.Tightens d.violations) ∧ ∀ g : Game, g.toDraft.Tightens g.violations :=
  ⟨Draft.tightens, fun g => g.toDraft.tightens⟩

-- The tilemap and the sound are references to assets; the missing layers and the unknown enemy are
-- reported in any case.
example :
    let meadow : Level :=
      { name := "a", spawn := some ⟨.int 0, .int 0⟩, tilemap := some "map",
        enemies := [⟨"slime", .int 1, .int 2⟩] }
    let d : Draft :=
      { title := some "t", player := some {}, sounds := some { hurt := some "ouch" },
        levels := [meadow] }
    d.violations false = [.undefinedEnemy "a" "slime", .noLayers "a"] ∧
      d.violations true = [.undefinedTilemap "a" "map", .undefinedEnemy "a" "slime", .noLayers "a",
        .undefinedSound .hurt "ouch"] := by
  decide +kernel

end PlatformGame
