import PlatformGame.Proofs.Check.Violations

/-! # Placements of things that are not declared

Enemies and collectibles are checked alike: a placement is reported exactly if nothing of its name
is declared (`misplaced_violations`). -/

namespace PlatformGame

/-- The two families of things that are placed in levels. -/
inductive Family
  | enemies
  | collectibles
  deriving DecidableEq

def Family.placements : Family → Level → List Placement
  | enemies, l => l.enemies
  | collectibles, l => l.collectibles

def Family.declares (g : Game) : Family → String → Bool
  | enemies, name => g.enemies.any (·.name == name)
  | collectibles, name => g.collectibles.any (·.name == name)

/-- The level and the name of a thing that is placed without being declared. -/
def Violation.misplaced? : Family → Violation → Option (String × String)
  | .enemies, undefinedEnemy level entity => some (level, entity)
  | .collectibles, undefinedCollectible level entity => some (level, entity)
  | _, _ => none

def misplaced (f : Family) (vs : List Violation) : List (String × String) :=
  vs.filterMap (Violation.misplaced? f)

theorem misplaced_append (f : Family) (vs ws : List Violation) :
    misplaced f (vs ++ ws) = misplaced f vs ++ misplaced f ws :=
  List.filterMap_append

theorem misplaced_flatMap (f : Family) (vs : α → List Violation) (as : List α) :
    misplaced f (as.flatMap vs) = as.flatMap fun a => misplaced f (vs a) :=
  List.filterMap_flatMap

theorem misplaced_reportIf (f : Family) (b : Bool) (v : Violation) :
    misplaced f (reportIf b v) = if b then (v.misplaced? f).toList else [] := by
  cases b
  · rfl
  · rw [reportIf, if_pos rfl, if_pos rfl, misplaced, List.filterMap_cons]
    cases v.misplaced? f <;> rfl

theorem misplaced_other {f : Family} (h : v.misplaced? f = none) (b : Bool) :
    misplaced f (reportIf b v) = [] := by
  rw [misplaced_reportIf, h]
  exact ite_self _

namespace Draft

theorem misplaced_spriteViolations (f : Family) (d : Draft) :
    misplaced f d.spriteViolations = [] := by
  rw [spriteViolations, misplaced_append, misplaced_append, misplaced_flatMap, misplaced_flatMap,
    List.append_eq_nil_iff, List.append_eq_nil_iff]
  refine ⟨⟨?player, ?enemies⟩, ?collectibles⟩
  case player =>
    split
    · exact misplaced_other (by cases f <;> rfl) _
    · rfl
  case enemies => exact List.flatMap_eq_nil_iff.2 fun e _ => misplaced_other (by cases f <;> rfl) _
  case collectibles =>
    exact List.flatMap_eq_nil_iff.2 fun c _ => misplaced_other (by cases f <;> rfl) _

theorem misplaced_ruleViolations (f : Family) (d : Draft) : misplaced f d.ruleViolations = [] := by
  unfold ruleViolations
  cases d.rules with
  | none => rfl
  | some r =>
    rw [misplaced_append, List.append_eq_nil_iff]
    constructor
    · split
      · exact misplaced_other (by cases f <;> rfl) _
      · rfl
    · split
      · exact misplaced_other (by cases f <;> rfl) _
      · rfl

theorem misplaced_soundViolations (f : Family) (d : Draft) :
    misplaced f d.soundViolations = [] := by
  unfold soundViolations
  cases d.sounds with
  | none => rfl
  | some s =>
    rw [misplaced_flatMap, List.flatMap_eq_nil_iff]
    intro p _
    dsimp only
    split
    · exact misplaced_other (by cases f <;> rfl) _
    · rfl

end Draft

theorem SeenLevels.misplaced_clash (f : Family) (seen : SeenLevels) (l : Level) :
    misplaced f (seen.clash l) = [] := by
  unfold clash
  split
  · cases f <;> rfl
  · split
    · exact misplaced_other (by cases f <;> rfl) _
    · rfl

/-- The placements of one family. -/
theorem misplaced_placements {f : Family} {v : String → Violation} (level : String)
    (hv : ∀ entity, (v entity).misplaced? f = some (level, entity)) (unknown : String → Bool)
    (ps : List Placement) :
    misplaced f (ps.flatMap fun p => reportIf (unknown p.entity) (v p.entity)) =
      (ps.filter fun p => unknown p.entity).map fun p => (level, p.entity) := by
  induction ps with
  | nil => rfl
  | cons p ps ih =>
    rw [List.flatMap_cons, misplaced_append, ih, misplaced_reportIf, hv, List.filter_cons]
    split
    · rfl
    · rfl

theorem misplaced_otherPlacements {f : Family} {v : String → Violation}
    (hv : ∀ entity, (v entity).misplaced? f = none) (unknown : String → Bool)
    (ps : List Placement) :
    misplaced f (ps.flatMap fun p => reportIf (unknown p.entity) (v p.entity)) = [] := by
  rw [misplaced_flatMap, List.flatMap_eq_nil_iff]
  exact fun p _ => misplaced_other (hv p.entity) _

theorem not_declares_enemies (g : Game) (name : String) :
    (!Family.enemies.declares g name) = (g.toDraft.symbols.enemy? name).isNone := by
  rw [Bool.eq_iff_iff, Draft.enemy?_symbols]
  simp [Family.declares, Game.toDraft, Enemy.toDraft]

theorem not_declares_collectibles (g : Game) (name : String) :
    (!Family.collectibles.declares g name) = (g.toDraft.symbols.collectible? name).isNone := by
  rw [Bool.eq_iff_iff, Draft.collectible?_symbols]
  simp [Family.declares, Game.toDraft, Collectible.toDraft]

theorem misplaced_allPlacements (f : Family) (g : Game) (l : Level) :
    misplaced f (l.enemies.flatMap fun p =>
        reportIf (g.toDraft.symbols.enemy? p.entity).isNone (.undefinedEnemy l.name p.entity))
      ++ misplaced f (l.collectibles.flatMap fun p =>
        reportIf (g.toDraft.symbols.collectible? p.entity).isNone
          (.undefinedCollectible l.name p.entity)) =
      ((f.placements l).filter fun p => !f.declares g p.entity).map
        fun p => (l.name, p.entity) := by
  simp only [← not_declares_enemies, ← not_declares_collectibles]
  cases f with
  | enemies =>
    rw [misplaced_placements l.name (fun _ => rfl) fun name => !_,
      misplaced_otherPlacements (fun _ => rfl) fun name => !_, List.append_nil]
    rfl
  | collectibles =>
    rw [misplaced_otherPlacements (fun _ => rfl) fun name => !_,
      misplaced_placements l.name (fun _ => rfl) fun name => !_, List.nil_append]
    rfl

theorem Level.misplaced_violations (f : Family) (g : Game) (l : Level) (seen : SeenLevels)
    (checkAssets : Bool) :
    misplaced f (l.violations seen g.toDraft.symbols checkAssets) =
      ((f.placements l).filter fun p => !f.declares g p.entity).map
        fun p => (l.name, p.entity) := by
  have hspawn : misplaced f (reportIf l.spawn.isNone (.noSpawn l.name)) = [] :=
    misplaced_other (by cases f <;> rfl) _
  have hlayers : misplaced f (reportIf ((filled l.tilemap).isSome && (l.layers.getD []).isEmpty)
      (.noLayers l.name)) = [] :=
    misplaced_other (by cases f <;> rfl) _
  rw [violations, misplaced_append, misplaced_append, misplaced_append, misplaced_append,
    misplaced_append, seen.misplaced_clash, hspawn, hlayers, ← misplaced_allPlacements,
    List.append_nil]
  split
  · rw [misplaced_other (by cases f <;> rfl)]
    rfl
  · rfl

/-- The placements that are reported are those of things that are not declared. -/
theorem Game.misplaced_violations (f : Family) (g : Game) (strict : Bool) :
    misplaced f (g.violations strict) = g.levels.flatMap fun l =>
      ((f.placements l).filter fun p => !f.declares g p.entity).map
        fun p => (l.name, p.entity) := by
  have hlevels (checkAssets : Bool) (seen : SeenLevels) (later : List Level) :
      misplaced f (Level.allViolations g.toDraft.symbols checkAssets seen later) =
        later.flatMap fun l => ((f.placements l).filter fun p => !f.declares g p.entity).map
          fun p => (l.name, p.entity) := by
    induction later generalizing seen with
    | nil => rfl
    | cons l later ih =>
      rw [Level.allViolations, misplaced_append, l.misplaced_violations, ih, List.flatMap_cons]
  have htitle : misplaced f (reportIf (filled g.toDraft.title).isNone .noTitle) = [] :=
    misplaced_other (by cases f <;> rfl) _
  have hempty : misplaced f (reportIf g.toDraft.levels.isEmpty .noLevels) = [] :=
    misplaced_other (by cases f <;> rfl) _
  have hplayer : misplaced f (reportIf g.toDraft.player.isNone .noPlayer) = [] :=
    misplaced_other (by cases f <;> rfl) _
  have hnil : misplaced f [] = [] := rfl
  rw [violations, Draft.violations]
  simp only [misplaced_append, apply_ite (misplaced f), htitle, hempty, hplayer, hnil, hlevels,
    Draft.misplaced_spriteViolations, Draft.misplaced_ruleViolations,
    Draft.misplaced_soundViolations, ite_self, List.append_nil, List.nil_append]
  rfl

end PlatformGame
