import PlatformGame.Proofs.Check.Violations
import PlatformGame.Proofs.Program.Classes
import PlatformGame.Proofs.Program.Scenes

/-! # Going through the levels

A program starts in the scene that its boot scene starts. A scene that is won starts another one or
shows that the game is won, which ends the run (`stage?`). If no two levels share a scene, a run
goes through the levels in order, or moves to the level that the rules name and stays there. -/

namespace PlatformGame.Script

open Program

/-! ## Runs of a program -/

/-- Where a run is. -/
inductive Stage
  | scene (key : String)
  | won
  deriving DecidableEq

/-- The scene with a key, if no other has the same. -/
def sceneOf? (program : List (Stmt Token)) (key : String) : Option SceneClass :=
  match (scenes program).filter (·.key == key) with
  | [s] => some s
  | _ => none

namespace SceneClass

/-- The scene that is started when this one is set up. -/
def start? (s : SceneClass) : Option Stage :=
  match methods "create()" s.members with
  | [body] =>
    match passedAll starting body with
    | [some key] => some (.scene key)
    | _ => none
  | _ => none

/-- What happens when the scene is won: another is started, or the banner is shown. -/
def win? (s : SceneClass) : Option Stage :=
  match methods "handleWin()" s.members with
  | [body] =>
    match passedAll starting body, passedAll showing body with
    | [some key], [] => some (.scene key)
    | [], [some "YOU WIN!"] => some .won
    | _, _ => none
  | _ => none

end SceneClass

/-- The stage after a win. -/
def Stage.next? (program : List (Stmt Token)) : Stage → Option Stage
  | scene key => (sceneOf? program key).bind SceneClass.win?
  | won => none

/-- The stage after a number of wins, unless the run has ended before. -/
def stage? (program : List (Stmt Token)) : Nat → Option Stage
  | 0 => (sceneOf? program bootScene).bind SceneClass.start?
  | n + 1 => (stage? program n).bind (Stage.next? program)

/-! ## Scenes of a game -/

/-- The stage after a win in the level with the given number. -/
def nextStage (g : Game) (index : Nat) : Stage :=
  match nextScene g index with
  | some key => .scene key
  | none => .won

theorem nextStage_of_filled_none (h : filled g.rules.nextLevel = none) (index : Nat) :
    nextStage g index = ((sceneKeys g.levels)[index + 1]?.map Stage.scene).getD .won := by
  have hnext : nextScene g index = nextScene.after g index := by
    unfold nextScene
    cases hlevel : g.rules.nextLevel with
    | none => rfl
    | some name =>
      have : name = "" := filled_eq_none.1 h name hlevel
      simp [this]
  rw [nextStage, hnext, nextScene.after, sceneKeys, List.getElem?_map]
  cases g.levels[index + 1]? <;> rfl

theorem nextStage_of_filled_some (h : filled g.rules.nextLevel = some name) (index : Nat) :
    nextStage g index = .scene (sceneKey name) := by
  obtain ⟨hlevel, hne⟩ := filled_eq_some.1 h
  simp [nextStage, nextScene, hlevel, hne]

/-- All levels in order, and then the end. -/
def stages (g : Game) : List Stage := (sceneKeys g.levels).map .scene ++ [.won]

theorem length_stages (g : Game) : (stages g).length = g.levels.length + 1 := by
  simp [stages, sceneKeys]

theorem getElem?_stages (h : n ≤ g.levels.length) :
    (stages g)[n]? = some (((sceneKeys g.levels)[n]?.map Stage.scene).getD .won) := by
  rcases Nat.lt_or_eq_of_le h with hlt | rfl
  · simp [stages, sceneKeys, List.getElem?_append_left, hlt]
  · simp [stages, sceneKeys]

theorem LevelClass.win?_eq (h : LevelClass g l index s) : s.win? = some (nextStage g index) := by
  obtain ⟨body, hbody, hstarts, hshows⟩ := h.exists_win
  simp only [SceneClass.win?, hbody, hstarts, hshows, nextStage]
  cases nextScene g index <;> rfl

theorem BootClass.start?_eq (h : BootClass g s) :
    s.start? = g.levels.head?.map fun l => .scene (sceneKey l.name) := by
  obtain ⟨body, hbody, hstarts⟩ := h.exists_create
  simp only [SceneClass.start?, hbody, hstarts]
  cases g.levels.head? <;> rfl

theorem filter_key_eq_singleton {cs : List SceneClass} (h : (cs.map SceneClass.key).Nodup)
    (hs : s ∈ cs) : cs.filter (·.key == s.key) = [s] := by
  induction cs with
  | nil => cases hs
  | cons c cs ih =>
    rw [List.map_cons, List.nodup_cons] at h
    rw [List.filter_cons]
    rcases List.mem_cons.1 hs with rfl | hs
    · have hnone : cs.filter (·.key == s.key) = [] := List.filter_eq_nil_iff.2 fun c hc hkey =>
        h.1 (eq_of_beq hkey ▸ List.mem_map_of_mem hc)
      simp [hnone]
    · have hne : c.key ≠ s.key := fun heq => h.1 (heq ▸ List.mem_map_of_mem hs)
      simp [hne, ih h.2 hs]

/-- Scenes with keys of their own are found by them. -/
theorem sceneOf?_eq_some (h : ((scenes program).map SceneClass.key).Nodup)
    (hs : s ∈ scenes program) : sceneOf? program s.key = some s := by
  rw [sceneOf?, filter_key_eq_singleton h hs]

theorem exists_mem_of_forall₂ {R : α → β → Prop} (h : List.Forall₂ R xs ys) (hx : x ∈ xs) :
    ∃ y ∈ ys, R x y := by
  induction h with
  | nil => cases hx
  | cons hxy _ ih =>
    rcases List.mem_cons.1 hx with rfl | hx
    · exact ⟨_, List.mem_cons_self, hxy⟩
    · obtain ⟨y, hy, hxy⟩ := ih hx
      exact ⟨y, List.mem_cons_of_mem _ hy, hxy⟩

section Scenes

variable {g : Game} {boot : SceneClass} {levels displays : List SceneClass}
  {program : List (Stmt Token)} (h : GameScenes g boot levels displays)
  (hscenes : scenes program = boot :: levels ++ displays) (hnodup : (sceneKeys g.levels).Nodup)

include h hscenes hnodup

theorem nodup_keys_scenes : ((scenes program).map SceneClass.key).Nodup := by
  rw [hscenes, h.keys_eq]
  exact (nodup_sceneList g).2 hnodup

theorem stage?_zero :
    stage? program 0 = g.levels.head?.map fun l => .scene (sceneKey l.name) := by
  have hboot : boot ∈ scenes program := hscenes ▸ List.mem_cons_self
  rw [stage?, ← h.bootClass.key_eq, sceneOf?_eq_some (nodup_keys_scenes h hscenes hnodup) hboot,
    Option.bind_some, h.bootClass.start?_eq]

/-- A win in a level. -/
theorem next?_level (hl : g.levels[i]? = some l) :
    (Stage.scene (sceneKey l.name)).next? program = some (nextStage g i) := by
  have hmem : (l, i) ∈ g.levels.zipIdx := List.mem_zipIdx_iff_getElem?.2 hl
  obtain ⟨s, hs, hclass⟩ := exists_mem_of_forall₂ h.levelClasses hmem
  have hscene : s ∈ scenes program :=
    hscenes ▸ List.mem_append_left _ (List.mem_cons_of_mem _ hs)
  rw [Stage.next?, ← hclass.key_eq, sceneOf?_eq_some (nodup_keys_scenes h hscenes hnodup) hscene,
    Option.bind_some, hclass.win?_eq]

/-! ## Levels in order -/

/-- One win goes on to the next stage. -/
theorem bind_next?_stages (hnext : filled g.rules.nextLevel = none) (n : Nat) :
    (stages g)[n]?.bind (Stage.next? program) = (stages g)[n + 1]? := by
  -- The stage is a level, the end, or behind the end.
  rcases Nat.lt_trichotomy n g.levels.length with hlt | rfl | hgt
  · obtain ⟨l, hl⟩ : ∃ l, g.levels[n]? = some l := ⟨_, List.getElem?_eq_getElem hlt⟩
    have hkey : (sceneKeys g.levels)[n]? = some (sceneKey l.name) := by
      rw [sceneKeys, List.getElem?_map, hl, Option.map_some]
    rw [getElem?_stages hlt.le, getElem?_stages hlt, hkey, ← nextStage_of_filled_none hnext]
    exact next?_level h hscenes hnodup hl
  · have hend : (sceneKeys g.levels)[g.levels.length]? = none := by simp [sceneKeys]
    rw [getElem?_stages le_rfl, hend, List.getElem?_eq_none (length_stages g).le]
    rfl
  · rw [List.getElem?_eq_none (by rw [length_stages]; omega), Option.bind_none,
      List.getElem?_eq_none (by rw [length_stages]; omega)]

theorem stage?_eq (hnext : filled g.rules.nextLevel = none) (hne : g.levels ≠ []) (n : Nat) :
    stage? program n = (stages g)[n]? := by
  induction n with
  | zero =>
    obtain ⟨l, ls, hl⟩ := List.exists_cons_of_ne_nil hne
    rw [stage?_zero h hscenes hnodup, stages, sceneKeys, hl]
    rfl
  | succ n ih => rw [stage?, ih, bind_next?_stages h hscenes hnodup hnext]

/-! ## A level that the rules name -/

theorem next?_of_mem_levels (hnext : filled g.rules.nextLevel = some name) (hl : l ∈ g.levels) :
    (Stage.scene (sceneKey l.name)).next? program = some (.scene (sceneKey name)) := by
  obtain ⟨i, hi⟩ := List.getElem?_of_mem hl
  rw [next?_level h hscenes hnodup hi, nextStage_of_filled_some hnext]

theorem stage?_succ_eq (hnext : filled g.rules.nextLevel = some name)
    (hdefined : ∃ l ∈ g.levels, l.name = name) (n : Nat) :
    stage? program (n + 1) = some (.scene (sceneKey name)) := by
  have hstep {l : Level} (hl : l ∈ g.levels) := next?_of_mem_levels h hscenes hnodup hnext hl
  obtain ⟨l, hl, rfl⟩ := hdefined
  induction n with
  | zero =>
    obtain ⟨first, rest, hfirst⟩ := List.exists_cons_of_ne_nil (List.ne_nil_of_mem hl)
    rw [stage?, stage?_zero h hscenes hnodup, hfirst]
    exact hstep (hfirst ▸ List.mem_cons_self)
  | succ n ih =>
    rw [stage?, ih]
    exact hstep hl

end Scenes

theorem exists_level_of_filled_some {g : Game} (h : filled g.rules.nextLevel = some name)
    (hdefined : .undefinedNextLevel name ∉ g.violations strict) :
    ∃ l ∈ g.levels, l.name = name := by
  by_contra hnone
  obtain ⟨hlevel, hne⟩ := filled_eq_some.1 h
  exact hdefined (Draft.mem_violations_iff.2 ⟨_, .nextLevel rfl hlevel hne hnone⟩)

/-- Without a level that the rules name, a run is in every level once, in order, and then ends. With
one, it leaves each level for that one, and never ends. -/
theorem stages_of_sheet {b : Sheet} (hb : (programListing g).sheet = .ok b) (minify : Bool)
    (hne : g.levels ≠ []) (hclash : ∀ v ∈ g.violations strict, v.isClash = false)
    (hdefined : ∀ name, .undefinedNextLevel name ∉ g.violations strict) :
    ∃ program, codeOf? (shown minify b.lines) = some program ∧
      (g.levels.map (sceneKey ·.name)).Nodup ∧
      (filled g.rules.nextLevel = none → ∀ n, stage? program n =
        (g.levels.map (fun l => Stage.scene (sceneKey l.name)) ++ [.won])[n]?) ∧
      ∀ name, filled g.rules.nextLevel = some name → (∃ l ∈ g.levels, l.name = name) ∧
        (∀ l ∈ g.levels, (Stage.scene (sceneKey l.name)).next? program =
          some (.scene (sceneKey name))) ∧
        stage? program 0 = g.levels.head?.map (fun l => .scene (sceneKey l.name)) ∧
        ∀ n, stage? program (n + 1) = some (.scene (sceneKey name)) := by
  obtain ⟨program, boot, levels, displays, hprogram, hscenes, h⟩ := exists_gameScenes hb minify
  have hnodup : (sceneKeys g.levels).Nodup := (nodup_sceneKeys_iff g strict).2 hclash
  refine ⟨program, hprogram, hnodup, fun hnone n => ?_, fun name hname => ?_⟩
  · rw [stage?_eq h hscenes hnodup hnone hne, stages, sceneKeys, List.map_map]
    rfl
  · have hlevel := exists_level_of_filled_some hname (hdefined name)
    exact ⟨hlevel, fun l hl => next?_of_mem_levels h hscenes hnodup hname hl,
      stage?_zero h hscenes hnodup, stage?_succ_eq h hscenes hnodup hname hlevel⟩

/-- Two levels, with the one that the rules name. -/
def tour (nextLevel : Option String) : Game :=
  { title := some "t"
    levels := [{ name := "Green hills" }, { name := "cave" }]
    rules := some { nextLevel := nextLevel } : Draft }.complete

theorem violations_tour (h : next = none ∨ next = some "cave") :
    (∀ v ∈ (tour next).violations false, v.isClash = false) ∧
      ∀ name, .undefinedNextLevel name ∉ (tour next).violations false := by
  have hmisses : (tour next).violations false = [.noSpawn "Green hills", .noSpawn "cave"] := by
    rcases h with rfl | rfl <;> decide +kernel
  simp [hmisses, Violation.isClash]

theorem stages_of_sheet_tour :
    (∃ b program, (programListing (tour none)).sheet = .ok b ∧
      codeOf? (shown true b.lines) = some program ∧
      (List.range 4).map (stage? program) =
        [some (.scene "Level_Green_hills"), some (.scene "Level_cave"), some .won, none]) ∧
    ∃ b program, (programListing (tour (some "cave"))).sheet = .ok b ∧
      codeOf? (shown false b.lines) = some program ∧
      stage? program 0 = some (.scene "Level_Green_hills") ∧
      ∀ n, stage? program (n + 1) = some (.scene "Level_cave") := by
  have hne (next : Option String) : (tour next).levels ≠ [] := List.cons_ne_nil _ _
  constructor
  · obtain ⟨b, hb⟩ := exists_of_isOk
      (show (programListing (tour none)).sheet.isOk = true by decide +kernel)
    obtain ⟨hclash, hdefined⟩ := violations_tour (.inl rfl)
    obtain ⟨program, hprogram, -, hstages, -⟩ := stages_of_sheet hb true (hne none) hclash hdefined
    refine ⟨b, program, hb, hprogram, ?_⟩
    rw [List.map_congr_left fun n _ => hstages rfl n]
    decide +kernel
  · obtain ⟨b, hb⟩ := exists_of_isOk
      (show (programListing (tour (some "cave"))).sheet.isOk = true by decide +kernel)
    obtain ⟨hclash, hdefined⟩ := violations_tour (.inr rfl)
    obtain ⟨program, hprogram, -, -, hnamed⟩ :=
      stages_of_sheet hb false (hne (some "cave")) hclash hdefined
    obtain ⟨-, -, hfirst, hrest⟩ := hnamed "cave" rfl
    have hkey : sceneKey "cave" = "Level_cave" := by decide +kernel
    exact ⟨b, program, hb, hprogram, hfirst.trans (by decide +kernel), hkey ▸ hrest⟩

end PlatformGame.Script
