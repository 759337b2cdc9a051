import PlatformGame.Proofs.Program.LevelCode

/-! # Animations in a level

A scene plays an animation by its key. What the scene of a level plays, wherever in it this is done,
is known from the game (`levelClips`): the first clip of every enemy and collectible that is placed,
and the clips of the player for walking, standing and jumping. -/

namespace PlatformGame.Script

open Program

-- The longest rows have more than a hundred characters, each a step of the reading.
set_option maxRecDepth 2048

/-- The rows play the animations of these clips, each given with its sprite. -/
def Plays (rows : Listing) (cs : List (String × String)) : Prop :=
  ∃ ss, Codes rows ss ∧ plays ss = cs.map fun p => some (animationKey p.1 p.2)

/-- Rows that play nothing. -/
def Motionless (rows : Listing) : Prop := Plays rows []

namespace Plays

theorem nil : Plays [] [] := ⟨[], .nil, rfl⟩

theorem of_signs (hspelled : SpelledAll rows qss)
    (hread : (framedSigns? qss).bind (stmts? Sign.mark?) = some ss)
    (hplays : passedAll? playing ss = some (cs.map fun p => some (animationKey p.1 p.2))) :
    Plays rows cs :=
  ⟨_, .of_signs hspelled hread rfl, passedAll_images rfl hplays⟩

theorem append (h : Plays rows cs) (h' : Plays rows' cs') : Plays (rows ++ rows') (cs ++ cs') := by
  obtain ⟨ss, hss, hplays⟩ := h
  obtain ⟨ss', hss', hplays'⟩ := h'
  refine ⟨ss ++ ss', hss.append hss', ?_⟩
  rw [plays, passedAll_append, List.map_append]
  exact congrArg₂ (· ++ ·) hplays hplays'

theorem append_motionless (h : Plays rows cs) (h' : Motionless rows') : Plays (rows ++ rows') cs :=
  List.append_nil cs ▸ h.append h'

theorem motionless_append (h : Motionless rows) (h' : Plays rows' cs) : Plays (rows ++ rows') cs :=
  append h h'

theorem flatMap {f : α → Listing} {clips : α → List (String × String)} {xs : List α}
    (h : ∀ x ∈ xs, Plays (f x) (clips x)) : Plays (xs.flatMap f) (xs.flatMap clips) := by
  induction xs with
  | nil => exact nil
  | cons x xs ih =>
    rw [List.forall_mem_cons] at h
    exact h.1.append (ih h.2)

/-- Rows for the things that are placed and declared, whichever they are. -/
theorem placed {group collision : Listing} {f : Placement → Listing}
    {find : Placement → Option β} {clips : β → List (String × String)} {ps : List Placement}
    (hgroup : Motionless (r :: group)) (hcollision : Motionless collision)
    (hsome : ∀ p y, find p = some y → Plays (f p) (clips y))
    (hnone : ∀ p, find p = none → Motionless (f p)) :
    let create := if ps.isEmpty then [] else r :: group ++ ps.flatMap f
    Plays (if create.isEmpty then [] else create ++ collision ++ [blank])
      ((ps.filterMap find).flatMap clips) := by
  have hblank : Motionless [blank] := .of_signs (by repeat' constructor) rfl rfl
  cases ps with
  | nil => exact nil
  | cons p ps =>
    refine .append_motionless (.append_motionless (.motionless_append hgroup ?_) hcollision) hblank
    rw [List.filterMap_eq_flatMap_toList, List.flatMap_assoc]
    refine flatMap fun q _ => ?_
    cases h : find q with
    | none => exact hnone q h
    | some y =>
      rw [Option.toList_some, List.flatMap_singleton]
      exact hsome q y h

/-- A block in which something is made. -/
theorem block (hbody : Plays body cs) : Plays (block [] body) cs := by
  obtain ⟨ss, hss, hplays⟩ := hbody
  have hframe : Codes (Program.block [] []) [.block [] []] :=
    .of_signs (by repeat' constructor) rfl rfl
  exact ⟨_, hframe.blockTo hss, by rwa [plays, passedAll_block]⟩

end Plays

/-! ## Enemies and collectibles -/

/-- The first clip of a thing, with its sprite, if it has any. -/
def firstClip (sprite : String) (cs : List Clip) : List (String × String) :=
  (cs.head?.map fun c => (sprite, c.name)).toList

theorem plays_playFirst (hwho : who = "enemy" ∨ who = "item") (sprite : String) (cs : List Clip) :
    Plays (playFirst who sprite cs) (firstClip sprite cs) := by
  cases cs with
  | nil => exact .nil
  | cons c cs =>
    rcases hwho with rfl | rfl <;> exact .of_signs (by repeat' constructor) rfl rfl

theorem motionless_movementSetup (m : Movement) (x y : Number) :
    Motionless (movementSetup m x y) := by
  cases m <;> exact .of_signs (by repeat' constructor) rfl rfl

theorem plays_enemyInstance (e : Enemy) (x y : Number) :
    Plays (enemyInstance e x y) (firstClip e.sprite e.animations) := by
  refine .block (.append_motionless (.motionless_append ?_
    (plays_playFirst (.inl rfl) e.sprite e.animations)) (motionless_movementSetup e.movement x y))
  exact .of_signs (by repeat' constructor) rfl rfl

theorem motionless_enemyCollision (l : Level) (defeatAll : Bool) :
    Motionless (enemyCollision l defeatAll) := by
  have hlayers : Motionless ((tiledLayers l).map fun p =>
      line ["if (", .name (layerField p.1), ") this.physics.add.collider(this.enemies, ",
        .name (layerField p.1), ");"]) := by
    have hnil : ((tiledLayers l).flatMap fun _ => []) = ([] : List (String × String)) :=
      List.flatMap_eq_nil_iff.2 fun _ _ => rfl
    rw [List.map_eq_flatMap, Motionless, ← hnil]
    exact .flatMap fun p _ => .of_signs (by repeat' constructor) rfl rfl
  refine .append_motionless (.append_motionless (.append_motionless ?_ hlayers) ?_) ?_
  · exact .of_signs (by repeat' constructor) rfl rfl
  · exact .of_signs (by repeat' constructor) rfl rfl
  · cases defeatAll <;> exact .of_signs (by repeat' constructor) rfl rfl

theorem plays_enemySection (g : Game) (l : Level) : Plays (enemySection g l)
    ((placedEnemies g l).flatMap fun e => firstClip e.sprite e.animations) := by
  refine .placed ?_ (motionless_enemyCollision l _) (fun p e he => ?_) fun p hp => ?_
  · exact .of_signs (by repeat' constructor) rfl rfl
  · rw [he]
    exact plays_enemyInstance e p.x p.y
  · rw [hp]
    exact .nil

theorem motionless_enemyUpdate (es : List Enemy) : Motionless (enemyUpdate es) := by
  rw [enemyUpdate_eq]
  cases usesMovement es .patrol <;> cases usesMovement es .chase <;> cases usesMovement es .fly <;>
    exact .of_signs (by repeat' constructor) rfl rfl

theorem plays_collectibleInstance (c : Collectible) (x y : Number) :
    Plays (collectibleInstance c x y) (firstClip c.sprite c.animations) := by
  refine .block (.motionless_append ?_ (plays_playFirst (.inr rfl) c.sprite c.animations))
  exact .of_signs (by repeat' constructor) rfl rfl

theorem plays_collectibleSection (g : Game) (l : Level) : Plays (collectibleSection g l)
    ((placedCollectibles g l).flatMap fun c => firstClip c.sprite c.animations) := by
  refine .placed ?_ ?_ (fun p c hc => ?_) fun p hp => ?_
  · exact .of_signs (by repeat' constructor) rfl rfl
  · cases goalOf g.rules.win <;> exact .of_signs (by repeat' constructor) rfl rfl
  · rw [hc]
    exact plays_collectibleInstance c p.x p.y
  · rw [hp]
    exact .nil

/-- The clips that the scene of a level plays, with their sprites: first those of what is placed,
then those of the player. -/
def levelClips (g : Game) (l : Level) : List (String × String) :=
  ((placedEnemies g l).flatMap fun e => firstClip e.sprite e.animations)
  ++ ((placedCollectibles g l).flatMap fun c => firstClip c.sprite c.animations)
  ++ playerClips g.player

end PlatformGame.Script
