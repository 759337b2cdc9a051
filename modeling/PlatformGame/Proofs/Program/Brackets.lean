import PlatformGame.Proofs.Program.Outline
import PlatformGame.Proofs.Program.Performance

/-! # Brackets of the program

Every part of the program of a game closes the brackets that it opens, and has no minus sign next to
another one unless the player's jump force has a sign (`balanced_programListing`). -/

namespace PlatformGame.Script

open Program

variable {body rows : Listing}

-- The longest rows have more than a hundred characters, each a step of the reading.
set_option maxRecDepth 2048

variable {bare : Prop}

namespace Balanced

theorem of_reads {qss : List Stroke} (hreads : ReadsAll bare rows qss)
    (hout : outlineAll [] 0 qss = some ([], 0)) : Balanced bare rows :=
  Tidy.of_reads hreads hout

theorem blank : Balanced bare [blank] := of_reads (by repeat' constructor) rfl

/-- A block whose header opens a brace only. -/
theorem braces (header : List Piece)
    (hopen : TidyLine bare [] ['{'] (if header.isEmpty then [r"{"] else header ++ [.code r" {"]))
    (hbody : Balanced bare body) (hclose : TidyLine bare ['{'] [] [.code close]) :
    Balanced bare (Program.blockTo close header body) :=
  blockTo header hopen hbody hclose

theorem block (header : List Piece)
    (hopen : TidyLine bare [] ['{'] (if header.isEmpty then [r"{"] else header ++ [.code r" {"]))
    (hbody : Balanced bare body) : Balanced bare (block header body) :=
  braces header hopen hbody (.of_reads (by repeat' constructor) rfl)

/-- A block that is the last argument of a call. -/
theorem callback (header : List Piece) (hopen : TidyLine bare [] ['{', '(']
      (if header.isEmpty then [r"{"] else header ++ [.code r" {"])) (hbody : Balanced bare body) :
    Balanced bare (Program.blockTo r"});" header body) :=
  blockTo header hopen hbody (.of_reads (by repeat' constructor) rfl)

/-- Rows that are left out if some of them are empty. -/
theorem ite_isEmpty {rows' : Listing} (h : Balanced bare rows') :
    Balanced bare (if rows.isEmpty then [] else rows') :=
  nil.ite h

theorem withBlank (h : Balanced bare rows) : Balanced bare (withBlank rows) :=
  ite_isEmpty (h.append blank)

end Balanced

/-! ## The boot scene -/

theorem balanced_sceneConstructor (key : String) (h : options = "" ∨ options = ", active: false") :
    Balanced bare (sceneConstructor key options) := by
  rcases h with rfl | rfl <;> exact .of_reads (by repeat' constructor) rfl

theorem balanced_sceneClass (hkey : IsName key) (h : Balanced bare body) :
    Balanced bare (sceneClass key body) := by
  have hopen : TidyLine bare [] ['{'] [.code "class ", .name key, .code " extends Phaser.Scene",
      .code r" {"] := .of_reads (.code (.name hkey (.code (.code .nil)))) rfl
  exact .block [.code "class ", .name key, .code " extends Phaser.Scene"] hopen h

theorem balanced_startScene (key : String) : Balanced bare [startScene key] :=
  .of_reads (by repeat' constructor) rfl

theorem balanced_assetLoad (a : Asset) : Balanced bare [assetLoad a] := by
  unfold assetLoad
  cases a.kind <;> exact .of_reads (by repeat' constructor) rfl

theorem balanced_clipCreate (sprite : String) (c : Clip) : Balanced bare (clipCreate sprite c) := by
  unfold clipCreate
  cases c.loop <;> exact .of_reads (by repeat' constructor) rfl

theorem balanced_bootListing (g : Game) : Balanced bare (bootListing g) := by
  have hloads : Balanced bare (g.assets.map assetLoad) := .map fun a _ => balanced_assetLoad a
  have hclips : Balanced bare ((clips g).flatMap fun p => clipCreate p.1 p.2) :=
    .flatMap fun p _ => balanced_clipCreate p.1 p.2
  refine balanced_sceneClass isName_bootScene (.append (.append (.append (.append
    (balanced_sceneConstructor bootScene (.inl rfl)) .blank) (.block _ ?_ hloads)) .blank)
    (.block _ ?_ (.append hclips ?_)))
  · exact .of_reads (by repeat' constructor) rfl
  · exact .of_reads (by repeat' constructor) rfl
  · cases g.levels with
    | nil => exact .nil
    | cons l ls => exact balanced_startScene _

/-! ## The player -/

theorem balanced_inputSetup (p : Player) : Balanced bare (inputSetup p) := by
  unfold inputSetup usesArrows usesWasd
  cases p.controls <;> exact .of_reads (by repeat' constructor) rfl

theorem balanced_playerCreate (p : Player) (spawn : Option Point) :
    Balanced bare (playerCreate p spawn) :=
  .of_reads (by repeat' constructor) rfl

theorem balanced_walk (p : Player) :
    Balanced bare (withClip p "walk" "if (this.player.body.onFloor()) " ", true);") :=
  .ite (.of_reads (by repeat' constructor) rfl) .nil

theorem balanced_withClip (p : Player) (name : String) :
    Balanced bare (withClip p name "" ", true);") :=
  .ite (.of_reads (by repeat' constructor) rfl) .nil

/-- The jump force stands after a minus sign. -/
theorem balanced_playerUpdate (p : Player) (h : bare → p.jumpForce.isNegative = false) :
    Balanced bare (playerUpdate p) := by
  unfold playerUpdate
  rw [keyDown_eq, keyDown_eq, keyDown_eq]
  refine .append (.append (.append (.append (.append (.append (.append ?_ ?_) ?_) ?_) ?_) ?_)
    .blank) ?_
  · exact .ite (.of_reads (by repeat' constructor) rfl) .nil
  · exact .ite (.of_reads (by repeat' constructor) rfl) .nil
  · exact .of_reads (by repeat' constructor) rfl
  · refine .block _ ?_ (.append (.of_reads (by repeat' constructor) rfl) (balanced_walk p))
    cases p.controls <;> exact .of_reads (by repeat' constructor) rfl
  · refine .block _ ?_ (.append (.of_reads (by repeat' constructor) rfl) (balanced_walk p))
    cases p.controls <;> exact .of_reads (by repeat' constructor) rfl
  · refine .block _ (.of_reads (by repeat' constructor) rfl) (.ite (balanced_withClip p _) ?_)
    exact .of_reads (by repeat' constructor) rfl
  · refine .block _ ?_ (.append (.append ?_ (balanced_withClip p _)) ?_)
    · cases p.controls <;> exact .of_reads (by repeat' constructor) rfl
    · exact .of_reads (.line (.code (.unsigned h (.code .nil))) .nil) rfl
    · exact .of_reads (by repeat' constructor) rfl

/-! ## Enemies and collectibles -/

theorem balanced_playFirst (h : who = "enemy" ∨ who = "item") (sprite : String) (cs : List Clip) :
    Balanced bare (playFirst who sprite cs) := by
  cases cs with
  | nil => exact .nil
  | cons c cs => rcases h with rfl | rfl <;> exact .of_reads (by repeat' constructor) rfl

theorem balanced_movementSetup (m : Movement) (x y : Number) :
    Balanced bare (movementSetup m x y) := by
  cases m <;> exact .of_reads (by repeat' constructor) rfl

theorem balanced_enemyInstance (e : Enemy) (x y : Number) :
    Balanced bare (enemyInstance e x y) := by
  refine .block _ (.of_reads (by repeat' constructor) rfl) (.append (.append ?_
    (balanced_playFirst (.inl rfl) e.sprite e.animations)) (balanced_movementSetup e.movement x y))
  exact .of_reads (by repeat' constructor) rfl

theorem balanced_enemyCreate (g : Game) (l : Level) : Balanced bare (enemyCreate l g.symbols) := by
  refine .ite .nil (.append (.of_reads (by repeat' constructor) rfl) (.flatMap fun p _ => ?_))
  cases g.symbols.enemy? p.entity with
  | none => exact .nil
  | some e => exact balanced_enemyInstance e p.x p.y

theorem balanced_enemyUpdate (es : List Enemy) : Balanced bare (enemyUpdate es) := by
  have hpatrol : Balanced bare patrolUpdate := .of_reads (by repeat' constructor) rfl
  have hchase : Balanced bare chaseUpdate := .of_reads (by repeat' constructor) rfl
  have hfly : Balanced bare flyUpdate := .of_reads (by repeat' constructor) rfl
  refine .ite .nil (.block _ (.of_reads (by repeat' constructor) rfl) (.callback _ ?_
    (.append ?_ (.append (.append (.ite hpatrol .nil) (.ite hchase .nil)) (.ite hfly .nil)))))
  · exact .of_reads (by repeat' constructor) rfl
  · exact .of_reads (by repeat' constructor) rfl

theorem balanced_enemyCollision (l : Level) (defeatAll : Bool) :
    Balanced bare (enemyCollision l defeatAll) := by
  have hlayers : Balanced bare ((tiledLayers l).map fun p =>
      line ["if (", .name (layerField p.1), ") this.physics.add.collider(this.enemies, ",
        .name (layerField p.1), ");"]) :=
    .map fun p _ => .of_reads (by repeat' constructor) rfl
  refine .append (.append (.append ?_ hlayers) .blank) (.callback _ ?_ (.append (.append ?_
    (.block _ ?_ (.append ?_ (.ite ?_ .nil)))) ?_))
  all_goals exact .of_reads (by repeat' constructor) rfl

theorem balanced_collectibleInstance (c : Collectible) (x y : Number) :
    Balanced bare (collectibleInstance c x y) := by
  refine .block _ (.of_reads (by repeat' constructor) rfl) (.append ?_
    (balanced_playFirst (.inr rfl) c.sprite c.animations))
  exact .of_reads (by repeat' constructor) rfl

theorem balanced_collectibleCreate (g : Game) (l : Level) :
    Balanced bare (collectibleCreate l g.symbols) := by
  refine .ite .nil (.append (.of_reads (by repeat' constructor) rfl) (.flatMap fun p _ => ?_))
  cases g.symbols.collectible? p.entity with
  | none => exact .nil
  | some c => exact balanced_collectibleInstance c p.x p.y

theorem balanced_collectibleCollision (goal : Option String) :
    Balanced bare (collectibleCollision goal) := by
  refine .callback _ ?header (.append (.append (.append (.append ?_ ?_) ?_) ?_) ?goal)
  case goal =>
    cases goal with
    | none => exact .nil
    | some name =>
      refine .append ?_ ?_
      all_goals exact .of_reads (by repeat' constructor) rfl
  all_goals exact .of_reads (by repeat' constructor) rfl

/-! ## Level scenes -/

theorem balanced_tilemapCreate (l : Level) (assets : List Asset) :
    Balanced bare (tilemapCreate l assets) := by
  have hlayers : Balanced bare ((tiledLayers l).flatMap fun p => layerCreate p.1 p.2) :=
    .flatMap fun p _ => .of_reads (by repeat' constructor) rfl
  unfold tilemapCreate
  cases hl : tiledLayers l with
  | nil => exact .nil
  | cons p ps =>
    rw [hl] at hlayers
    exact .append (.of_reads (by repeat' constructor) rfl) hlayers

theorem balanced_platformsCreate (ps : List Platform) : Balanced bare (platformsCreate ps) := by
  refine .append (.append ?_ (.map fun p _ => ?_)) ?_
  all_goals exact .of_reads (by repeat' constructor) rfl

theorem balanced_exitZone (p : Point) : Balanced bare (exitZone p) :=
  .of_reads (by repeat' constructor) rfl

theorem balanced_soundSetup (event : SoundEvent) (key : String) :
    Balanced bare (soundSetup event key) := by
  cases event <;> exact .of_reads (by repeat' constructor) rfl

theorem balanced_soundsSetup (sounds : Option Sounds) : Balanced bare (soundsSetup sounds) := by
  cases sounds with
  | none => exact .nil
  | some s =>
    refine .flatMap fun p _ => ?_
    obtain ⟨event, _ | key⟩ := p
    · exact .nil
    · exact .ite .nil (balanced_soundSetup event key)

theorem balanced_levelCreate (g : Game) (l : Level) : Balanced bare (levelCreate g l) := by
  refine .block _ ?header (.append (.append (.append (.append (.append (.append (.append
    (.append (.append (.append (.append (.append (.append ?start ?input) .blank) ?player) .blank)
    ?tilemap) ?platforms) ?enemies) ?collectibles) ?exit) ?sounds) ?hud) ?lose) ?win)
  case input => exact balanced_inputSetup g.player
  case player => exact balanced_playerCreate g.player l.spawn
  case tilemap => exact (balanced_tilemapCreate l g.assets).withBlank
  case platforms => exact .ite .nil ((balanced_platformsCreate l.platforms).append .blank)
  case enemies =>
    exact .ite_isEmpty (((balanced_enemyCreate g l).append (balanced_enemyCollision l _)).append
      .blank)
  case collectibles =>
    exact .ite_isEmpty (((balanced_collectibleCreate g l).append
      (balanced_collectibleCollision _)).append .blank)
  case exit =>
    cases l.exit with
    | none => exact .nil
    | some p => exact (balanced_exitZone p).append .blank
  case sounds => exact balanced_soundsSetup g.sounds
  case hud => exact .ite (.of_reads (by repeat' constructor) rfl) .nil
  case lose => exact .ite (.of_reads (by repeat' constructor) rfl) .nil
  case win =>
    cases g.rules.win with
    | survive seconds => exact .of_reads (by repeat' constructor) rfl
    | _ => exact .nil
  all_goals exact .of_reads (by repeat' constructor) rfl

theorem balanced_levelUpdate (g : Game) (l : Level)
    (h : bare → g.player.jumpForce.isNegative = false) : Balanced bare (levelUpdate g l) := by
  refine .block _ ?header (.append (.append (.append (.append (.append (.append ?start
    (balanced_playerUpdate g.player h)) ?enemies) .blank) ?fall) ?win) ?_)
  case enemies => exact .ite .nil (Balanced.blank.append (balanced_enemyUpdate g.enemies))
  case fall =>
    refine .ite (.block _ ?_ ?_) .nil
    all_goals exact .of_reads (by repeat' constructor) rfl
  case win =>
    cases g.rules.win with
    | survive seconds => exact .of_reads (by repeat' constructor) rfl
    | _ => exact .nil
  all_goals exact .of_reads (by repeat' constructor) rfl

theorem balanced_damageHandler : Balanced bare damageHandler :=
  .of_reads (by repeat' constructor) rfl

theorem balanced_winHandler (next : Option String) : Balanced bare (winHandler next) := by
  refine .block _ ?_ (.append ?_ ?next)
  case next =>
    cases next with
    | none => exact .of_reads (by repeat' constructor) rfl
    | some key => exact balanced_startScene key
  all_goals exact .of_reads (by repeat' constructor) rfl

theorem balanced_gameOverHandler (g : Game) (restart : String) :
    Balanced bare (gameOverHandler g restart) :=
  .of_reads (by repeat' constructor) rfl

theorem balanced_levelListing (g : Game) (l : Level) (index : Nat)
    (h : bare → g.player.jumpForce.isNegative = false) :
    Balanced bare (levelListing g l index) := by
  have hconstructor : Balanced bare (sceneConstructor (sceneKey l.name) "") :=
    balanced_sceneConstructor _ (.inl rfl)
  have hcreate := (hconstructor.append .blank).append (balanced_levelCreate g l)
  have hupdate := (hcreate.append .blank).append (balanced_levelUpdate g l h)
  have hdamage := (hupdate.append .blank).append balanced_damageHandler
  have hwin := (hdamage.append .blank).append (balanced_winHandler (nextScene g index))
  exact balanced_sceneClass (isName_sceneKey l.name)
    ((hwin.append .blank).append (balanced_gameOverHandler g _))

/-! ## The display and the program -/

theorem balanced_hudElementCreate (g : Game) (e : HudElement) :
    Balanced bare [hudElementCreate g e] := by
  unfold hudElementCreate
  cases e.kind <;> exact .of_reads (by repeat' constructor) rfl

theorem balanced_hudListing (g : Game) (elements : List HudElement) :
    Balanced bare (hudListing g elements) := by
  refine balanced_sceneClass isName_hudScene (.append (.append
    (balanced_sceneConstructor _ (.inr rfl)) .blank) (.block _ ?_ (.append (.append (.append
    (.append (.append ?_ (.map fun e _ => balanced_hudElementCreate g e)) .blank) ?_) ?_) ?_)))
  all_goals exact .of_reads (by repeat' constructor) rfl

theorem balanced_configListing (g : Game) : Balanced bare (configListing g) := by
  have hscenes : Balanced bare [line ([Piece.code "scene: ["]
      ++ separate ", " ((sceneList g).map .name) ++ [.code "],"])] :=
    .of_reads (.line (.code (.names (fun s hs => isName_of_mem_sceneList hs) (.code .nil))) .nil)
      rfl
  refine .append (.braces _ ?_ (.append (.append ?_ (.braces _ ?_ (.append ?_
    (.braces _ ?_ ?_ ?_)) ?_)) hscenes) ?_) ?_
  all_goals exact .of_reads (by repeat' constructor) rfl

theorem balanced_programListing (g : Game)
    (h : bare → g.levels ≠ [] → g.player.jumpForce.isNegative = false) :
    Balanced bare (programListing g) := by
  have hlevels : ∀ p ∈ g.levels.zipIdx, bare → g.player.jumpForce.isNegative = false :=
    fun p hp hbare => h hbare (List.ne_nil_of_mem (List.fst_mem_of_mem_zipIdx hp))
  refine .append (.append (.append ((balanced_bootListing g).append .blank)
    (.flatMap fun p hp => (balanced_levelListing g p.1 p.2 (hlevels p hp)).append .blank)) ?_)
    (balanced_configListing g)
  cases g.hud with
  | none => exact .nil
  | some elements => exact (balanced_hudListing g elements).append .blank

end PlatformGame.Script
