import PlatformGame.Check.Violation
import PlatformGame.Program.Page
import PlatformGame.Proofs.Game.Symbols
import PlatformGame.Proofs.Program.Listings

/-! # What the program of a game does

The program of a game is read part by part, in the order in which it is written. The result
(`performs_programListing`) lists everything that the program does with scenes and assets
(`gameActions`); what is said about scenes and assets later is said of that list. -/

namespace PlatformGame

variable {g : Game} {names : List String}

/-- The names that stand in payloads have none of the characters of closing tags. -/
structure Game.PlainNames (g : Game) : Prop where
  enemies : ∀ e ∈ g.enemies, Text.Plain e.name.toList
  collectibles : ∀ c ∈ g.collectibles, Text.Plain c.name.toList

namespace Script

open Program

-- The longest rows have more than a hundred characters, each a step of the reading.
set_option maxRecDepth 2048

/-- Rows that a program is not read for. -/
def Idle (plain : Prop) (rows : Listing) : Prop := Performs plain rows []

namespace Idle

theorem nil : Idle plain [] := Performs.nil

theorem of_spells (hspells : SpellsAll plain rows qss) (hacts : actsAll? qss = some []) :
    Idle plain rows :=
  Performs.of_spells hspells hacts

theorem append (h : Idle plain rows) (h' : Idle plain rows') : Idle plain (rows ++ rows') :=
  Performs.append h h'

theorem blank : Idle plain [blank] := of_spells (by repeat' constructor) rfl

theorem ite [Decidable c] (h : Idle plain rows) (h' : Idle plain rows') :
    Idle plain (if c then rows else rows') := by
  split
  · exact h
  · exact h'

theorem flatMap {f : α → Listing} {xs : List α} (h : ∀ x ∈ xs, Idle plain (f x)) :
    Idle plain (xs.flatMap f) := by
  have hacts : Performs plain (xs.flatMap f) (xs.flatMap fun _ => []) := Performs.flatMap h
  rwa [List.flatMap_eq_nil_iff.2 fun _ _ => rfl] at hacts

theorem map {f : α → Row} {xs : List α} (h : ∀ x ∈ xs, Idle plain [f x]) :
    Idle plain (xs.map f) := by
  rw [List.map_eq_flatMap]
  exact flatMap h

theorem blockTo (header : List Piece)
    (hopen : Idle plain [line (if header.isEmpty then [r"{"] else header ++ [.code r" {"])])
    (hbody : Idle plain body) (hclose : Idle plain [line [.code close]]) :
    Idle plain (blockTo close header body) :=
  Performs.blockTo header hopen hbody hclose

theorem block (header : List Piece)
    (hopen : Idle plain [line (if header.isEmpty then [r"{"] else header ++ [.code r" {"])])
    (hbody : Idle plain body) : Idle plain (block header body) :=
  blockTo header hopen hbody (of_spells (by repeat' constructor) rfl)

end Idle

namespace Performs

theorem append_idle (h : Performs plain rows as) (h' : Idle plain rows') :
    Performs plain (rows ++ rows') as :=
  List.append_nil as ▸ h.append h'

theorem idle_append (h : Idle plain rows) (h' : Performs plain rows' as) :
    Performs plain (rows ++ rows') as :=
  Performs.append h h'

/-- A block whose header does nothing. -/
theorem idle_blockTo (header : List Piece)
    (hopen : Idle plain [line (if header.isEmpty then [r"{"] else header ++ [.code r" {"])])
    (hbody : Performs plain body as) (hclose : Idle plain [line [.code close]]) :
    Performs plain (Program.blockTo close header body) as :=
  blockTo header hopen hbody hclose

theorem block (header : List Piece)
    (hopen : Idle plain [line (if header.isEmpty then [r"{"] else header ++ [.code r" {"])])
    (hbody : Performs plain body as) : Performs plain (block header body) as :=
  idle_blockTo header hopen hbody (.of_spells (by repeat' constructor) rfl)

/-- Rows for those members of a list for which something is found. -/
theorem filterMap {f : α → Listing} {find : α → Option β} {act : β → Action} {xs : List α}
    (hsome : ∀ x y, find x = some y → Performs plain (f x) [act y])
    (hnone : ∀ x, find x = none → Idle plain (f x)) :
    Performs plain (xs.flatMap f) ((xs.filterMap find).map act) := by
  rw [List.map_filterMap, List.filterMap_eq_flatMap_toList]
  refine flatMap fun x _ => ?_
  cases h : find x with
  | none => exact hnone x h
  | some y => exact hsome x y h

/-- Rows that are left out if some of them are empty. -/
theorem ite_isEmpty (h : Performs plain rows as) (h' : Performs plain rows' as) :
    Performs plain (if rows.isEmpty then [] else rows') as := by
  split
  · next hempty =>
    rw [List.isEmpty_iff.1 hempty] at h
    exact h
  · exact h'

theorem withBlank (h : Performs plain rows as) : Performs plain (withBlank rows) as :=
  h.ite_isEmpty (h.append_idle .blank)

theorem ite [Decidable c] (h : Performs plain rows as) :
    Performs plain (if c then rows else []) (if c then as else []) := by
  split
  · exact h
  · exact nil

end Performs

/-! ## Scenes -/

/-- A scene of a program, with what is done in it after it has its key. -/
structure Scene where
  key : String
  body : List Action

def Scene.actions (s : Scene) : List Action :=
  [.declares s.key, .calls .registerScene [s.key]] ++ s.body

theorem performs_sceneConstructor (key : String) (h : options = "" ∨ options = ", active: false") :
    Performs plain (sceneConstructor key options) [.calls .registerScene [key]] := by
  rcases h with rfl | rfl
  · exact .of_spells (by repeat' constructor) rfl
  · exact .of_spells (by repeat' constructor) rfl

theorem performs_sceneClass (hkey : IsName key) (h : Performs plain body as) :
    Performs plain (sceneClass key body) (.declares key :: as) := by
  have hopen : Performs plain [line [.code "class ", .name key, .code " extends Phaser.Scene",
      .code r" {"]] [.declares key] :=
    .of_spells (.line (.code (.name hkey (.code (.code .nil)))) .nil) rfl
  exact .blockTo [.code "class ", .name key, .code " extends Phaser.Scene"] hopen h
    (.of_spells (by repeat' constructor) rfl)

theorem performs_startScene (key : String) :
    Performs plain [startScene key] [.calls .startScene [key]] :=
  .of_spells (by repeat' constructor) rfl

/-! ## The boot scene -/

def loader : AssetKind → Callee
  | .image => .loadImage
  | .spritesheet => .loadSpritesheet
  | .tilemap => .loadTilemap
  | .audio => .loadAudio

def loadAction (a : Asset) : Action := .calls (loader a.kind) [a.key, a.path]

def bootOf (g : Game) : Scene where
  key := bootScene
  body := g.assets.map loadAction
    ++ (g.levels.head?.map fun l => Action.calls .startScene [sceneKey l.name]).toList

theorem performs_assetLoad (a : Asset) : Performs plain [assetLoad a] [loadAction a] := by
  unfold assetLoad loadAction
  cases a.kind <;> exact .of_spells (by repeat' constructor) rfl

theorem idle_clipCreate (sprite : String) (c : Clip) : Idle plain (clipCreate sprite c) := by
  unfold clipCreate
  cases c.loop <;> exact .of_spells (by repeat' constructor) rfl

theorem performs_bootListing (g : Game) : Performs plain (bootListing g) (bootOf g).actions := by
  have hloads : Performs plain (g.assets.map assetLoad) (g.assets.map loadAction) := by
    rw [List.map_eq_flatMap (f := loadAction)]
    exact .map fun a _ => performs_assetLoad a
  have hclips : Idle plain ((clips g).flatMap fun p => clipCreate p.1 p.2) :=
    .flatMap fun p _ => idle_clipCreate p.1 p.2
  have hconstructor : Performs plain (sceneConstructor bootScene "") _ :=
    performs_sceneConstructor bootScene (.inl rfl)
  have hpreload := Performs.block ["preload()"] (.of_spells (by repeat' constructor) rfl) hloads
  rw [Scene.actions, bootOf, ← List.append_assoc]
  have hbefore := ((hconstructor.append_idle .blank).append hpreload).append_idle .blank
  refine performs_sceneClass isName_bootScene (hbefore.append (.block _
    (.of_spells (by repeat' constructor) rfl) (.idle_append hclips ?_)))
  cases g.levels with
  | nil => exact .nil
  | cons l ls => exact performs_startScene _

/-! ## The player -/

theorem idle_inputSetup (p : Player) : Idle plain (inputSetup p) := by
  unfold inputSetup usesArrows usesWasd
  cases p.controls <;> exact .of_spells (by repeat' constructor) rfl

theorem performs_playerCreate (p : Player) (spawn : Option Point) :
    Performs plain (playerCreate p spawn) [.calls .sprite [p.sprite]] :=
  .of_spells (by repeat' constructor) rfl

/-- The characters of a condition on the player's keys. -/
def keyChars (direction : List Char) : ControlScheme → List Char
  | .arrows => cursors
  | .wasd => wasd
  | .both => cursors ++ ' ' :: '|' :: '|' :: ' ' :: wasd
where
  down : List Char := direction ++ ['.', 'i', 's', 'D', 'o', 'w', 'n']
  cursors : List Char := ['c', 'u', 'r', 's', 'o', 'r', 's', '.'] ++ down
  wasd : List Char := ['w', 'a', 's', 'd', '.'] ++ down

theorem keyDown_eq (p : Player) (direction : List Char) :
    keyDown p (String.ofList direction) = String.ofList (keyChars direction p.controls) := by
  rw [← String.toList_inj, String.toList_ofList]
  unfold keyDown usesArrows usesWasd
  cases p.controls <;>
    simp [keyChars, keyChars.cursors, keyChars.wasd, keyChars.down, String.toList_append]

theorem idle_walk (p : Player) :
    Idle plain (withClip p "walk" "if (this.player.body.onFloor()) " ", true);") :=
  .ite (.of_spells (by repeat' constructor) rfl) .nil

theorem idle_withClip (p : Player) (name : String) : Idle plain (withClip p name "" ", true);") :=
  .ite (.of_spells (by repeat' constructor) rfl) .nil

theorem idle_playerUpdate (p : Player) : Idle plain (playerUpdate p) := by
  unfold playerUpdate
  rw [keyDown_eq, keyDown_eq, keyDown_eq]
  refine .append (.append (.append (.append (.append (.append (.append ?_ ?_) ?_) ?_) ?_) ?_)
    .blank) ?_
  · exact .ite (.of_spells (by repeat' constructor) rfl) .nil
  · exact .ite (.of_spells (by repeat' constructor) rfl) .nil
  · exact .of_spells (by repeat' constructor) rfl
  · refine .block _ ?_ (.append (.of_spells (by repeat' constructor) rfl) (idle_walk p))
    cases p.controls <;> exact .of_spells (by repeat' constructor) rfl
  · refine .block _ ?_ (.append (.of_spells (by repeat' constructor) rfl) (idle_walk p))
    cases p.controls <;> exact .of_spells (by repeat' constructor) rfl
  · refine .block _ (.of_spells (by repeat' constructor) rfl) (.ite (idle_withClip p _) ?_)
    exact .of_spells (by repeat' constructor) rfl
  · refine .block _ ?_ (.append (.append ?_ (idle_withClip p _)) ?_)
    · cases p.controls <;> exact .of_spells (by repeat' constructor) rfl
    · exact .of_spells (by repeat' constructor) rfl
    · exact .of_spells (by repeat' constructor) rfl

/-! ## Enemies and collectibles -/

theorem idle_playFirst (h : who = "enemy" ∨ who = "item") (sprite : String) (cs : List Clip) :
    Idle plain (playFirst who sprite cs) := by
  cases cs with
  | nil => exact .nil
  | cons c cs => rcases h with rfl | rfl <;> exact .of_spells (by repeat' constructor) rfl

theorem idle_movementSetup (m : Movement) (x y : Number) : Idle plain (movementSetup m x y) := by
  cases m <;> exact .of_spells (by repeat' constructor) rfl

theorem plain_movementPayload (m : Movement) : (movementPayload m).Plain := by
  have hspeed : Text.Plain "speed".toList := .toList_ofList (by decide)
  refine .object_cons (.toList_ofList (by decide)) (.text ?_) ?_
  · cases m <;> exact .toList_ofList (by decide)
  · cases m with
    | patrol s d =>
      exact .object_cons hspeed (.number s)
        (.object_cons (.toList_ofList (by decide)) (.number d) .object_nil)
    | chase s r =>
      exact .object_cons hspeed (.number s)
        (.object_cons (.toList_ofList (by decide)) (.number r) .object_nil)
    | fly s a f =>
      exact .object_cons hspeed (.number s)
        (.object_cons (.toList_ofList (by decide)) (.number a)
          (.object_cons (.toList_ofList (by decide)) (.number f) .object_nil))
    | static => exact .object_nil

theorem plain_enemyPayload (h : Text.Plain e.name.toList) : (enemyPayload e).Plain :=
  .object_cons (.toList_ofList (by decide)) (.text h)
    (.object_cons (.toList_ofList (by decide)) (plain_movementPayload e.movement)
      (.object_cons (.toList_ofList (by decide)) (.number e.damage)
        (.object_cons (.toList_ofList (by decide)) (.bool e.stompable) .object_nil)))

theorem performs_enemyInstance (h : plain → Text.Plain e.name.toList) (x y : Number) :
    Performs plain (enemyInstance e x y) [.calls .enemy [e.sprite]] := by
  refine .block _ (.of_spells (by repeat' constructor) rfl) (.append_idle (.append_idle ?_
    (idle_playFirst (.inl rfl) e.sprite e.animations)) (idle_movementSetup e.movement x y))
  have hpayload (hplain : plain) : (enemyPayload e).Plain := plain_enemyPayload (h hplain)
  exact .of_spells (by repeat' first | exact hpayload | constructor) rfl

/-- The enemies that are placed in a level. -/
def placedEnemies (g : Game) (l : Level) : List Enemy :=
  l.enemies.filterMap fun p => g.symbols.enemy? p.entity

theorem performs_enemyCreate (h : plain → g.PlainNames) (l : Level) :
    Performs plain (enemyCreate l g.symbols)
      ((placedEnemies g l).map fun e => .calls .enemy [e.sprite]) := by
  unfold enemyCreate
  split
  · next hempty =>
    rw [placedEnemies, List.isEmpty_iff.1 hempty]
    exact .nil
  · refine .idle_append (.of_spells (by repeat' constructor) rfl) (.filterMap ?_ ?_)
    · intro p e he
      rw [he]
      exact performs_enemyInstance (fun hp => (h hp).enemies e (Game.mem_of_enemy? he)) p.x p.y
    · intro p hp
      rw [hp]
      exact .nil

theorem idle_enemyUpdate (es : List Enemy) : Idle plain (enemyUpdate es) := by
  have hpatrol : Idle plain patrolUpdate := .of_spells (by repeat' constructor) rfl
  have hchase : Idle plain chaseUpdate := .of_spells (by repeat' constructor) rfl
  have hfly : Idle plain flyUpdate := .of_spells (by repeat' constructor) rfl
  refine .ite .nil (.block _ (.of_spells (by repeat' constructor) rfl) (.blockTo _ ?_
    (.append ?_ (.append (.append (.ite hpatrol .nil) (.ite hchase .nil)) (.ite hfly .nil))) ?_))
  · exact .of_spells (by repeat' constructor) rfl
  · exact .of_spells (by repeat' constructor) rfl
  · exact .of_spells (by repeat' constructor) rfl

theorem idle_enemyCollision (l : Level) (defeatAll : Bool) :
    Idle plain (enemyCollision l defeatAll) := by
  have hlayers : Idle plain ((tiledLayers l).map fun p =>
      line ["if (", .name (layerField p.1), ") this.physics.add.collider(this.enemies, ",
        .name (layerField p.1), ");"]) :=
    .map fun p _ => .of_spells (by repeat' constructor) rfl
  refine .append (.append (.append ?_ hlayers) .blank) (.blockTo _ ?_ (.append (.append ?_
    (.block _ ?_ (.append ?_ (.ite ?_ .nil)))) ?_) ?_)
  all_goals exact .of_spells (by repeat' constructor) rfl

theorem plain_collectiblePayload (h : Text.Plain c.name.toList) : (collectiblePayload c).Plain := by
  have heffect : Text.Plain c.effect.text.toList := by
    cases c.effect <;> exact .toList_ofList (by decide)
  exact .object_cons (.toList_ofList (by decide)) (.text h)
    (.object_cons (.toList_ofList (by decide)) (.number c.score)
      (.object_cons (.toList_ofList (by decide)) (.text heffect) .object_nil))

theorem performs_collectibleInstance (h : plain → Text.Plain c.name.toList) (x y : Number) :
    Performs plain (collectibleInstance c x y) [.calls .collectible [c.sprite]] := by
  refine .block _ (.of_spells (by repeat' constructor) rfl) (.append_idle ?_
    (idle_playFirst (.inr rfl) c.sprite c.animations))
  have hpayload (hplain : plain) : (collectiblePayload c).Plain :=
    plain_collectiblePayload (h hplain)
  exact .of_spells (by repeat' first | exact hpayload | constructor) rfl

/-- The collectibles that are placed in a level. -/
def placedCollectibles (g : Game) (l : Level) : List Collectible :=
  l.collectibles.filterMap fun p => g.symbols.collectible? p.entity

theorem performs_collectibleCreate (h : plain → g.PlainNames) (l : Level) :
    Performs plain (collectibleCreate l g.symbols)
      ((placedCollectibles g l).map fun c => .calls .collectible [c.sprite]) := by
  unfold collectibleCreate
  split
  · next hempty =>
    rw [placedCollectibles, List.isEmpty_iff.1 hempty]
    exact .nil
  · refine .idle_append (.of_spells (by repeat' constructor) rfl) (.filterMap ?_ ?_)
    · intro p c hc
      rw [hc]
      exact performs_collectibleInstance
        (fun hp => (h hp).collectibles c (Game.mem_of_collectible? hc)) p.x p.y
    · intro p hp
      rw [hp]
      exact .nil

theorem idle_collectibleCollision (goal : Option String) :
    Idle plain (collectibleCollision goal) := by
  refine .blockTo _ ?_ (.append (.append (.append (.append ?_ ?_) ?_) ?_) ?_) ?_
  case refine_6 =>
    cases goal with
    | none => exact .nil
    | some name =>
      refine .append ?_ ?_
      all_goals exact .of_spells (by repeat' constructor) rfl
  all_goals exact .of_spells (by repeat' constructor) rfl

/-! ## Level scenes -/

def tilemapActions (l : Level) (assets : List Asset) : List Action :=
  if (tiledLayers l).isEmpty then []
  else [.calls .tilemap [l.tilemap.getD ""], .calls .tileset ["tileset", tilesetKey assets]]

theorem performs_tilemapCreate (l : Level) (assets : List Asset) :
    Performs plain (tilemapCreate l assets) (tilemapActions l assets) := by
  have hlayers : Idle plain ((tiledLayers l).flatMap fun p => layerCreate p.1 p.2) :=
    .flatMap fun p _ => .of_spells (by repeat' constructor) rfl
  unfold tilemapCreate tilemapActions
  cases hl : tiledLayers l with
  | nil => exact .nil
  | cons p ps =>
    rw [hl] at hlayers
    exact .append_idle (.of_spells (by repeat' constructor) rfl) hlayers

theorem performs_platformsCreate (ps : List Platform) :
    Performs plain (platformsCreate ps) (ps.map fun p => .calls .platform [p.asset]) := by
  refine .append_idle (.idle_append ?_ ?_) ?_
  · exact .of_spells (by repeat' constructor) rfl
  · rw [List.map_eq_flatMap (l := ps) (f := fun p => Action.calls .platform [p.asset])]
    exact .map fun p _ => .of_spells (by repeat' constructor) rfl
  · exact .of_spells (by repeat' constructor) rfl

theorem idle_exitZone (p : Point) : Idle plain (exitZone p) :=
  .of_spells (by repeat' constructor) rfl

theorem performs_soundSetup (event : SoundEvent) (key : String) :
    Performs plain (soundSetup event key) [.calls .sound [key]] := by
  cases event <;> exact .of_spells (by repeat' constructor) rfl

/-- The sounds that a level sets up. -/
def playedSounds (g : Game) : List String :=
  (g.sounds.map fun s => s.events.filterMap fun p => filled p.2).getD []

theorem performs_soundsSetup (g : Game) :
    Performs plain (soundsSetup g.sounds)
      ((playedSounds g).map fun key => .calls .sound [key]) := by
  unfold soundsSetup playedSounds
  cases g.sounds with
  | none => exact .nil
  | some s =>
    simp only [Option.map_some, Option.getD_some]
    refine .filterMap ?_ ?_
    · intro p key hkey
      obtain ⟨event, _ | key'⟩ := p
      · cases hkey
      · obtain ⟨⟨⟩, hne⟩ := Option.filter_eq_some_iff.1 hkey
        simp only [Bool.not_eq_true'] at hne
        simp only [hne]
        exact performs_soundSetup event key
    · intro p hp
      obtain ⟨event, _ | key'⟩ := p
      · exact .nil
      · have hempty : key'.isEmpty = true := by simpa [filled] using hp
        simp only [hempty]
        exact .nil

/-- What a level's scene does when it is set up. -/
def createActions (g : Game) (l : Level) : List Action :=
  [.calls .sprite [g.player.sprite]] ++ tilemapActions l g.assets
    ++ l.platforms.map (fun p => .calls .platform [p.asset])
    ++ (placedEnemies g l).map (fun e => .calls .enemy [e.sprite])
    ++ (placedCollectibles g l).map (fun c => .calls .collectible [c.sprite])
    ++ (playedSounds g).map (fun key => .calls .sound [key])
    ++ if g.hud.isSome then [.calls .launchScene [hudScene]] else []

theorem performs_levelCreate (h : plain → g.PlainNames) (l : Level) :
    Performs plain (levelCreate g l) (createActions g l) := by
  have hplatforms : Performs plain
      (if l.platforms.isEmpty then [] else platformsCreate l.platforms ++ [blank])
      (l.platforms.map fun p => Action.calls .platform [p.asset]) := by
    cases l.platforms with
    | nil => exact .nil
    | cons p ps => exact (performs_platformsCreate _).append_idle .blank
  have henemies := performs_enemyCreate h l
  have hfights := (henemies.append_idle
    (idle_enemyCollision l (g.rules.win == .defeatAll))).append_idle .blank
  have hcollectibles := performs_collectibleCreate h l
  have hfinds := (hcollectibles.append_idle
    (idle_collectibleCollision (goalOf g.rules.win))).append_idle .blank
  have hhud : Performs plain [line ["if (!this.scene.isActive(", .literal hudScene,
      ")) this.scene.launch(", .literal hudScene, ");"]] [.calls .launchScene [hudScene]] :=
    .of_spells (by repeat' constructor) rfl
  refine .block _ ?header
    (.append_idle (.append_idle (.append ?setup (.ite hhud)) ?lose) ?win)
  case header => exact .of_spells (by repeat' constructor) rfl
  case lose => exact .ite (.of_spells (by repeat' constructor) rfl) .nil
  case win =>
    cases g.rules.win with
    | survive seconds => exact .of_spells (by repeat' constructor) rfl
    | _ => exact .nil
  refine .append (.append_idle ?things ?exit) (performs_soundsSetup g)
  case exit =>
    cases l.exit with
    | none => exact .nil
    | some p => exact (idle_exitZone p).append .blank
  refine .append (.append (.append (.append (.append_idle (.idle_append ?input ?player) .blank)
    ?tilemap) hplatforms) (henemies.ite_isEmpty hfights)) (hcollectibles.ite_isEmpty hfinds)
  case input =>
    refine .append (.append ?_ (idle_inputSetup g.player)) .blank
    exact .of_spells (by repeat' constructor) rfl
  case player => exact performs_playerCreate g.player l.spawn
  case tilemap => exact (performs_tilemapCreate l g.assets).withBlank

theorem idle_levelUpdate (g : Game) (l : Level) : Idle plain (levelUpdate g l) := by
  refine .block _ (.of_spells (by repeat' constructor) rfl) ?_
  refine .append (.append (.append (.append (.append (.append ?_ (idle_playerUpdate g.player)) ?_)
    .blank) (.ite (.block _ ?_ ?_) .nil)) ?_) ?_
  case refine_2 => exact .ite .nil (.append .blank (idle_enemyUpdate g.enemies))
  case refine_5 =>
    cases g.rules.win with
    | survive seconds => exact .of_spells (by repeat' constructor) rfl
    | _ => exact .nil
  all_goals exact .of_spells (by repeat' constructor) rfl

theorem idle_damageHandler : Idle plain damageHandler := .of_spells (by repeat' constructor) rfl

theorem performs_winHandler (next : Option String) :
    Performs plain (winHandler next)
      (next.map fun key => Action.calls .startScene [key]).toList := by
  refine .block _ (.of_spells (by repeat' constructor) rfl)
    (.idle_append (.of_spells (by repeat' constructor) rfl) ?_)
  cases next with
  | none => exact .of_spells (by repeat' constructor) rfl
  | some key => exact performs_startScene key

theorem performs_gameOverHandler (g : Game) (restart : String) :
    Performs plain (gameOverHandler g restart) [.calls .startScene [restart]] :=
  .of_spells (by repeat' constructor) rfl

/-- The scene that a lost game starts again with, in the given level. -/
def firstScene (g : Game) (l : Level) : String :=
  (g.levels.head?.map fun l => sceneKey l.name).getD (sceneKey l.name)

def levelOf (g : Game) (l : Level) (index : Nat) : Scene where
  key := sceneKey l.name
  body := createActions g l
    ++ ((nextScene g index).map fun key => Action.calls .startScene [key]).toList
    ++ [.calls .startScene [firstScene g l]]

theorem performs_levelListing (h : plain → g.PlainNames) (l : Level) (index : Nat) :
    Performs plain (levelListing g l index) (levelOf g l index).actions := by
  have hconstructor : Performs plain (sceneConstructor (sceneKey l.name) "") _ :=
    performs_sceneConstructor _ (.inl rfl)
  have hcreate := (hconstructor.append_idle .blank).append (performs_levelCreate h l)
  have hupdate := (hcreate.append_idle .blank).append_idle (idle_levelUpdate g l)
  have hdamage := (hupdate.append_idle .blank).append_idle idle_damageHandler
  have hwin := (hdamage.append_idle .blank).append (performs_winHandler (nextScene g index))
  have hlose := (hwin.append_idle .blank).append (performs_gameOverHandler g (firstScene g l))
  rw [Scene.actions, levelOf, ← List.append_assoc, ← List.append_assoc]
  exact performs_sceneClass (isName_sceneKey l.name) hlose

/-! ## The display -/

theorem idle_hudElementCreate (g : Game) (e : HudElement) : Idle plain [hudElementCreate g e] := by
  unfold hudElementCreate
  cases e.kind <;> exact .of_spells (by repeat' constructor) rfl

theorem performs_hudListing (g : Game) (elements : List HudElement) :
    Performs plain (hudListing g elements) (Scene.actions ⟨hudScene, []⟩) := by
  have hconstructor : Performs plain (sceneConstructor hudScene ", active: false") _ :=
    performs_sceneConstructor _ (.inr rfl)
  have helements : Idle plain (elements.map (hudElementCreate g)) :=
    .map fun e _ => idle_hudElementCreate g e
  refine performs_sceneClass isName_hudScene ((hconstructor.append_idle .blank).append_idle
    (.block _ ?_ (.append (.append (.append (.append (.append ?_ helements) .blank) ?_) ?_) ?_)))
  all_goals exact .of_spells (by repeat' constructor) rfl

/-! ## The program -/

/-- Names with commas in between. -/
def listTokens : List String → List Token
  | [] => []
  | [s] => [.word s.toList]
  | s :: ss => .word s.toList :: .mark ',' :: listTokens ss

theorem tokens?_names (h : ∀ s ∈ names, IsName s) (hd : isWordChar d = false)
    (h' : tokens? (d :: ds) = some us) :
    tokens? ((", ".intercalate names).toList ++ d :: ds) = some (listTokens names ++ us) := by
  induction names with
  | nil => exact h'
  | cons s names ih =>
    rw [List.forall_mem_cons] at h
    cases names with
    | nil => exact tokensFrom?_append_cons h.1.tokens? hd h'
    | cons s' names =>
      have hcomma : scan .code [',', ' '] = (.code, [.mark ',']) := rfl
      have hrest := tokensFrom?_append hcomma (ih h.2)
      rw [String.intercalate_cons_cons, String.toList_append, String.toList_append,
        String.toList_ofList, List.append_assoc, List.append_assoc]
      exact (tokensFrom?_append_cons h.1.tokens? (by decide) hrest :)

theorem writeAll_names (h : writeAll (separate ", " (names.map .name)) = .ok t) :
    t = ", ".intercalate names := by
  obtain ⟨ts, hts, rfl⟩ := writeAll_separate h
  have heq : List.Forall₂ Eq names ts := hts.imp fun _ _ h => Except.ok.inj h
  rw [List.forall₂_eq_eq_eq] at heq
  rw [heq]

theorem listedWords_listTokens (names : List String) (rest : List Token) :
    listedWords (listTokens names ++ .mark ']' :: rest) = names := by
  fun_induction listTokens names with
  | case1 => rfl
  | case2 s => simp [listedWords, Token.word?, String.ofList_toList]
  | case3 s ss _ ih =>
    have hcons : listedWords (.word s.toList :: .mark ',' :: (listTokens ss ++ .mark ']' :: rest)) =
        String.ofList s.toList :: listedWords (listTokens ss ++ .mark ']' :: rest) := rfl
    rw [List.cons_append, List.cons_append, hcons, ih, String.ofList_toList]

theorem quiet_listTokens (h : ∀ s ∈ names, IsName s) : ∀ t ∈ listTokens names, t.Quiet := by
  fun_induction listTokens names with
  | case1 => simp
  | case2 s => simpa using (h s (by simp)).quiet
  | case3 s ss _ ih =>
    rw [List.forall_mem_cons] at h
    exact List.forall_mem_cons.2 ⟨h.1.quiet, List.forall_mem_cons.2 ⟨by decide, ih h.2⟩⟩

theorem acts_list (h : ∀ s ∈ names, IsName s) :
    Acts (listOpening ++ (listTokens names ++ [.mark ']', .mark ','])) [.lists names] := by
  have haction (rest : List Token) : (action? (listOpening ++
      (listTokens names ++ [.mark ']', .mark ',']) ++ rest)).toList = [.lists names] := by
    have hlists (ts : List Token) : action? (listOpening ++ ts) = some (.lists (listedWords ts)) :=
      rfl
    rw [List.append_assoc, hlists, List.append_assoc]
    exact congrArg (fun ns => [Action.lists ns]) (listedWords_listTokens names _)
  have hquiet : ∀ t ∈ [Token.mark ':', .mark '['] ++ (listTokens names ++ [.mark ']', .mark ',']),
      t.Quiet := by
    refine List.forall_mem_append.2 ⟨quiet_marks [':', '['], ?_⟩
    exact List.forall_mem_append.2 ⟨quiet_listTokens h, quiet_marks [']', ',']⟩
  exact .cons haction (.of_quiet hquiet)

theorem toList_sceneRow
    (h : writeAll ([Piece.code "scene: ["] ++ separate ", " (names.map .name) ++ [.code "],"]) =
      .ok s) : s.toList = ['s', 'c', 'e', 'n', 'e', ':', ' ', '['] ++
      ((", ".intercalate names).toList ++ [']', ',']) := by
  obtain ⟨t, u, ht, hu, hs⟩ := writeAll_append h
  obtain ⟨v, w, hv, hw, hvw⟩ := writeAll_append ht
  cases writeAll_names hw
  have hopen : v.toList = ['s', 'c', 'e', 'n', 'e', ':', ' ', '['] := by
    rw [← Except.ok.inj hv, String.toList_append, String.toList_ofList]
    rfl
  have hclose : u.toList = [']', ','] := by
    rw [← Except.ok.inj hu, String.toList_append, String.toList_ofList]
    rfl
  rw [hs, hvw, hopen, hclose, List.append_assoc]

theorem tokens?_sceneRow (h : ∀ s ∈ names, IsName s) :
    tokens? (['s', 'c', 'e', 'n', 'e', ':', ' ', '['] ++
        ((", ".intercalate names).toList ++ [']', ','])) =
      some (listOpening ++ (listTokens names ++ [.mark ']', .mark ','])) := by
  have hstart : scan .code ['s', 'c', 'e', 'n', 'e', ':', ' ', '['] = (.code, listOpening) := rfl
  have hend : tokens? [']', ','] = some [.mark ']', .mark ','] := rfl
  exact tokensFrom?_append hstart (tokens?_names h (by decide) hend)

theorem performs_sceneRow (h : ∀ s ∈ names, IsName s) : Performs plain
      [line ([Piece.code "scene: ["] ++ separate ", " (names.map .name) ++ [.code "],"])]
      [.lists names] := by
  refine .single fun s hs => ?_
  rw [toList_sceneRow hs]
  refine ⟨⟨_, tokens?_sceneRow h, acts_list h⟩, ?_⟩
  have hbefore : Text.Plain ['s', 'c', 'e', 'n', 'e', ':', ' ', '['] := by decide
  have hafter : Text.Plain [']', ','] := by decide
  have hnames := Text.Plain.intercalate fun s hs => (h s hs).plain
  exact fun _ => (hbefore.append (hnames.append hafter)).unclosed.tags

theorem isName_of_mem_sceneList (h : key ∈ sceneList g) : IsName key := by
  simp only [sceneList, List.mem_append, List.mem_singleton, List.mem_map] at h
  rcases h with (rfl | ⟨l, _, rfl⟩) | h
  · exact isName_bootScene
  · exact isName_sceneKey l.name
  · split at h
    · exact List.mem_singleton.1 h ▸ isName_hudScene
    · cases h

theorem performs_configListing (g : Game) :
    Performs plain (configListing g) [.lists (sceneList g)] := by
  refine .append_idle (.idle_blockTo _ ?_ (.idle_append (.append ?_ (.blockTo _ ?_ (.append ?_
    (.blockTo _ ?_ ?_ ?_)) ?_)) (performs_sceneRow fun s hs => isName_of_mem_sceneList hs)) ?_) ?_
  all_goals exact .of_spells (by repeat' constructor) rfl

/-- The scenes of the program of a game. -/
def gameScenes (g : Game) : List Scene :=
  bootOf g :: g.levels.zipIdx.map (fun p => levelOf g p.1 p.2)
    ++ if g.hud.isSome then [⟨hudScene, []⟩] else []

/-- Everything that the program of a game does with scenes and assets. -/
def gameActions (g : Game) : List Action :=
  (gameScenes g).flatMap Scene.actions ++ [.lists (sceneList g)]

theorem performs_programListing (h : plain → g.PlainNames) :
    Performs plain (programListing g) (gameActions g) := by
  rw [gameActions, gameScenes, List.flatMap_append, List.flatMap_cons, List.flatMap_map]
  have hboot : Performs plain (bootListing g ++ [blank]) _ :=
    (performs_bootListing g).append_idle .blank
  refine .append (.append (hboot.append (.flatMap fun p _ => ?_)) ?_) (performs_configListing g)
  · exact (performs_levelListing h p.1 p.2).append_idle .blank
  cases g.hud with
  | none => exact .nil
  | some elements => exact (performs_hudListing g elements).append_idle .blank

/-! ## The calls of a program -/

/-- The calls in the program of a game. -/
inductive GameCall (g : Game) : Callee → List String → Prop
  | register : GameCall g .registerScene [key]
  | load : a ∈ g.assets → GameCall g (loader a.kind) [a.key, a.path]
  | startFirst : l ∈ g.levels → GameCall g .startScene [sceneKey l.name]
  | startNext : nextScene g index = some key → GameCall g .startScene [key]
  | launch : g.hud.isSome = true → GameCall g .launchScene [hudScene]
  | sprite : GameCall g .sprite [g.player.sprite]
  | tilemap : l ∈ g.levels → tiledLayers l ≠ [] → GameCall g .tilemap [l.tilemap.getD ""]
  | tileset : GameCall g .tileset ["tileset", tilesetKey g.assets]
  | platform : l ∈ g.levels → p ∈ l.platforms → GameCall g .platform [p.asset]
  | enemy : g.symbols.enemy? name = some e → GameCall g .enemy [e.sprite]
  | collectible : g.symbols.collectible? name = some i → GameCall g .collectible [i.sprite]
  | sound : key ∈ playedSounds g → GameCall g .sound [key]

theorem gameCall_of_mem_createActions (hl : l ∈ g.levels) (h : .calls c ls ∈ createActions g l) :
    GameCall g c ls := by
  simp only [createActions, List.mem_append, List.mem_map, List.mem_singleton] at h
  rcases h with (((((h | h) | ⟨p, hp, h⟩) | ⟨e, he, h⟩) | ⟨i, hi, h⟩) | ⟨key, hkey, h⟩) | h
  · cases h
    exact .sprite
  · unfold tilemapActions at h
    split at h
    · cases h
    · next hlayers =>
      rcases List.mem_pair.1 h with h | h <;> cases h
      · exact .tilemap hl (by simpa using hlayers)
      · exact .tileset
  · cases h
    exact .platform hl hp
  · cases h
    obtain ⟨p, _, hp⟩ := List.mem_filterMap.1 he
    exact .enemy hp
  · cases h
    obtain ⟨p, _, hp⟩ := List.mem_filterMap.1 hi
    exact .collectible hp
  · cases h
    exact .sound hkey
  · split at h
    · next hhud =>
      cases List.mem_singleton.1 h
      exact .launch hhud
    · cases h

theorem firstScene_eq (hl : l ∈ g.levels) : ∃ l' ∈ g.levels, firstScene g l = sceneKey l'.name := by
  unfold firstScene
  cases hlevels : g.levels with
  | nil => simp [hlevels] at hl
  | cons l' ls => exact ⟨l', List.mem_cons_self, rfl⟩

theorem gameCall_of_mem_body (hs : s ∈ gameScenes g) (h : .calls c ls ∈ s.body) :
    GameCall g c ls := by
  rw [gameScenes, List.mem_append, List.mem_cons, List.mem_map] at hs
  rcases hs with (rfl | ⟨⟨l, index⟩, hl, rfl⟩) | hs
  · rcases List.mem_append.1 h with h | h
    · obtain ⟨a, ha, h⟩ := List.mem_map.1 h
      cases h
      exact .load ha
    · obtain ⟨l, hl, h⟩ := Option.map_eq_some_iff.1 (Option.mem_toList.1 h)
      cases h
      exact .startFirst (List.mem_of_mem_head? hl)
  · have hl : l ∈ g.levels := List.fst_mem_of_mem_zipIdx hl
    simp only [levelOf, List.mem_append, List.mem_singleton] at h
    rcases h with (h | h) | h
    · exact gameCall_of_mem_createActions hl h
    · obtain ⟨key, hkey, h⟩ := Option.map_eq_some_iff.1 (Option.mem_toList.1 h)
      cases h
      exact .startNext hkey
    · cases h
      obtain ⟨l', hl', heq⟩ := firstScene_eq hl
      exact heq ▸ .startFirst hl'
  · split at hs
    · cases List.mem_singleton.1 hs
      cases h
    · cases hs

theorem gameCall_of_mem (h : .calls c ls ∈ gameActions g) : GameCall g c ls := by
  rw [gameActions, List.mem_append, List.mem_flatMap] at h
  rcases h with ⟨s, hs, h⟩ | h
  · rw [Scene.actions, List.mem_append, List.mem_pair] at h
    rcases h with (h | h) | h
    · cases h
    · cases h
      exact .register
    · exact gameCall_of_mem_body hs h
  · cases List.mem_singleton.1 h

end Script

open Program Script

/-- The program of a game, as it stands in the game's page. -/
def Game.script (g : Game) (minify : Bool) : Except NumberError String := do
  pure ((← Listing.sheet (programListing g)).render minify)

theorem Script.actionsOf?_script (h : g.script minify = .ok text) :
    actionsOf? text = some (gameActions g) := by
  obtain ⟨b, hb, h⟩ := bind_eq_ok.1 h
  rw [← Except.ok.inj h]
  exact (performs_programListing False.elim).actionsOf?_render hb minify

theorem closingTags_script (hg : g.PlainNames) (h : g.script minify = .ok text) :
    Text.closingTags text.toList = [] := by
  obtain ⟨b, hb, h⟩ := bind_eq_ok.1 h
  rw [← Except.ok.inj h]
  exact (performs_programListing fun _ => hg).closingTags_render trivial hb minify

end PlatformGame
