import PlatformGame.Proofs.Game.Contents

/-! # What the program of a game holds

Everything in a program that is not fixed text comes from the game: its numbers are in range, and
its texts are plain, apart from the paths of assets and the names that layers have in a tilemap
(`holdsAll_programListing`). -/

namespace PlatformGame

variable {g : Game} {key sprite : String}

namespace Json

mutual

/-- The numbers in a value. -/
def numbersIn : Json → List Number
  | number n => [n]
  | list xs => numbersInAll xs
  | object ms => numbersInMembers ms
  | null | bool _ | text _ => []

def numbersInAll : List Json → List Number
  | [] => []
  | x :: xs => x.numbersIn ++ numbersInAll xs

def numbersInMembers : List (String × Json) → List Number
  | [] => []
  | (_, x) :: ms => x.numbersIn ++ numbersInMembers ms

end

end Json

namespace Program

open Text

/-- The numbers that a quantity is computed from. -/
def Quantity.numbers : Quantity → List Number
  | value n => [n]
  | shifted n _ => [n]
  | middle start extent => [start, extent]
  | centred extent _ => [extent]
  | absent => []

/-- Whether a quantity takes a computation. -/
def Quantity.isComputed : Quantity → Bool
  | value _ => false
  | shifted .. | middle .. | centred .. | absent => true

/-- Numbers are in range, and texts are plain unless they are listed; `computes` says which
quantities there may be that take a computation. -/
def Piece.Holds (texts : List String) (computes : Quantity → Prop) : Piece → Prop
  | code _ => True
  | literal s => Plain s.toList ∨ s ∈ texts
  | number q => (∀ n ∈ q.numbers, n.Bounded) ∧ (q.isComputed = true → computes q)
  | labelled before n after => Plain before.toList ∧ n.Bounded ∧ Plain after.toList
  | name s => Plain s.toList
  | payload j => j.Plain ∧ ∀ n ∈ j.numbersIn, n.Bounded
  | html _ => False

def HoldsAll (texts : List String) (computes : Quantity → Prop) (rows : Listing) : Prop :=
  ∀ r ∈ rows, ∀ p ∈ r.pieces, p.Holds texts computes

section

variable {texts : List String} {computes : Quantity → Prop}

@[simp] theorem Piece.holds_code (s : String) : (Piece.code s).Holds texts computes := trivial

@[simp] theorem Piece.holds_literal (s : String) :
    (Piece.literal s).Holds texts computes ↔ Plain s.toList ∨ s ∈ texts := .rfl

@[simp] theorem Piece.holds_num (n : Number) : (num n).Holds texts computes ↔ n.Bounded :=
  (and_iff_left nofun).trans List.forall_mem_singleton

@[simp] theorem Piece.holds_number (q : Quantity) :
    (Piece.number q).Holds texts computes ↔
      (∀ n ∈ q.numbers, n.Bounded) ∧ (q.isComputed = true → computes q) := .rfl

@[simp] theorem Piece.holds_labelled (before : String) (n : Number) (after : String) :
    (Piece.labelled before n after).Holds texts computes ↔
      Plain before.toList ∧ n.Bounded ∧ Plain after.toList := .rfl

@[simp] theorem Piece.holds_name (s : String) :
    (Piece.name s).Holds texts computes ↔ Plain s.toList := .rfl

@[simp] theorem Piece.holds_payload (j : Json) :
    (Piece.payload j).Holds texts computes ↔ j.Plain ∧ ∀ n ∈ j.numbersIn, n.Bounded := .rfl

namespace HoldsAll

@[simp] theorem nil : HoldsAll texts computes [] := List.forall_mem_nil _

@[simp] theorem cons_line (ps : List Piece) (rows : Listing) :
    HoldsAll texts computes (line ps :: rows) ↔
      (∀ p ∈ ps, p.Holds texts computes) ∧ HoldsAll texts computes rows :=
  List.forall_mem_cons

@[simp] theorem cons_blank (rows : Listing) :
    HoldsAll texts computes (blank :: rows) ↔ HoldsAll texts computes rows :=
  List.forall_mem_cons.trans (and_iff_right (List.forall_mem_nil _))

@[simp] theorem append (rows rows' : Listing) :
    HoldsAll texts computes (rows ++ rows') ↔
      HoldsAll texts computes rows ∧ HoldsAll texts computes rows' :=
  List.forall_mem_append

@[simp] theorem indent (rows : Listing) :
    HoldsAll texts computes (indent rows) ↔ HoldsAll texts computes rows := by
  simp [HoldsAll, Program.indent, or_imp, forall_and]

@[simp] theorem blockTo (close : String) (header : List Piece) (body : Listing) :
    HoldsAll texts computes (blockTo close header body) ↔
      (∀ p ∈ header, p.Holds texts computes) ∧ HoldsAll texts computes body := by
  cases header <;> simp [Program.blockTo, or_imp, forall_and, and_comm]

@[simp] theorem block (header : List Piece) (body : Listing) :
    HoldsAll texts computes (block header body) ↔
      (∀ p ∈ header, p.Holds texts computes) ∧ HoldsAll texts computes body :=
  blockTo ..

@[simp] theorem flatMap (f : α → Listing) (xs : List α) :
    HoldsAll texts computes (xs.flatMap f) ↔ ∀ x ∈ xs, HoldsAll texts computes (f x) :=
  List.forall_mem_flatMap

@[simp] theorem map (f : α → Row) (xs : List α) :
    HoldsAll texts computes (xs.map f) ↔ ∀ x ∈ xs, HoldsAll texts computes [f x] := by
  rw [List.map_eq_flatMap, flatMap]

@[simp] theorem ite (c : Prop) [Decidable c] (rows rows' : Listing) :
    HoldsAll texts computes (if c then rows else rows') ↔
      (c → HoldsAll texts computes rows) ∧ (¬ c → HoldsAll texts computes rows') := by
  split <;> simp_all

end HoldsAll

@[simp] theorem holds_separate (sep : String) (ps : List Piece) :
    (∀ p ∈ separate sep ps, p.Holds texts computes) ↔ ∀ p ∈ ps, p.Holds texts computes := by
  induction ps with
  | nil => exact .rfl
  | cons p ps ih =>
    cases ps with
    | nil => exact .rfl
    | cons q qs =>
      rw [separate, List.forall_mem_cons, List.forall_mem_cons, ih, List.forall_mem_cons]
      · simp
      · nofun

/-! ## Texts and numbers of the program -/

theorem plain_animationKey (hs : Plain sprite.toList) (hc : Plain clip.toList) :
    Plain (animationKey sprite clip).toList := by
  have hbar : Plain ['_'] := by decide
  rw [animationKey, String.toList_append, String.toList_append, String.toList_ofList]
  exact (hs.append hbar).append hc

theorem plain_layerField (name : String) : Plain (layerField name).toList := by
  have hthis : Plain ['t', 'h', 'i', 's', '.'] := by decide
  rw [Script.toList_layerField]
  exact hthis.append (Script.isName_layer name).plain

/-! ## The boot scene -/

theorem holdsAll_sceneConstructor (hkey : Plain key.toList) (options : String) :
    HoldsAll texts computes (sceneConstructor key options) := by
  simp [sceneConstructor, hkey]

theorem holdsAll_sceneClass (hkey : Plain key.toList) (h : HoldsAll texts computes body) :
    HoldsAll texts computes (sceneClass key body) := by
  simp [sceneClass, hkey, h]

theorem holdsAll_startScene (hkey : Plain key.toList) :
    HoldsAll texts computes [startScene key] := by
  simp [startScene, hkey]

theorem holdsAll_assetLoad (ha : a.Written Number.Bounded) (hpath : a.path ∈ texts) :
    HoldsAll texts computes [assetLoad a] := by
  have hkey := ha.key.plain
  unfold assetLoad
  cases hkind : a.kind with
  | spritesheet =>
    obtain ⟨size, hsize⟩ := Option.isSome_iff_exists.1 (ha.frames.2 hkind)
    have hbounded := ha.size size hsize
    simp [hkey, hpath, hsize, Quantity.ofOption, Quantity.numbers, Quantity.isComputed, hbounded.1,
      hbounded.2]
  | image | tilemap | audio => simp [hkey, hpath]

theorem holdsAll_clipCreate (hs : Plain sprite.toList) (hc : c.Proper) :
    HoldsAll texts computes (clipCreate sprite c) := by
  have hkey := plain_animationKey hs hc.name
  have hframes := hc.frames
  unfold clipCreate
  cases c.loop <;> simpa [hkey, hs, hc.fps, or_imp, forall_and] using hframes

theorem Game.Proper.clips (h : g.Proper) :
    ∀ p ∈ Program.clips g, Plain p.1.toList ∧ p.2.Proper := by
  simp only [Program.clips, List.forall_mem_append, List.forall_mem_flatMap, List.forall_mem_map]
  exact ⟨⟨fun c hc => ⟨h.player.sprite, h.player.animations c hc⟩,
    fun e he c hc => ⟨(h.enemies e he).sprite, (h.enemies e he).animations c hc⟩⟩,
    fun i hi c hc => ⟨(h.collectibles i hi).sprite, (h.collectibles i hi).animations c hc⟩⟩

theorem holdsAll_bootListing (h : g.Proper) (hpaths : ∀ a ∈ g.assets, a.path ∈ texts) :
    HoldsAll texts computes (bootListing g) := by
  have hboot : Plain bootScene.toList := Script.isName_bootScene.plain
  have hloads : ∀ a ∈ g.assets, HoldsAll texts computes [assetLoad a] :=
    fun a ha => holdsAll_assetLoad (h.assets a ha) (hpaths a ha)
  have hclips : ∀ p ∈ clips g, HoldsAll texts computes (clipCreate p.1 p.2) :=
    fun p hp => holdsAll_clipCreate (Game.Proper.clips h p hp).1 (Game.Proper.clips h p hp).2
  refine holdsAll_sceneClass hboot ?_
  simp only [HoldsAll.append, HoldsAll.block, HoldsAll.map, HoldsAll.flatMap]
  refine ⟨⟨⟨⟨holdsAll_sceneConstructor hboot "", by simp⟩, by simp, hloads⟩, by simp⟩, by simp,
    hclips, ?_⟩
  cases g.levels with
  | nil => exact .nil
  | cons l ls => exact holdsAll_startScene (Script.isName_sceneKey l.name).plain

/-! ## The player -/

theorem holdsAll_inputSetup (p : Player) : HoldsAll texts computes (inputSetup p) := by
  simp [inputSetup]

theorem bounded_spawnPoint {l : Level} (hl : l.Written Number.Bounded) :
    (spawnPoint l.spawn).Written Number.Bounded :=
  forall_getD hl.spawn ⟨Number.bounded_int (by decide), Number.bounded_int (by decide)⟩

theorem holdsAll_playerCreate {p : Player} (hp : p.Proper) {l : Level}
    (hl : l.Written Number.Bounded) : HoldsAll texts computes (playerCreate p l.spawn) := by
  have hspawn := bounded_spawnPoint hl
  simp [playerCreate, hspawn.1, hspawn.2, hp.sprite]

theorem holdsAll_withClip (hp : p.Proper) (hname : Plain name) (before after : String) :
    HoldsAll texts computes (withClip p (String.ofList name) before after) := by
  simp [withClip, plain_animationKey hp.sprite hname.toList_ofList]

theorem holdsAll_playerUpdate (hp : p.Proper) : HoldsAll texts computes (playerUpdate p) := by
  have hwalk (before after : String) : HoldsAll texts computes (withClip p "walk" before after) :=
    holdsAll_withClip hp (by decide) before after
  have hidle (before after : String) : HoldsAll texts computes (withClip p "idle" before after) :=
    holdsAll_withClip hp (by decide) before after
  have hjump (before after : String) : HoldsAll texts computes (withClip p "jump" before after) :=
    holdsAll_withClip hp (by decide) before after
  simp [playerUpdate, hp.speed, hp.jumpForce, hwalk, hidle, hjump]

/-! ## Enemies and collectibles -/

theorem holdsAll_playFirst (who : String) (hs : Plain sprite.toList) (hcs : ∀ c ∈ cs, c.Proper) :
    HoldsAll texts computes (playFirst who sprite cs) := by
  cases cs with
  | nil => exact .nil
  | cons c cs => simp [playFirst, plain_animationKey hs (hcs c List.mem_cons_self).name]

theorem holdsAll_movementSetup (hm : ∀ n ∈ m.numbers, n.Bounded) (hx : x.Bounded) (hy : y.Bounded) :
    HoldsAll texts computes (movementSetup m x y) := by
  cases m <;> simp_all [movementSetup, Movement.numbers]

theorem bounded_movementPayload (hm : ∀ n ∈ m.numbers, n.Bounded) :
    ∀ n ∈ (movementPayload m).numbersIn, n.Bounded := by
  cases m <;>
    simp_all [movementPayload, Movement.numbers, Json.numbersIn, Json.numbersInMembers]

theorem holds_enemyPayload (he : e.Proper) :
    (enemyPayload e).Plain ∧ ∀ n ∈ (enemyPayload e).numbersIn, n.Bounded := by
  have hmovement := bounded_movementPayload he.movement
  refine ⟨Script.plain_enemyPayload he.name, ?_⟩
  simpa [enemyPayload, Json.numbersIn, Json.numbersInMembers, or_imp, forall_and, he.damage]
    using hmovement

theorem holdsAll_enemyInstance (he : e.Proper) (hx : x.Bounded) (hy : y.Bounded) :
    HoldsAll texts computes (enemyInstance e x y) := by
  have hpayload := holds_enemyPayload he
  simpa [enemyInstance, hx, hy, he.sprite, holdsAll_playFirst _ he.sprite he.animations,
    holdsAll_movementSetup he.movement hx hy] using hpayload

theorem holdsAll_enemyCreate (h : g.Proper) (hl : l.Written Number.Bounded) :
    HoldsAll texts computes (enemyCreate l g.symbols) := by
  simp only [enemyCreate, HoldsAll.ite, HoldsAll.append, HoldsAll.flatMap]
  refine ⟨fun _ => .nil, fun _ => ⟨by simp, fun p hp => ?_⟩⟩
  have hplace := (hl.enemies p hp).place
  cases he : g.symbols.enemy? p.entity with
  | none => exact .nil
  | some e => exact holdsAll_enemyInstance (h.enemies e (Game.mem_of_enemy? he)) hplace.1 hplace.2

theorem holdsAll_enemyUpdate (es : List Enemy) : HoldsAll texts computes (enemyUpdate es) := by
  simp [enemyUpdate, patrolUpdate, chaseUpdate, flyUpdate, movementBranch]

theorem holdsAll_enemyCollision (l : Level) (defeatAll : Bool) :
    HoldsAll texts computes (enemyCollision l defeatAll) := by
  simp [enemyCollision, plain_layerField]

theorem holds_collectiblePayload (hc : c.Proper) :
    (collectiblePayload c).Plain ∧ ∀ n ∈ (collectiblePayload c).numbersIn, n.Bounded := by
  refine ⟨Script.plain_collectiblePayload hc.name, ?_⟩
  simp [collectiblePayload, Json.numbersIn, Json.numbersInMembers, hc.score]

theorem holdsAll_collectibleInstance (hc : c.Proper) (hx : x.Bounded) (hy : y.Bounded) :
    HoldsAll texts computes (collectibleInstance c x y) := by
  have hpayload := holds_collectiblePayload hc
  simpa [collectibleInstance, hx, hy, hc.sprite, holdsAll_playFirst _ hc.sprite hc.animations]
    using hpayload

theorem holdsAll_collectibleCreate (h : g.Proper) (hl : l.Written Number.Bounded) :
    HoldsAll texts computes (collectibleCreate l g.symbols) := by
  simp only [collectibleCreate, HoldsAll.ite, HoldsAll.append, HoldsAll.flatMap]
  refine ⟨fun _ => .nil, fun _ => ⟨by simp, fun p hp => ?_⟩⟩
  have hplace := (hl.collectibles p hp).place
  cases hc : g.symbols.collectible? p.entity with
  | none => exact .nil
  | some c =>
    exact holdsAll_collectibleInstance (h.collectibles c (Game.mem_of_collectible? hc))
      hplace.1 hplace.2

theorem holdsAll_collectibleCollision (hgoal : ∀ name ∈ goal, Plain name.toList ∨ name ∈ texts) :
    HoldsAll texts computes (collectibleCollision goal) := by
  cases goal with
  | none => simp [collectibleCollision]
  | some name => simp [collectibleCollision, hgoal name rfl]

/-! ## Level scenes -/

theorem plain_tilesetKey (h : ∀ a ∈ assets, a.Written Number.Bounded) :
    Plain (tilesetKey assets).toList := by
  have himages : ∀ key ∈ (assets.filter (·.kind == .image)).map (·.key), Plain key.toList :=
    List.forall_mem_map.2 fun a ha => (h a (List.mem_of_mem_filter ha)).key.plain
  refine forall_getD (fun key hkey => himages key ?_) (by decide)
  rcases Option.or_eq_some_iff.1 hkey with hfind | ⟨-, hhead⟩
  · exact List.mem_of_find?_eq_some hfind
  · exact List.mem_of_mem_head? hhead

theorem holdsAll_tilemapCreate (hl : l.Written Number.Bounded)
    (hassets : ∀ a ∈ assets, a.Written Number.Bounded) (htiled : ∀ p ∈ tiledLayers l, p.2 ∈ texts) :
    HoldsAll texts computes (tilemapCreate l assets) := by
  have hmap : Plain (l.tilemap.getD "").toList :=
    forall_getD (fun t ht => (hl.tilemap t ht).plain) (by decide)
  have hlayers : ∀ p ∈ tiledLayers l, HoldsAll texts computes (layerCreate p.1 p.2) :=
    fun p hp => by simp [layerCreate, plain_layerField, htiled p hp]
  unfold tilemapCreate
  cases hps : tiledLayers l with
  | nil => exact .nil
  | cons p ps =>
    rw [hps] at hlayers
    simp only [HoldsAll.append, HoldsAll.flatMap]
    exact ⟨by simp [hmap, plain_tilesetKey hassets], hlayers⟩

/-- The quantities that the program of a game computes are of the given kind. -/
structure Computes (computes : Quantity → Prop) (g : Game) : Prop where
  platforms : ∀ l ∈ g.levels, ∀ p ∈ l.platforms,
    computes (.middle p.x p.width) ∧ computes (.middle p.y p.height)
  fall : computes (.shifted g.config.height fallMargin)
  display : ∀ a, computes (anchorPlace a g.config.width g.config.height).1 ∧
    computes (anchorPlace a g.config.width g.config.height).2

variable {l : Level}

theorem holdsAll_platformsCreate (h : ∀ p ∈ ps, p.Written Number.Bounded)
    (hc : ∀ p ∈ ps, computes (.middle p.x p.width) ∧ computes (.middle p.y p.height)) :
    HoldsAll texts computes (platformsCreate ps) := by
  have hps : ∀ p ∈ ps, HoldsAll texts computes [platformCreate p] := fun p hp => by
    have hplace := (h p hp).place
    have hsize := (h p hp).size
    simp [platformCreate, Quantity.numbers, hplace.1, hplace.2, hsize.1, hsize.2,
      (h p hp).asset.plain, hc p hp]
  simpa [platformsCreate] using hps

theorem holdsAll_exitZone (h : p.Written Number.Bounded) :
    HoldsAll texts computes (exitZone p) := by
  simp [exitZone, h.1, h.2]

theorem holdsAll_soundsSetup (h : ∀ s ∈ sounds, s.Written) :
    HoldsAll texts computes (soundsSetup sounds) := by
  cases sounds with
  | none => exact .nil
  | some s =>
    simp only [soundsSetup, Sounds.events, HoldsAll.flatMap, List.forall_mem_map]
    intro e _
    cases hkey : s.get e with
    | none => exact .nil
    | some key =>
      have hplain := ((h s rfl).named e key hkey).plain
      cases e <;> simp [soundSetup, hplain]

theorem bounded_maxLives (h : g.Proper) : (maxLives g).Bounded := by
  refine forall_getD (fun n hn => ?_) h.player.lives
  obtain ⟨e, he, hmax⟩ := List.mem_filterMap.1 (List.mem_of_mem_head? hn)
  cases hhud : g.hud with
  | none => simp [hhud] at he
  | some es =>
    rw [hhud] at he
    split at hmax
    · exact (h.hud es hhud e he).max n hmax
    · cases hmax

theorem plain_kind (w : WinCondition) : Plain w.kind.toList := by
  cases w <;> exact .toList_ofList (by decide)

theorem plain_goalOf (h : g.Proper) : ∀ name ∈ goalOf g.rules.win, Plain name.toList := by
  have hwin := h.win
  cases hw : g.rules.win with
  | collectAll entity =>
    rw [hw] at hwin
    rintro _ ⟨⟩
    exact Named.plain hwin
  | reachExit | defeatAll | survive => nofun

theorem holdsAll_levelCreate (h : g.Proper) (hc : Computes computes g) (hmem : l ∈ g.levels)
    (htiled : ∀ p ∈ tiledLayers l, p.2 ∈ texts) : HoldsAll texts computes (levelCreate g l) := by
  have hl := h.levels l hmem
  have hhud : Plain hudScene.toList := Script.isName_hudScene.plain
  simp only [levelCreate, HoldsAll.block, HoldsAll.append]
  refine ⟨by simp, ⟨⟨⟨⟨⟨⟨⟨⟨⟨⟨⟨⟨⟨?start, holdsAll_inputSetup g.player⟩, by simp⟩,
    holdsAll_playerCreate h.player hl⟩, by simp⟩, ?tilemap⟩, ?platforms⟩, ?enemies⟩,
    ?collectibles⟩, ?exit⟩, holdsAll_soundsSetup h.sounds⟩, ?hud⟩, ?lose⟩, ?win⟩⟩
  case start => simp [h.player.lives, bounded_maxLives h, plain_kind, h.config.background]
  case tilemap => simp [withBlank, holdsAll_tilemapCreate hl h.assets htiled]
  case platforms => simp [holdsAll_platformsCreate hl.platforms (hc.platforms l hmem)]
  case enemies => simp [holdsAll_enemyCreate h hl, holdsAll_enemyCollision]
  case collectibles =>
    simp [holdsAll_collectibleCreate h hl,
      holdsAll_collectibleCollision fun name hname => .inl (plain_goalOf h name hname)]
  case exit =>
    cases he : l.exit with
    | none => exact .nil
    | some p => simp [holdsAll_exitZone (hl.exit p he)]
  case hud => simp [hhud]
  case lose => simp
  case win =>
    have hwin := h.win
    cases hw : g.rules.win with
    | survive seconds =>
      rw [hw] at hwin
      have hseconds : seconds.Bounded := hwin
      simp [hseconds]
    | reachExit | defeatAll | collectAll => exact .nil

theorem holdsAll_levelUpdate (h : g.Proper) (hc : Computes computes g)
    (hl : l.Written Number.Bounded) : HoldsAll texts computes (levelUpdate g l) := by
  have hspawn := bounded_spawnPoint hl
  simp only [levelUpdate, HoldsAll.block, HoldsAll.append]
  refine ⟨by simp, ⟨⟨⟨⟨⟨⟨by simp, holdsAll_playerUpdate h.player⟩, ?enemies⟩, by simp⟩, ?fall⟩,
    ?win⟩, by simp⟩⟩
  case enemies => simp [holdsAll_enemyUpdate]
  case fall => simp [Quantity.numbers, h.config.height, hc.fall, hspawn.1, hspawn.2]
  case win => cases g.rules.win <;> simp

theorem holdsAll_damageHandler : HoldsAll texts computes damageHandler := by
  simp [damageHandler]

theorem holdsAll_winHandler (h : ∀ key ∈ next, Plain key.toList) :
    HoldsAll texts computes (winHandler next) := by
  cases next with
  | none => simp [winHandler, banner]
  | some key => simp [winHandler, holdsAll_startScene (h key rfl)]

theorem holdsAll_gameOverHandler (h : g.Proper) (hr : Plain restart.toList) :
    HoldsAll texts computes (gameOverHandler g restart) := by
  simp [gameOverHandler, banner, h.player.lives, holdsAll_startScene hr]

theorem plain_nextScene (g : Game) (index : Nat) :
    ∀ key ∈ nextScene g index, Plain key.toList := by
  have hafter : ∀ key ∈ nextScene.after g index, Plain key.toList := by
    intro key hkey
    obtain ⟨l, -, rfl⟩ := Option.map_eq_some_iff.1 hkey
    exact (Script.isName_sceneKey l.name).plain
  unfold nextScene
  split
  · split
    · exact hafter
    · rintro _ ⟨⟩
      exact (Script.isName_sceneKey _).plain
  · exact hafter

theorem holdsAll_levelListing (h : g.Proper) (hc : Computes computes g) (hl : l ∈ g.levels)
    (htiled : ∀ p ∈ tiledLayers l, p.2 ∈ texts) (index : Nat) :
    HoldsAll texts computes (levelListing g l index) := by
  have hkey : Plain (sceneKey l.name).toList := (Script.isName_sceneKey l.name).plain
  have hrestart (l : Level) : HoldsAll texts computes (gameOverHandler g (sceneKey l.name)) :=
    holdsAll_gameOverHandler h (Script.isName_sceneKey l.name).plain
  refine holdsAll_sceneClass hkey ?_
  simp [holdsAll_sceneConstructor hkey, holdsAll_levelCreate h hc hl htiled,
    holdsAll_levelUpdate h hc (h.levels l hl), holdsAll_damageHandler,
    holdsAll_winHandler (plain_nextScene g index), hrestart]

/-! ## The display and the program -/

theorem plain_hudLabel (k : HudKind) : Plain (hudLabel k ++ ": ").toList := by
  cases k <;> decide

theorem bounded_anchorPlace (a : Anchor) (hw : width.Bounded) (hh : height.Bounded) :
    (∀ n ∈ (anchorPlace a width height).1.numbers, n.Bounded) ∧
      ∀ n ∈ (anchorPlace a width height).2.numbers, n.Bounded := by
  have hmargin : (Number.int 16).Bounded := Number.bounded_int (by decide)
  obtain ⟨top, side⟩ := a
  cases side <;> cases top <;> simp [anchorPlace, Quantity.numbers, hw, hh, hmargin]

theorem holdsAll_hudElementCreate (h : g.Proper) (hc : Computes computes g) (he : e.Proper) :
    HoldsAll texts computes [hudElementCreate g e] := by
  have hplace := bounded_anchorPlace e.position h.config.width h.config.height
  have hdisplay := hc.display e.position
  have hshown : (if e.kind = .lives then g.player.lives else .int 0 : Number).Bounded := by
    split
    · exact h.player.lives
    · exact Number.bounded_int (by decide)
  have hsize : (e.fontSize.getD (.int 20)).Bounded :=
    forall_getD he.fontSize (Number.bounded_int (by decide))
  have hwhite : Plain "#FFFFFF".toList := by decide
  have hpx : Plain "px".toList := by decide
  have hempty : Plain "".toList := by decide
  refine (HoldsAll.cons_line ..).2 ⟨?_, .nil⟩
  simp only [List.forall_mem_cons, Piece.holds_code, Piece.holds_number, Piece.holds_labelled,
    Piece.holds_literal, true_and]
  refine ⟨⟨hplace.1, fun _ => hdisplay.1⟩, ⟨hplace.2, fun _ => hdisplay.2⟩,
    ⟨plain_hudLabel e.kind, hshown, hempty⟩, ⟨hempty, hsize, hpx⟩, .inl ?_, List.forall_mem_nil _⟩
  cases hc : e.color with
  | none => exact hwhite
  | some c =>
    dsimp only
    split
    · exact hwhite
    · exact he.color c hc

theorem holdsAll_hudListing (h : g.Proper) (hc : Computes computes g) (hes : ∀ e ∈ es, e.Proper) :
    HoldsAll texts computes (hudListing g es) := by
  have hhud : Plain hudScene.toList := Script.isName_hudScene.plain
  have helements : ∀ e ∈ es, HoldsAll texts computes [hudElementCreate g e] :=
    fun e he => holdsAll_hudElementCreate h hc (hes e he)
  refine holdsAll_sceneClass hhud ?_
  simpa [holdsAll_sceneConstructor hhud, hudListener] using helements

theorem holdsAll_configListing (h : g.Proper) : HoldsAll texts computes (configListing g) := by
  have hscenes : ∀ s ∈ sceneList g, Plain s.toList :=
    fun s hs => (Script.isName_of_mem_sceneList hs).plain
  simpa [configListing, h.config.width, h.config.height, h.config.gravity, or_imp, forall_and]
    using hscenes

/-- Texts of a game that need not be plain: the paths of its assets and the names of layers in the
tilemaps of its levels. -/
def foreignTexts (g : Game) : List String :=
  g.assets.map (·.path) ++ g.levels.flatMap fun l => (tiledLayers l).map (·.2)

theorem path_mem_foreignTexts (ha : a ∈ g.assets) : a.path ∈ foreignTexts g :=
  List.mem_append_left _ (List.mem_map_of_mem ha)

theorem tiled_mem_foreignTexts (hl : l ∈ g.levels) (hp : p ∈ tiledLayers l) :
    p.2 ∈ foreignTexts g :=
  List.mem_append_right _ (List.mem_flatMap.2 ⟨l, hl, List.mem_map_of_mem hp⟩)

theorem Computes.holdsAll (hc : Computes computes g) (h : g.Proper) :
    HoldsAll (foreignTexts g) computes (programListing g) := by
  have hlevels :
      ∀ p ∈ g.levels.zipIdx, HoldsAll (foreignTexts g) computes (levelListing g p.1 p.2) := by
    intro p hp
    have hl := List.fst_mem_of_mem_zipIdx hp
    exact holdsAll_levelListing h hc hl (fun _ => tiled_mem_foreignTexts hl) _
  simp only [programListing, HoldsAll.append, HoldsAll.flatMap]
  refine ⟨⟨⟨⟨holdsAll_bootListing h fun _ => path_mem_foreignTexts, by simp⟩,
    fun p hp => ⟨hlevels p hp, by simp⟩⟩, ?_⟩, holdsAll_configListing h⟩
  cases hes : g.hud with
  | none => exact .nil
  | some es => simp [holdsAll_hudListing h hc (h.hud es hes)]

theorem holdsAll_programListing (h : g.Proper) :
    HoldsAll (foreignTexts g) (fun _ => True) (programListing g) :=
  Computes.holdsAll ⟨fun _ _ _ _ => ⟨trivial, trivial⟩, trivial, fun _ => ⟨trivial, trivial⟩⟩ h

end

end Program

end PlatformGame
