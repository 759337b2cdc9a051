import PlatformGame.Proofs.Draft.Origin
import PlatformGame.Proofs.Program.Scenes

/-! # Assets of a program

A program loads the assets of its game in the boot scene (`preloaded_gameActions`) and uses them by
key: as textures of the player, the enemies, the collectibles and the platforms, as tilemaps and
their images, and as sounds. What checking a game looks at is loaded if there is nothing to report
(`used_mem_preloaded`); the textures of platforms it does not look at, and a tilemap in a game
without images takes its tiles from a key of its own (`exists_used_notMem_preloaded`). -/

namespace PlatformGame.Script

open Program

/-! ## What is used and what is loaded -/

/-- The place of the key among the literals of a call that uses an asset. -/
def Callee.keyPlace? : Callee → Option Nat
  | .sprite | .enemy | .collectible | .platform | .tilemap | .sound => some 0
  | .tileset => some 1
  | _ => none

def Action.loaded? : Action → Option String
  | .calls .loadImage (key :: _) => some key
  | .calls .loadSpritesheet (key :: _) => some key
  | .calls .loadTilemap (key :: _) => some key
  | .calls .loadAudio (key :: _) => some key
  | _ => none

/-- The keys of the assets that are loaded in the boot scene. -/
def preloaded (as : List Action) : List String :=
  ((classes as).filter (·.1 == bootScene)).flatMap fun c => c.2.filterMap Action.loaded?

theorem loaded?_loadAction (a : Asset) : (loadAction a).loaded? = some a.key := by
  unfold loadAction
  cases a.kind <;> rfl

theorem preloaded_scenes {scenes : List Scene} (h : ∀ s ∈ scenes, Calls s.body)
    (names : List String) : preloaded (scenes.flatMap Scene.actions ++ [.lists names]) =
      (scenes.filter (·.key == bootScene)).flatMap fun s => s.body.filterMap Action.loaded? := by
  induction scenes with
  | nil => rfl
  | cons s scenes ih =>
    rw [List.forall_mem_cons] at h
    -- After the body of the last scene comes the list of scenes, which loads nothing.
    let rest := scenes.flatMap Scene.actions ++ [.lists names]
    have hafter : (rest.takeWhile (·.declared?.isNone)).filterMap Action.loaded? = [] := by
      cases scenes <;> rfl
    have hbody : (.calls .registerScene [s.key] :: s.body ++
        rest.takeWhile (·.declared?.isNone)).filterMap Action.loaded? =
          s.body.filterMap Action.loaded? := by
      rw [List.filterMap_append, hafter, List.append_nil]
      rfl
    rw [List.flatMap_cons, List.append_assoc, preloaded, classes_actions h.1, List.filter_cons,
      List.filter_cons]
    split
    · rw [List.flatMap_cons, List.flatMap_cons, hbody, ← ih h.2]
      rfl
    · exact ih h.2

theorem preloaded_gameActions (g : Game) : preloaded (gameActions g) = g.assets.map (·.key) := by
  have hboot : (gameScenes g).filter (·.key == bootScene) = [bootOf g] := by
    have hlevels : (g.levels.zipIdx.map fun p => levelOf g p.1 p.2).filter
        (·.key == bootScene) = [] := by
      refine List.filter_eq_nil_iff.2 fun s hs => ?_
      obtain ⟨p, _, rfl⟩ := List.mem_map.1 hs
      simp [levelOf, sceneKey_ne_bootScene]
    rw [gameScenes, List.filter_append, List.filter_cons_of_pos (by rfl), hlevels]
    cases g.hud <;> simp [bootScene_ne_hudScene.symm]
  have hstart : ((g.levels.head?.map fun l =>
      Action.calls .startScene [sceneKey l.name]).toList).filterMap Action.loaded? = [] := by
    cases g.levels <;> rfl
  rw [gameActions, preloaded_scenes fun _ hs => calls_body hs, hboot, List.flatMap_singleton,
    bootOf, List.filterMap_append, hstart, List.append_nil, List.filterMap_map]
  simp [loaded?_loadAction]

/-! ## Keys that are used -/

theorem tilemap_of_tiledLayers (h : tiledLayers l ≠ []) : ∃ m, l.tilemap = some m ∧ m ≠ "" := by
  unfold tiledLayers at h
  split at h
  · next map _ htilemap _ =>
    refine ⟨map, htilemap, ?_⟩
    rintro rfl
    exact h rfl
  · contradiction

theorem tilesetKey_mem {assets : List Asset} (h : ∃ a ∈ assets, a.kind = .image) :
    ∃ a ∈ assets, a.key = tilesetKey assets := by
  obtain ⟨a, ha, hkind⟩ := h
  have hmem : tilesetKey assets ∈ (assets.filter (·.kind == .image)).map (·.key) := by
    have himage : a.key ∈ (assets.filter (·.kind == .image)).map (·.key) :=
      List.mem_map_of_mem (List.mem_filter.2 ⟨ha, by simp [hkind]⟩)
    unfold tilesetKey
    dsimp only
    generalize (assets.filter (·.kind == .image)).map (·.key) = images at himage
    cases hfind : images.find? fun key => containsText "tile".toList key.toList with
    | some key => exact List.mem_of_find?_eq_some hfind
    | none =>
      cases images with
      | nil => cases himage
      | cons key keys => exact List.mem_cons_self
  obtain ⟨b, hb, hkey⟩ := List.mem_map.1 hmem
  exact ⟨b, List.mem_of_mem_filter hb, hkey⟩

theorem event_of_mem_playedSounds {g : Game} (h : key ∈ playedSounds g) :
    ∃ s, g.sounds = some s ∧ ∃ event, s.get event = some key ∧ key ≠ "" := by
  unfold playedSounds at h
  cases hs : g.sounds with
  | none => simp [hs] at h
  | some s =>
    rw [hs, Option.map_some, Option.getD_some] at h
    obtain ⟨p, hp, hkey⟩ := List.mem_filterMap.1 h
    obtain ⟨event, _, rfl⟩ := List.mem_map.1 hp
    exact ⟨s, rfl, event, filled_eq_some.1 hkey⟩

theorem declaresAsset_of_gameCall {g : Game} (hg : g.toDraft.Sound true)
    (hsprite : g.player.sprite ≠ "") (hcall : GameCall g c ls) (hplace : c.keyPlace? = some n)
    (hplatform : c ≠ .platform) (htileset : c = .tileset → ∃ a ∈ g.assets, a.kind = .image) :
    ∃ key, ls[n]? = some key ∧ g.toDraft.DeclaresAsset key := by
  have hchecks : g.toDraft.ChecksAssets true := .inl rfl
  cases hcall with
  | sprite =>
    cases hplace
    exact ⟨_, rfl, hg.playerSprite hchecks _ rfl _ rfl hsprite⟩
  | enemy he =>
    cases hplace
    obtain ⟨s, hs, hdeclared⟩ :=
      hg.enemySprite hchecks _ (List.mem_map_of_mem (Game.mem_of_enemy? he))
    cases hs
    exact ⟨_, rfl, hdeclared⟩
  | collectible hi =>
    cases hplace
    obtain ⟨s, hs, hdeclared⟩ :=
      hg.collectibleSprite hchecks _ (List.mem_map_of_mem (Game.mem_of_collectible? hi))
    cases hs
    exact ⟨_, rfl, hdeclared⟩
  | platform => exact absurd rfl hplatform
  | tilemap hl hlayers =>
    cases hplace
    obtain ⟨m, hm, hne⟩ := tilemap_of_tiledLayers hlayers
    rw [hm]
    exact ⟨m, rfl, hg.tilemap hchecks _ hl m hm hne⟩
  | tileset =>
    cases hplace
    exact ⟨_, rfl, tilesetKey_mem (htileset rfl)⟩
  | sound hkey =>
    cases hplace
    obtain ⟨s, hs, event, hevent, hne⟩ := event_of_mem_playedSounds hkey
    exact ⟨_, rfl, hg.sound hchecks s hs event _ hevent hne⟩
  | @load a _ => cases hkind : a.kind <;> simp [loader, hkind, Callee.keyPlace?] at hplace
  | register | startFirst | startNext | launch => cases hplace

/-- If checking a game that was read reports nothing, its program loads all that it uses, apart from
the textures of platforms, and apart from the image of the tiles where the game has no image. -/
theorem used_mem_preloaded {source : String} {g : Game} {minify : Bool} {text : String}
    (hgame : (readGame source).outcome = .ok g) (hvalid : g.violations true = [])
    (htext : g.script minify = .ok text) :
    ∃ as, actionsOf? text = some as ∧ ∀ c ls n, .calls c ls ∈ as → c.keyPlace? = some n →
      c ≠ .platform → (c = .tileset → ∃ a ∈ g.assets, a.kind = .image) →
      ∃ key, ls[n]? = some key ∧ key ∈ preloaded as := by
  have hsound : g.toDraft.Sound true :=
    (Draft.audited_of_reports Draft.reports_violations).sound.1 hvalid
  refine ⟨_, actionsOf?_script htext, fun c ls n hcall hplace hplatform htileset => ?_⟩
  obtain ⟨key, hkey, a, ha, rfl⟩ := declaresAsset_of_gameCall hsound
    (sprite_ne_empty_of_readGame hgame) (gameCall_of_mem hcall) hplace hplatform htileset
  rw [preloaded_gameActions]
  exact ⟨_, hkey, List.mem_map_of_mem ha⟩

/-! ## A game with a tilemap and a platform -/

/-- A level with a tilemap and a platform whose texture is `grass`. -/
def tiledLevel : Level :=
  { name := "a", spawn := some ⟨.int 0, .int 0⟩, tilemap := some "map",
    layers := some [("ground", "Ground")],
    platforms := [⟨"grass", .int 0, .int 9, .int 8, .int 1⟩] }

def tiledDraft (assets : List Asset) (sprite : String) : Draft :=
  { title := some "t", assets := assets, player := some { sprite := some sprite },
    levels := [tiledLevel] }

theorem whole_of_lt {m : Int} (h : m.natAbs < 10 ^ 1) : (Number.int m).Whole :=
  ⟨m, rfl, Nat.lt_of_lt_of_le h (Nat.pow_le_pow_right (by decide) (by decide))⟩

theorem written_tiledLevel : tiledLevel.Written Number.Whole where
  spawn := by
    rintro _ ⟨⟩
    exact ⟨whole_of_lt (by decide), whole_of_lt (by decide)⟩
  tilemap := by
    rintro _ ⟨⟩
    exact named_ofList (by decide) (by decide) (by decide)
  layers := by
    rintro _ ⟨⟩
    have hground : Named "ground" := named_ofList (by decide) (by decide) (by decide)
    exact ⟨by decide, by decide, by simpa using hground⟩
  enemies := List.forall_mem_nil _
  collectibles := List.forall_mem_nil _
  platforms := by
    refine List.forall_mem_singleton.2 ⟨named_ofList (by decide) (by decide) (by decide), ?_, ?_⟩
    · exact ⟨whole_of_lt (by decide), whole_of_lt (by decide)⟩
    · exact ⟨whole_of_lt (by decide), whole_of_lt (by decide)⟩
  exit := by simp [tiledLevel]

theorem written_tiledDraft {assets : List Asset} {sprite : String}
    (hassets : ∀ a ∈ assets, a.Written Number.Whole) (hsprite : Named sprite) :
    (tiledDraft assets sprite).Written Number.Whole True where
  title := rfl
  config := by simp [tiledDraft]
  assets := hassets
  player := by
    rintro _ ⟨⟩
    exact ⟨by simp, by simpa using hsprite, by simp, by simp, by simp, by simp [Draft.WrittenClips]⟩
  enemies := List.forall_mem_nil _
  collectibles := List.forall_mem_nil _
  levels := List.forall_mem_singleton.2 written_tiledLevel
  hud := by simp [tiledDraft]
  rules := by simp [tiledDraft]
  sounds := by simp [tiledDraft]

theorem used_mem_preloaded_tiled :
    let source := r#"game "t" { assets { "# ++
      r#"image hero "h.png" , tilemap map "m.json" , } "# ++
      r#"player { sprite : hero , } level "a" { tilemap : map , "# ++
      r#"layers : { ground : "Ground" , } , spawn : { x : 0 , y : 0 , } , "# ++
      "enemies : [ ] , collectibles : [ ] , " ++
      r"platforms : [ grass at ( 0 , 9 , 8 , 1 ) , ] , } }"
    ∃ g text as, (readGame source).outcome = .ok g ∧ g.violations true = [] ∧
      g.script true = .ok text ∧ actionsOf? text = some as ∧
      ∀ c ls n, .calls c ls ∈ as → c.keyPlace? = some n → c ≠ .platform →
        ∃ key, ls[n]? = some key ∧ key ∈ preloaded as := by
  intro source
  let d := tiledDraft [⟨.image, "hero", "h.png", none⟩, ⟨.tilemap, "map", "m.json", none⟩] "hero"
  have hsource : d.print = source := by decide +kernel
  have hhero : Named "hero" := named_ofList (by decide) (by decide) (by decide)
  have hmap : Named "map" := named_ofList (by decide) (by decide) (by decide)
  have hassets : ∀ a ∈ d.assets, a.Written Number.Whole :=
    List.forall_mem_cons.2 ⟨⟨hhero, by simp, by simp⟩,
      List.forall_mem_singleton.2 ⟨hmap, by simp, by simp⟩⟩
  have hread : (readGame source).outcome = .ok d.complete :=
    hsource ▸ readGame_print (written_tiledDraft hassets hhero)
  have hvalid : d.complete.violations true = [] := by decide +kernel
  obtain ⟨text, htext⟩ : ∃ text, d.complete.script true = .ok text :=
    exists_of_isOk (by decide +kernel)
  obtain ⟨as, has, hused⟩ := used_mem_preloaded hread hvalid htext
  refine ⟨_, text, as, hread, hvalid, htext, has, fun c ls n hcall hplace hplatform => ?_⟩
  exact hused c ls n hcall hplace hplatform fun _ => ⟨_, List.mem_cons_self, rfl⟩

/-- Neither the texture of the platform nor the image of the tiles is loaded. -/
theorem exists_used_notMem_preloaded :
    let source := r#"game "t" { assets { tilemap map "m.json" , } "# ++
      r#"player { sprite : map , } level "a" { tilemap : map , "# ++
      r#"layers : { ground : "Ground" , } , spawn : { x : 0 , y : 0 , } , "# ++
      "enemies : [ ] , collectibles : [ ] , " ++
      r"platforms : [ grass at ( 0 , 9 , 8 , 1 ) , ] , } }"
    ∃ g text as, (readGame source).outcome = .ok g ∧ g.violations true = [] ∧
      g.script false = .ok text ∧ actionsOf? text = some as ∧
      (.calls .platform ["grass"] ∈ as ∧ "grass" ∉ preloaded as) ∧
      .calls .tileset ["tileset", "tiles"] ∈ as ∧ "tiles" ∉ preloaded as := by
  intro source
  let d := tiledDraft [⟨.tilemap, "map", "m.json", none⟩] "map"
  have hsource : d.print = source := by decide +kernel
  obtain ⟨text, htext⟩ : ∃ text, d.complete.script false = .ok text :=
    exists_of_isOk (by decide +kernel)
  have hmap : Named "map" := named_ofList (by decide) (by decide) (by decide)
  have hassets : ∀ a ∈ d.assets, a.Written Number.Whole :=
    List.forall_mem_singleton.2 ⟨hmap, by simp, by simp⟩
  have hread : (readGame source).outcome = .ok d.complete :=
    hsource ▸ readGame_print (written_tiledDraft hassets hmap)
  refine ⟨_, text, _, hread, by decide +kernel, htext, actionsOf?_script htext, ?_⟩
  rw [preloaded_gameActions]
  exact ⟨⟨by decide +kernel, by decide +kernel⟩, by decide +kernel, by decide +kernel⟩

end PlatformGame.Script
