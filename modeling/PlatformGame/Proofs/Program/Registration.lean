import PlatformGame.Proofs.Program.Assets
import PlatformGame.Proofs.Program.Classes

/-! # Animations of a program

The boot scene creates an animation for each clip of the player, of the enemies and of the
collectibles, and the scenes of the levels play only animations among those. An animation is known
by its key, in which the sprite and the clip are joined by an underscore. Both may have underscores
of their own, so that clips of different sprites can share a key (`animationKey_eq_iff`). -/

namespace PlatformGame.Script

open Program

/-! ## What is played is created -/

theorem exists_mem_of_mem_firstClip (h : p ∈ firstClip sprite cs) :
    p.1 = sprite ∧ ∃ c ∈ cs, c.name = p.2 := by
  rw [firstClip, Option.mem_toList, Option.map_eq_some_iff] at h
  obtain ⟨c, hc, rfl⟩ := h
  exact ⟨rfl, c, List.mem_of_head? hc, rfl⟩

theorem exists_mem_of_mem_playerClips {p : Player} (h : q ∈ playerClips p) :
    q.1 = p.sprite ∧ ∃ c ∈ p.animations, c.name = q.2 := by
  obtain ⟨name, hname, rfl⟩ := List.mem_map.1 h
  have hany : p.animations.any (·.name == name) = true := (List.mem_filter.1 hname).2
  simpa using hany

/-- Each clip that is played in a level is a clip of the game. What is placed is found by its name,
which only finds what is declared. -/
theorem exists_mem_clips (h : p ∈ levelClips g l) : ∃ c, (p.1, c) ∈ clips g ∧ c.name = p.2 := by
  simp only [levelClips, List.mem_append, List.mem_flatMap] at h
  simp only [clips, List.mem_append, List.mem_map, List.mem_flatMap]
  rcases h with (⟨e, he, hp⟩ | ⟨i, hi, hp⟩) | hp
  · obtain ⟨place, -, he⟩ := List.mem_filterMap.1 he
    obtain ⟨hsprite, c, hc, hname⟩ := exists_mem_of_mem_firstClip hp
    exact ⟨c, .inl (.inr ⟨e, Game.mem_of_enemy? he, c, hc, by rw [hsprite]⟩), hname⟩
  · obtain ⟨place, -, hi⟩ := List.mem_filterMap.1 hi
    obtain ⟨hsprite, c, hc, hname⟩ := exists_mem_of_mem_firstClip hp
    exact ⟨c, .inr ⟨i, Game.mem_of_collectible? hi, c, hc, by rw [hsprite]⟩, hname⟩
  · obtain ⟨hsprite, c, hc, hname⟩ := exists_mem_of_mem_playerClips hp
    exact ⟨c, .inl (.inl ⟨c, hc, by rw [hsprite]⟩), hname⟩

/-- The animations of a program for a game: those that are created at the start and those that are
played in the levels. Each is told by its key and the sprite whose frames it shows. -/
structure Animated (g : Game) (boot : SceneClass) (levels : List SceneClass) : Prop where
  created : Stmt.animationsAll boot.members =
    (g.player.animations.map (fun c => some (animationKey g.player.sprite c.name, g.player.sprite))
    ++ g.enemies.flatMap (fun e =>
      e.animations.map fun c => some (animationKey e.sprite c.name, e.sprite))
    ++ g.collectibles.flatMap fun i =>
      i.animations.map fun c => some (animationKey i.sprite c.name, i.sprite))
  played : List.Forall₂ (fun l s => plays s.members =
    (levelClips g l).map fun p => some (animationKey p.1 p.2)) g.levels levels
  registered : ∀ l ∈ g.levels, ∀ p ∈ levelClips g l, ∃ c, (p.1, c) ∈ clips g ∧ c.name = p.2 ∧
    some (animationKey p.1 p.2, p.1) ∈ Stmt.animationsAll boot.members

theorem GameScenes.animated (h : GameScenes g boot levels displays) : Animated g boot levels where
  created := by
    rw [h.bootClass.animations_eq]
    simp [clips, List.map_flatMap, Function.comp_def]
  played := h.forall₂_levels fun _ _ _ hs => hs.plays_eq
  registered l _ p hp := by
    obtain ⟨c, hc, hname⟩ := exists_mem_clips hp
    refine ⟨c, hc, hname, ?_⟩
    rw [h.bootClass.animations_eq, ← hname]
    exact List.mem_map_of_mem hc

/-- Every animation that is played in a level is created in the boot scene, which creates one for
each clip and no others. -/
theorem animated_of_sheet {b : Sheet} (hb : (programListing g).sheet = .ok b) (minify : Bool) :
    ∃ program boot levels displays, codeOf? (shown minify b.lines) = some program ∧
      scenes program = boot :: levels ++ displays ∧ boot.key = bootScene ∧
      levels.map SceneClass.key = g.levels.map (sceneKey ·.name) ∧
      displays.map SceneClass.key = (if g.hud.isSome then [hudScene] else []) ∧
      Animated g boot levels := by
  obtain ⟨program, boot, levels, displays, hprogram, hscenes, h⟩ := exists_gameScenes hb minify
  exact ⟨program, boot, levels, displays, hprogram, hscenes, h.bootClass.key_eq, h.keys_levels,
    h.keys_displays, h.animated⟩

/-- Clips that show a single picture. -/
def still (names : List String) : Option (List Draft.Clip) :=
  some (names.map fun name => { name := name, frames := [.int 0] })

def cave : Level :=
  { name := "cave"
    enemies := [⟨"bat", .int 1, .int 2⟩]
    collectibles := [⟨"gem", .int 3, .int 4⟩] }

/-- There are two declarations of bats, and the first counts. -/
def caveGame : Game :=
  { title := some "t"
    player := some { sprite := some "hero", animations := still ["jump", "walk"] }
    enemies := [{ name := "bat", sprite := some "bat", animations := still ["flap", "sleep"] },
      { name := "bat", sprite := some "owl", animations := still ["flap"] }]
    collectibles := [{ name := "gem", sprite := some "gem", animations := still ["shine"] }]
    levels := [cave] : Draft }.complete

theorem animated_of_sheet_cave : ∃ b program boot level,
    (programListing caveGame).sheet = .ok b ∧ codeOf? (shown true b.lines) = some program ∧
    scenes program = [boot, level] ∧ level.key = "Level_cave" ∧
    plays level.members = [some "bat_flap", some "gem_shine", some "hero_walk", some "hero_walk",
      some "hero_jump"] ∧
    Stmt.animationsAll boot.members = [some ("hero_jump", "hero"), some ("hero_walk", "hero"),
      some ("bat_flap", "bat"), some ("bat_sleep", "bat"), some ("owl_flap", "owl"),
      some ("gem_shine", "gem")] := by
  obtain ⟨b, hb⟩ := exists_of_isOk
    (show (programListing caveGame).sheet.isOk = true by decide +kernel)
  obtain ⟨program, boot, levels, displays, hprogram, hscenes, -, hkeys, hdisplays, hanimated⟩ :=
    animated_of_sheet hb true
  obtain - | ⟨hplays, ⟨⟩⟩ := hanimated.played
  obtain rfl := List.map_eq_nil_iff.1 hdisplays
  refine ⟨b, program, boot, _, hb, hprogram, hscenes, ?_, ?_, ?_⟩
  · exact (List.cons.inj hkeys).1.trans (by decide +kernel)
  · exact hplays.trans (by decide +kernel)
  · exact hanimated.created.trans (by decide +kernel)

/-! ## Clips with the same key -/

/-- The sprite of the second clip is that of the first with something behind it, which stands in
front of the name of the first clip instead. -/
def Overlaps (p q : String × String) : Prop :=
  ∃ w, q.1 = p.1 ++ "_" ++ w ∧ p.2 = w ++ "_" ++ q.2

theorem animationKey_eq_of_overlaps (h : Overlaps (sprite, clip) (sprite', clip')) :
    animationKey sprite clip = animationKey sprite' clip' := by
  obtain ⟨w, hsprite, hclip⟩ := h
  dsimp only at hsprite hclip
  rw [animationKey, animationKey, hsprite, hclip]
  simp only [String.append_assoc]

theorem eq_or_overlaps {a c a' c' : String} {rest : List Char} (h : a'.toList = a.toList ++ rest)
    (hrest : '_' :: c.toList = rest ++ '_' :: c'.toList) :
    a = a' ∧ c = c' ∨ Overlaps (a, c) (a', c') := by
  cases rest with
  | nil =>
    rw [List.append_nil] at h
    rw [List.nil_append] at hrest
    exact .inl ⟨String.toList_inj.1 h.symm, String.toList_inj.1 (List.cons.inj hrest).2⟩
  | cons _ w =>
    obtain ⟨rfl, hclip⟩ := List.cons.inj hrest
    refine .inr ⟨String.ofList w, ?_, ?_⟩ <;> apply String.toList_inj.1
    · simp [h]
    · simpa using hclip

theorem animationKey_eq_iff {sprite clip sprite' clip' : String} :
    animationKey sprite clip = animationKey sprite' clip' ↔
      (sprite = sprite' ∧ clip = clip') ∨ Overlaps (sprite, clip) (sprite', clip') ∨
        Overlaps (sprite', clip') (sprite, clip) := by
  constructor
  · intro h
    have hlist : sprite.toList ++ '_' :: clip.toList = sprite'.toList ++ '_' :: clip'.toList := by
      simpa [animationKey] using congrArg String.toList h
    -- One sprite is the other with something behind it.
    obtain ⟨rest, hsprite, hrest⟩ | ⟨rest, hsprite, hrest⟩ := List.append_eq_append_iff.1 hlist
    · rcases eq_or_overlaps hsprite hrest with heq | hoverlaps
      · exact .inl heq
      · exact .inr (.inl hoverlaps)
    · rcases eq_or_overlaps hsprite hrest with ⟨rfl, rfl⟩ | hoverlaps
      · exact .inl ⟨rfl, rfl⟩
      · exact .inr (.inr hoverlaps)
  · rintro (⟨rfl, rfl⟩ | h | h)
    · rfl
    · exact animationKey_eq_of_overlaps h
    · exact (animationKey_eq_of_overlaps h).symm

/-- The animations that are created are those of the clips, in order. Two of them have the same key
just if they are of the same sprite and of clips with the same name, or if the names overlap. -/
theorem animations_share_key_iff {b : Sheet} (hb : (programListing g).sheet = .ok b)
    (minify : Bool) :
    ∃ program boot rest, codeOf? (shown minify b.lines) = some program ∧
      scenes program = boot :: rest ∧ boot.key = bootScene ∧
      (Stmt.animationsAll boot.members).length = (clips g).length ∧
      ∀ (i j : Nat) (p q : String × Clip), (clips g)[i]? = some p → (clips g)[j]? = some q →
        ∃ key key', (Stmt.animationsAll boot.members)[i]? = some (some (key, p.1)) ∧
          (Stmt.animationsAll boot.members)[j]? = some (some (key', q.1)) ∧
          (key = key' ↔ (p.1 = q.1 ∧ p.2.name = q.2.name) ∨
            Overlaps (p.1, p.2.name) (q.1, q.2.name) ∨
            Overlaps (q.1, q.2.name) (p.1, p.2.name)) := by
  obtain ⟨program, boot, levels, displays, hprogram, hscenes, h⟩ := exists_gameScenes hb minify
  refine ⟨program, boot, _, hprogram, hscenes, h.bootClass.key_eq, ?_, ?_⟩
  · rw [h.bootClass.animations_eq, List.length_map]
  · intro i j p q hi hj
    refine ⟨_, _, ?_, ?_, animationKey_eq_iff⟩
    · rw [h.bootClass.animations_eq, List.getElem?_map, hi]
      rfl
    · rw [h.bootClass.animations_eq, List.getElem?_map, hj]
      rfl

/-- A bat whose wing flaps, and the wing of a bat that flaps. -/
def flappingDraft : Draft :=
  { title := some "t"
    assets := [⟨.image, "bat", "a.png", none⟩, ⟨.image, "bat_wing", "b.png", none⟩]
    player := some { sprite := some "bat", animations := still ["wing_flap"] }
    enemies := [{ name := "wing", sprite := some "bat_wing", animations := still ["flap"] }]
    levels := [{ name := "sky", spawn := some ⟨.int 0, .int 0⟩ }] }

theorem animations_share_key_iff_flapping : ∃ b program boot rest key key',
    (programListing flappingDraft.complete).sheet = .ok b ∧
    codeOf? (shown true b.lines) = some program ∧ scenes program = boot :: rest ∧
    (Stmt.animationsAll boot.members)[0]? = some (some (key, "bat")) ∧
    (Stmt.animationsAll boot.members)[1]? = some (some (key', "bat_wing")) ∧
    Overlaps ("bat", "wing_flap") ("bat_wing", "flap") ∧ key = key' := by
  obtain ⟨b, hb⟩ := exists_of_isOk
    (show (programListing flappingDraft.complete).sheet.isOk = true by decide +kernel)
  obtain ⟨program, boot, rest, hprogram, hscenes, -, -, hkeys⟩ := animations_share_key_iff hb true
  obtain ⟨key, key', hkey, hkey', hiff⟩ := hkeys 0 1 _ _ rfl rfl
  have hoverlaps : Overlaps ("bat", "wing_flap") ("bat_wing", "flap") :=
    ⟨"wing", by decide +kernel, by decide +kernel⟩
  exact ⟨b, program, boot, rest, key, key', hb, hprogram, hscenes, hkey, hkey', hoverlaps,
    hiff.2 (.inr (.inl hoverlaps))⟩

theorem written_still (h : ∀ name ∈ names, Named name) (hne : names ≠ []) :
    Draft.WrittenClips Number.Whole (still names) := by
  rintro _ ⟨⟩
  refine ⟨by simpa using hne, List.forall_mem_map.2 fun name hname => ?_⟩
  exact ⟨h name hname, List.forall_mem_singleton.2 (whole_of_lt (by decide)), by simp⟩

theorem written_flappingDraft : flappingDraft.Written Number.Whole True := by
  have hbat : Named "bat" := named_ofList (by decide) (by decide) (by decide)
  have hwing : Named "bat_wing" := named_ofList (by decide) (by decide) (by decide)
  have hflap : Named "wing_flap" := named_ofList (by decide) (by decide) (by decide)
  have hflap' : Named "flap" := named_ofList (by decide) (by decide) (by decide)
  have henemy : Named "wing" := named_ofList (by decide) (by decide) (by decide)
  refine ⟨rfl, by simp [flappingDraft], ?assets, ?player, ?enemies, List.forall_mem_nil _, ?levels,
    by simp [flappingDraft], by simp [flappingDraft], by simp [flappingDraft]⟩
  case assets =>
    exact List.forall_mem_cons.2 ⟨⟨hbat, by simp, by simp⟩,
      List.forall_mem_singleton.2 ⟨hwing, by simp, by simp⟩⟩
  case player =>
    rintro _ ⟨⟩
    exact ⟨by simp, by simpa using hbat, by simp, by simp, by simp,
      written_still (List.forall_mem_singleton.2 hflap) (by simp)⟩
  case enemies =>
    refine List.forall_mem_singleton.2 ⟨by simp, henemy, by simpa using hwing, by simp, by simp, ?_⟩
    exact written_still (List.forall_mem_singleton.2 hflap') (by simp)
  case levels =>
    refine List.forall_mem_singleton.2 ⟨?_, by simp, by simp, by simp, by simp, by simp, by simp⟩
    rintro _ ⟨⟩
    exact ⟨whole_of_lt (by decide), whole_of_lt (by decide)⟩

/-- Animations of different sprites are created under the same key although the game is valid. -/
theorem exists_animations_share_key :
    let source := r#"game "t" { assets { "# ++
      r#"image bat "a.png" , image bat_wing "b.png" , } "# ++
      r"player { sprite : bat , animation wing_flap { frames : [ 0 , ] , } , } " ++
      r"enemy wing { sprite : bat_wing , animation flap { frames : [ 0 , ] , } , } " ++
      r#"level "sky" { spawn : { x : 0 , y : 0 , } , "# ++
      r"enemies : [ ] , collectibles : [ ] , platforms : [ ] , } }"
    ∃ g b program boot rest, (readGame source).outcome = .ok g ∧
      (∀ strict, g.violations strict = []) ∧ (programListing g).sheet = .ok b ∧
      codeOf? b.lines = some program ∧ scenes program = boot :: rest ∧ boot.key = bootScene ∧
      Stmt.animationsAll boot.members =
        [some ("bat_wing_flap", "bat"), some ("bat_wing_flap", "bat_wing")] := by
  intro source
  have hsource : flappingDraft.print = source := by decide +kernel
  have hread : (readGame source).outcome = .ok flappingDraft.complete :=
    hsource ▸ readGame_print written_flappingDraft
  obtain ⟨b, hb⟩ := exists_of_isOk
    (show (programListing flappingDraft.complete).sheet.isOk = true by decide +kernel)
  obtain ⟨program, boot, levels, displays, hprogram, hscenes, h⟩ := exists_gameScenes hb false
  refine ⟨_, b, program, boot, _, hread, ?_, hb, hprogram, hscenes, h.bootClass.key_eq, ?_⟩
  · intro strict
    cases strict <;> decide +kernel
  · exact h.bootClass.animations_eq.trans (by decide +kernel)

end PlatformGame.Script
