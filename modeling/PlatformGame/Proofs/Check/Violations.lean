import PlatformGame.Proofs.Check.Levels
import PlatformGame.Proofs.Check.Sites
import PlatformGame.Proofs.Game.Symbols

/-! # The reported violations

Checking a draft reports one violation for every site at which a rule is broken, and nothing else.
`Reports` says this of a part of the check and the sites it looks at; parts that look at different
sites compose. -/

namespace PlatformGame

open Program

/-- `vs` are the violations at the sites in `P`, one for each such site with a violation. -/
def Reports (R : σ → Violation → Prop) (P : σ → Prop) (vs : List Violation) : Prop :=
  ∃ found : List (σ × Violation), found.map Prod.snd = vs ∧ (found.map Prod.fst).Nodup ∧
    ∀ site v, (site, v) ∈ found ↔ P site ∧ R site v

namespace Reports

variable {R : σ → Violation → Prop} {P Q : σ → Prop} {vs ws : List Violation}

theorem congr (h : Reports R P vs) (hPQ : ∀ s v, R s v → (P s ↔ Q s)) : Reports R Q vs := by
  obtain ⟨found, hmap, hnodup, hfound⟩ := h
  refine ⟨found, hmap, hnodup, fun s v => (hfound s v).trans ?_⟩
  exact and_congr_left (hPQ s v)

theorem nil (h : ∀ s v, P s → ¬ R s v) : Reports R P [] :=
  ⟨[], rfl, .nil, fun s v => by simpa using h s v⟩

theorem single (h : ∀ w, R s w ↔ w = v) : Reports R (· = s) [v] := by
  refine ⟨[(s, v)], rfl, by simp, fun t w => ?_⟩
  rw [List.mem_singleton, Prod.mk.injEq]
  exact and_congr_right fun ht => by rw [ht, h]

theorem reportIf (h : ∀ w, R s w ↔ b = true ∧ w = v) : Reports R (· = s) (reportIf b v) := by
  cases b with
  | true => exact single (by simpa using h)
  | false => exact nil fun t w ht hw => by simp [ht, h] at hw

/-- What is checked of a text that may be missing. -/
theorem reportText {text : Option String} {b : String → Bool} {v : String → Violation} :
    (∀ w, R s w ↔ ∃ t, text = some t ∧ b t = true ∧ w = v t) →
    Reports R (· = s) (match text with
      | some t => PlatformGame.reportIf (b t) (v t)
      | none => []) := by
  intro h
  cases text with
  | some t => exact reportIf (by simpa using h)
  | none => exact nil fun t w ht hw => by simp [ht, h] at hw

theorem append (hP : Reports R P vs) (hQ : Reports R Q ws) (hPQ : ∀ s, P s → ¬ Q s) :
    Reports R (fun s => P s ∨ Q s) (vs ++ ws) := by
  obtain ⟨found, rfl, hnodup, hfound⟩ := hP
  obtain ⟨found', rfl, hnodup', hfound'⟩ := hQ
  refine ⟨found ++ found', by simp, ?_, fun s v => ?_⟩
  · rw [List.map_append, List.nodup_append]
    refine ⟨hnodup, hnodup', ?_⟩
    rintro s hs _ hs' rfl
    obtain ⟨⟨_, v⟩, hmem, rfl⟩ := List.mem_map.1 hs
    obtain ⟨⟨_, v'⟩, hmem', h⟩ := List.mem_map.1 hs'
    cases h
    exact hPQ _ ((hfound ..).1 hmem).1 ((hfound' ..).1 hmem').1
  · rw [List.mem_append, hfound, hfound', or_and_right]

theorem flatMap {P : α → σ → Prop} {as : List α} (hnodup : as.Nodup)
    (h : ∀ a ∈ as, Reports R (P a) (f a)) (hP : ∀ a ∈ as, ∀ b ∈ as, ∀ s, P a s → P b s → a = b) :
    Reports R (fun s => ∃ a ∈ as, P a s) (as.flatMap f) := by
  induction as with
  | nil => exact nil (by simp)
  | cons a as ih =>
    obtain ⟨ha, hnodup⟩ := List.nodup_cons.1 hnodup
    have htail := ih hnodup (fun b hb => h b (by simp [hb]))
      fun b hb c hc => hP b (by simp [hb]) c (by simp [hc])
    rw [List.flatMap_cons]
    refine ((h a (by simp)).append htail ?_).congr fun s v _ => by simp
    rintro s hs ⟨b, hb, hs'⟩
    exact ha (hP a (by simp) b (by simp [hb]) s hs hs' ▸ hb)

/-- What is checked of each member of a list, at sites numbered as its members are. -/
theorem flatMap_zipIdx {P : Nat → σ → Prop} {as : List α} {f : Nat → α → List Violation}
    (h : ∀ i a, as[i]? = some a → Reports R (P i) (f i a)) (hP : ∀ i j s, P i s → P j s → i = j) :
    Reports R (fun s => ∃ i < as.length, P i s) (as.zipIdx.flatMap fun p => f p.2 p.1) := by
  have hnodup : as.zipIdx.Nodup := by
    have hsnd : (as.zipIdx.map Prod.snd).Nodup := by
      rw [List.zipIdx_map_snd]
      exact List.nodup_range'
    exact List.Pairwise.of_map Prod.snd (fun _ _ hne heq => hne (by rw [heq])) hsnd
  refine (flatMap (P := fun p => P p.2) hnodup ?_ ?_).congr fun s v _ => ?_
  · rintro ⟨a, i⟩ hmem
    exact h i a (List.mem_zipIdx_iff_getElem?.1 hmem)
  · rintro ⟨a, i⟩ ha ⟨b, j⟩ hb s hs hs'
    cases hP i j s hs hs'
    rw [List.mem_zipIdx_iff_getElem?] at ha hb
    have hab : a = b := Option.some.inj (ha.symm.trans hb)
    rw [hab]
  · constructor
    · rintro ⟨⟨a, i⟩, hmem, hs⟩
      obtain ⟨hi, _⟩ := List.getElem?_eq_some_iff.1 (List.mem_zipIdx_iff_getElem?.1 hmem)
      exact ⟨i, hi, hs⟩
    · rintro ⟨i, hi, hs⟩
      exact ⟨(as[i], i), List.mem_zipIdx_iff_getElem?.2 (List.getElem?_eq_getElem hi), hs⟩

theorem flatMap_each {P : Nat → σ → Prop} {as : List α} {f : α → List Violation}
    (h : ∀ i a, as[i]? = some a → Reports R (P i) (f a)) (hP : ∀ i j s, P i s → P j s → i = j) :
    Reports R (fun s => ∃ i < as.length, P i s) (as.flatMap f) := by
  have hzip : as.zipIdx.flatMap (fun p => f p.1) = as.flatMap f := by
    rw [← List.flatMap_map, List.zipIdx_map_fst]
  rw [← hzip]
  exact flatMap_zipIdx h hP

end Reports

/-! ## The parts of the check -/

theorem filled_eq_some : filled s = some t ↔ s = some t ∧ t ≠ "" := by
  simp [filled, Option.filter_eq_some_iff]

theorem filled_eq_none : filled s = none ↔ ∀ t, s = some t → t = "" := by
  simp [filled, Option.filter_eq_none_iff]

/-- Each level is checked with what is kept of the levels before it. -/
theorem Level.allViolations_eq (symbols : Symbols ε κ) (checkAssets : Bool)
    (earlier later : List Level) :
    allViolations symbols checkAssets (earlier.foldl .add {}) later =
      (later.zipIdx earlier.length).flatMap fun p =>
        p.1.violations (((earlier ++ later).take p.2).foldl .add {}) symbols checkAssets := by
  induction later generalizing earlier with
  | nil => rfl
  | cons l later ih =>
    have hrest := ih (earlier ++ [l])
    rw [List.foldl_append, List.foldl_cons, List.foldl_nil] at hrest
    simp [allViolations, hrest]

namespace Draft

variable {d : Draft} {strict : Bool}

theorem checksAssets_iff : (strict || d.symbols.hasAssets) = true ↔ d.ChecksAssets strict := by
  simp [ChecksAssets]

theorem not_hasAsset_iff : (!d.symbols.hasAsset key) = true ↔ ¬ d.DeclaresAsset key := by
  rw [DeclaresAsset, ← hasAsset_symbols, Bool.not_eq_true', Bool.not_eq_true]

theorem not_any_hasAsset_iff {sprite : Option String} :
    (!sprite.any d.symbols.hasAsset) = true ↔ ∀ s, sprite = some s → ¬ d.DeclaresAsset s := by
  cases sprite with
  | none => simp
  | some s => simpa using not_hasAsset_iff

theorem not_hasLevel_iff : (!d.symbols.hasLevel name) = true ↔ ¬ d.DeclaresLevel name := by
  rw [DeclaresLevel, ← hasLevel_symbols, Bool.not_eq_true', Bool.not_eq_true]

theorem isNone_enemy?_iff : (d.symbols.enemy? name).isNone = true ↔ ¬ d.DeclaresEnemy name := by
  simp [DeclaresEnemy]

theorem isNone_collectible?_iff :
    (d.symbols.collectible? name).isNone = true ↔ ¬ d.DeclaresCollectible name := by
  simp [DeclaresCollectible]

/-! ### Title, levels, player and sprites -/

theorem reports_head :
    Reports (d.Violates strict) (fun s => (s = .title ∨ s = .levels) ∨ s = .player)
      (reportIf (filled d.title).isNone .noTitle ++ reportIf d.levels.isEmpty .noLevels ++
        reportIf d.player.isNone .noPlayer) := by
  refine .append (.append (.reportIf fun w => ?_) (.reportIf fun w => ?_) (by simp))
    (.reportIf fun w => ?_) (by simp)
  · rw [Option.isNone_iff_eq_none, filled_eq_none]
    exact ⟨fun | .title h => ⟨h, rfl⟩, fun ⟨h, hw⟩ => hw ▸ .title h⟩
  · rw [List.isEmpty_iff]
    exact ⟨fun | .levels h => ⟨h, rfl⟩, fun ⟨h, hw⟩ => hw ▸ .levels h⟩
  · rw [Option.isNone_iff_eq_none]
    exact ⟨fun | .player h => ⟨h, rfl⟩, fun ⟨h, hw⟩ => hw ▸ .player h⟩

theorem violates_playerSprite_iff (hc : d.ChecksAssets strict) :
    d.Violates strict .playerSprite w ↔ ∃ s, d.player.bind (filled ·.sprite) = some s ∧
      (!d.symbols.hasAsset s) = true ∧ w = .playerSprite s := by
  simp only [Option.bind_eq_some_iff, filled_eq_some, not_hasAsset_iff]
  constructor
  · intro h
    cases h with
    | playerSprite _ hp hs hne hd => exact ⟨_, ⟨_, hp, hs, hne⟩, hd, rfl⟩
  · rintro ⟨s, ⟨p, hp, hs, hne⟩, hd, rfl⟩
    exact .playerSprite hc hp hs hne hd

theorem violates_enemySprite_iff (hc : d.ChecksAssets strict) (he : d.enemies[i]? = some e) :
    d.Violates strict (.enemySprite i) w ↔
      (!e.sprite.any d.symbols.hasAsset) = true ∧ w = .enemySprite e.name e.sprite := by
  rw [not_any_hasAsset_iff]
  constructor
  · intro h
    cases h with
    | enemySprite _ he' hd =>
      cases he.symm.trans he'
      exact ⟨hd, rfl⟩
  · rintro ⟨hd, rfl⟩
    exact .enemySprite hc he hd

theorem violates_collectibleSprite_iff (hc : d.ChecksAssets strict)
    (hi : d.collectibles[i]? = some c) :
    d.Violates strict (.collectibleSprite i) w ↔
      (!c.sprite.any d.symbols.hasAsset) = true ∧ w = .collectibleSprite c.name c.sprite := by
  rw [not_any_hasAsset_iff]
  constructor
  · intro h
    cases h with
    | collectibleSprite _ hi' hd =>
      cases hi.symm.trans hi'
      exact ⟨hd, rfl⟩
  · rintro ⟨hd, rfl⟩
    exact .collectibleSprite hc hi hd

theorem reports_sprites :
    Reports (d.Violates strict)
      (fun s => (s = .playerSprite ∨ ∃ i < d.enemies.length, s = .enemySprite i) ∨
        ∃ i < d.collectibles.length, s = .collectibleSprite i)
      (if strict || d.symbols.hasAssets then d.spriteViolations else []) := by
  split
  case isTrue hc =>
    rw [checksAssets_iff] at hc
    refine .append (.append (.reportText fun w => violates_playerSprite_iff hc)
      (.flatMap_each (fun i e he => .reportIf fun w => violates_enemySprite_iff hc he) (by simp))
      ?_) (.flatMap_each (fun i c hi => .reportIf fun w => violates_collectibleSprite_iff hc hi)
      (by simp)) ?_
    all_goals grind
  case isFalse hc =>
    rw [checksAssets_iff] at hc
    refine .nil fun s v hs hv => ?_
    cases hv <;> simp_all

/-! ### Levels -/

variable {l : Level}

theorem reports_scene (hl : d.levels[i]? = some l) :
    Reports (d.Violates strict) (· = .level i .scene)
      (((d.levels.take i).foldl SeenLevels.add {}).clash l) := by
  rw [(SeenLevels.tracks_foldl SeenLevels.tracks_nil _).clash_eq, List.nil_append]
  unfold Level.clash
  split
  case isTrue hdup =>
    obtain ⟨o, ho, hname⟩ : ∃ o ∈ d.levels.take i, o.name = l.name := by simpa using hdup
    refine .single fun w => ⟨fun h => ?_, fun hw => hw ▸ .duplicateLevel hl ho hname⟩
    cases h with
    | duplicateLevel hl' => cases hl.symm.trans hl'; rfl
    | sceneClash hl' hnames => cases hl.symm.trans hl'; exact absurd hname (hnames o ho)
  case isFalse hdup =>
    have hnames : ∀ o ∈ d.levels.take i, o.name ≠ l.name := by simpa using hdup
    split
    case h_1 first hfirst =>
      obtain ⟨hkey, before, after, htake, hbefore⟩ := List.find?_eq_some_iff_append.1 hfirst
      refine .single fun w => ⟨fun h => ?_, fun hw => hw ▸ .sceneClash hl hnames htake
        (by simpa using hkey) fun e he => by simpa using hbefore e he⟩
      cases h with
      | duplicateLevel hl' ho hname => cases hl.symm.trans hl'; exact absurd hname (hnames _ ho)
      | @sceneClash _ _ before' o after' hl' _ htake' hkey' hbefore' =>
        cases hl.symm.trans hl'
        have ho : (d.levels.take i).find? (sceneKey ·.name == sceneKey l.name) = some o :=
          List.find?_eq_some_iff_append.2 ⟨by simpa using hkey', before', after', htake',
            fun e he => by simpa using hbefore' e he⟩
        cases hfirst.symm.trans ho
        rfl
    case h_2 hnone =>
      refine .nil fun s w hs h => ?_
      subst hs
      have hkeys : ∀ o ∈ d.levels.take i, sceneKey o.name ≠ sceneKey l.name := by
        simpa using hnone
      cases h with
      | duplicateLevel hl' ho hname => cases hl.symm.trans hl'; exact hnames _ ho hname
      | sceneClash hl' _ htake hkey =>
        cases hl.symm.trans hl'
        exact hkeys _ (by simp [htake]) hkey

theorem violates_spawn_iff (hl : d.levels[i]? = some l) :
    d.Violates strict (.level i .spawn) w ↔ l.spawn.isNone = true ∧ w = .noSpawn l.name := by
  rw [Option.isNone_iff_eq_none]
  constructor
  · intro h
    cases h with
    | spawn hl' hs =>
      cases hl.symm.trans hl'
      exact ⟨hs, rfl⟩
  · rintro ⟨hs, rfl⟩
    exact .spawn hl hs

theorem violates_tilemap_iff (hl : d.levels[i]? = some l) :
    d.Violates strict (.level i .tilemap) w ↔ ∃ m, filled l.tilemap = some m ∧
      ((strict || d.symbols.hasAssets) && !d.symbols.hasAsset m) = true ∧
        w = .undefinedTilemap l.name m := by
  simp only [Bool.and_eq_true, checksAssets_iff, not_hasAsset_iff, filled_eq_some]
  constructor
  · intro h
    cases h with
    | tilemap hc hl' hm hne hd =>
      cases hl.symm.trans hl'
      exact ⟨_, ⟨hm, hne⟩, ⟨hc, hd⟩, rfl⟩
  · rintro ⟨m, ⟨hm, hne⟩, ⟨hc, hd⟩, rfl⟩
    exact .tilemap hc hl hm hne hd

theorem violates_enemy_iff (hl : d.levels[i]? = some l) (hp : l.enemies[j]? = some p) :
    d.Violates strict (.level i (.enemy j)) w ↔
      (d.symbols.enemy? p.entity).isNone = true ∧ w = .undefinedEnemy l.name p.entity := by
  rw [isNone_enemy?_iff]
  constructor
  · intro h
    cases h with
    | enemy hl' hp' hd =>
      cases hl.symm.trans hl'
      cases hp.symm.trans hp'
      exact ⟨hd, rfl⟩
  · rintro ⟨hd, rfl⟩
    exact .enemy hl hp hd

theorem violates_collectible_iff (hl : d.levels[i]? = some l)
    (hp : l.collectibles[j]? = some p) :
    d.Violates strict (.level i (.collectible j)) w ↔
      (d.symbols.collectible? p.entity).isNone = true ∧
        w = .undefinedCollectible l.name p.entity := by
  rw [isNone_collectible?_iff]
  constructor
  · intro h
    cases h with
    | collectible hl' hp' hd =>
      cases hl.symm.trans hl'
      cases hp.symm.trans hp'
      exact ⟨hd, rfl⟩
  · rintro ⟨hd, rfl⟩
    exact .collectible hl hp hd

theorem violates_layers_iff (hl : d.levels[i]? = some l) :
    d.Violates strict (.level i .layers) w ↔
      ((filled l.tilemap).isSome && (l.layers.getD []).isEmpty) = true ∧ w = .noLayers l.name := by
  have hlayers : (l.layers.getD []).isEmpty = true ↔ ∀ ls, l.layers = some ls → ls = [] := by
    cases l.layers <;> simp
  rw [Bool.and_eq_true, hlayers, Option.isSome_iff_exists]
  constructor
  · intro h
    cases h with
    | layers hl' hm hne hls =>
      cases hl.symm.trans hl'
      exact ⟨⟨⟨_, filled_eq_some.2 ⟨hm, hne⟩⟩, hls⟩, rfl⟩
  · rintro ⟨⟨⟨m, hm⟩, hls⟩, rfl⟩
    obtain ⟨hm, hne⟩ := filled_eq_some.1 hm
    exact .layers hl hm hne hls

theorem reports_level (hl : d.levels[i]? = some l) :
    Reports (d.Violates strict) (fun s => ∃ site, s = .level i site)
      (l.violations ((d.levels.take i).foldl .add {}) d.symbols
        (strict || d.symbols.hasAssets)) := by
  have hscene : Reports (d.Violates strict) _ _ := reports_scene hl
  have hparts := ((((hscene.append
    (.reportIf fun w => violates_spawn_iff hl) (by simp)).append
    (.reportText fun w => violates_tilemap_iff hl) (by simp)).append
    (.flatMap_each (fun j p hp => .reportIf fun w => violates_enemy_iff hl hp) (by simp))
    (by grind)).append
    (.flatMap_each (fun j p hp => .reportIf fun w => violates_collectible_iff hl hp) (by simp))
    (by grind)).append (.reportIf fun w => violates_layers_iff hl) (by grind)
  refine hparts.congr fun s v hv => ⟨by grind, ?_⟩
  rintro ⟨site, rfl⟩
  -- A placement that is in violation is one of the level.
  cases hv with
  | enemy hl' hp => cases hl.symm.trans hl'; simp [(List.getElem?_eq_some_iff.1 hp).1]
  | collectible hl' hp => cases hl.symm.trans hl'; simp [(List.getElem?_eq_some_iff.1 hp).1]
  | _ => simp

/-! ### Rules and sounds -/

theorem violates_nextLevel_iff (hr : d.rules = some r) :
    d.Violates strict .nextLevel w ↔ ∃ n, filled r.nextLevel = some n ∧
      (!d.symbols.hasLevel n) = true ∧ w = .undefinedNextLevel n := by
  simp only [filled_eq_some, not_hasLevel_iff]
  constructor
  · intro h
    cases h with
    | nextLevel hr' hn hne hd =>
      cases hr.symm.trans hr'
      exact ⟨_, ⟨hn, hne⟩, hd, rfl⟩
  · rintro ⟨n, ⟨hn, hne⟩, hd, rfl⟩
    exact .nextLevel hr hn hne hd

theorem violates_goal_iff (hr : d.rules = some r) :
    d.Violates strict .goal w ↔ ∃ entity, r.win = some (.collectAll entity) ∧
      (d.symbols.collectible? entity).isNone = true ∧ w = .undefinedGoal entity := by
  simp only [isNone_collectible?_iff]
  constructor
  · intro h
    cases h with
    | goal hr' hw hd =>
      cases hr.symm.trans hr'
      exact ⟨_, hw, hd, rfl⟩
  · rintro ⟨entity, hw, hd, rfl⟩
    exact .goal hr hw hd

theorem reports_rules :
    Reports (d.Violates strict) (fun s => s = .nextLevel ∨ s = .goal) d.ruleViolations := by
  unfold ruleViolations
  split
  case h_1 hr =>
    refine .nil fun s v hs hv => ?_
    cases hv <;> simp_all
  case h_2 r hr =>
    refine .append (.reportText fun w => violates_nextLevel_iff hr) ?_ (by simp)
    split
    case h_1 entity hw =>
      exact .reportIf fun w => by simp [violates_goal_iff hr, hw]
    case h_2 hw =>
      refine .nil fun s v hs hv => ?_
      subst hs
      obtain ⟨entity, hentity, _⟩ := (violates_goal_iff hr).1 hv
      exact hw entity hentity

theorem violates_sound_iff (hc : d.ChecksAssets strict) (hs : d.sounds = some ss) :
    d.Violates strict (.sound event) w ↔ ∃ key, filled (ss.get event) = some key ∧
      (!d.symbols.hasAsset key) = true ∧ w = .undefinedSound event key := by
  simp only [filled_eq_some, not_hasAsset_iff]
  constructor
  · intro h
    cases h with
    | sound _ hs' hk hne hd =>
      cases hs.symm.trans hs'
      exact ⟨_, ⟨hk, hne⟩, hd, rfl⟩
  · rintro ⟨key, ⟨hk, hne⟩, hd, rfl⟩
    exact .sound hc hs hk hne hd

theorem reports_sounds :
    Reports (d.Violates strict) (fun s => ∃ event ∈ SoundEvent.all, s = .sound event)
      (if strict || d.symbols.hasAssets then d.soundViolations else []) := by
  split
  case isTrue hc =>
    rw [checksAssets_iff] at hc
    unfold soundViolations
    split
    case h_1 hs =>
      refine .nil fun s v h hv => ?_
      cases hv <;> simp_all
    case h_2 ss hs =>
      rw [Sounds.events, List.flatMap_map]
      exact .flatMap (by decide) (fun event _ => .reportText fun w => violates_sound_iff hc hs)
        (by simp)
  case isFalse hc =>
    rw [checksAssets_iff] at hc
    refine .nil fun s v hs hv => ?_
    cases hv <;> simp_all

theorem reports_violations :
    Reports (d.Violates strict) (fun _ => True) (d.violations strict) := by
  have hlevels : Reports (d.Violates strict)
      (fun s => ∃ i < d.levels.length, ∃ site, s = .level i site)
      (Level.allViolations d.symbols (strict || d.symbols.hasAssets) {} d.levels) := by
    refine Level.allViolations_eq d.symbols _ [] d.levels ▸ ?_
    exact .flatMap_zipIdx (fun i l hl => reports_level hl) (by grind)
  have hparts := (((reports_head.append reports_sprites (by grind)).append hlevels
    (by grind)).append reports_rules (by grind)).append reports_sounds (by grind)
  refine hparts.congr fun s v hv => ⟨fun _ => trivial, fun _ => ?_⟩
  -- Every violation is at the site of a part, and a numbered site is one of the draft.
  have hlt {α : Type} {as : List α} {i a} (h : as[i]? = some a) : i < as.length :=
    (List.getElem?_eq_some_iff.1 h).1
  cases hv with
  | enemySprite _ he | collectibleSprite _ he => simp [hlt he]
  | tilemap _ hl => simp [hlt hl]
  | duplicateLevel hl | sceneClash hl | spawn hl | enemy hl | collectible hl | layers hl =>
    simp [hlt hl]
  | @sound _ event => cases event <;> simp [SoundEvent.all]
  | _ => simp

theorem mem_violations_iff : v ∈ d.violations strict ↔ ∃ site, d.Violates strict site v := by
  obtain ⟨found, hmap, _, hfound⟩ := (reports_violations : Reports (d.Violates strict) _ _)
  rw [← hmap, List.mem_map, Prod.exists]
  simp [hfound]

/-- A list of violations says exactly what is wrong with a draft. -/
structure Audited (d : Draft) (strict : Bool) (vs : List Violation) : Prop where
  /-- There is one violation for each site at which a rule is broken, and no other. -/
  located : ∃ found : List (Site × Violation), found.map Prod.snd = vs ∧
    (found.map Prod.fst).Nodup ∧ ∀ site v, (site, v) ∈ found ↔ d.Violates strict site v
  sound : vs = [] ↔ d.Sound strict

theorem audited_of_reports (h : Reports (d.Violates strict) (fun _ => True) vs) :
    d.Audited strict vs := by
  obtain ⟨found, rfl, hnodup, hfound⟩ := h
  have hfound : ∀ site v, (site, v) ∈ found ↔ d.Violates strict site v := by simpa using hfound
  refine ⟨⟨found, rfl, hnodup, hfound⟩, ?_⟩
  rw [List.map_eq_nil_iff, sound_iff, List.eq_nil_iff_forall_not_mem, Prod.forall]
  exact forall₂_congr fun site v => not_congr (hfound site v)

end Draft

/-- Checking a draft, or a complete game as the draft that it is, reports one violation for every
site at which a rule is broken and nothing else, so nothing exactly if all rules are kept. -/
theorem audited_violations (strict : Bool) :
    (∀ d : Draft, d.Audited strict (d.violations strict)) ∧
      ∀ g : Game, g.toDraft.Audited strict (g.violations strict) :=
  ⟨fun _ => Draft.audited_of_reports Draft.reports_violations,
    fun _ => Draft.audited_of_reports Draft.reports_violations⟩

-- The second level shares its scene with the first, and the third its name with the second.
example :
    let origin : Point := ⟨.int 0, .int 0⟩
    let d : Draft :=
      { title := some "t", player := some {},
        levels := [{ name := "a b", spawn := some origin }, { name := "a-b" },
          { name := "a-b", spawn := some origin }] }
    d.violations false =
      [.sceneClash "a-b" "a b" "Level_a_b", .noSpawn "a-b", .duplicateLevel "a-b"] := by
  decide +kernel

end PlatformGame
