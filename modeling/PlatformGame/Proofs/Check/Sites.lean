import PlatformGame.Check.Violation
import Mathlib.Tactic.ByContra

/-! # What a draft can violate

The rules for drafts, each with the sites of the draft where it can be broken. `Draft.Violates` says
at which sites a draft breaks a rule and what is to be reported there; `Draft.Sound` says that a
draft keeps all rules. An empty text counts as no text, except as the sprite of an enemy or of a
collectible, which has to be an asset in any case. -/

namespace PlatformGame

open Program

inductive Level.Site
  | scene
  | spawn
  | tilemap
  | enemy (placement : Nat)
  | collectible (placement : Nat)
  | layers
  deriving DecidableEq

/-- What is checked of a draft. Enemies, collectibles, levels and placements are numbered in the
order in which they are written. -/
inductive Site
  | title
  | levels
  | player
  | playerSprite
  | enemySprite (index : Nat)
  | collectibleSprite (index : Nat)
  | level (index : Nat) (site : Level.Site)
  | nextLevel
  | goal
  | sound (event : SoundEvent)
  deriving DecidableEq

namespace Draft

variable {d : Draft} {strict : Bool}

def DeclaresAsset (d : Draft) (key : String) : Prop := ∃ a ∈ d.assets, a.key = key

def DeclaresEnemy (d : Draft) (name : String) : Prop := ∃ e ∈ d.enemies, e.name = name

def DeclaresCollectible (d : Draft) (name : String) : Prop := ∃ c ∈ d.collectibles, c.name = name

def DeclaresLevel (d : Draft) (name : String) : Prop := ∃ l ∈ d.levels, l.name = name

/-- References to assets matter on demand, and as soon as the draft declares an asset. -/
def ChecksAssets (d : Draft) (strict : Bool) : Prop := strict = true ∨ d.assets ≠ []

/-- A draft breaks a rule at a site, and this is the violation to report there. -/
inductive Violates (d : Draft) (strict : Bool) : Site → Violation → Prop
  | title : (∀ t, d.title = some t → t = "") → Violates d strict .title .noTitle
  | levels : d.levels = [] → Violates d strict .levels .noLevels
  | player : d.player = none → Violates d strict .player .noPlayer
  | playerSprite : d.ChecksAssets strict → d.player = some p → p.sprite = some s → s ≠ "" →
      ¬ d.DeclaresAsset s → Violates d strict .playerSprite (.playerSprite s)
  | enemySprite : d.ChecksAssets strict → d.enemies[i]? = some e →
      (∀ s, e.sprite = some s → ¬ d.DeclaresAsset s) →
      Violates d strict (.enemySprite i) (.enemySprite e.name e.sprite)
  | collectibleSprite : d.ChecksAssets strict → d.collectibles[i]? = some c →
      (∀ s, c.sprite = some s → ¬ d.DeclaresAsset s) →
      Violates d strict (.collectibleSprite i) (.collectibleSprite c.name c.sprite)
  /-- An earlier level has the same name. -/
  | duplicateLevel : d.levels[i]? = some l → o ∈ d.levels.take i → o.name = l.name →
      Violates d strict (.level i .scene) (.duplicateLevel l.name)
  /-- No earlier level has the same name, but one has the same scene, and `o` is the first such. -/
  | sceneClash : d.levels[i]? = some l → (∀ e ∈ d.levels.take i, e.name ≠ l.name) →
      d.levels.take i = before ++ o :: after → sceneKey o.name = sceneKey l.name →
      (∀ e ∈ before, sceneKey e.name ≠ sceneKey l.name) →
      Violates d strict (.level i .scene) (.sceneClash l.name o.name (sceneKey l.name))
  | spawn : d.levels[i]? = some l → l.spawn = none →
      Violates d strict (.level i .spawn) (.noSpawn l.name)
  | tilemap : d.ChecksAssets strict → d.levels[i]? = some l → l.tilemap = some m → m ≠ "" →
      ¬ d.DeclaresAsset m → Violates d strict (.level i .tilemap) (.undefinedTilemap l.name m)
  | enemy : d.levels[i]? = some l → l.enemies[j]? = some p → ¬ d.DeclaresEnemy p.entity →
      Violates d strict (.level i (.enemy j)) (.undefinedEnemy l.name p.entity)
  | collectible : d.levels[i]? = some l → l.collectibles[j]? = some p →
      ¬ d.DeclaresCollectible p.entity →
      Violates d strict (.level i (.collectible j)) (.undefinedCollectible l.name p.entity)
  | layers : d.levels[i]? = some l → l.tilemap = some m → m ≠ "" →
      (∀ layers, l.layers = some layers → layers = []) →
      Violates d strict (.level i .layers) (.noLayers l.name)
  | nextLevel : d.rules = some r → r.nextLevel = some n → n ≠ "" → ¬ d.DeclaresLevel n →
      Violates d strict .nextLevel (.undefinedNextLevel n)
  | goal : d.rules = some r → r.win = some (.collectAll entity) →
      ¬ d.DeclaresCollectible entity → Violates d strict .goal (.undefinedGoal entity)
  | sound : d.ChecksAssets strict → d.sounds = some ss → ss.get event = some key → key ≠ "" →
      ¬ d.DeclaresAsset key →
      Violates d strict (.sound event) (.undefinedSound event key)

/-- A draft keeps all rules. -/
structure Sound (d : Draft) (strict : Bool) : Prop where
  title : ∃ t, d.title = some t ∧ t ≠ ""
  level : d.levels ≠ []
  player : d.player ≠ none
  playerSprite : d.ChecksAssets strict → ∀ p, d.player = some p → ∀ s, p.sprite = some s → s ≠ "" →
    d.DeclaresAsset s
  enemySprite : d.ChecksAssets strict → ∀ e ∈ d.enemies, ∃ s, e.sprite = some s ∧ d.DeclaresAsset s
  collectibleSprite : d.ChecksAssets strict → ∀ c ∈ d.collectibles,
    ∃ s, c.sprite = some s ∧ d.DeclaresAsset s
  tilemap : d.ChecksAssets strict → ∀ l ∈ d.levels, ∀ m, l.tilemap = some m → m ≠ "" →
    d.DeclaresAsset m
  sound : d.ChecksAssets strict → ∀ ss, d.sounds = some ss → ∀ event key,
    ss.get event = some key → key ≠ "" → d.DeclaresAsset key
  scene : d.levels.Pairwise fun earlier l => sceneKey earlier.name ≠ sceneKey l.name
  spawn : ∀ l ∈ d.levels, l.spawn ≠ none
  enemy : ∀ l ∈ d.levels, ∀ p ∈ l.enemies, d.DeclaresEnemy p.entity
  collectible : ∀ l ∈ d.levels, ∀ p ∈ l.collectibles, d.DeclaresCollectible p.entity
  layers : ∀ l ∈ d.levels, ∀ m, l.tilemap = some m → m ≠ "" →
    ∃ layers, l.layers = some layers ∧ layers ≠ []
  nextLevel : ∀ r, d.rules = some r → ∀ n, r.nextLevel = some n → n ≠ "" → d.DeclaresLevel n
  goal : ∀ r, d.rules = some r → ∀ entity, r.win = some (.collectAll entity) →
    d.DeclaresCollectible entity

/-! ## Nothing is violated in a sound draft, and only there -/

theorem Sound.not_violates (h : d.Sound strict) (hv : d.Violates strict site v) : False := by
  have hscene {i} {l o : Level} (hl : d.levels[i]? = some l) (ho : o ∈ d.levels.take i) :
      sceneKey o.name ≠ sceneKey l.name := by
    obtain ⟨hi, rfl⟩ := List.getElem?_eq_some_iff.1 hl
    obtain ⟨j, hj, rfl⟩ := List.mem_take_iff_getElem.1 ho
    exact List.pairwise_iff_getElem.1 h.scene j i (by omega) hi (by omega)
  cases hv with
  | title ht =>
    obtain ⟨t, htitle, hne⟩ := h.title
    exact hne (ht t htitle)
  | levels hl => exact h.level hl
  | player hp => exact h.player hp
  | playerSprite hc hp hs hne hd => exact hd (h.playerSprite hc _ hp _ hs hne)
  | enemySprite hc he hd =>
    obtain ⟨s, hs, hs'⟩ := h.enemySprite hc _ (List.mem_of_getElem? he)
    exact hd s hs hs'
  | collectibleSprite hc he hd =>
    obtain ⟨s, hs, hs'⟩ := h.collectibleSprite hc _ (List.mem_of_getElem? he)
    exact hd s hs hs'
  | duplicateLevel hl ho hname => exact hscene hl ho (by rw [hname])
  | sceneClash hl _ htake hkey _ => exact hscene hl (by simp [htake]) hkey
  | spawn hl hs => exact h.spawn _ (List.mem_of_getElem? hl) hs
  | tilemap hc hl hm hne hd => exact hd (h.tilemap hc _ (List.mem_of_getElem? hl) _ hm hne)
  | enemy hl hp hd =>
    exact hd (h.enemy _ (List.mem_of_getElem? hl) _ (List.mem_of_getElem? hp))
  | collectible hl hp hd =>
    exact hd (h.collectible _ (List.mem_of_getElem? hl) _ (List.mem_of_getElem? hp))
  | layers hl hm hne hlayers =>
    obtain ⟨layers, hs, hs'⟩ := h.layers _ (List.mem_of_getElem? hl) _ hm hne
    exact hs' (hlayers _ hs)
  | nextLevel hr hn hne hd => exact hd (h.nextLevel _ hr _ hn hne)
  | goal hr hw hd => exact hd (h.goal _ hr _ hw)
  | sound hc hs hk hne hd => exact hd (h.sound hc _ hs _ _ hk hne)

/-- A level that shares its scene with an earlier one is in violation: its name is taken, or the
first of the earlier levels with that scene has another name. -/
theorem exists_violates_scene (hl : d.levels[i]? = some l) (ho : o ∈ d.levels.take i)
    (hkey : sceneKey o.name = sceneKey l.name) : ∃ v, d.Violates strict (.level i .scene) v := by
  by_cases hdup : ∃ e ∈ d.levels.take i, e.name = l.name
  · obtain ⟨e, he, hname⟩ := hdup
    exact ⟨_, .duplicateLevel hl he hname⟩
  · have hsome : ((d.levels.take i).find? fun e => sceneKey e.name == sceneKey l.name).isSome := by
      rw [List.find?_isSome]
      exact ⟨o, ho, by simpa using hkey⟩
    obtain ⟨first, hfirst⟩ := Option.isSome_iff_exists.1 hsome
    obtain ⟨hf, before, after, htake, hbefore⟩ := List.find?_eq_some_iff_append.1 hfirst
    exact ⟨_, .sceneClash hl (fun e he hname => hdup ⟨e, he, hname⟩) htake (by simpa using hf)
      fun e he => by simpa using hbefore e he⟩

theorem sound_iff : d.Sound strict ↔ ∀ site v, ¬ d.Violates strict site v := by
  refine ⟨fun h site v hv => h.not_violates hv, fun h => ?_⟩
  constructor
  case title =>
    by_contra hn
    exact h _ _ (.title fun t ht => by_contra fun hne => hn ⟨t, ht, hne⟩)
  case level => exact fun hn => h _ _ (.levels hn)
  case player => exact fun hn => h _ _ (.player hn)
  case playerSprite =>
    intro hc p hp s hs hne
    by_contra hn
    exact h _ _ (.playerSprite hc hp hs hne hn)
  case enemySprite =>
    intro hc e he
    by_contra hn
    obtain ⟨i, hi⟩ := List.getElem?_of_mem he
    exact h _ _ (.enemySprite hc hi fun s hs hs' => hn ⟨s, hs, hs'⟩)
  case collectibleSprite =>
    intro hc c hmem
    by_contra hn
    obtain ⟨i, hi⟩ := List.getElem?_of_mem hmem
    exact h _ _ (.collectibleSprite hc hi fun s hs hs' => hn ⟨s, hs, hs'⟩)
  case tilemap =>
    intro hc l hl m hm hne
    by_contra hn
    obtain ⟨i, hi⟩ := List.getElem?_of_mem hl
    exact h _ _ (.tilemap hc hi hm hne hn)
  case sound =>
    intro hc ss hs event key hk hne
    by_contra hn
    exact h _ _ (.sound hc hs hk hne hn)
  case scene =>
    refine List.pairwise_iff_getElem.2 fun j i hj hi hji hkey => ?_
    have ho : d.levels[j] ∈ d.levels.take i := List.mem_take_iff_getElem.2 ⟨j, by omega, rfl⟩
    obtain ⟨v, hv⟩ := exists_violates_scene (List.getElem?_eq_getElem hi) ho hkey
    exact h _ _ hv
  case spawn =>
    intro l hl hs
    obtain ⟨i, hi⟩ := List.getElem?_of_mem hl
    exact h _ _ (.spawn hi hs)
  case enemy =>
    intro l hl p hp
    by_contra hn
    obtain ⟨i, hi⟩ := List.getElem?_of_mem hl
    obtain ⟨j, hj⟩ := List.getElem?_of_mem hp
    exact h _ _ (.enemy hi hj hn)
  case collectible =>
    intro l hl p hp
    by_contra hn
    obtain ⟨i, hi⟩ := List.getElem?_of_mem hl
    obtain ⟨j, hj⟩ := List.getElem?_of_mem hp
    exact h _ _ (.collectible hi hj hn)
  case layers =>
    intro l hl m hm hne
    by_contra hn
    obtain ⟨i, hi⟩ := List.getElem?_of_mem hl
    exact h _ _ (.layers hi hm hne fun ls hls => by_contra fun hne' => hn ⟨ls, hls, hne'⟩)
  case nextLevel =>
    intro r hr n hn hne
    by_contra hd
    exact h _ _ (.nextLevel hr hn hne hd)
  case goal =>
    intro r hr entity hw
    by_contra hd
    exact h _ _ (.goal hr hw hd)

end Draft

end PlatformGame
