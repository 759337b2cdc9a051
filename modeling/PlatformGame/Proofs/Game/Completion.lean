import Mathlib.Data.List.Forall2
import PlatformGame.Game.Complete

/-! # What completion adds

A draft is full if it sets all that completion would fill in. A draft is kept in another if it sets
nothing that the other does not have as well, at any depth. Completion turns a draft into a full one
that keeps it and makes up no assets, levels, enemies, collectibles, clips or display elements
(`full_and_keptIn_complete`). A complete game as a draft is full, and completing it gives it back
(`Game.complete_toDraft`), so completion leaves exactly the full drafts as they are. -/

namespace PlatformGame

namespace Draft

/-! ## Full drafts -/

structure Clip.Full (c : Clip) : Prop where
  fps : c.fps.isSome
  loop : c.loop.isSome

/-- A list of clips that is set, with nothing left out of its clips. -/
def FullClips (cs : Option (List Clip)) : Prop := ∃ xs, cs = some xs ∧ ∀ c ∈ xs, c.Full

/-- All parameters of the kind of movement are set. -/
def Movement.Full : Movement → Prop
  | patrol s d => s.isSome ∧ d.isSome
  | chase s r => s.isSome ∧ r.isSome
  | fly s a f => s.isSome ∧ a.isSome ∧ f.isSome
  | static => True

structure Config.Full (c : Config) : Prop where
  width : c.width.isSome
  height : c.height.isSome
  gravity : c.gravity.isSome
  background : c.background.isSome

structure Player.Full (p : Player) : Prop where
  sprite : p.sprite.isSome
  speed : p.speed.isSome
  jumpForce : p.jumpForce.isSome
  lives : p.lives.isSome
  controls : p.controls.isSome
  animations : FullClips p.animations

structure Enemy.Full (e : Enemy) : Prop where
  sprite : e.sprite.isSome
  movement : ∃ m, e.movement = some m ∧ m.Full
  damage : e.damage.isSome
  stompable : e.stompable.isSome
  animations : FullClips e.animations

structure Collectible.Full (c : Collectible) : Prop where
  sprite : c.sprite.isSome
  score : c.score.isSome
  effect : c.effect.isSome
  animations : FullClips c.animations

structure Rules.Full (r : Rules) : Prop where
  win : r.win.isSome
  lose : r.lose.isSome

structure Full (d : Draft) : Prop where
  title : d.title.isSome
  config : ∃ c, d.config = some c ∧ c.Full
  player : ∃ p, d.player = some p ∧ p.Full
  enemies : ∀ e ∈ d.enemies, e.Full
  collectibles : ∀ c ∈ d.collectibles, c.Full
  hud : ∀ elements, d.hud = some elements → ∀ e ∈ elements, e.position.isSome
  rules : ∃ r, d.rules = some r ∧ r.Full

/-! ## What is kept -/

/-- If the first value is set, so is the second, and they are related. -/
def Kept (R : α → α → Prop) (a b : Option α) : Prop := ∀ x, a = some x → ∃ y, b = some y ∧ R x y

theorem Kept.none : Kept R none b := by
  intro x hx
  cases hx

theorem Kept.some (h : R x y) : Kept R (some x) (some y) := by
  intro x' hx'
  cases hx'
  exact ⟨y, rfl, h⟩

structure Clip.KeptIn (c c' : Clip) : Prop where
  name : c'.name = c.name
  frames : c'.frames = c.frames
  fps : Kept Eq c.fps c'.fps
  loop : Kept Eq c.loop c'.loop

/-- The same clips in the same order, and none where they are unset. -/
structure KeptClips (cs cs' : Option (List Clip)) : Prop where
  kept : Kept (List.Forall₂ Clip.KeptIn) cs cs'
  unset : cs = none → cs'.getD [] = []

/-- Movements of the same kind. -/
inductive Movement.KeptIn : Movement → Movement → Prop
  | patrol : Kept Eq s s' → Kept Eq d d' → KeptIn (.patrol s d) (.patrol s' d')
  | chase : Kept Eq s s' → Kept Eq r r' → KeptIn (.chase s r) (.chase s' r')
  | fly : Kept Eq s s' → Kept Eq a a' → Kept Eq f f' → KeptIn (.fly s a f) (.fly s' a' f')
  | static : KeptIn .static .static

structure Config.KeptIn (c c' : Config) : Prop where
  width : Kept Eq c.width c'.width
  height : Kept Eq c.height c'.height
  gravity : Kept Eq c.gravity c'.gravity
  background : Kept Eq c.background c'.background

structure Player.KeptIn (p p' : Player) : Prop where
  sprite : Kept Eq p.sprite p'.sprite
  speed : Kept Eq p.speed p'.speed
  jumpForce : Kept Eq p.jumpForce p'.jumpForce
  lives : Kept Eq p.lives p'.lives
  controls : Kept Eq p.controls p'.controls
  animations : KeptClips p.animations p'.animations

structure Enemy.KeptIn (e e' : Enemy) : Prop where
  name : e'.name = e.name
  sprite : Kept Eq e.sprite e'.sprite
  movement : Kept Movement.KeptIn e.movement e'.movement
  damage : Kept Eq e.damage e'.damage
  stompable : Kept Eq e.stompable e'.stompable
  animations : KeptClips e.animations e'.animations

structure Collectible.KeptIn (c c' : Collectible) : Prop where
  name : c'.name = c.name
  sprite : Kept Eq c.sprite c'.sprite
  score : Kept Eq c.score c'.score
  effect : Kept Eq c.effect c'.effect
  animations : KeptClips c.animations c'.animations

/-- What has no default is the same, set or not. -/
structure HudElement.KeptIn (e e' : HudElement) : Prop where
  kind : e'.kind = e.kind
  position : Kept Eq e.position e'.position
  fontSize : e'.fontSize = e.fontSize
  color : e'.color = e.color
  max : e'.max = e.max

structure Rules.KeptIn (r r' : Rules) : Prop where
  win : Kept Eq r.win r'.win
  lose : Kept Eq r.lose r'.lose
  nextLevel : r'.nextLevel = r.nextLevel

structure KeptIn (d d' : Draft) : Prop where
  title : Kept Eq d.title d'.title
  config : Kept Config.KeptIn d.config d'.config
  assets : d'.assets = d.assets
  player : Kept Player.KeptIn d.player d'.player
  enemies : List.Forall₂ Enemy.KeptIn d.enemies d'.enemies
  collectibles : List.Forall₂ Collectible.KeptIn d.collectibles d'.collectibles
  levels : d'.levels = d.levels
  hud : Kept (List.Forall₂ HudElement.KeptIn) d.hud d'.hud ∧ (d.hud = none → d'.hud = none)
  rules : Kept Rules.KeptIn d.rules d'.rules
  sounds : d'.sounds = d.sounds

/-! ## Completion keeps what is set -/

theorem kept_getD (a : Option α) (x : α) : Kept Eq a (some (a.getD x)) := by
  cases a with
  | none => exact .none
  | some y => exact .some rfl

/-- A part that is completed as a whole. -/
theorem kept_complete {R : α → α → Prop} {f : α → α} (h : ∀ x, R x (f x)) (a : Option α) (x : α) :
    Kept R a (some (f (a.getD x))) := by
  cases a with
  | none => exact .none
  | some y => exact .some (h y)

theorem forall₂_map {R : α → α → Prop} {f : α → α} (h : ∀ x, R x (f x)) (xs : List α) :
    List.Forall₂ R xs (xs.map f) := by
  rw [List.forall₂_map_right_iff]
  exact List.forall₂_same.2 fun x _ => h x

theorem Clip.keptIn_complete (c : Clip) : c.KeptIn c.complete.toDraft where
  name := rfl
  frames := rfl
  fps := kept_getD _ _
  loop := kept_getD _ _

theorem keptClips_complete (cs : Option (List Clip)) :
    KeptClips cs (some ((completeClips cs).map PlatformGame.Clip.toDraft)) := by
  cases cs with
  | none => exact ⟨.none, fun _ => rfl⟩
  | some xs =>
    refine ⟨.some ?_, fun h => absurd h (Option.some_ne_none _)⟩
    rw [completeClips, Option.getD_some, List.map_map]
    exact forall₂_map Clip.keptIn_complete xs

theorem Movement.keptIn_complete (m : Movement) : m.KeptIn m.complete.toDraft := by
  cases m with
  | patrol s d => exact .patrol (kept_getD _ _) (kept_getD _ _)
  | chase s r => exact .chase (kept_getD _ _) (kept_getD _ _)
  | fly s a f => exact .fly (kept_getD _ _) (kept_getD _ _) (kept_getD _ _)
  | static => exact .static

theorem Config.keptIn_complete (c : Config) : c.KeptIn c.complete.toDraft where
  width := kept_getD _ _
  height := kept_getD _ _
  gravity := kept_getD _ _
  background := kept_getD _ _

theorem Player.keptIn_complete (p : Player) : p.KeptIn p.complete.toDraft where
  sprite := kept_getD _ _
  speed := kept_getD _ _
  jumpForce := kept_getD _ _
  lives := kept_getD _ _
  controls := kept_getD _ _
  animations := keptClips_complete _

theorem Enemy.keptIn_complete (e : Enemy) : e.KeptIn e.complete.toDraft where
  name := rfl
  sprite := kept_getD _ _
  movement := kept_complete Movement.keptIn_complete _ _
  damage := kept_getD _ _
  stompable := kept_getD _ _
  animations := keptClips_complete _

theorem Collectible.keptIn_complete (c : Collectible) : c.KeptIn c.complete.toDraft where
  name := rfl
  sprite := kept_getD _ _
  score := kept_getD _ _
  effect := kept_getD _ _
  animations := keptClips_complete _

theorem HudElement.keptIn_complete (e : HudElement) : e.KeptIn e.complete.toDraft where
  kind := rfl
  position := kept_getD _ _
  fontSize := rfl
  color := rfl
  max := rfl

theorem Rules.keptIn_complete (r : Rules) : r.KeptIn r.complete.toDraft where
  win := kept_getD _ _
  lose := kept_getD _ _
  nextLevel := rfl

theorem keptIn_complete (d : Draft) : d.KeptIn d.complete.toDraft where
  title := kept_getD _ _
  config := kept_complete Config.keptIn_complete _ _
  assets := rfl
  player := kept_complete Player.keptIn_complete _ _
  enemies := by
    change List.Forall₂ _ _ ((d.enemies.map Enemy.complete).map PlatformGame.Enemy.toDraft)
    rw [List.map_map]
    exact forall₂_map Enemy.keptIn_complete d.enemies
  collectibles := by
    change List.Forall₂ _ _
      ((d.collectibles.map Collectible.complete).map PlatformGame.Collectible.toDraft)
    rw [List.map_map]
    exact forall₂_map Collectible.keptIn_complete d.collectibles
  levels := rfl
  hud := by
    change Kept _ d.hud ((d.hud.map _).map _) ∧ (d.hud = none → (d.hud.map _).map _ = none)
    cases d.hud with
    | none => exact ⟨.none, fun _ => rfl⟩
    | some elements =>
      refine ⟨.some ?_, fun h => absurd h (Option.some_ne_none _)⟩
      change List.Forall₂ _ elements ((elements.map _).map _)
      rw [List.map_map]
      exact forall₂_map HudElement.keptIn_complete elements
  rules := kept_complete Rules.keptIn_complete _ _
  sounds := rfl

end Draft

/-! ## Complete games -/

theorem fullClips_toDraft (cs : List Clip) : Draft.FullClips (some (cs.map Clip.toDraft)) := by
  refine ⟨_, rfl, ?_⟩
  intro c hc
  obtain ⟨c', _, rfl⟩ := List.mem_map.1 hc
  exact ⟨rfl, rfl⟩

theorem Movement.full_toDraft (m : Movement) : m.toDraft.Full := by
  cases m with
  | patrol s d => exact ⟨rfl, rfl⟩
  | chase s r => exact ⟨rfl, rfl⟩
  | fly s a f => exact ⟨rfl, rfl, rfl⟩
  | static => exact trivial

theorem Enemy.full_toDraft (e : Enemy) : e.toDraft.Full :=
  ⟨rfl, ⟨_, rfl, e.movement.full_toDraft⟩, rfl, rfl, fullClips_toDraft e.animations⟩

theorem Collectible.full_toDraft (c : Collectible) : c.toDraft.Full :=
  ⟨rfl, rfl, rfl, fullClips_toDraft c.animations⟩

theorem Game.full_toDraft (g : Game) : g.toDraft.Full where
  title := rfl
  config := ⟨_, rfl, ⟨rfl, rfl, rfl, rfl⟩⟩
  player := ⟨_, rfl, ⟨rfl, rfl, rfl, rfl, rfl, fullClips_toDraft g.player.animations⟩⟩
  enemies := by
    intro e he
    obtain ⟨e', _, rfl⟩ := List.mem_map.1 he
    exact e'.full_toDraft
  collectibles := by
    intro c hc
    obtain ⟨c', _, rfl⟩ := List.mem_map.1 hc
    exact c'.full_toDraft
  hud := by
    intro elements helements e he
    obtain ⟨es, _, rfl⟩ := Option.map_eq_some_iff.1 helements
    obtain ⟨e', _, rfl⟩ := List.mem_map.1 he
    rfl
  rules := ⟨_, rfl, ⟨rfl, rfl⟩⟩

theorem completeClips_toDraft (cs : List Clip) :
    Draft.completeClips (some (cs.map Clip.toDraft)) = cs := by
  rw [Draft.completeClips, Option.getD_some, List.map_map]
  exact List.map_id cs

theorem Movement.complete_toDraft (m : Movement) : m.toDraft.complete = m := by
  cases m <;> rfl

theorem Player.complete_toDraft (p : Player) : p.toDraft.complete = p := by
  rw [toDraft, Draft.Player.complete, completeClips_toDraft]
  rfl

theorem Enemy.complete_toDraft (e : Enemy) : e.toDraft.complete = e := by
  have hmovement : e.toDraft.complete.movement = e.movement := e.movement.complete_toDraft
  have hanimations : e.toDraft.complete.animations = e.animations :=
    completeClips_toDraft e.animations
  calc e.toDraft.complete
    _ = { e with
          movement := e.toDraft.complete.movement
          animations := e.toDraft.complete.animations } := rfl
    _ = e := by rw [hmovement, hanimations]

theorem Collectible.complete_toDraft (c : Collectible) : c.toDraft.complete = c := by
  rw [toDraft, Draft.Collectible.complete, completeClips_toDraft]
  rfl

theorem Game.complete_toDraft (g : Game) : g.toDraft.complete = g := by
  have hplayer : g.toDraft.complete.player = g.player := g.player.complete_toDraft
  have henemies : g.toDraft.complete.enemies = g.enemies := by
    change (g.enemies.map Enemy.toDraft).map Draft.Enemy.complete = g.enemies
    rw [List.map_map]
    exact List.map_id'' Enemy.complete_toDraft g.enemies
  have hcollectibles : g.toDraft.complete.collectibles = g.collectibles := by
    change (g.collectibles.map Collectible.toDraft).map Draft.Collectible.complete = g.collectibles
    rw [List.map_map]
    exact List.map_id'' Collectible.complete_toDraft g.collectibles
  have hhud : g.toDraft.complete.hud = g.hud := by
    change (g.hud.map _).map _ = g.hud
    cases g.hud with
    | none => rfl
    | some elements =>
      rw [Option.map_some, Option.map_some, List.map_map]
      exact congrArg some (List.map_id elements)
  calc g.toDraft.complete
    _ = { g with
          player := g.toDraft.complete.player
          enemies := g.toDraft.complete.enemies
          collectibles := g.toDraft.complete.collectibles
          hud := g.toDraft.complete.hud } := rfl
    _ = g := by rw [hplayer, henemies, hcollectibles, hhud]

/-! ## Full drafts -/

namespace Draft

theorem some_getD {a : Option α} (h : a.isSome) (x : α) : some (a.getD x) = a := by
  obtain ⟨y, rfl⟩ := Option.isSome_iff_exists.1 h
  rfl

theorem map_eq_self {f : α → α} {xs : List α} (h : ∀ x ∈ xs, f x = x) : xs.map f = xs :=
  (List.map_congr_left h).trans (List.map_id xs)

theorem toDraft_completeClips {cs : Option (List Clip)} (h : FullClips cs) :
    some ((completeClips cs).map PlatformGame.Clip.toDraft) = cs := by
  obtain ⟨xs, rfl, hxs⟩ := h
  rw [completeClips, Option.getD_some, List.map_map, map_eq_self]
  intro c hc
  change Clip.mk c.name c.frames (some (c.fps.getD _)) (some (c.loop.getD _)) = c
  rw [some_getD (hxs c hc).fps, some_getD (hxs c hc).loop]

theorem Movement.Full.toDraft_complete {m : Movement} (h : m.Full) : m.complete.toDraft = m := by
  cases m with
  | patrol s d => exact congrArg₂ _ (some_getD h.1 _) (some_getD h.2 _)
  | chase s r => exact congrArg₂ _ (some_getD h.1 _) (some_getD h.2 _)
  | fly s a f =>
    change Movement.fly (some (s.getD _)) (some (a.getD _)) (some (f.getD _)) = _
    rw [some_getD h.1, some_getD h.2.1, some_getD h.2.2]
  | static => rfl

theorem Config.Full.toDraft_complete {c : Config} (h : c.Full) : c.complete.toDraft = c := by
  change Config.mk (some (c.width.getD _)) (some (c.height.getD _)) (some (c.gravity.getD _))
    (some (c.background.getD _)) = c
  rw [some_getD h.width, some_getD h.height, some_getD h.gravity, some_getD h.background]

theorem Player.Full.toDraft_complete {p : Player} (h : p.Full) : p.complete.toDraft = p := by
  change Player.mk (some (p.sprite.getD _)) (some (p.speed.getD _)) (some (p.jumpForce.getD _))
    (some (p.lives.getD _)) (some (p.controls.getD _))
    (some ((completeClips p.animations).map PlatformGame.Clip.toDraft)) = p
  rw [some_getD h.sprite, some_getD h.speed, some_getD h.jumpForce, some_getD h.lives,
    some_getD h.controls, toDraft_completeClips h.animations]

theorem Enemy.Full.toDraft_complete {e : Enemy} (h : e.Full) : e.complete.toDraft = e := by
  obtain ⟨m, hm, hfull⟩ := h.movement
  have hmovement : some (e.movement.getD .static).complete.toDraft = e.movement := by
    rw [hm, Option.getD_some, hfull.toDraft_complete]
  change Enemy.mk e.name (some (e.sprite.getD _)) (some (e.movement.getD .static).complete.toDraft)
    (some (e.damage.getD _)) (some (e.stompable.getD _))
    (some ((completeClips e.animations).map PlatformGame.Clip.toDraft)) = e
  rw [some_getD h.sprite, hmovement, some_getD h.damage, some_getD h.stompable,
    toDraft_completeClips h.animations]

theorem Collectible.Full.toDraft_complete {c : Collectible} (h : c.Full) :
    c.complete.toDraft = c := by
  change Collectible.mk c.name (some (c.sprite.getD _)) (some (c.score.getD _))
    (some (c.effect.getD _)) (some ((completeClips c.animations).map PlatformGame.Clip.toDraft)) = c
  rw [some_getD h.sprite, some_getD h.score, some_getD h.effect,
    toDraft_completeClips h.animations]

theorem HudElement.toDraft_complete {e : HudElement} (h : e.position.isSome) :
    e.complete.toDraft = e := by
  change HudElement.mk e.kind (some (e.position.getD _)) e.fontSize e.color e.max = e
  rw [some_getD h]

theorem Rules.Full.toDraft_complete {r : Rules} (h : r.Full) : r.complete.toDraft = r := by
  change Rules.mk (some (r.win.getD _)) (some (r.lose.getD _)) r.nextLevel = r
  rw [some_getD h.win, some_getD h.lose]

/-- A full part that is completed as a whole. -/
theorem some_complete {P : α → Prop} {f : α → α} {a : Option α} (hf : ∀ x, P x → f x = x)
    (h : ∃ x, a = some x ∧ P x) (x : α) : some (f (a.getD x)) = a := by
  obtain ⟨y, rfl, hy⟩ := h
  exact congrArg some (hf y hy)

theorem Full.toDraft_complete {d : Draft} (h : d.Full) : d.complete.toDraft = d := by
  have henemies : d.complete.toDraft.enemies = d.enemies := by
    change (d.enemies.map _).map _ = _
    rw [List.map_map]
    exact map_eq_self fun e he => (h.enemies e he).toDraft_complete
  have hcollectibles : d.complete.toDraft.collectibles = d.collectibles := by
    change (d.collectibles.map _).map _ = _
    rw [List.map_map]
    exact map_eq_self fun c hc => (h.collectibles c hc).toDraft_complete
  have hhud : d.complete.toDraft.hud = d.hud := by
    change (d.hud.map _).map _ = _
    cases hd : d.hud with
    | none => rfl
    | some elements =>
      change some ((elements.map _).map _) = _
      rw [List.map_map, map_eq_self]
      intro e he
      exact HudElement.toDraft_complete (h.hud elements hd e he)
  calc d.complete.toDraft
    _ = { d with
          title := some (d.title.getD _)
          config := some (d.config.getD {}).complete.toDraft
          player := some (d.player.getD {}).complete.toDraft
          enemies := d.complete.toDraft.enemies
          collectibles := d.complete.toDraft.collectibles
          hud := d.complete.toDraft.hud
          rules := some (d.rules.getD {}).complete.toDraft } := rfl
    _ = d := by
      rw [some_getD h.title, some_complete (fun _ hc => hc.toDraft_complete) h.config,
        some_complete (fun _ hp => hp.toDraft_complete) h.player, henemies, hcollectibles, hhud,
        some_complete (fun _ hr => hr.toDraft_complete) h.rules]

/-- Completing a draft fills in exactly what is missing: the result is full and keeps the
draft, nothing changes if nothing is missing, and completing again changes nothing. -/
theorem full_and_keptIn_complete (d : Draft) :
    d.complete.toDraft.Full ∧ d.KeptIn d.complete.toDraft ∧
    (d.complete.toDraft = d ↔ d.Full) ∧
    d.complete.toDraft.complete.toDraft = d.complete.toDraft := by
  refine ⟨d.complete.full_toDraft, d.keptIn_complete, ⟨?_, Full.toDraft_complete⟩, ?_⟩
  · intro h
    rw [← h]
    exact d.complete.full_toDraft
  · rw [Game.complete_toDraft]

/-- Zero, `false` and empty values are set like any other. -/
example : (Draft.complete
      { title := some "", config := some { width := some (.int 0) },
        enemies := [{ name := "e", damage := some (.int 0), stompable := some false }] }).toDraft =
    { (Draft.complete {}).toDraft with
      title := some ""
      config := some ⟨some (.int 0), some (.int 600), some (.int 500), some "#87CEEB"⟩
      enemies := [⟨"e", some "enemy", some .static, some (.int 0), some false, some []⟩] } := rfl

end Draft

end PlatformGame
