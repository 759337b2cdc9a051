import PlatformGame.Proofs.Number.Rounding
import PlatformGame.Proofs.Program.Markup

/-! # What is in a game that is read

The numbers of a game that is read are in range, and its names and colours have none of the
characters of tags (`proper_of_readGame`). Completing a draft keeps that, since all defaults are
like this as well. Only the paths of assets and the names that layers have in a tilemap are texts of
any kind. -/

namespace PlatformGame

open Text

/-! ## Proper games -/

structure Clip.Proper (c : Clip) : Prop where
  name : Plain c.name.toList
  frames : ∀ n ∈ c.frames, n.Bounded
  fps : c.fps.Bounded

def Movement.numbers : Movement → List Number
  | patrol speed distance => [speed, distance]
  | chase speed range => [speed, range]
  | fly speed amplitude frequency => [speed, amplitude, frequency]
  | static => []

structure Player.Proper (p : Player) : Prop where
  sprite : Plain p.sprite.toList
  speed : p.speed.Bounded
  jumpForce : p.jumpForce.Bounded
  lives : p.lives.Bounded
  animations : ∀ c ∈ p.animations, c.Proper

structure Enemy.Proper (e : Enemy) : Prop where
  name : Plain e.name.toList
  sprite : Plain e.sprite.toList
  movement : ∀ n ∈ e.movement.numbers, n.Bounded
  damage : e.damage.Bounded
  animations : ∀ c ∈ e.animations, c.Proper

structure Collectible.Proper (c : Collectible) : Prop where
  name : Plain c.name.toList
  sprite : Plain c.sprite.toList
  score : c.score.Bounded
  animations : ∀ a ∈ c.animations, a.Proper

structure HudElement.Proper (e : HudElement) : Prop where
  fontSize : ∀ n ∈ e.fontSize, n.Bounded
  color : ∀ s ∈ e.color, Plain s.toList
  max : ∀ n ∈ e.max, n.Bounded

structure Config.Proper (c : Config) : Prop where
  width : c.width.Bounded
  height : c.height.Bounded
  gravity : c.gravity.Bounded
  background : Plain c.background.toList

/-- A game with numbers in range and plain names and colours. -/
structure Game.Proper (g : Game) : Prop where
  config : g.config.Proper
  assets : ∀ a ∈ g.assets, a.Written Number.Bounded
  player : g.player.Proper
  enemies : ∀ e ∈ g.enemies, e.Proper
  collectibles : ∀ c ∈ g.collectibles, c.Proper
  levels : ∀ l ∈ g.levels, l.Written Number.Bounded
  hud : ∀ es ∈ g.hud, ∀ e ∈ es, e.Proper
  win : g.rules.win.Written Number.Bounded
  sounds : ∀ s ∈ g.sounds, s.Written

/-! ## Defaults -/

theorem forall_getD {o : Option α} {d : α} {P : α → Prop} (h : ∀ x ∈ o, P x) (hd : P d) :
    P (o.getD d) := by
  cases o with
  | none => exact hd
  | some x => exact h x rfl

theorem Number.bounded_int {n : Int} (h : n.natAbs < 10 ^ 3) : (Number.int n).Bounded := by
  have hlimit : 3 ≤ digitLimit := by decide
  exact h.trans_le (Nat.pow_le_pow_right (by decide) hlimit)

theorem plain_of_isColor {cs : List Char} (h : Source.IsColor cs) : Plain cs := by
  obtain ⟨ds, rfl, -, hds⟩ := h
  exact List.forall_mem_cons.2 ⟨by decide, Plain.of_forall rfl rfl hds⟩

theorem Defaults.proper_config : Defaults.config.Proper where
  width := Number.bounded_int (by decide)
  height := Number.bounded_int (by decide)
  gravity := Number.bounded_int (by decide)
  background := by decide

theorem Defaults.proper_player : Defaults.player.Proper where
  sprite := by decide
  speed := Number.bounded_int (by decide)
  jumpForce := Number.bounded_int (by decide)
  lives := Number.bounded_int (by decide)
  animations := List.forall_mem_nil _

namespace Draft

theorem Clip.Written.proper {c : Clip} (h : c.Written Number.Bounded) : c.complete.Proper where
  name := h.name.plain
  frames := h.frames
  fps := forall_getD h.fps (Number.bounded_int (by decide))

theorem WrittenClips.proper {cs : Option (List Clip)} (h : WrittenClips Number.Bounded cs) :
    ∀ c ∈ completeClips cs, c.Proper := by
  refine List.forall_mem_map.2 fun c hc => ?_
  cases cs with
  | none => cases hc
  | some cs => exact ((h cs rfl).2 c hc).proper

theorem Movement.Written.bounded {m : Movement} (h : m.Written Number.Bounded quiet) :
    ∀ n ∈ m.complete.numbers, n.Bounded := by
  have hparams : ∀ o ∈ m.params, ∀ k : Int, k.natAbs < 10 ^ 3 → (o.getD (.int k)).Bounded :=
    fun o ho _ hk => forall_getD (h.params o ho) (Number.bounded_int hk)
  cases m with
  | patrol | chase | fly =>
    simp only [Movement.params, List.forall_mem_cons] at hparams
    simp [Movement.complete, Movement.numbers, hparams]
  | static => exact List.forall_mem_nil _

theorem Config.Written.proper {c : Config} (h : c.Written Number.Bounded) : c.complete.Proper where
  width := forall_getD h.width Defaults.proper_config.width
  height := forall_getD h.height Defaults.proper_config.height
  gravity := forall_getD h.gravity Defaults.proper_config.gravity
  background := forall_getD (fun s hs => plain_of_isColor (h.background s hs))
    Defaults.proper_config.background

theorem Player.Written.proper {p : Player} (h : p.Written Number.Bounded) : p.complete.Proper where
  sprite := forall_getD (fun s hs => (h.sprite s hs).plain) Defaults.proper_player.sprite
  speed := forall_getD h.speed Defaults.proper_player.speed
  jumpForce := forall_getD h.jumpForce Defaults.proper_player.jumpForce
  lives := forall_getD h.lives Defaults.proper_player.lives
  animations := h.animations.proper

theorem Enemy.Written.proper {e : Enemy} (h : e.Written Number.Bounded quiet) :
    e.complete.Proper where
  name := h.name.plain
  sprite := forall_getD (fun s hs => (h.sprite s hs).plain) (by decide)
  movement := by
    change ∀ n ∈ (e.movement.getD .static).complete.numbers, n.Bounded
    cases hm : e.movement with
    | none => exact List.forall_mem_nil _
    | some m => exact (h.movement m hm).bounded
  damage := forall_getD h.damage (Number.bounded_int (by decide))
  animations := h.animations.proper

theorem Collectible.Written.proper {c : Collectible} (h : c.Written Number.Bounded) :
    c.complete.Proper where
  name := h.name.plain
  sprite := forall_getD (fun s hs => (h.sprite s hs).plain) (by decide)
  score := forall_getD h.score (Number.bounded_int (by decide))
  animations := h.animations.proper

theorem HudElement.Written.proper {e : HudElement} (h : e.Written Number.Bounded) :
    e.complete.Proper where
  fontSize := h.fontSize
  color s hs := plain_of_isColor (h.color s hs)
  max := h.max

end Draft

theorem Draft.Written.proper {d : Draft} (h : d.Written Number.Bounded quiet) :
    d.complete.Proper where
  config := by
    change (d.config.getD {}).complete.Proper
    cases hc : d.config with
    | none => exact Defaults.proper_config
    | some c => exact (h.config c hc).proper
  assets := h.assets
  player := by
    change (d.player.getD {}).complete.Proper
    cases hp : d.player with
    | none => exact Defaults.proper_player
    | some p => exact (h.player p hp).proper
  enemies := List.forall_mem_map.2 fun e he => (h.enemies e he).proper
  collectibles := List.forall_mem_map.2 fun c hc => (h.collectibles c hc).proper
  levels := h.levels
  hud es hes := by
    obtain ⟨es', hes', rfl⟩ := Option.map_eq_some_iff.1 hes
    exact List.forall_mem_map.2 fun e he => (h.hud es' hes' e he).proper
  win := by
    change ((d.rules.getD {}).win.getD .reachExit).Written Number.Bounded
    cases hr : d.rules with
    | none => trivial
    | some r => exact forall_getD (h.rules r hr).win trivial
  sounds := h.sounds

theorem proper_of_readGame {source : String} {g : Game}
    (h : (readGame source).outcome = .ok g) : g.Proper := by
  rw [readGame, Reading.map] at h
  obtain ⟨d, hd, rfl⟩ := map_eq_ok.1 h
  exact (Draft.written_of_outcome Number.bounded_of_ofLiteral hd).proper

end PlatformGame
