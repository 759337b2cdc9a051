import PlatformGame.Proofs.Draft.Things

/-! # Games that texts describe

A text of the language whose number literals can be read means the sketch of a draft
(`means_start`). The blocks of a game are kept in order (`addBlocks_outcome`), and nothing is warned
about as long as each block of which only the last counts stands there once (`addBlocks_eq`). -/

namespace PlatformGame.Draft

open Grammar Parse Source

variable {parts : List Sketch}

/-! ## Blocks -/

/-- The kinds and values of the blocks among some parts. -/
def blocksOf (parts : List Sketch) : List (BlockKind × Sketch) :=
  parts.filterMap fun
    | .block kind value _ => some (kind, value)
    | _ => none

def IsBlock (x : Sketch) : Prop := ∃ kind value place, x = .block kind value place

namespace Node

theorem addBlock_outcome (blocks : List (BlockKind × Sketch)) (kind : BlockKind) (value : Sketch)
    (place : Option Position) :
    (addBlock blocks (.block kind value place)).outcome = .ok (blocks ++ [(kind, value)]) := by
  simp only [addBlock]
  split <;> rfl

/-- All blocks are kept, whether or not they count. -/
theorem addBlocks_outcome (h : ∀ x ∈ parts, IsBlock x) (blocks : List (BlockKind × Sketch)) :
    (addBlocks blocks parts).outcome = .ok (blocks ++ blocksOf parts) := by
  induction parts generalizing blocks with
  | nil =>
    rw [blocksOf, List.filterMap_nil, List.append_nil]
    rfl
  | cons x parts ih =>
    rw [List.forall_mem_cons] at h
    obtain ⟨kind, value, place, rfl⟩ := h.1
    rw [addBlocks, Build.outcome_bind (addBlock_outcome blocks kind value place), ih h.2]
    simp [blocksOf]

/-- The kinds of the blocks of which only the last counts. -/
def singles (blocks : List (BlockKind × Sketch)) : List BlockKind :=
  (blocks.map (·.1)).filter isSingle

theorem addBlock_eq {blocks : List (BlockKind × Sketch)} {kind : BlockKind}
    (h : isSingle kind = true → kind ∉ singles blocks) (value : Sketch) (place : Option Position) :
    addBlock blocks (.block kind value place) = pure (blocks ++ [(kind, value)]) := by
  have hnew : (isSingle kind && blocks.any (·.1 == kind)) = false := by
    cases hs : isSingle kind with
    | false => rfl
    | true =>
      have hkind := h hs
      simp only [singles, List.mem_filter, List.mem_map, hs, and_true, not_exists, not_and]
        at hkind
      simpa using fun a v hmem heq => hkind (a, v) hmem heq
  simp only [addBlock, hnew]
  rfl

/-- There are no warnings if every block counts. -/
theorem addBlocks_eq (h : ∀ x ∈ parts, IsBlock x) {blocks : List (BlockKind × Sketch)}
    (hnodup : (singles (blocks ++ blocksOf parts)).Nodup) :
    addBlocks blocks parts = pure (blocks ++ blocksOf parts) := by
  induction parts generalizing blocks with
  | nil =>
    rw [blocksOf, List.filterMap_nil, List.append_nil]
    rfl
  | cons x parts ih =>
    rw [List.forall_mem_cons] at h
    obtain ⟨kind, value, place, rfl⟩ := h.1
    have hcons : blocks ++ blocksOf (.block kind value place :: parts) =
        (blocks ++ [(kind, value)]) ++ blocksOf parts := by simp [blocksOf]
    have hnew : isSingle kind = true → kind ∉ singles blocks := by
      intro hs hmem
      rw [hcons] at hnodup
      simp only [singles, List.map_append, List.filter_append, List.nodup_append, List.map_cons,
        List.map_nil, List.filter_cons, hs, if_true] at hnodup
      exact hnodup.1.2.2 kind hmem kind List.mem_cons_self rfl
    rw [hcons] at hnodup ⊢
    rw [addBlocks, addBlock_eq hnew, pure_bind, ih h.2 hnodup]

end Node

/-! ## Games -/

variable {Num : Number → Prop} {quiet : Prop}

/-- The sorts of the values of blocks. -/
def blockSort (Num : Number → Prop) (quiet : Prop) : BlockKind → Sketch → Prop
  | .config => Of Config.toSketch (Config.Written Num)
  | .assets => Of (.ofItems Asset.toSketch) fun as => ∀ a ∈ as, a.Written Num
  | .player => Of Player.toSketch (Player.Written Num)
  | .enemy => Of Enemy.toSketch (Enemy.Written Num quiet)
  | .collectible => Of Collectible.toSketch (Collectible.Written Num)
  | .level => Of Level.toSketch (Level.Written Num)
  | .hud => Of hudSketch fun es => ∀ e ∈ es, e.Written Num
  | .rules => Of Rules.toSketch (Rules.Written Num)
  | .sounds => Of Sounds.toSketch Sounds.Written

/-- A block whose value is of the sort of its kind. -/
def SortedBlock (Num : Number → Prop) (quiet : Prop) (x : Sketch) : Prop :=
  ∃ kind, BlockOf kind (blockSort Num quiet kind) x

theorem means_gameBlock : Means Num quiet gameBlock (One (SortedBlock Num quiet)) := by
  have block {p : Phrase} (kind : BlockKind)
      (h : Means Num quiet p (One (BlockOf kind (blockSort Num quiet kind)))) :
      Means Num quiet p (One (SortedBlock Num quiet)) := by
    refine h.mono fun xs hxs => ?_
    obtain ⟨x, rfl, hx⟩ := hxs.exists_eq
    exact one_singleton.2 ⟨kind, hx⟩
  exact .alt (block .config means_configBlock) (.alt (block .assets means_assetsBlock)
    (.alt (block .player means_playerBlock) (.alt (block .enemy means_enemyBlock)
      (.alt (block .collectible means_collectibleBlock) (.alt (block .level means_levelBlock)
        (.alt (block .hud means_hudBlock) (.alt (block .rules means_rulesBlock)
          (block .sounds means_soundsBlock))))))))

theorem SortedBlock.isBlock {x : Sketch} (h : SortedBlock Num quiet x) : IsBlock x := by
  obtain ⟨kind, value, place, rfl, -⟩ := h
  exact ⟨kind, value, place, rfl⟩

theorem of_mem_ofKind (hparts : Each (SortedBlock Num quiet) parts) {kind : BlockKind} {v : Sketch}
    (hv : v ∈ Node.ofKind kind (blocksOf parts)) : blockSort Num quiet kind v := by
  simp only [Node.ofKind, blocksOf, List.mem_map, List.mem_filter, List.mem_filterMap] at hv
  obtain ⟨b, ⟨⟨x, hx, hxb⟩, hkind⟩, rfl⟩ := hv
  obtain ⟨k, w, place, rfl, hsort⟩ := hparts x hx
  cases hxb
  rw [← beq_iff_eq.1 hkind]
  exact hsort

theorem exists_lastOfKind (hparts : Each (SortedBlock Num quiet) parts) (kind : BlockKind)
    {enc : α → Sketch} {P : α → Prop} (hsort : blockSort Num quiet kind = Of enc P) :
    ∃ o : Option α, Node.lastOfKind kind (blocksOf parts) = .ofOption enc o ∧ ∀ a ∈ o, P a := by
  have hlast : ∀ v ∈ (Node.ofKind kind (blocksOf parts)).getLast?, Of enc P v := fun v hv =>
    hsort ▸ of_mem_ofKind hparts (List.mem_of_getLast? hv)
  obtain ⟨o, ho, hP⟩ := exists_option_of_forall hlast
  exact ⟨o, by rw [Node.lastOfKind, ho]; rfl, hP⟩

theorem exists_ofKind (hparts : Each (SortedBlock Num quiet) parts) (kind : BlockKind)
    {enc : α → Sketch} {P : α → Prop} (hsort : blockSort Num quiet kind = Of enc P) :
    ∃ as : List α, Node.ofKind kind (blocksOf parts) = as.map enc ∧ ∀ a ∈ as, P a :=
  exists_list_of_forall fun _ hv => hsort ▸ of_mem_ofKind hparts hv

theorem exists_draft (title : String) (hparts : Each (SortedBlock Num quiet) parts) :
    Of Draft.toSketch (Draft.Written Num quiet)
      (Node.gameOf (.text title) (blocksOf parts)) := by
  obtain ⟨config, h₁, hconfig⟩ := exists_lastOfKind hparts .config rfl
  obtain ⟨assets, h₂, hassets⟩ := exists_ofKind hparts .assets rfl
  obtain ⟨player, h₃, hplayer⟩ := exists_lastOfKind hparts .player rfl
  obtain ⟨enemies, h₄, henemies⟩ := exists_ofKind hparts .enemy rfl
  obtain ⟨collectibles, h₅, hcollectibles⟩ := exists_ofKind hparts .collectible rfl
  obtain ⟨levels, h₆, hlevels⟩ := exists_ofKind hparts .level rfl
  obtain ⟨hud, h₇, hhud⟩ := exists_lastOfKind hparts .hud rfl
  obtain ⟨rules, h₈, hrules⟩ := exists_lastOfKind hparts .rules rfl
  obtain ⟨sounds, h₉, hsounds⟩ := exists_lastOfKind hparts .sounds rfl
  refine ⟨⟨some title, config, assets.flatten, player, enemies, collectibles, levels, hud, rules,
    sounds⟩, ?_, rfl, hconfig, ?_, hplayer, henemies, hcollectibles, hlevels, hhud, hrules,
    hsounds⟩
  · have hflat : (assets.map (Sketch.ofItems Asset.toSketch)).flatMap (fun x => x.items?.getD []) =
        assets.flatten.map Asset.toSketch := by
      rw [List.flatMap_map, List.map_flatten]
      rfl
    rw [Node.gameOf, h₁, h₂, h₃, h₄, h₅, h₆, h₇, h₈, h₉, hflat]
    rfl
  · intro a ha
    obtain ⟨as, has, hmem⟩ := List.mem_flatten.1 ha
    exact hassets as has a hmem

theorem means_game :
    Means Num quiet game (One (Of Draft.toSketch (Draft.Written Num quiet))) := by
  refine (Means.skip (means_string.cons means_gameBlock.many.braces.last)).node
    fun place parts hparts => ?_
  obtain ⟨_, blocks, rfl, ⟨title, rfl, -⟩, hblocks⟩ := hparts.exists_eq
  intro _
  have hout := Node.addBlocks_outcome (fun x hx => (hblocks x hx).isBlock) []
  refine ⟨_, ?_, exists_draft title hblocks⟩
  exact (Build.outcome_bind hout _).trans rfl

theorem means_start :
    Means Num quiet start (One (Of Draft.toSketch (Draft.Written Num quiet))) := by
  refine means_game.node fun place parts hparts => ?_
  obtain ⟨x, rfl, hx⟩ := hparts.exists_eq
  exact .pure hx

end PlatformGame.Draft
