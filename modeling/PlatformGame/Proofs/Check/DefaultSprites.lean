import PlatformGame.Proofs.Check.Violations
import PlatformGame.Proofs.Draft.Warnings

/-! # Names and default sprites

Every name in a text that is read as a game has the form of a name and is no reserved word, whether
or not it is still there in the game that is built. The player's and the enemies' default sprites
are reserved words, so no asset can be declared under them: where a game has assets, a player or an
enemy for which the text sets no sprite is always reported. -/

namespace PlatformGame

open Grammar Parse Source

variable {b : Body} {l : Label} {kind : BlockKind} {value : Sketch} {parts : List Sketch}

/-! ## The names in a draft -/

/-- The names that say how a thing looks: its sprite and its clips. -/
def Draft.looks (sprite : Option String) (clips : Option (List Draft.Clip)) : List String :=
  sprite.toList ++ (clips.getD []).map (·.name)

/-- The names in a level: its tilemap, its layers, and what its placements and platforms refer
to. -/
def Level.names (l : Level) : List String :=
  l.tilemap.toList ++ (l.layers.getD []).map (·.1) ++ (l.enemies ++ l.collectibles).map (·.entity)
    ++ l.platforms.map (·.asset)

def WinCondition.names : WinCondition → List String
  | collectAll entity => [entity]
  | _ => []

/-- All names in a draft, of what it declares and of what it refers to. -/
def Draft.names (d : Draft) : List String :=
  d.assets.map (·.key)
  ++ d.player.toList.flatMap (fun p => looks p.sprite p.animations)
  ++ d.enemies.flatMap (fun e => e.name :: looks e.sprite e.animations)
  ++ d.collectibles.flatMap (fun c => c.name :: looks c.sprite c.animations)
  ++ d.levels.flatMap Level.names
  ++ (d.rules.bind (·.win)).toList.flatMap WinCondition.names
  ++ d.sounds.toList.flatMap fun s => s.events.filterMap (·.2)

/-- The colours of the background and of the elements of the display. -/
def Draft.colors (d : Draft) : List String :=
  (d.config.bind (·.background)).toList ++ (d.hud.getD []).filterMap (·.color)

section Written

variable {Num : Number → Prop} {quiet : Prop}

theorem Draft.named_of_mem_looks {sprite : Option String} {clips : Option (List Draft.Clip)}
    (hsprite : ∀ s ∈ sprite, Named s) (hclips : Draft.WrittenClips Num clips) :
    ∀ s ∈ looks sprite clips, Named s := by
  intro s hs
  rcases List.mem_append.1 hs with hs | hs
  · exact hsprite s (Option.mem_toList.1 hs)
  · obtain ⟨c, hc, rfl⟩ := List.mem_map.1 hs
    cases clips with
    | none => cases hc
    | some cs => exact ((hclips cs rfl).2 c hc).name

theorem Level.Written.named {l : Level} (h : l.Written Num) : ∀ s ∈ l.names, Named s := by
  intro s hs
  simp only [Level.names, List.mem_append, List.mem_map, Option.mem_toList] at hs
  rcases hs with ((htilemap | ⟨layer, hlayer, rfl⟩) | ⟨p, hp | hp, rfl⟩) | ⟨p, hp, rfl⟩
  · exact h.tilemap s htilemap
  · cases hlayers : l.layers with
    | none => simp [hlayers] at hlayer
    | some ls =>
      rw [hlayers, Option.getD_some] at hlayer
      exact (h.layers ls hlayers).named layer hlayer
  · exact (h.enemies p hp).entity
  · exact (h.collectibles p hp).entity
  · exact (h.platforms p hp).asset

theorem WinCondition.Written.named {w : WinCondition} (h : w.Written Num) :
    ∀ s ∈ w.names, Named s := by
  cases w with
  | collectAll entity => exact List.forall_mem_singleton.2 h
  | reachExit | defeatAll | survive => exact List.forall_mem_nil _

theorem Draft.Written.named {d : Draft} (h : d.Written Num quiet) : ∀ s ∈ d.names, Named s := by
  simp only [Draft.names, List.forall_mem_append, List.forall_mem_map, List.forall_mem_flatMap,
    List.forall_mem_cons, Option.mem_toList]
  refine ⟨⟨⟨⟨⟨⟨?assets, ?player⟩, ?enemies⟩, ?collectibles⟩, ?levels⟩, ?win⟩, ?sounds⟩
  case assets => exact fun a ha => (h.assets a ha).key
  case player =>
    exact fun p hp => named_of_mem_looks (h.player p hp).sprite (h.player p hp).animations
  case enemies =>
    intro e he
    have hwritten := h.enemies e he
    exact ⟨hwritten.name, named_of_mem_looks hwritten.sprite hwritten.animations⟩
  case collectibles =>
    intro c hc
    have hwritten := h.collectibles c hc
    exact ⟨hwritten.name, named_of_mem_looks hwritten.sprite hwritten.animations⟩
  case levels => exact fun l hl => (h.levels l hl).named
  case win =>
    intro w hw
    obtain ⟨r, hr, hw⟩ := Option.bind_eq_some_iff.1 hw
    exact ((h.rules r hr).win w hw).named
  case sounds =>
    intro s hs key hkey
    obtain ⟨p, hp, hkey⟩ := List.mem_filterMap.1 hkey
    obtain ⟨event, -, rfl⟩ := List.mem_map.1 hp
    exact (h.sounds s hs).named event key hkey

theorem Draft.Written.isColor {d : Draft} (h : d.Written Num quiet) :
    ∀ s ∈ d.colors, IsColor s.toList := by
  intro s hs
  rcases List.mem_append.1 hs with hs | hs
  · obtain ⟨c, hc, hs⟩ := Option.bind_eq_some_iff.1 (Option.mem_toList.1 hs)
    exact (h.config c hc).background s hs
  · obtain ⟨e, he, hs⟩ := List.mem_filterMap.1 hs
    cases hhud : d.hud with
    | none => simp [hhud] at he
    | some es =>
      rw [hhud, Option.getD_some] at he
      exact (h.hud es hhud e he).color s hs

end Written

/-! ## The blocks of a text -/

namespace Draft

/-- The insides of the blocks of a kind. -/
def bodiesOf (kind : BlockKind) (blocks : List Tree) : List (List Tree) :=
  blocks.filterMap fun
    | .node l _ body => if blockKind? l = some kind then some body else none
    | .leaf _ _ _ => none

end Draft

/-- The insides of the blocks of a kind, in the tree of a whole text. -/
def Parse.Tree.bodies (kind : BlockKind) : Parse.Tree → List (List Parse.Tree)
  | .node .start _ [.node .game _ (_ :: blocks)] => Draft.bodiesOf kind blocks
  | _ => []

namespace Draft

/-- The value is what is made of a body with these trees. -/
def Body.Makes (b : Body) (body : List Tree) (value : Sketch) : Prop :=
  ∃ parts, b.Fit parts ∧ parts.map Sketch.key? = body.map Tree.key? ∧
    value = .record b.kind (b.kind.fields.map (b.field parts))

theorem blockKind?_injective {l' : Label} (h : blockKind? l = some kind)
    (h' : blockKind? l' = some kind) : l = l' := by
  cases kind <;> cases l <;> cases h <;> cases l' <;> cases h' <;> rfl

theorem eq_of_enclose_eq (hl : blockKind? l = some kind) (hb : body? l = some b)
    {place place' : Option Position} {x : Sketch}
    (h : b.enclose place x = .block kind value place') : value = x := by
  cases l <;> cases hb <;> cases hl <;> cases h <;> rfl

/-- What is built of a block is made of its body. -/
theorem makes_of_meaning (hl : blockKind? l = some kind) (hb : body? l = some b)
    {span : Option Span} {children : List Tree} (hg : Grown (.node l span children))
    {place : Option Position}
    (h : (meaning (.node l span children)).result? = some (.block kind value place)) :
    b.Makes children value := by
  rw [result?_meaning, Option.bind_eq_some_iff] at h
  obtain ⟨parts, hparts, h⟩ := h
  obtain ⟨hfit, hkeys⟩ := hg.fit hb (result?_eq_some.1 hparts)
  have hout := Node.outcome_of_fit (n := ⟨l, span.map (·.first), parts, .noPart⟩) hb hfit
  rw [result?_eq_some, hout] at h
  exact ⟨parts, hfit, hkeys, eq_of_enclose_eq hl hb (Except.ok.inj h)⟩

theorem makes_bodiesOf (hl : blockKind? l = some kind) (hb : body? l = some b) {blocks : List Tree}
    (hblocks : ∀ t ∈ blocks, IsBlockTree t ∧ Grown t) (h : (meanings blocks).result? = some parts) :
    List.Forall₂ b.Makes (bodiesOf kind blocks) (blocksOfKind kind parts) := by
  induction blocks generalizing parts with
  | nil =>
    cases h
    exact .nil
  | cons t blocks ih =>
    rw [List.forall_mem_cons] at hblocks
    rw [result?_meanings_cons, Option.bind_eq_some_iff] at h
    obtain ⟨x, hx, h⟩ := h
    obtain ⟨xs, hxs, rfl⟩ := Option.map_eq_some_iff.1 h
    obtain ⟨⟨⟨l', span, children, rfl, hl'⟩, hg⟩, hrest⟩ := hblocks
    obtain ⟨kind', hkind'⟩ := exists_blockKind hl'
    obtain ⟨value, place, rfl⟩ := exists_block_of_meaning hkind' hx
    by_cases hsame : kind' = kind
    · subst hsame
      obtain rfl := blockKind?_injective hkind' hl
      simp only [bodiesOf, blocksOfKind, List.filterMap_cons, hl, if_true]
      exact .cons (makes_of_meaning hl hb hg hx) (ih hrest hxs)
    · have hother : blockKind? l' ≠ some kind := by simpa [hkind'] using hsame
      simp only [bodiesOf, blocksOfKind, List.filterMap_cons, if_neg hother, if_neg hsame]
      exact ih hrest hxs

/-- A field that no property sets is unset. -/
theorem Body.field_of_notMem {key : String} (hnamed : b.named ≠ some key)
    (h : some key ∉ parts.map Sketch.key?) : b.field parts key = Node.unset b.kind key := by
  have hunder : under key parts = [] := by
    refine List.filter_eq_nil_iff.2 fun x hx hkey => h ?_
    exact List.mem_map.2 ⟨x, hx, by simpa using hkey⟩
  have hsettled : settled key parts = none := by
    rw [settled, hunder]
    split <;> rfl
  rw [field, if_neg hnamed, hsettled, Option.getD_none]

/-! ## Sprites that are not set -/

section

variable {values : List Sketch} {x : Sketch}

theorem sprite_of_asPlayer? {p : Player} (h : (Sketch.record .player values).asPlayer? = some p)
    (hx : values[0]? = some x) : x.asOption? Sketch.asText? = some p.sprite := by
  unfold Sketch.asPlayer? at h
  split at h
  · next heq =>
    cases heq
    cases hx
    simp only [Option.bind_eq_bind, Option.bind_eq_some_iff, Option.pure_def,
      Option.some.injEq] at h
    obtain ⟨sprite, hsprite, _, -, _, -, _, -, _, -, _, -, rfl⟩ := h
    exact hsprite
  · cases h

theorem sprite_of_asEnemy? {e : Enemy} (h : (Sketch.record .enemy values).asEnemy? = some e)
    (hx : values[1]? = some x) : x.asOption? Sketch.asText? = some e.sprite := by
  unfold Sketch.asEnemy? at h
  split at h
  · next heq =>
    cases heq
    cases hx
    simp only [Option.bind_eq_bind, Option.bind_eq_some_iff, Option.pure_def,
      Option.some.injEq] at h
    obtain ⟨_, -, sprite, hsprite, _, -, _, -, _, -, _, -, rfl⟩ := h
    exact hsprite
  · cases h

end

theorem Body.Makes.exists_unset {body : List Tree} (h : b.Makes body value) {key : String}
    (hnamed : b.named ≠ some key) (hkey : some key ∉ body.map Tree.key?) {i : Nat}
    (hi : b.kind.fields[i]? = some key) :
    ∃ values, value = .record b.kind values ∧ values[i]? = some (Node.unset b.kind key) := by
  obtain ⟨parts, -, hkeys, rfl⟩ := h
  refine ⟨_, rfl, ?_⟩
  rw [List.getElem?_map, hi, Option.map_some, Body.field_of_notMem hnamed (hkeys ▸ hkey)]

theorem enemy_sprite_eq_none (hb : body? .enemyBlock = some b) {body : List Tree}
    (hmakes : b.Makes body value) (h : some "sprite" ∉ body.map Tree.key?) {e : Enemy}
    (he : value.asEnemy? = some e) : e.sprite = none := by
  cases hb
  obtain ⟨values, rfl, hunset⟩ := hmakes.exists_unset (by decide) h (i := 1) rfl
  exact (Option.some.inj (sprite_of_asEnemy? he hunset)).symm

theorem exists_enemy_of_mem {bodies : List (List Tree)} {values : List Sketch}
    (hmakes : List.Forall₂ b.Makes bodies values) {es : List Enemy}
    (hes : values.mapM Sketch.asEnemy? = some es) {body : List Tree} (hbody : body ∈ bodies) :
    ∃ value e, b.Makes body value ∧ value.asEnemy? = some e ∧ e ∈ es := by
  induction hmakes generalizing es with
  | nil => cases hbody
  | cons hmade _ ih =>
    simp only [List.mapM_cons, Option.bind_eq_bind, Option.bind_eq_some_iff, Option.pure_def,
      Option.some.injEq] at hes
    obtain ⟨e, he, es', hes', rfl⟩ := hes
    rcases List.mem_cons.1 hbody with rfl | hbody
    · exact ⟨_, e, hmade, he, List.mem_cons_self⟩
    · obtain ⟨value, e', hmade', he', hmem⟩ := ih hes' hbody
      exact ⟨value, e', hmade', he', List.mem_cons_of_mem _ hmem⟩

/-- The last of the bodies is that of the player. -/
theorem player_sprite_eq_none (hb : body? .playerBlock = some b) {bodies : List (List Tree)}
    {values : List Sketch} (hmakes : List.Forall₂ b.Makes bodies values)
    (h : ∀ body ∈ bodies.getLast?, some "sprite" ∉ body.map Tree.key?) {p : Option Player}
    (hp : (values.getLast?.getD .null).asOption? Sketch.asPlayer? = some p) :
    p.bind (·.sprite) = none := by
  have hreverse := List.forall₂_reverse_iff.2 hmakes
  rw [← List.head?_reverse] at h hp
  generalize bodies.reverse = bs at hreverse h
  generalize values.reverse = vs at hreverse hp
  cases hreverse with
  | nil =>
    cases hp
    rfl
  | cons hlast _ =>
    cases hb
    obtain ⟨values, rfl, hunset⟩ := hlast.exists_unset (by decide) (h _ rfl) (i := 0) rfl
    obtain ⟨q, hq, rfl⟩ := Option.map_eq_some_iff.1 hp
    exact (Option.some.inj (sprite_of_asPlayer? hq hunset)).symm

theorem player_of_ofSketch? {title : Sketch} {d : Draft}
    (h : ofSketch? (gameRecord title parts) = some d) :
    ((blocksOfKind .player parts).getLast?.getD .null).asOption? Sketch.asPlayer? =
      some d.player := by
  simp only [gameRecord, ofSketch?, Option.bind_eq_bind, Option.bind_eq_some_iff, Option.pure_def,
    Option.some.injEq] at h
  obtain ⟨_, -, _, -, _, -, player, hplayer, _, -, _, -, _, -, _, -, _, -, _, -, rfl⟩ := h
  exact hplayer

/-! ## Default sprites -/

section Defaults

variable {d : Draft}

theorem not_declaresAsset_of_mem_reservedWords (h : ∀ a ∈ d.assets, Named a.key) {s : String}
    (hs : s ∈ reservedWords) : ¬ d.complete.toDraft.DeclaresAsset s := by
  rintro ⟨a, ha, rfl⟩
  obtain ⟨_, _, -, -, -, hfree⟩ := h a ha
  rw [String.ofList_toList] at hfree
  exact hfree hs

theorem playerSprite_mem_violations (hassets : ∀ a ∈ d.assets, Named a.key) (hne : d.assets ≠ [])
    (h : d.player.bind (·.sprite) = none) (strict : Bool) :
    .playerSprite Defaults.player.sprite ∈ d.complete.violations strict := by
  have hsprite : d.complete.player.sprite = Defaults.player.sprite := by
    change (d.player.getD {}).sprite.getD _ = _
    cases hp : d.player with
    | none => rfl
    | some p =>
      rw [hp, Option.bind_some] at h
      rw [Option.getD_some, h, Option.getD_none]
  refine mem_violations_iff.2 ⟨.playerSprite, .playerSprite (.inr hne) rfl (congrArg some hsprite)
    (by decide) ?_⟩
  exact not_declaresAsset_of_mem_reservedWords hassets (by decide)

theorem enemySprite_mem_violations (hassets : ∀ a ∈ d.assets, Named a.key) (hne : d.assets ≠ [])
    {e : Enemy} (he : e ∈ d.enemies) (h : e.sprite = none) (strict : Bool) :
    .enemySprite e.name (some Defaults.enemySprite) ∈ d.complete.violations strict := by
  obtain ⟨i, hi⟩ := List.mem_iff_getElem?.1 he
  have hget : d.complete.toDraft.enemies[i]? = some e.complete.toDraft := by
    change ((d.enemies.map Enemy.complete).map PlatformGame.Enemy.toDraft)[i]? = _
    rw [List.getElem?_map, List.getElem?_map, hi]
    rfl
  have hsprite : e.complete.toDraft.sprite = some Defaults.enemySprite := by
    change some (e.sprite.getD _) = _
    rw [h, Option.getD_none]
  have hviolates : d.complete.toDraft.Violates strict (.enemySprite i)
      (.enemySprite e.complete.toDraft.name e.complete.toDraft.sprite) := by
    refine .enemySprite (.inr hne) hget fun s hs => ?_
    obtain rfl := Option.some.inj (hsprite.symm.trans hs)
    exact not_declaresAsset_of_mem_reservedWords hassets (by decide)
  rw [hsprite] at hviolates
  exact mem_violations_iff.2 ⟨_, hviolates⟩

end Defaults

/-! ## Texts that are read -/

/-- What is true of the names and colours of a text and of the draft that is read from it, and of
the sprites that the text does not set. -/
structure WellNamed (toks : List Token) (tree : Tree) (d : Draft) : Prop where
  name_tokens : ∀ tok ∈ toks, tok.terminal = .name → Named tok.text
  color_tokens : ∀ tok ∈ toks, tok.terminal = .color → IsColor tok.text.toList
  names : ∀ s ∈ d.names, Named s
  colors : ∀ s ∈ d.colors, IsColor s.toList
  /-- There is no player block, or the last one sets no sprite. -/
  player : d.assets ≠ [] →
    (∀ body ∈ (tree.bodies .player).getLast?, some "sprite" ∉ body.map Tree.key?) →
    ∀ strict, .playerSprite Defaults.player.sprite ∈ d.complete.violations strict
  enemy : d.assets ≠ [] →
    ∀ body ∈ tree.bodies .enemy, some "sprite" ∉ body.map Tree.key? → ∃ e ∈ d.enemies,
      ∀ strict, .enemySprite e.name (some Defaults.enemySprite) ∈ d.complete.violations strict

/-- The tree of a text that is built: a title and blocks, which the draft is made of. -/
theorem exists_blocks_of_meanings {toks : List Token} {tree : Tree} (hd : Derives start toks [tree])
    {x : Sketch} (hx : (meanings [tree]).outcome = .ok [x]) :
    ∃ span span' title blocks name parts,
      tree = .node .start span [.node .game span' (title :: blocks)] ∧
      (∀ t ∈ blocks, IsBlockTree t) ∧ (meanings blocks).result? = some parts ∧
      x = gameRecord name parts := by
  obtain ⟨span, span', titles, title, blocks, inside, htree, -, hblocks⟩ :=
    exists_tree_of_derives_start hd
  obtain rfl := List.singleton_inj.1 htree
  have htrees : ∀ t ∈ blocks, IsBlockTree t := hblocks.exists_node_of_rootedIn isRooted_gameBlock
  have hresult := result?_eq_some.2 hx
  rw [result?_meanings_cons, Option.bind_eq_some_iff] at hresult
  obtain ⟨y, hy, hresult⟩ := hresult
  cases hresult
  rw [result?_start, result?_game htrees, Option.bind_eq_some_iff] at hy
  obtain ⟨name, -, hy⟩ := hy
  obtain ⟨parts, hparts, rfl⟩ := Option.map_eq_some_iff.1 hy
  exact ⟨span, span', title, blocks, name, parts, rfl, htrees, hparts, rfl⟩

theorem wellNamed_of_meanings {toks : List Token} {tree : Tree} (hd : Derives start toks [tree])
    (hm : ∀ tok ∈ toks, tok.terminal.Matches tok.text.toList) {x : Sketch}
    (hx : (meanings [tree]).outcome = .ok [x]) {d : Draft} (hsketch : ofSketch? x = some d)
    (hwritten : d.Written (fun _ => True) False) : WellNamed toks tree d := by
  have hassets : ∀ a ∈ d.assets, Named a.key := fun a ha => (hwritten.assets a ha).key
  have hg := Grown.of_derives hd hm
  obtain ⟨span, span', title, blocks, name, parts, rfl, htrees, hparts, rfl⟩ :=
    exists_blocks_of_meanings hd hx
  have hblocks : ∀ t ∈ blocks, IsBlockTree t ∧ Grown t := fun t ht =>
    ⟨htrees t ht, (hg.child List.mem_cons_self).child (List.mem_cons_of_mem _ ht)⟩
  refine ⟨fun tok htok hname => ?_, fun tok htok hcolor => ?_, hwritten.named, hwritten.isColor,
    fun hne hbody => ?player, fun hne body hbody hkey => ?enemy⟩
  · have := hm tok htok
    rwa [hname] at this
  · have := hm tok htok
    rwa [hcolor] at this
  case player =>
    have hmakes := makes_bodiesOf (l := .playerBlock) rfl rfl hblocks hparts
    exact playerSprite_mem_violations hassets hne
      (player_sprite_eq_none rfl hmakes hbody (player_of_ofSketch? hsketch))
  case enemy =>
    have hmakes := makes_bodiesOf (l := .enemyBlock) rfl rfl hblocks hparts
    obtain ⟨value, e, hmade, he, hmem⟩ :=
      exists_enemy_of_mem hmakes (enemies_of_ofSketch? hsketch) hbody
    exact ⟨e, hmem, enemySprite_mem_violations hassets hne hmem
      (enemy_sprite_eq_none rfl hmade hkey he)⟩

/-- The names of a text that is read as a game are names and no reserved words, its colours have six
digits, and a sprite that is not set is reported if there are assets. -/
theorem exists_wellNamed_of_readGame {source : String} {g : Game}
    (h : (readGame source).outcome = .ok g) :
    ∃ toks tree d, readAs start source = .ok [tree] ∧ Derives start toks [tree] ∧
      Spelled .first source.toList toks ∧ (readDraft source).outcome = .ok d ∧ d.complete = g ∧
      WellNamed toks tree d := by
  rw [readGame, Reading.map] at h
  obtain ⟨d, hdraft, h⟩ := map_eq_ok.1 h
  obtain ⟨toks, tree, x, hread, hd, hs, hx, -, hsketch⟩ := exists_meanings_of_readDraft hdraft
  exact ⟨toks, tree, d, hread, hd, hs, hdraft, h,
    wellNamed_of_meanings hd hs.matches hx hsketch (written_of_readDraft_outcome hdraft)⟩

/-- Names may begin with reserved words. No block sets a sprite. -/
def unadorned : String :=
  r#"game "t" {config{background:#0a0B0c} assets{image gameOver "o.png"} "# ++
    r"enemy player2{movement:static}}"

theorem exists_wellNamed_of_readGame_unadorned : ∃ g, (readGame unadorned).outcome = .ok g ∧
    g.assets.map (·.key) = ["gameOver"] ∧ g.enemies.map (·.name) = ["player2"] ∧
    g.violations false =
      [.noLevels, .playerSprite "player", .enemySprite "player2" (some "enemy")] ∧
    ∃ toks tree d, readAs start unadorned = .ok [tree] ∧ Derives start toks [tree] ∧
      Spelled .first unadorned.toList toks ∧ (readDraft unadorned).outcome = .ok d ∧
      d.complete = g ∧ WellNamed toks tree d := by
  have hgame : ((readGame unadorned).outcome.toOption.map fun g =>
      (g.assets.map (·.key), g.enemies.map (·.name), g.violations false)) =
      some (["gameOver"], ["player2"],
        [.noLevels, .playerSprite "player", .enemySprite "player2" (some "enemy")]) := by
    decide +kernel
  obtain ⟨g, hg, hparts⟩ := Option.map_eq_some_iff.1 hgame
  simp only [Prod.mk.injEq] at hparts
  have houtcome := toOption_eq_some.1 hg
  exact ⟨g, houtcome, hparts.1, hparts.2.1, hparts.2.2, exists_wellNamed_of_readGame houtcome⟩

end Draft

end PlatformGame
