import PlatformGame.Compile.Artifact
import PlatformGame.Proofs.Draft.Failures
import PlatformGame.Proofs.Draft.Places
import PlatformGame.Proofs.Parse.Blocks

/-! # Building a game block by block

What is built of a text that is put together from the texts of blocks is what is built of the blocks
on their own, added one after the other to an empty document (`sketch_of_gameText`). A block keeps
at most its place from the text around it, and the document does not contain places. -/

namespace PlatformGame.Draft

open Grammar Parse Source
open Build (Alike)

variable {trees : List Tree} {xs : List Sketch}

/-! ## Documents -/

/-- A game to which blocks are added. -/
structure Document where
  title : Sketch
  config : Sketch := .null
  assets : List Sketch := []
  player : Sketch := .null
  enemies : List Sketch := []
  collectibles : List Sketch := []
  levels : List Sketch := []
  hud : Sketch := .null
  rules : Sketch := .null
  sounds : Sketch := .null

namespace Document

/-- Assets, enemies, collectibles and levels are collected; otherwise a block takes the place of an
earlier one. -/
def add (d : Document) : Sketch → Document
  | .block .config x _ => { d with config := x }
  | .block .assets x _ => { d with assets := d.assets ++ x.items?.getD [] }
  | .block .player x _ => { d with player := x }
  | .block .enemy x _ => { d with enemies := d.enemies ++ [x] }
  | .block .collectible x _ => { d with collectibles := d.collectibles ++ [x] }
  | .block .level x _ => { d with levels := d.levels ++ [x] }
  | .block .hud x _ => { d with hud := x }
  | .block .rules x _ => { d with rules := x }
  | .block .sounds x _ => { d with sounds := x }
  | _ => d

def sketch (d : Document) : Sketch :=
  .record .game [d.title, d.config, .tuple d.assets, d.player, .tuple d.enemies,
    .tuple d.collectibles, .tuple d.levels, d.hud, d.rules, d.sounds]

/-- The document of some blocks at once. -/
def ofBlocks (title : Sketch) (blocks : List (BlockKind × Sketch)) : Document :=
  ⟨title, Node.lastOfKind .config blocks,
    (Node.ofKind .assets blocks).flatMap fun x => x.items?.getD [],
    Node.lastOfKind .player blocks, Node.ofKind .enemy blocks, Node.ofKind .collectible blocks,
    Node.ofKind .level blocks, Node.lastOfKind .hud blocks, Node.lastOfKind .rules blocks,
    Node.lastOfKind .sounds blocks⟩

theorem sketch_ofBlocks (title : Sketch) (blocks : List (BlockKind × Sketch)) :
    (ofBlocks title blocks).sketch = Node.gameOf title blocks := rfl

theorem ofBlocks_append (title : Sketch) (blocks : List (BlockKind × Sketch)) (kind : BlockKind)
    (value : Sketch) (place : Option Position) :
    ofBlocks title (blocks ++ [(kind, value)]) =
      (ofBlocks title blocks).add (.block kind value place) := by
  cases kind <;> simp [ofBlocks, add, Node.lastOfKind, Node.ofKind]

theorem foldl_add (title : Sketch) (h : ∀ x ∈ xs, IsBlock x) (blocks : List (BlockKind × Sketch)) :
    xs.foldl add (ofBlocks title blocks) = ofBlocks title (blocks ++ blocksOf xs) := by
  induction xs generalizing blocks with
  | nil => simp [blocksOf]
  | cons x xs ih =>
    rw [List.forall_mem_cons] at h
    obtain ⟨kind, value, place, rfl⟩ := h.1
    rw [List.foldl_cons, ← ofBlocks_append, ih h.2]
    simp [blocksOf]

/-- Added one after the other, the blocks make up the game. -/
theorem sketch_foldl_add (title : Sketch) (h : ∀ x ∈ xs, IsBlock x) :
    (xs.foldl add { title := title }).sketch = Node.gameOf title (blocksOf xs) := by
  rw [← sketch_ofBlocks, ← List.nil_append (blocksOf xs), ← foldl_add title h []]
  rfl

end Document

/-! ## Blocks -/

/-- The kinds of blocks by the labels of their nodes. -/
def blockKind? : Label → Option BlockKind
  | .configBlock => some .config
  | .assetsBlock => some .assets
  | .playerBlock => some .player
  | .enemyBlock => some .enemy
  | .collectibleBlock => some .collectible
  | .levelBlock => some .level
  | .hudBlock => some .hud
  | .rulesBlock => some .rules
  | .soundsBlock => some .sounds
  | _ => none

theorem exists_blockKind {l : Label} (h : l ∈ blockLabels) : ∃ kind, blockKind? l = some kind := by
  have hall : (blockLabels.all fun l => (blockKind? l).isSome) = true := by decide
  exact Option.isSome_iff_exists.1 (List.all_eq_true.1 hall l h)

theorem Build.outcome_eq_bind (x : Build α) (f : α → Build β) :
    (x >>= f).outcome = x.outcome >>= fun a => (f a).outcome := by
  cases hx : x.outcome with
  | ok a => exact Build.outcome_bind hx f
  | error e => exact Build.outcome_bind_error hx f

/-- A node labelled as a block means a block of that kind. -/
theorem Node.exists_block_of_assemble {n : Node} {kind : BlockKind}
    (hl : blockKind? n.label = some kind) {x : Sketch} (h : n.assemble.outcome = .ok x) :
    ∃ value place, x = .block kind value place := by
  have hblock {thing : RecordKind} (h : (n.block kind thing).outcome = .ok x) :
      ∃ value place, x = .block kind value place := by
    obtain ⟨v, -, hx⟩ := Build.exists_of_outcome_bind h
    cases hx
    exact ⟨v, _, rfl⟩
  have hnamed {thing : RecordKind} (h : (n.namedBlock kind thing).outcome = .ok x) :
      ∃ value place, x = .block kind value place := by
    obtain ⟨v, -, hx⟩ := Build.exists_of_outcome_bind h
    cases hx
    exact ⟨v, _, rfl⟩
  obtain ⟨label, place, parts, missing⟩ := n
  cases label <;> cases hl
  case configBlock | playerBlock | rulesBlock | soundsBlock => exact hblock h
  case enemyBlock | collectibleBlock | levelBlock => exact hnamed h
  case assetsBlock | hudBlock =>
    cases h
    exact ⟨_, _, rfl⟩

def IsBlockTree (t : Tree) : Prop :=
  ∃ l span children, t = .node l span children ∧ l ∈ blockLabels

theorem outcome_meanings_eq_mapM (htrees : ∀ t ∈ trees, IsBlockTree t) :
    (meanings trees).outcome = trees.mapM fun t => (sketch t).outcome := by
  induction trees with
  | nil => rfl
  | cons t ts ih =>
    obtain ⟨⟨l, span, children, rfl, -⟩, hts⟩ := List.forall_mem_cons.1 htrees
    rw [meanings, Build.outcome_eq_bind, List.mapM_cons, sketch]
    · refine bind_congr fun x => ?_
      rw [Build.outcome_eq_bind, ih hts]
      rfl
    · simp

theorem isBlock_of_meanings (htrees : ∀ t ∈ trees, IsBlockTree t)
    (h : (meanings trees).outcome = .ok xs) : ∀ x ∈ xs, IsBlock x := by
  induction trees generalizing xs with
  | nil =>
    cases h
    exact fun _ hx => absurd hx List.not_mem_nil
  | cons t ts ih =>
    obtain ⟨⟨l, span, children, rfl, hl⟩, hts⟩ := List.forall_mem_cons.1 htrees
    rw [meanings] at h
    obtain ⟨x, hx, h⟩ := Build.exists_of_outcome_bind h
    obtain ⟨ys, hys, h⟩ := Build.exists_of_outcome_bind h
    cases h
    rw [meaning] at hx
    obtain ⟨parts, -, hx⟩ := Build.exists_of_outcome_bind hx
    obtain ⟨kind, hkind⟩ := exists_blockKind hl
    exact List.forall_mem_cons.2
      ⟨⟨kind, Node.exists_block_of_assemble hkind hx⟩, ih hts hys⟩

theorem blocksOf_map_unplaced (xs : List Sketch) : blocksOf (xs.map unplaced) = blocksOf xs := by
  simp only [blocksOf, List.filterMap_map]
  refine List.filterMap_congr fun x _ => ?_
  cases x <;> rfl

theorem isBlockTree_of_readsBlock {text : String} {tree : Tree} (h : ReadsBlock text tree) :
    IsBlockTree tree ∧ tree.unblockedInside = true := by
  obtain ⟨name, hname, p, hp, hread⟩ := h
  have hall : (blockNames.all fun name =>
      Option.any Phrase.unblockedInside <| Except.toOption <| entry? name) = true := by decide
  have hinside : p.unblockedInside = true := by
    simpa [hp, Except.toOption] using List.all_eq_true.1 hall name hname
  obtain ⟨k, l, q, rfl, hphrase⟩ := exists_isBlockPhrase hname hp
  obtain ⟨toks, tree', htree, hd, -⟩ := exists_derives_of_readAs (mem_entries_of_eq_ok hp) hread
  obtain rfl := List.singleton_inj.1 htree
  refine ⟨?_, Phrase.unblockedInside_of_derives hd hinside tree List.mem_cons_self⟩
  obtain ⟨_, us, ys, -, -, htree⟩ := derives_node_iff.1 hd
  exact ⟨l, _, ys, List.singleton_inj.1 htree, hphrase.label⟩

theorem forall_isBlockTree {texts : List String} (h : List.Forall₂ ReadsBlock texts trees) :
    ∀ t ∈ trees, IsBlockTree t ∧ t.unblockedInside = true := by
  induction h with
  | nil => exact fun _ ht => absurd ht List.not_mem_nil
  | cons hblock _ ih => exact List.forall_mem_cons.2 ⟨isBlockTree_of_readsBlock hblock, ih⟩

theorem meaning_titleTree (title : String) : meaning (titleTree title) = pure (.text title) := by
  rw [titleTree, meaning, meanings_singleton, meaning_ofToken]
  change pure (Sketch.text (unquote (Text.literal title))) = _
  rw [unquote_literal]

/-- What a game of a title and blocks means. -/
theorem outcome_meaning_game (htrees : ∀ t ∈ trees, IsBlockTree t) (title : Tree)
    (span : Option Span) : (meaning (.node .game span (title :: trees))).outcome = (do
      let x ← (meaning title).outcome
      let xs ← (meanings trees).outcome
      pure (Node.gameOf x (blocksOf xs))) := by
  rw [meaning, meanings, bind_assoc, Build.outcome_eq_bind]
  refine bind_congr fun x => ?_
  rw [bind_assoc, Build.outcome_eq_bind]
  cases hout : (meanings trees).outcome with
  | error e => rfl
  | ok xs =>
    have hadd := Node.addBlocks_outcome (isBlock_of_meanings htrees hout) []
    exact (Build.outcome_bind hadd _).trans rfl

/-- What a whole game of a title and blocks is built into. -/
theorem outcome_sketch_start (title : String) (htrees : ∀ t ∈ trees, IsBlockTree t)
    (span span' : Option Span) :
    (sketch (.node .start span [.node .game span' (titleTree title :: trees)])).outcome =
      (meanings trees).outcome.map fun xs => Node.gameOf (.text title) (blocksOf xs) := by
  have hgame : (meaning (.node .game span' (titleTree title :: trees))).outcome =
      (meanings trees).outcome.map fun xs => Node.gameOf (.text title) (blocksOf xs) := by
    rw [outcome_meaning_game htrees, meaning_titleTree]
    cases (meanings trees).outcome <;> rfl
  rw [← hgame, sketch, meaning, meanings_singleton, bind_assoc, Build.outcome_eq_bind]
  · cases (meaning (.node .game span' (titleTree title :: trees))).outcome <;> rfl
  · simp

theorem outcome_meanings_shape {f : List (BlockKind × Sketch) → α}
    (h : ∀ t ∈ trees, t.unblockedInside = true) :
    (meanings (trees.map Tree.shape)).outcome.map (fun xs => f (blocksOf xs)) =
      (meanings trees).outcome.map fun xs => f (blocksOf xs) := by
  have halike := (alike_blocks_shape h).outcome
  cases hs : (meanings (trees.map Tree.shape)).outcome <;>
    cases ht : (meanings trees).outcome <;> simp only [hs, ht, Except.map] at halike ⊢
  · exact congrArg Except.error (Except.error.inj halike)
  · cases halike
  · cases halike
  · rw [← blocksOf_map_unplaced, Except.ok.inj halike, blocksOf_map_unplaced]

theorem IsBlockTree.shape {t : Tree} (h : IsBlockTree t) : IsBlockTree t.shape := by
  obtain ⟨l, span, children, rfl, hl⟩ := h
  exact ⟨l, _, _, rfl, hl⟩

/-- What is built of a game is what is built of its blocks, folded into a document. -/
theorem outcome_sketch_of_shape {title : String} {toks : List Token} {tree : Tree}
    (hd : Derives start toks [tree]) (htrees : ∀ t ∈ trees, IsBlockTree t)
    (hinside : ∀ t ∈ trees, t.unblockedInside = true) {span span' : Option Span}
    (hshape : tree.shape =
      .node .start span [.node .game span' (titleTree title :: trees.map Tree.shape)]) :
    (sketch tree).outcome = (do
      let xs ← trees.mapM fun t => (sketch t).outcome
      pure (xs.foldl Document.add { title := .text title }).sketch) := by
  have hblocks : ∀ t ∈ trees.map Tree.shape, IsBlockTree t := by
    intro t ht
    obtain ⟨t', ht', rfl⟩ := List.mem_map.1 ht
    exact (htrees t' ht').shape
  have halike := (alike_sketch_shape hd).outcome
  rw [hshape, Except.map_id] at halike
  rw [show (sketch tree).outcome = _ from halike.symm, id, outcome_sketch_start title hblocks,
    outcome_meanings_shape hinside, ← outcome_meanings_eq_mapM htrees]
  cases hout : (meanings trees).outcome with
  | error e => rfl
  | ok xs =>
    exact congrArg Except.ok (Document.sketch_foldl_add _ (isBlock_of_meanings htrees hout)).symm

/-- The text of a game that is put together from texts of blocks is read if the blocks are read on
their own. Its tree has the trees of the blocks in order, up to positions, and what is built of it
are the blocks that are built on their own, folded into a document. -/
theorem sketch_of_gameText (title : String) {texts : List String} {trees : List Tree}
    (h : List.Forall₂ ReadsBlock texts trees) :
    ∃ tree, readAs start (gameText title texts) = .ok [tree] ∧
      tree.shape = .node .start (some .origin) [.node .game (some .origin)
        (titleTree title :: trees.map Tree.shape)] ∧
      (sketch tree).outcome = (do
        let xs ← trees.mapM fun t => (sketch t).outcome
        pure (xs.foldl Document.add { title := .text title }).sketch) := by
  have htrees := forall_isBlockTree h
  obtain ⟨tree, hread, hshape⟩ := exists_readAs_gameText title h
  obtain ⟨toks, tree', htree, hd, -⟩ :=
    exists_derives_of_readAs (mem_entries_of_eq_ok (rfl : entry? "start" = .ok start)) hread
  obtain rfl := List.singleton_inj.1 htree
  exact ⟨tree, hread, hshape, outcome_sketch_of_shape hd (fun t ht => (htrees t ht).1)
    (fun t ht => (htrees t ht).2) hshape⟩

theorem exists_readsBlock {name text : String} (hname : name ∈ blockNames) {p : Phrase}
    (hp : entry? name = .ok p) (h : (readAs p text).isOk = true) :
    ∃ tree, ReadsBlock text tree := by
  obtain ⟨trees, hread⟩ := exists_of_isOk h
  obtain ⟨_, tree, rfl, -⟩ := exists_derives_of_readAs (mem_entries_of_eq_ok hp) hread
  exact ⟨tree, name, hname, p, hp, hread⟩

def enemyText : String := r"enemy Slime { stompable: true } // soft"

def rulesText : String := r"/* how it ends */ rules { win: reachExit, lose: noLives }"

theorem sketch_of_gameText_enemy : ∃ trees, List.Forall₂ ReadsBlock [enemyText, rulesText] trees ∧
    ∃ tree, readAs start (gameText "A \"game\"" [enemyText, rulesText]) = .ok [tree] ∧
      tree.shape = .node .start (some .origin) [.node .game (some .origin)
        (titleTree "A \"game\"" :: trees.map Tree.shape)] ∧
      (sketch tree).outcome = (do
        let xs ← trees.mapM fun t => (sketch t).outcome
        pure (xs.foldl Document.add { title := .text "A \"game\"" }).sketch) := by
  obtain ⟨enemy, henemy⟩ : ∃ tree, ReadsBlock enemyText tree :=
    exists_readsBlock (show "enemy_block" ∈ blockNames by decide) rfl (by decide +kernel)
  obtain ⟨rules, hrules⟩ : ∃ tree, ReadsBlock rulesText tree :=
    exists_readsBlock (show "rules_block" ∈ blockNames by decide) rfl (by decide +kernel)
  have htrees : List.Forall₂ ReadsBlock [enemyText, rulesText] [enemy, rules] :=
    .cons henemy (.cons hrules .nil)
  exact ⟨_, htrees, sketch_of_gameText "A \"game\"" htrees⟩

end PlatformGame.Draft
