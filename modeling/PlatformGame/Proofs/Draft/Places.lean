import PlatformGame.Proofs.Draft.Reading
import PlatformGame.Proofs.Parse.Shape

/-! # What depends on places

Places go into warnings and, for the sake of warnings, into some blocks. Otherwise what is built
does not depend on where the parts of the text stand: from a tree of a game and from its shape the
same sketch is built, with the same warnings up to their places (`alike_sketch_shape`). -/

namespace PlatformGame.Draft

open Grammar Parse Source

def Warning.unplaced : Warning → Warning
  | duplicateBlock kind _ => duplicateBlock kind none
  | ignoredParameter movement key _ => ignoredParameter movement key none

theorem Warning.summary_unplaced (w : Warning) : w.unplaced.summary = w.summary := by
  cases w <;> rfl

/-- A block without its place; other sketches are left as they are. -/
def unplaced : Sketch → Sketch
  | .block kind value _ => .block kind value none
  | x => x

/-! ## Building alike -/

/-- The same warnings up to their places, and the same outcome as far as `f` shows it. -/
structure Build.Alike (f : α → β) (x x' : Build α) : Prop where
  warnings : x.warnings.map Warning.unplaced = x'.warnings.map Warning.unplaced
  outcome : x.outcome.map f = x'.outcome.map f

namespace Build.Alike

theorem refl (f : α → β) (x : Build α) : Alike f x x := ⟨rfl, rfl⟩

theorem symm {f : α → β} {x x' : Build α} (h : Alike f x x') : Alike f x' x :=
  ⟨h.warnings.symm, h.outcome.symm⟩

theorem trans {f : α → β} {x x' x'' : Build α} (h : Alike f x x') (h' : Alike f x' x'') :
    Alike f x x'' := ⟨h.warnings.trans h'.warnings, h.outcome.trans h'.outcome⟩

theorem pure {f : α → β} {a a' : α} (h : f a = f a') :
    Alike f (Pure.pure a : Build α) (Pure.pure a') := ⟨rfl, congrArg Except.ok h⟩

theorem bind {f : α → β} {g : γ → δ} {x x' : Build α} {k k' : α → Build γ} (h : Alike f x x')
    (hk : ∀ a a', f a = f a' → Alike g (k a) (k' a')) : Alike g (x >>= k) (x' >>= k') := by
  obtain ⟨ws, o⟩ := x
  obtain ⟨ws', o'⟩ := x'
  obtain ⟨hw, ho⟩ := h
  cases o with
  | error e =>
    cases o' with
    | error e' => exact ⟨hw, congrArg Except.error (Except.error.inj ho)⟩
    | ok a' => cases ho
  | ok a =>
    cases o' with
    | error e' => cases ho
    | ok a' =>
      obtain ⟨hw', ho'⟩ := hk a a' (Except.ok.inj ho)
      refine ⟨?_, ho'⟩
      change (ws ++ _).map _ = (ws' ++ _).map _
      rw [List.map_append, List.map_append, hw', show ws.map _ = ws'.map _ from hw]

/-- Alike in everything is alike in what a function shows. -/
theorem map {x x' : Build α} (h : Alike id x x') (f : α → β) : Alike f x x' := by
  refine ⟨h.warnings, ?_⟩
  have ho := h.outcome
  cases hx : x.outcome <;> cases hx' : x'.outcome <;> simp_all [Except.map]

theorem warnAll {ws ws' : List Warning}
    (h : ws.map Warning.unplaced = ws'.map Warning.unplaced) :
    Alike id (Build.warnAll ws) (Build.warnAll ws') := by
  have heq : ∀ ws, Build.warnAll ws = ⟨ws, .ok ()⟩ := fun ws => by
    simpa using Build.warnAll_bind_pure ws ()
  rw [heq, heq]
  exact ⟨h, rfl⟩

end Build.Alike

open Build (Alike)

/-! ## Nodes -/

namespace Node

/-- The node at another place. -/
def setPlace (n : Node) (p : Option Position) : Node := { n with place := p }

variable (n : Node) (p : Option Position)

theorem put_setPlace (bag : Bag) (key value : Sketch) :
    (n.setPlace p).put bag key value = n.put bag key value := rfl

theorem addPart_setPlace (bag : Bag) (x : Sketch) :
    (n.setPlace p).addPart bag x = n.addPart bag x := by
  cases x <;> rfl

theorem addParts_setPlace (bag : Bag) (xs : List Sketch) :
    (n.setPlace p).addParts bag xs = n.addParts bag xs := by
  induction xs generalizing bag with
  | nil => rfl
  | cons x xs ih => simp only [addParts, addPart_setPlace, ih]

theorem addLayers_setPlace (index : Nat) (bag : Bag) (xs : List Sketch) :
    (n.setPlace p).addLayers index bag xs = n.addLayers index bag xs := by
  induction xs generalizing index bag with
  | nil => rfl
  | cons x xs ih => simp only [addLayers, put_setPlace, ih]; rfl

theorem described_setPlace (kind : RecordKind) :
    (n.setPlace p).described kind = n.described kind := by
  unfold described
  rw [addParts_setPlace]
  rfl

theorem describedAs_setPlace (kind : RecordKind) (field : String) :
    (n.setPlace p).describedAs kind field = n.describedAs kind field := by
  simp only [describedAs, addParts_setPlace]
  rfl

theorem alike_movement (kind : RecordKind) :
    Alike id ((n.setPlace p).movement kind) (n.movement kind) := by
  unfold movement
  rw [addParts_setPlace]
  refine (Alike.refl id _).bind fun bag bag' hbag => ?_
  obtain rfl : bag = bag' := hbag
  refine (Alike.warnAll ?_).bind fun _ _ _ => .refl _ _
  simp only [List.map_map]
  rfl

theorem alike_block (kind : BlockKind) (thing : RecordKind) :
    Alike unplaced ((n.setPlace p).block kind thing) (n.block kind thing) := by
  unfold block
  rw [described_setPlace]
  refine (Alike.refl id _).bind fun x x' hx => ?_
  obtain rfl : x = x' := hx
  exact .pure rfl

theorem namedBlock_setPlace (kind : BlockKind) (thing : RecordKind) :
    (n.setPlace p).namedBlock kind thing = n.namedBlock kind thing := by
  unfold namedBlock
  rw [describedAs_setPlace]

theorem layers_setPlace : (n.setPlace p).layers = n.layers := by
  unfold layers
  rw [addLayers_setPlace]
  rfl

/-- Blocks that keep their place. -/
def isPlacedBlock : Label → Bool
  | .configBlock | .playerBlock | .hudBlock | .rulesBlock | .soundsBlock => true
  | _ => false

/-- What a node means depends on its place only in warnings, unless it is a block. -/
theorem alike_assemble (h : isPlacedBlock n.label = false) :
    Alike id (n.setPlace p).assemble n.assemble := by
  obtain ⟨label, place, parts, missing⟩ := n
  have of_eq {x x' : Build Sketch} (hx : x = x') : Alike id x x' := hx ▸ .refl id x
  cases label with
  | configBlock | playerBlock | hudBlock | rulesBlock | soundsBlock => cases h
  | patrol => exact alike_movement _ p .patrol
  | chase => exact alike_movement _ p .chase
  | fly => exact alike_movement _ p .fly
  | enemyBlock => exact of_eq (namedBlock_setPlace _ p .enemy .enemy)
  | collectibleBlock => exact of_eq (namedBlock_setPlace _ p .collectible .collectible)
  | levelBlock => exact of_eq (namedBlock_setPlace _ p .level .level)
  | animation => exact of_eq (describedAs_setPlace _ p .clip "name")
  | hudElement => exact of_eq (describedAs_setPlace _ p .hudElement "type")
  | layers => exact of_eq (layers_setPlace _ p)
  | _ => exact .refl id _

theorem alike_assemble_unplaced : Alike unplaced (n.setPlace p).assemble n.assemble := by
  cases h : isPlacedBlock n.label with
  | false => exact (n.alike_assemble p h).map unplaced
  | true =>
    obtain ⟨label, place, parts, missing⟩ := n
    cases label with
    | configBlock => exact alike_block _ p .config .config
    | playerBlock => exact alike_block _ p .player .player
    | hudBlock => exact .pure rfl
    | rulesBlock => exact alike_block _ p .rules .rules
    | soundsBlock => exact alike_block _ p .sounds .sounds
    | _ => cases h

theorem alike_addBlock_unplaced (blocks : List (BlockKind × Sketch)) (x : Sketch) :
    Alike id (addBlock blocks (unplaced x)) (addBlock blocks x) := by
  cases x with
  | block kind value place =>
    simp only [unplaced, addBlock]
    split
    · exact ⟨rfl, rfl⟩
    · exact .refl id _
  | _ => exact .refl id _

theorem alike_addBlock (blocks : List (BlockKind × Sketch)) {x x' : Sketch}
    (h : unplaced x = unplaced x') : Alike id (addBlock blocks x) (addBlock blocks x') := by
  have hx := (alike_addBlock_unplaced blocks x).symm
  rw [h] at hx
  exact hx.trans (alike_addBlock_unplaced blocks x')

theorem alike_addBlocks {xs xs' : List Sketch} (h : xs.map unplaced = xs'.map unplaced)
    (blocks : List (BlockKind × Sketch)) :
    Alike id (addBlocks blocks xs) (addBlocks blocks xs') := by
  induction xs generalizing xs' blocks with
  | nil =>
    obtain rfl := List.map_eq_nil_iff.1 h.symm
    exact .refl id _
  | cons x xs ih =>
    obtain ⟨x', xs', rfl, hx, hxs⟩ := List.map_eq_cons_iff.1 h.symm
    refine (alike_addBlock blocks hx.symm).bind fun bs bs' hbs => ?_
    obtain rfl : bs = bs' := hbs
    exact ih hxs.symm bs

end Node

/-! ## Trees -/

end PlatformGame.Draft

namespace PlatformGame.Parse.Tree

open Grammar Draft

mutual

/-- No block of those that keep their place. -/
def unblocked : Tree → Bool
  | node l _ children => !Node.isPlacedBlock l && unblockedAll children
  | leaf _ _ _ => true

def unblockedAll : List Tree → Bool
  | [] => true
  | t :: ts => t.unblocked && unblockedAll ts

end

theorem unblockedAll_append (ts us : List Tree) :
    unblockedAll (ts ++ us) = (unblockedAll ts && unblockedAll us) := by
  induction ts with
  | nil => rfl
  | cons t ts ih => rw [List.cons_append, unblockedAll, unblockedAll, ih, Bool.and_assoc]

/-- No such block inside. -/
def unblockedInside : Tree → Bool
  | node _ _ children => unblockedAll children
  | leaf _ _ _ => true

end PlatformGame.Parse.Tree

namespace PlatformGame.Grammar.Phrase

open Parse Source Draft

/-- No node for a block that keeps its place. -/
def unblocked : Phrase → Bool
  | nothing | token _ _ => true
  | seq p q | alt p q => p.unblocked && q.unblocked
  | many p | afterItem p | afterComma p => p.unblocked
  | node l p => !Node.isPlacedBlock l && p.unblocked

/-- Nodes without such nodes inside. -/
def unblockedInside : Phrase → Bool
  | node _ p => p.unblocked
  | alt p q => p.unblockedInside && q.unblockedInside
  | many p => p.unblockedInside
  | _ => false

theorem unblockedAll_of_derives {p : Phrase} {toks : List Token} {trees : List Tree}
    (h : Derives p toks trees) (hp : p.unblocked = true) : Tree.unblockedAll trees = true := by
  induction h with
  | nothing | manyEnd | itemEnd | commaEnd => rfl
  | token tok keep => cases keep <;> rfl
  | seq _ _ ihp ihq =>
    rw [unblocked, Bool.and_eq_true] at hp
    rw [Tree.unblockedAll_append, ihp hp.1, ihq hp.2]
    rfl
  | left _ ih => exact ih (Bool.and_eq_true_iff.1 hp).1
  | right _ ih => exact ih (Bool.and_eq_true_iff.1 hp).2
  | more _ _ ihp ihq | item _ _ ihp ihq =>
    rw [Tree.unblockedAll_append, ihp hp, ihq hp]
    rfl
  | comma _ _ ih => exact ih hp
  | node l _ ih =>
    rw [unblocked, Bool.and_eq_true] at hp
    rw [Tree.unblockedAll, Tree.unblocked, hp.1, ih hp.2]
    rfl

theorem unblockedInside_of_derives {p : Phrase} {toks : List Token} {trees : List Tree}
    (h : Derives p toks trees) (hp : p.unblockedInside = true) :
    ∀ t ∈ trees, t.unblockedInside = true := by
  induction h with
  | manyEnd => exact fun _ ht => absurd ht List.not_mem_nil
  | left _ ih => exact ih (Bool.and_eq_true_iff.1 hp).1
  | right _ ih => exact ih (Bool.and_eq_true_iff.1 hp).2
  | more _ _ ihp ihq =>
    intro t ht
    rcases List.mem_append.1 ht with ht | ht
    · exact ihp hp t ht
    · exact ihq hp t ht
  | node l hd _ => exact List.forall_mem_singleton.2 (unblockedAll_of_derives hd hp)
  | _ => cases hp

end PlatformGame.Grammar.Phrase

namespace PlatformGame.Draft

open Grammar Parse Source
open Build (Alike)

theorem alike_node {f : Sketch → α} {l : Label} {span : Option Span} {children : List Tree}
    (h : Alike id (meanings (children.map Tree.shape)) (meanings children))
    (ha : ∀ n : Node, n.label = l → ∀ p, Alike f (n.setPlace p).assemble n.assemble) :
    Alike f (meaning (Parse.Tree.node l span children).shape)
      (meaning (.node l span children)) := by
  rw [Tree.shape, Tree.shapes_eq_map, meaning, meaning]
  refine h.bind fun xs xs' hxs => ?_
  obtain rfl : xs = xs' := hxs
  exact ha ⟨l, span.map (·.first), xs, .noPart⟩ rfl _

mutual

theorem alike_meaning_shape : ∀ {t : Tree}, t.unblocked = true →
    Alike id (meaning t.shape) (meaning t)
  | .leaf _ _ _, _ => .refl id _
  | .node l span children, h => by
    rw [Tree.unblocked, Bool.and_eq_true, Bool.not_eq_true'] at h
    exact alike_node (alike_meanings_shape h.2) fun n hn p => n.alike_assemble p (hn ▸ h.1)

theorem alike_meanings_shape : ∀ {ts : List Tree}, Tree.unblockedAll ts = true →
    Alike id (meanings (ts.map Tree.shape)) (meanings ts)
  | [], _ => .refl id _
  | t :: ts, h => by
    rw [Tree.unblockedAll, Bool.and_eq_true] at h
    rw [List.map_cons, meanings, meanings]
    refine (alike_meaning_shape h.1).bind fun x x' hx => ?_
    refine (alike_meanings_shape h.2).bind fun xs xs' hxs => ?_
    obtain rfl : x = x' := hx
    obtain rfl : xs = xs' := hxs
    exact .refl id _

end

theorem alike_block_shape {t : Tree} (h : t.unblockedInside = true) :
    Alike unplaced (meaning t.shape) (meaning t) := by
  cases t with
  | leaf => exact .refl unplaced _
  | node l span children =>
    exact alike_node (alike_meanings_shape h) fun n _ p => n.alike_assemble_unplaced p

theorem alike_blocks_shape {ts : List Tree} (h : ∀ t ∈ ts, t.unblockedInside = true) :
    Alike (List.map unplaced) (meanings (ts.map Tree.shape)) (meanings ts) := by
  induction ts with
  | nil => exact .refl _ _
  | cons t ts ih =>
    rw [List.forall_mem_cons] at h
    rw [List.map_cons, meanings, meanings]
    refine (alike_block_shape h.1).bind fun x x' hx => ?_
    refine (ih h.2).bind fun xs xs' hxs => ?_
    exact .pure (by rw [List.map_cons, List.map_cons, hx, hxs])

/-! ## Games -/

/-- The inside of a game: its title and its blocks. -/
theorem exists_of_derives_game {toks : List Token} {trees : List Tree}
    (h : Derives (.chain [.word .game, string, braces (.many gameBlock)]) toks trees) :
    ∃ titles title inside blocks, trees = title :: blocks ∧ Derives string titles [title] ∧
      Derives (.many gameBlock) inside blocks := by
  obtain ⟨_, _, -, -, hparts⟩ := derives_skip_iff.1 h
  obtain ⟨titles, _, _, blocks, -, rfl, htitle, hblocks⟩ := derives_seq_iff.1 hparts
  obtain ⟨inside, -, hblocks⟩ := exists_derives_of_braces (derives_last_iff.1 hblocks)
  obtain ⟨_, _, _, -, -, rfl⟩ := derives_node_iff.1 htitle
  exact ⟨titles, _, inside, blocks, rfl, htitle, hblocks⟩

/-- The tree of a game: its title and its blocks. -/
theorem exists_tree_of_derives_start {toks : List Token} {trees : List Tree}
    (h : Derives start toks trees) :
    ∃ span span' titles title blocks inside,
      trees = [.node .start span [.node .game span' (title :: blocks)]] ∧
        Derives string titles [title] ∧ Derives (.many gameBlock) inside blocks := by
  obtain ⟨_, _, _, -, hgame, rfl⟩ := derives_node_iff.1 h
  obtain ⟨_, _, _, -, hparts, rfl⟩ := derives_node_iff.1 hgame
  obtain ⟨titles, title, inside, blocks, rfl, htitle, hblocks⟩ := exists_of_derives_game hparts
  exact ⟨_, _, titles, title, blocks, inside, rfl, htitle, hblocks⟩

theorem alike_game_shape {span : Option Span} {title : Tree} {blocks : List Tree}
    (htitle : title.unblocked = true) (hblocks : ∀ t ∈ blocks, t.unblockedInside = true) :
    Alike id (meaning (Parse.Tree.node .game span (title :: blocks)).shape)
      (meaning (.node .game span (title :: blocks))) := by
  simp only [Tree.shape, Tree.shapes_eq_map, meaning, meanings, List.map_cons, bind_assoc,
    pure_bind]
  refine (alike_meaning_shape htitle).bind fun x x' hx => ?_
  obtain rfl : x = x' := hx
  refine (alike_blocks_shape hblocks).bind fun xs xs' hxs => ?_
  refine (Node.alike_addBlocks hxs []).bind fun bs bs' hbs => ?_
  obtain rfl : bs = bs' := hbs
  exact .refl id _

/-- From a tree of a game and from its shape the same is built. -/
theorem alike_sketch_shape {toks : List Token} {tree : Tree} (h : Derives start toks [tree]) :
    Alike id (sketch tree.shape) (sketch tree) := by
  obtain ⟨span, span', titles, title, blocks, inside, htree, htitle, hblocks⟩ :=
    exists_tree_of_derives_start h
  obtain rfl := List.singleton_inj.1 htree
  have hinside : gameBlock.unblockedInside = true := by decide
  have hgame : Alike id (meaning (Parse.Tree.node .game span' (title :: blocks)).shape)
      (meaning (.node .game span' (title :: blocks))) := alike_game_shape
    (by simpa [Tree.unblockedAll] using Phrase.unblockedAll_of_derives htitle rfl)
    (Phrase.unblockedInside_of_derives hblocks hinside)
  refine alike_node ?_ fun n hn p => n.alike_assemble p (hn ▸ rfl)
  rw [List.map_singleton, meanings_singleton, meanings_singleton]
  refine hgame.bind fun x x' hx => ?_
  obtain rfl : x = x' := hx
  exact .refl id _

/-- Trees of games that differ in positions only are built alike. -/
theorem alike_sketch_of_shape_eq {toks toks' : List Token} {tree tree' : Tree}
    (h : Derives start toks [tree]) (h' : Derives start toks' [tree'])
    (hshape : tree.shape = tree'.shape) : Alike id (sketch tree) (sketch tree') :=
  (alike_sketch_shape h).symm.trans (hshape ▸ alike_sketch_shape h')

end PlatformGame.Draft
