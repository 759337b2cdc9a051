import PlatformGame.Proofs.Draft.Blocks
import PlatformGame.Proofs.Draft.Keys
import PlatformGame.Proofs.Draft.Numbers
import PlatformGame.Proofs.Parse.Subtree

/-! # The order of properties and blocks

Order matters only within a key. A body comes to what is settled under each of its keys, whatever
stands between the parts with this key (`Node.outcome_of_fit`), so two neighbours with different
keys may change places; and so may two blocks of different kinds. -/

namespace PlatformGame

open Grammar Parse Source

variable {parts : List Sketch} {n : Node} {x : Sketch} {k k' : BlockKind}

/-- What stands in a node. -/
def Grammar.Phrase.inside : Phrase → Phrase
  | node _ p => p
  | p => p

namespace Draft

/-! ## Bodies -/

/-- A body of properties: what it describes, the field for what stands in front of it, and its keys,
of single values and of lists. -/
structure Body where
  kind : RecordKind
  named : Option String
  singles : List String
  lists : List String
  phrase : Phrase

/-- The bodies of the language by the labels of their nodes. -/
def body? : Label → Option Body
  | .configBlock => some ⟨.config, none, configKeys, [], configBlock.inside⟩
  | .playerBlock => some ⟨.player, none, playerKeys, ["animations"], playerBlock.inside⟩
  | .enemyBlock => some ⟨.enemy, some "name", enemyKeys, ["animations"], enemyBlock.inside⟩
  | .collectibleBlock =>
    some ⟨.collectible, some "name", collectibleKeys, ["animations"], collectibleBlock.inside⟩
  | .levelBlock => some ⟨.level, some "name", levelKeys, levelLists, levelBlock.inside⟩
  | .hudElement => some ⟨.hudElement, some "type", hudKeys, [], hudElement.inside⟩
  | .rulesBlock => some ⟨.rules, none, rulesKeys, [], rulesBlock.inside⟩
  | .soundsBlock => some ⟨.sounds, none, soundKeys, [], soundsBlock.inside⟩
  | .animation => some ⟨.clip, some "name", ["fps", "loop"], ["frames"], animation.inside⟩
  | .patrol => some ⟨.patrol, none, paramKeys, [], (pattern .patrol .patrol).inside⟩
  | .chase => some ⟨.chase, none, paramKeys, [], (pattern .chase .chase).inside⟩
  | .fly => some ⟨.fly, none, paramKeys, [], (pattern .fly .fly).inside⟩
  | _ => none

namespace Body

/-- The parts are properties under the keys of the body, behind what stands in front of it. -/
def Fit (b : Body) (parts : List Sketch) : Prop :=
  match b.named with
  | none => ∀ x ∈ parts, Fits b.singles b.lists x
  | some _ => ∃ name props, parts = name :: props ∧ name.key? = none ∧
    ∀ x ∈ props, Fits b.singles b.lists x

/-- The value of a field of what the body describes. -/
def field (b : Body) (parts : List Sketch) (key : String) : Sketch :=
  if b.named = some key then parts.headD .null
  else (settled key parts).getD (Node.unset b.kind key)

/-- Lists are kept under the keys of lists only. -/
structure Keyed (b : Body) : Prop where
  singles : ∀ k ∈ b.singles, k ∉ listKeys
  lists : ∀ k ∈ b.lists, k ∈ listKeys

theorem keyed {l : Label} {b : Body} (h : body? l = some b) : b.Keyed := by
  cases l <;> cases h <;> exact ⟨by decide, by decide⟩

/-- The body in a tree of a game is the body of its label. -/
theorem phrase_eq {l : Label} {b : Body} (h : body? l = some b) {q : Phrase}
    (hq : (l, q) ∈ start.nodes) : q = b.phrase := by
  have hall : (start.nodes.all fun e => (body? e.1).all fun b => e.2 == b.phrase) = true := by
    decide +kernel
  simpa [h] using List.all_eq_true.1 hall (l, q) hq

theorem phrase_numbersLabelled {l : Label} {b : Body} (h : body? l = some b) :
    b.phrase.numbersLabelled = true := by
  cases l <;> cases h <;> rfl

theorem phrase_keyed {l : Label} {b : Body} (h : body? l = some b) : b.phrase.keyed = true := by
  cases l <;> cases h <;> rfl

section

variable {Num : Number → Prop} {quiet : Prop} {b : Body} {T : String → Sketch → Prop}

theorem fit_of_each (hb : b.named = none) (h : Each (Entry b.singles b.lists T) parts) :
    b.Fit parts := by
  rw [Fit, hb]
  exact fun x hx => (h x hx).fits

theorem fit_of_cons {f : String} (hb : b.named = some f) {P : Sketch → Prop}
    (hP : ∀ x, P x → x.key? = none) (h : Cons P (Each (Entry b.singles b.lists T)) parts) :
    b.Fit parts := by
  obtain ⟨name, props, rfl, hname, hprops⟩ := h.exists_eq
  rw [Fit, hb]
  exact ⟨name, props, rfl, hP name hname, fun x hx => (hprops x hx).fits⟩

end

end Body

theorem Means.each {Num : Number → Prop} {quiet : Prop} {p : Phrase} {P : Sketch → Prop}
    (h : Means Num quiet p (Several P)) : Means Num quiet p (Each P) := h.mono fun _ hxs => hxs.2

theorem key?_of_text {P : String → Prop} (x : Sketch) (h : Of .text P x) : x.key? = none := by
  obtain ⟨s, rfl, -⟩ := h
  rfl

/-- The parts of a body that is built are what they should be. -/
theorem means_body {l : Label} {b : Body} (h : body? l = some b) :
    Means (fun _ => True) False b.phrase b.Fit := by
  cases l <;> cases h
  case configBlock =>
    exact (Means.skip means_configProp.items.each.braces).mono fun _ h => Body.fit_of_each rfl h
  case playerBlock =>
    exact (Means.skip means_playerProp.items.each.braces).mono fun _ h => Body.fit_of_each rfl h
  case enemyBlock =>
    exact (Means.skip (means_ident.cons means_enemyProp.items.each.braces.last)).mono fun _ h =>
      Body.fit_of_cons rfl key?_of_text h
  case collectibleBlock =>
    exact (Means.skip (means_ident.cons means_collectibleProp.items.each.braces.last)).mono
      fun _ h => Body.fit_of_cons rfl key?_of_text h
  case levelBlock =>
    exact (Means.skip (means_string.cons means_levelProp.withComma.many.braces.last)).mono
      fun _ h => Body.fit_of_cons rfl key?_of_text h
  case hudElement =>
    refine (means_hudType.cons means_hudProp.items.each.braces).mono fun _ h =>
      Body.fit_of_cons rfl ?_ h
    rintro _ ⟨kind, rfl, -⟩
    rfl
  case rulesBlock =>
    exact (Means.skip means_ruleProp.items.each.braces).mono fun _ h => Body.fit_of_each rfl h
  case soundsBlock =>
    exact (Means.skip means_soundProp.items.each.braces).mono fun _ h => Body.fit_of_each rfl h
  case animation =>
    exact (Means.skip (means_ident.cons means_animProp.items.each.braces.last)).mono fun _ h =>
      Body.fit_of_cons rfl key?_of_text h
  case patrol | chase | fly =>
    exact (Means.skip means_movementParam.items.each.braces).mono fun _ h => Body.fit_of_each rfl h

theorem Body.fit_of_derives {l : Label} {b : Body} (hb : body? l = some b) {toks : List Token}
    {trees : List Tree} (hd : Derives b.phrase toks trees)
    (hm : ∀ tok ∈ toks, tok.terminal.Matches tok.text.toList)
    (hparts : (meanings trees).outcome = .ok parts) : b.Fit parts := by
  have hreadable : ∀ tok ∈ toks, Readable (fun _ => True) tok := fun tok htok =>
    ⟨hm tok htok, fun hnumber => by
      obtain ⟨-, n, hn⟩ :=
        exists_ofLiteral_of_derives hd (phrase_numbersLabelled hb) hparts htok hnumber
      exact ⟨n, hn, trivial⟩⟩
  obtain ⟨xs, hxs, hfit⟩ := means_body hb hd hreadable False.elim
  rwa [Except.ok.inj (hparts.symm.trans hxs)]

/-! ## What a body describes -/

namespace Body

variable {b : Body}

/-- The block for what a body describes, if it is the body of a block. -/
def enclose (b : Body) (place : Option Position) (x : Sketch) : Sketch :=
  match b.kind with
  | .config => .block .config x place
  | .player => .block .player x place
  | .enemy => .block .enemy x none
  | .collectible => .block .collectible x none
  | .level => .block .level x none
  | .rules => .block .rules x place
  | .sounds => .block .sounds x place
  | _ => x

theorem fieldValue_eq (hb : b.named = none) (hk : b.Keyed)
    (hfit : ∀ x ∈ parts, Fits b.singles b.lists x) :
    Node.fieldValue b.kind [] parts = b.field parts := by
  funext key
  simp [Node.fieldValue, field, hb, valueOf_eq_settled hk.singles hk.lists key hfit]

theorem fieldValue_named {f : String} (hb : b.named = some f) (hk : b.Keyed) {name : Sketch}
    (hname : name.key? = none) {props : List Sketch}
    (hfit : ∀ x ∈ props, Fits b.singles b.lists x) :
    Node.fieldValue b.kind [(f, name)] props = b.field (name :: props) := by
  funext key
  by_cases hkey : f = key
  · simp [Node.fieldValue, field, hb, hkey]
  · have hsettled : settled key (name :: props) = settled key props := by
      simp [settled, under, hname]
    have hbeq : (key == f) = false := beq_false_of_ne (Ne.symm hkey)
    simp [Node.fieldValue, field, hb, hkey, hbeq, List.lookup_cons, hsettled,
      valueOf_eq_settled hk.singles hk.lists key hfit]

theorem described_eq (hb : b.named = none) (hs : Node.Suits b.kind [] b.singles b.lists)
    (hk : b.Keyed) (hfit : b.Fit n.parts) :
    n.described b.kind = pure (.record b.kind (b.kind.fields.map (b.field n.parts))) := by
  rw [Fit, hb] at hfit
  rw [n.described_eq hs hfit, fieldValue_eq hb hk hfit]

theorem describedAs_eq {f : String} (hb : b.named = some f)
    (hs : Node.Suits b.kind [f] b.singles b.lists) (hk : b.Keyed) (hfit : b.Fit n.parts) :
    n.describedAs b.kind f = pure (.record b.kind (b.kind.fields.map (b.field n.parts))) := by
  rw [Fit, hb] at hfit
  obtain ⟨name, props, hparts, hname, hfit⟩ := hfit
  rw [n.describedAs_eq hs hparts hfit, fieldValue_named hb hk hname hfit, hparts]

theorem movement_outcome (hb : b.named = none) (hlists : b.lists = [])
    (hown : Node.ownKey ∉ b.kind.fields) (hk : b.Keyed) (hfit : b.Fit n.parts) :
    (n.movement b.kind).outcome =
      .ok (.record b.kind (b.kind.fields.map (b.field n.parts))) := by
  rw [Fit, hb] at hfit
  rw [n.movement_eq (hlists ▸ hfit) hown, fieldValue_eq hb hk hfit]

end Body

/-- A body comes to what is settled under its keys. -/
theorem Node.outcome_of_fit {b : Body} (h : body? n.label = some b) (hfit : b.Fit n.parts) :
    n.assemble.outcome =
      .ok (b.enclose n.place (.record b.kind (b.kind.fields.map (b.field n.parts)))) := by
  have hk := Body.keyed h
  obtain ⟨label, place, parts, missing⟩ := n
  cases label <;> cases h
  case configBlock =>
    simp only [assemble, block, Body.described_eq rfl configSuits hk hfit]
    rfl
  case playerBlock =>
    simp only [assemble, block, Body.described_eq rfl playerSuits hk hfit]
    rfl
  case rulesBlock =>
    simp only [assemble, block, Body.described_eq rfl rulesSuits hk hfit]
    rfl
  case soundsBlock =>
    simp only [assemble, block, Body.described_eq rfl soundSuits hk hfit]
    rfl
  case enemyBlock =>
    simp only [assemble, namedBlock, Body.describedAs_eq rfl enemySuits hk hfit]
    rfl
  case collectibleBlock =>
    simp only [assemble, namedBlock, Body.describedAs_eq rfl collectibleSuits hk hfit]
    rfl
  case levelBlock =>
    simp only [assemble, namedBlock, Body.describedAs_eq rfl levelSuits hk hfit]
    rfl
  case hudElement =>
    simp only [assemble, Body.describedAs_eq rfl hudSuits hk hfit]
    rfl
  case animation =>
    simp only [assemble, Body.describedAs_eq rfl clipSuits hk hfit]
    rfl
  case patrol | chase | fly =>
    simp only [assemble, Body.movement_outcome rfl rfl (by decide) hk hfit]
    rfl

/-! ## Trees of games -/

/-- Every node of the tree stands where the grammar of games has it. -/
def Grown (t : Tree) : Prop :=
  ∀ l span children, Tree.Within (.node l span children) t →
    ∃ q us, (l, q) ∈ start.nodes ∧ Derives q us children ∧
      ∀ tok ∈ us, tok.terminal.Matches tok.text.toList

namespace Grown

theorem of_derives {toks : List Token} {tree : Tree} (hd : Derives start toks [tree])
    (hm : ∀ tok ∈ toks, tok.terminal.Matches tok.text.toList) : Grown tree := by
  intro l span children hw
  obtain ⟨q, us, hq, hd', hus⟩ := hd.exists_of_within List.mem_cons_self hw
  exact ⟨q, us, hq, hd', fun tok htok => hm tok (hus htok)⟩

variable {l : Label} {span : Option Span} {children : List Tree}

theorem child (h : Grown (.node l span children)) {t : Tree} (ht : t ∈ children) : Grown t :=
  fun l' span' children' hw => h l' span' children' (.child ht hw)

/-- The parts of a body that is built fit, and their keys are those of the trees. -/
theorem fit (h : Grown (.node l span children)) {b : Body} (hb : body? l = some b)
    (hparts : (meanings children).outcome = .ok parts) :
    b.Fit parts ∧ parts.map Sketch.key? = children.map Tree.key? := by
  obtain ⟨q, us, hq, hd, hm⟩ := h l span children .refl
  obtain rfl := Body.phrase_eq hb hq
  exact ⟨Body.fit_of_derives hb hd hm hparts,
    keys_of_derives hd (Body.phrase_keyed hb) hparts⟩

end Grown

/-! ## What is built, if anything -/

/-- What is built, if anything; which failure comes first may depend on the order. -/
def Build.result? (x : Build α) : Option α := x.outcome.toOption

theorem Build.result?_bind (x : Build α) (f : α → Build β) :
    (x >>= f).result? = x.result?.bind fun a => (f a).result? := by
  rw [result?, Build.outcome_eq_bind, result?]
  cases x.outcome <;> rfl

theorem result?_meaning (l : Label) (span : Option Span) (children : List Tree) :
    (meaning (.node l span children)).result? = (meanings children).result?.bind fun parts =>
      (Node.assemble ⟨l, span.map (·.first), parts, .noPart⟩).result? := by
  rw [meaning, Build.result?_bind]

theorem result?_meanings_append (ts us : List Tree) :
    (meanings (ts ++ us)).result? = (meanings ts).result?.bind fun xs =>
      (meanings us).result?.map (xs ++ ·) := by
  rw [meanings_append, Build.result?_bind]
  refine congrArg _ (funext fun xs => ?_)
  rw [Build.result?_bind]
  cases (meanings us).result? <;> rfl

theorem result?_meanings_cons (t : Tree) (ts : List Tree) :
    (meanings (t :: ts)).result? = (meaning t).result?.bind fun x =>
      (meanings ts).result?.map (x :: ·) := by
  rw [meanings, Build.result?_bind]
  refine congrArg _ (funext fun xs => ?_)
  rw [Build.result?_bind]
  cases (meanings ts).result? <;> rfl

/-- Two neighbours are built in either order. -/
theorem meanings_swap (before after : List Tree) (t u : Tree) :
    ((meanings (before ++ t :: u :: after)).result? = none ∧
      (meanings (before ++ u :: t :: after)).result? = none) ∨
    ∃ xs x y ys, (meanings before).result? = some xs ∧ (meaning t).result? = some x ∧
      (meaning u).result? = some y ∧
      (meanings (before ++ t :: u :: after)).result? = some (xs ++ x :: y :: ys) ∧
      (meanings (before ++ u :: t :: after)).result? = some (xs ++ y :: x :: ys) := by
  simp only [result?_meanings_append, result?_meanings_cons]
  cases (meanings before).result? with
  | none => simp
  | some xs =>
    cases (meaning t).result? <;> cases (meaning u).result? <;>
      cases (meanings after).result? <;> simp

/-! ## Swapping neighbours -/

end Draft

/-- The tree with two neighbours swapped: properties with different keys in a body, or blocks of
different kinds in a game. -/
inductive Parse.Tree.Swap : Tree → Tree → Prop
  | properties {l : Label} {t u : Tree} {k k' : String} : (Draft.body? l).isSome = true →
    t.key? = some k → u.key? = some k' → k ≠ k' →
    Swap (.node l span (before ++ t :: u :: after)) (.node l span (before ++ u :: t :: after))
  | blocks {l l' : Label} {k k' : BlockKind} : Draft.blockKind? l = some k →
    Draft.blockKind? l' = some k' → k ≠ k' →
    Swap (.node .game span (before ++ .node l s ts :: .node l' s' ts' :: after))
      (.node .game span (before ++ .node l' s' ts' :: .node l s ts :: after))
  | inside : Swap t t' → Swap (.node l span (before ++ t :: after))
      (.node l span (before ++ t' :: after))

namespace Draft

/-- Swapping properties with different keys changes nothing in a body. -/
theorem Body.fit_swap {b : Body} {xs ys : List Sketch} {y : Sketch} {k k' : String}
    (hx : x.key? = some k) (hy : y.key? = some k') (hne : k ≠ k')
    (hfit : b.Fit (xs ++ x :: y :: ys)) :
    b.Fit (xs ++ y :: x :: ys) ∧ b.field (xs ++ y :: x :: ys) = b.field (xs ++ x :: y :: ys) := by
  have hmem (zs : List Sketch) (h : ∀ z ∈ zs ++ x :: y :: ys, Fits b.singles b.lists z) :
      ∀ z ∈ zs ++ y :: x :: ys, Fits b.singles b.lists z := by
    intro z hz
    refine h z ?_
    simp only [List.mem_append, List.mem_cons] at hz ⊢
    tauto
  cases hb : b.named with
  | none =>
    rw [Fit, hb] at hfit ⊢
    refine ⟨hmem xs hfit, funext fun key => ?_⟩
    simp [field, hb, settled_swap hx hy hne]
  | some f =>
    rw [Fit, hb] at hfit ⊢
    obtain ⟨name, props, hparts, hname, hfit⟩ := hfit
    -- what stands in front of the body has no key
    cases xs with
    | nil =>
      obtain ⟨rfl, -⟩ := List.cons.inj hparts
      rw [hx] at hname
      cases hname
    | cons z zs =>
      obtain ⟨rfl, rfl⟩ := List.cons.inj hparts
      refine ⟨⟨z, zs ++ y :: x :: ys, rfl, hname, hmem zs hfit⟩, funext fun key => ?_⟩
      simp only [field, hb, settled_swap hx hy hne]
      rfl

theorem result?_eq_some {x : Build α} {a : α} : x.result? = some a ↔ x.outcome = .ok a :=
  toOption_eq_some

theorem length_of_meanings {ts : List Tree} {xs : List Sketch}
    (h : (meanings ts).result? = some xs) : xs.length = ts.length := by
  induction ts generalizing xs with
  | nil =>
    cases h
    rfl
  | cons t ts ih =>
    rw [result?_meanings_cons, Option.bind_eq_some_iff] at h
    obtain ⟨x, -, h⟩ := h
    obtain ⟨ys, hys, rfl⟩ := Option.map_eq_some_iff.1 h
    rw [List.length_cons, List.length_cons, ih hys]

theorem result?_properties_swap {l : Label} {span : Option Span} {before after : List Tree}
    {t u : Tree} {k k' : String} (hl : (body? l).isSome = true) (ht : t.key? = some k)
    (hu : u.key? = some k') (hne : k ≠ k')
    (hg : Grown (.node l span (before ++ t :: u :: after))) :
    (meaning (.node l span (before ++ u :: t :: after))).result? =
      (meaning (.node l span (before ++ t :: u :: after))).result? := by
  obtain ⟨b, hb⟩ := Option.isSome_iff_exists.1 hl
  rw [result?_meaning, result?_meaning]
  rcases meanings_swap before after t u with ⟨hnone, hnone'⟩ | ⟨xs, x, y, ys, hxs, -, -, hs, hs'⟩
  · rw [hnone, hnone']
  · obtain ⟨hfit, hkeys⟩ := hg.fit hb (result?_eq_some.1 hs)
    rw [List.map_append, List.map_append] at hkeys
    have hlen : (xs.map Sketch.key?).length = (before.map Tree.key?).length := by
      rw [List.length_map, List.length_map, length_of_meanings hxs]
    obtain ⟨-, hkeys⟩ := List.append_inj hkeys hlen
    simp only [List.map_cons, List.cons.injEq, ht, hu] at hkeys
    obtain ⟨hfit', hfield⟩ := Body.fit_swap hkeys.1 hkeys.2.1 hne hfit
    have hout {parts : List Sketch} (hfit : b.Fit parts) := Node.outcome_of_fit
      (n := ⟨l, span.map (·.first), parts, .noPart⟩) hb hfit
    rw [hs, hs', Option.bind_some, Option.bind_some, Build.result?, Build.result?, hout hfit,
      hout hfit', hfield]

/-! ### Blocks -/

/-- The values of the blocks of a kind, in order. -/
def blocksOfKind (kind : BlockKind) (parts : List Sketch) : List Sketch :=
  parts.filterMap fun
    | .block k value _ => if k = kind then some value else none
    | _ => none

theorem ofKind_blocksOf (kind : BlockKind) (parts : List Sketch) :
    Node.ofKind kind (blocksOf parts) = blocksOfKind kind parts := by
  induction parts with
  | nil => rfl
  | cons x parts ih =>
    cases x with
    | block k value place =>
      by_cases hk : k = kind <;> simpa [Node.ofKind, blocksOf, blocksOfKind, hk] using ih
    | _ => exact ih

/-- A game of a title and blocks: the last one counts, or all of them. -/
def gameRecord (title : Sketch) (parts : List Sketch) : Sketch :=
  .record .game [title, (blocksOfKind .config parts).getLast?.getD .null,
    .tuple ((blocksOfKind .assets parts).flatMap fun x => x.items?.getD []),
    (blocksOfKind .player parts).getLast?.getD .null, .tuple (blocksOfKind .enemy parts),
    .tuple (blocksOfKind .collectible parts), .tuple (blocksOfKind .level parts),
    (blocksOfKind .hud parts).getLast?.getD .null, (blocksOfKind .rules parts).getLast?.getD .null,
    (blocksOfKind .sounds parts).getLast?.getD .null]

theorem gameOf_blocksOf (title : Sketch) (parts : List Sketch) :
    Node.gameOf title (blocksOf parts) = gameRecord title parts := by
  simp only [Node.gameOf, Node.lastOfKind, ofKind_blocksOf, gameRecord]

theorem blocksOfKind_swap (hne : k ≠ k') (kind : BlockKind) (xs ys : List Sketch) (v w : Sketch)
    (p q : Option Position) : blocksOfKind kind (xs ++ .block k' w q :: .block k v p :: ys) =
      blocksOfKind kind (xs ++ .block k v p :: .block k' w q :: ys) := by
  simp only [blocksOfKind, List.filterMap_append, List.filterMap_cons]
  by_cases hk : k = kind
  · have hk' : k' ≠ kind := fun h => hne (hk.trans h.symm)
    simp [hk, hk']
  · simp [hk]

theorem gameRecord_swap (hne : k ≠ k') (title : Sketch) (xs ys : List Sketch) (v w : Sketch)
    (p q : Option Position) : gameRecord title (xs ++ .block k' w q :: .block k v p :: ys) =
      gameRecord title (xs ++ .block k v p :: .block k' w q :: ys) := by
  simp only [gameRecord, blocksOfKind_swap hne]

theorem result?_game {trees : List Tree} (htrees : ∀ t ∈ trees, IsBlockTree t) (title : Tree)
    (span : Option Span) : (meaning (.node .game span (title :: trees))).result? =
      (meaning title).result?.bind fun x => (meanings trees).result?.map (gameRecord x) := by
  rw [Build.result?, outcome_meaning_game htrees, Build.result?, Build.result?]
  cases (meaning title).outcome with
  | error e => rfl
  | ok x =>
    cases (meanings trees).outcome with
    | error e => rfl
    | ok xs => exact congrArg some (gameOf_blocksOf x xs)

theorem result?_start (span : Option Span) (t : Tree) :
    (meaning (.node .start span [t])).result? = (meaning t).result? := by
  rw [result?_meaning, result?_meanings_cons]
  cases (meaning t).result? <;> rfl

theorem isRooted_gameBlock : (Phrase.many gameBlock).rootedIn blockLabels = true := by decide

/-- The children of a game are its title and its blocks. -/
theorem Grown.game {span : Option Span} {children : List Tree}
    (h : Grown (.node .game span children)) :
    ∃ title trees, children = title :: trees ∧ (∃ s ts, title = .node .string s ts) ∧
      ∀ t ∈ trees, IsBlockTree t := by
  obtain ⟨q, us, hq, hd, -⟩ := h .game span children .refl
  have hall : (start.nodes.all fun e => e.1 != .game || e.2 == Grammar.game.inside) = true := by
    decide +kernel
  obtain rfl : q = Grammar.game.inside := by simpa using List.all_eq_true.1 hall (.game, q) hq
  obtain ⟨_, title, _, trees, rfl, htitle, hblocks⟩ := exists_of_derives_game hd
  obtain ⟨_, _, _, -, -, heq⟩ := derives_node_iff.1 htitle
  exact ⟨title, trees, rfl, ⟨_, _, List.singleton_inj.1 heq⟩,
    hblocks.exists_node_of_rootedIn isRooted_gameBlock⟩

theorem exists_block_of_meaning {l : Label} {kind : BlockKind} (hl : blockKind? l = some kind)
    {span : Option Span} {children : List Tree}
    (h : (meaning (.node l span children)).result? = some x) :
    ∃ value place, x = .block kind value place := by
  rw [result?_meaning, Option.bind_eq_some_iff] at h
  obtain ⟨parts, -, h⟩ := h
  have hlabel : blockKind? (Node.mk l (span.map (·.first)) parts .noPart).label = some kind := hl
  exact Node.exists_block_of_assemble hlabel (result?_eq_some.1 h)

theorem result?_blocks_swap {l l' : Label} (hl : blockKind? l = some k)
    (hl' : blockKind? l' = some k') (hne : k ≠ k') {span s s' : Option Span}
    {before after ts ts' : List Tree}
    (hg : Grown (.node .game span (before ++ .node l s ts :: .node l' s' ts' :: after))) :
    (meaning (.node .game span (before ++ .node l' s' ts' :: .node l s ts :: after))).result? =
      (meaning (.node .game span
        (before ++ .node l s ts :: .node l' s' ts' :: after))).result? := by
  obtain ⟨title, trees, hchildren, ⟨_, _, rfl⟩, htrees⟩ := hg.game
  -- the title is no block, so it stands in front of both
  cases before with
  | nil =>
    obtain ⟨htitle, -⟩ := List.cons.inj hchildren
    cases htitle
    cases hl
  | cons t before =>
    rw [List.cons_append] at hchildren
    obtain ⟨rfl, rfl⟩ := List.cons.inj hchildren
    have htrees' : ∀ t ∈ before ++ .node l' s' ts' :: .node l s ts :: after, IsBlockTree t := by
      intro t ht
      refine htrees t ?_
      simp only [List.mem_append, List.mem_cons] at ht ⊢
      tauto
    rw [List.cons_append, List.cons_append, result?_game htrees, result?_game htrees']
    rcases meanings_swap before after (.node l s ts) (.node l' s' ts') with
      ⟨hnone, hnone'⟩ | ⟨xs, x, y, ys, -, hx, hy, hs, hs'⟩
    · rw [hnone, hnone']
    · obtain ⟨v, p, rfl⟩ := exists_block_of_meaning hl hx
      obtain ⟨w, q, rfl⟩ := exists_block_of_meaning hl' hy
      rw [hs, hs']
      simp only [Option.map_some, gameRecord_swap hne]

/-- Swapping neighbours changes nothing in what is built. -/
theorem result?_swap {t t' : Tree} (h : t.Swap t') (hg : Grown t) :
    (meaning t').result? = (meaning t).result? := by
  induction h with
  | properties hl ht hu hne => exact result?_properties_swap hl ht hu hne hg
  | blocks hl hl' hne => exact result?_blocks_swap hl hl' hne hg
  | inside _ ih =>
    have heq := ih (hg.child (List.mem_append_right _ List.mem_cons_self))
    simp only [result?_meaning, result?_meanings_append, result?_meanings_cons, heq]

theorem sketch_of_swap {t t' : Tree} (h : t.Swap t') :
    sketch t = meaning t ∧ sketch t' = meaning t' := by
  cases h <;> exact ⟨rfl, rfl⟩

/-- Where a tree is built, so is every node of it. -/
theorem exists_parts_of_within {l : Label} {span : Option Span} {children : List Tree} {t : Tree}
    (hw : Tree.Within (.node l span children) t) (h : (meaning t).result? = some x) :
    ∃ parts, (meanings children).result? = some parts := by
  induction hw generalizing x with
  | refl =>
    rw [result?_meaning, Option.bind_eq_some_iff] at h
    obtain ⟨parts, hparts, -⟩ := h
    exact ⟨parts, hparts⟩
  | @child u us l' span' hu _ ih =>
    rw [result?_meaning, Option.bind_eq_some_iff] at h
    obtain ⟨parts, hparts, -⟩ := h
    obtain ⟨before, after, rfl⟩ := List.append_of_mem hu
    rw [result?_meanings_append, Option.bind_eq_some_iff] at hparts
    obtain ⟨_, -, hparts⟩ := hparts
    obtain ⟨_, hparts, -⟩ := Option.map_eq_some_iff.1 hparts
    rw [result?_meanings_cons, Option.bind_eq_some_iff] at hparts
    obtain ⟨y, hy, -⟩ := hparts
    exact ih hy

/-- Order matters only within a key. In the tree of a game, properties with different keys that
stand side by side in a body may be swapped, and so may blocks of different kinds. Each body comes
to what is settled under its keys: the last value, or all that is added to a list. The game has the
last block, or all blocks, of each kind. -/
theorem sketch_by_key {source : String} {tree : Tree} (h : readAs start source = .ok [tree]) :
    (∀ tree', tree.Swap tree' → (sketch tree').result? = (sketch tree).result?) ∧
    ∀ x, (sketch tree).outcome = .ok x →
      (∀ l span children b, Tree.Within (.node l span children) tree → body? l = some b →
        ∃ parts, (meanings children).outcome = .ok parts ∧
          parts.map Sketch.key? = children.map Tree.key? ∧
          (meaning (.node l span children)).outcome = .ok (b.enclose (span.map (·.first))
            (.record b.kind (b.kind.fields.map (b.field parts))))) ∧
      ∃ span span' title blocks name parts,
        tree = .node .start span [.node .game span' (title :: blocks)] ∧
        (meaning title).outcome = .ok name ∧ (meanings blocks).outcome = .ok parts ∧
        x = gameRecord name parts := by
  obtain ⟨toks, tree', htree, hd, hs⟩ :=
    exists_derives_of_readAs (mem_entries_of_eq_ok (rfl : entry? "start" = .ok start)) h
  obtain rfl := List.singleton_inj.1 htree
  have hg := Grown.of_derives hd hs.matches
  obtain ⟨span, span', titles, title, blocks, inside, htree, htitle, hblocks⟩ :=
    exists_tree_of_derives_start hd
  obtain rfl := List.singleton_inj.1 htree
  refine ⟨fun tree' hswap => ?_, fun x hx => ⟨fun l s children b hw hb => ?_, ?_⟩⟩
  · obtain ⟨hsketch, hsketch'⟩ := sketch_of_swap hswap
    rw [hsketch, hsketch', result?_swap hswap hg]
  · obtain ⟨parts, hparts⟩ := exists_parts_of_within hw (result?_eq_some.2 hx)
    have hparts := result?_eq_some.1 hparts
    have hnode : Grown (.node l s children) := fun l' s' children' hw' =>
      hg l' s' children' (hw'.trans hw)
    obtain ⟨hfit, hkeys⟩ := hnode.fit hb hparts
    refine ⟨parts, hparts, hkeys, ?_⟩
    rw [meaning, Build.outcome_bind hparts]
    exact Node.outcome_of_fit (n := ⟨l, s.map (·.first), parts, .noPart⟩) hb hfit
  · have htrees : ∀ t ∈ blocks, IsBlockTree t := hblocks.exists_node_of_rootedIn isRooted_gameBlock
    have hgame := result?_eq_some.2 hx
    rw [sketch, result?_start, result?_game htrees, Option.bind_eq_some_iff] at hgame
    · obtain ⟨name, hname, hgame⟩ := hgame
      obtain ⟨parts, hparts, rfl⟩ := Option.map_eq_some_iff.1 hgame
      exact ⟨span, span', title, blocks, name, parts, rfl, result?_eq_some.1 hname,
        result?_eq_some.1 hparts, rfl⟩
    · simp

/-- Losing is said twice, with winning in between. -/
def twiceLost : String :=
  r#"game "Order" { rules { lose: noLives win: reachExit lose: fallOff } hud { } }"#

theorem sketch_by_key_twiceLost : ∃ tree, readAs start twiceLost = .ok [tree] ∧
    (∀ tree', tree.Swap tree' → (sketch tree').result? = (sketch tree).result?) ∧
    ∀ x, (sketch tree).outcome = .ok x →
      (∀ l span children b, Tree.Within (.node l span children) tree → body? l = some b →
        ∃ parts, (meanings children).outcome = .ok parts ∧
          parts.map Sketch.key? = children.map Tree.key? ∧
          (meaning (.node l span children)).outcome = .ok (b.enclose (span.map (·.first))
            (.record b.kind (b.kind.fields.map (b.field parts))))) ∧
      ∃ span span' title blocks name parts,
        tree = .node .start span [.node .game span' (title :: blocks)] ∧
        (meaning title).outcome = .ok name ∧ (meanings blocks).outcome = .ok parts ∧
        x = gameRecord name parts := by
  have hok : (readAs start twiceLost).isOk = true := by decide +kernel
  obtain ⟨trees, hread⟩ := exists_of_isOk hok
  obtain ⟨_, tree, rfl, -⟩ :=
    exists_derives_of_readAs (mem_entries_of_eq_ok (rfl : entry? "start" = .ok start)) hread
  exact ⟨tree, hread, sketch_by_key hread⟩

end Draft

end PlatformGame
