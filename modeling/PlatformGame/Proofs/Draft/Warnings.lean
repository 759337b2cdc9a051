import PlatformGame.Proofs.Draft.Layout
import PlatformGame.Proofs.Draft.Origin
import PlatformGame.Proofs.Draft.Patterns

/-! # What is warned about

All that building a game warns about is told by the tokens of its text: first the parameters that
movement patterns ignore, then the blocks that come again, both in the order of the text. So are the
movements that are built: an enemy has the last pattern of its block, with the last values of the
parameters of its kind. -/

namespace PlatformGame

open Grammar Parse Source

variable {toks : List Token} {parts : List Sketch} {first : Token} {d : Draft} {x : Sketch}
  {body : List Token}

namespace BlockKind

def all : List BlockKind :=
  [config, assets, player, enemy, collectible, level, hud, rules, sounds]

def word : BlockKind → Keyword
  | config => .config
  | assets => .assets
  | player => .player
  | enemy => .enemy
  | collectible => .collectible
  | level => .level
  | hud => .hud
  | rules => .rules
  | sounds => .sounds

def label : BlockKind → Label
  | config => .configBlock
  | assets => .assetsBlock
  | player => .playerBlock
  | enemy => .enemyBlock
  | collectible => .collectibleBlock
  | level => .levelBlock
  | hud => .hudBlock
  | rules => .rulesBlock
  | sounds => .soundsBlock

def phrase : BlockKind → Phrase
  | config => configBlock
  | assets => assetsBlock
  | player => playerBlock
  | enemy => enemyBlock
  | collectible => collectibleBlock
  | level => levelBlock
  | hud => hudBlock
  | rules => rulesBlock
  | sounds => soundsBlock

end BlockKind

namespace Draft

/-! ## Blocks among tokens -/

/-- The word starts a block. -/
def startsBlock : Terminal → Bool
  | .keyword k => blockWords.contains k
  | _ => false

/-- The kind of block that a word starts, if only the last one of the kind counts. -/
def singleBlock? : Terminal → Option BlockKind
  | .keyword .config => some .config
  | .keyword .player => some .player
  | .keyword .hud => some .hud
  | .keyword .rules => some .rules
  | .keyword .sounds => some .sounds
  | _ => none

/-- The blocks of which only the last counts, with the places of their first words. -/
def singlesIn (toks : List Token) : List (BlockKind × Option Position) :=
  toks.filterMap fun tok => (singleBlock? tok.terminal).map fun kind => (kind, some tok.span.first)

theorem singlesIn_append (ts us : List Token) :
    singlesIn (ts ++ us) = singlesIn ts ++ singlesIn us := List.filterMap_append

/-- One warning for each block whose kind has occurred before. -/
def repeats (earlier : List BlockKind) : List (BlockKind × Option Position) → List Warning
  | [] => []
  | (kind, place) :: blocks =>
    (if kind ∈ earlier then [.duplicateBlock kind.text place] else []) ++
      repeats (kind :: earlier) blocks

/-- What comes before the next block. -/
def beforeBlock (toks : List Token) : List Token :=
  toks.takeWhile fun t => !startsBlock t.terminal

/-- The tokens of each enemy, up to the next block. -/
def enemiesIn : List Token → List (List Token)
  | [] => []
  | tok :: toks =>
    (if tok.terminal = .keyword .enemy then [beforeBlock toks] else []) ++ enemiesIn toks

theorem repeats_eq_nil_iff {earlier : List BlockKind}
    {blocks : List (BlockKind × Option Position)} :
    repeats earlier blocks = [] ↔
      (blocks.map (·.1)).Nodup ∧ ∀ kind ∈ blocks.map (·.1), kind ∉ earlier := by
  induction blocks generalizing earlier with
  | nil => simp [repeats]
  | cons b blocks ih =>
    rw [repeats, List.append_eq_nil_iff, ih, List.map_cons, List.nodup_cons, List.forall_mem_cons]
    simp only [List.mem_cons, not_or, ite_eq_right_iff, List.cons_ne_nil, imp_false]
    constructor
    · rintro ⟨hfirst, hnodup, hrest⟩
      exact ⟨⟨fun h => (hrest _ h).1 rfl, hnodup⟩, hfirst, fun k hk => (hrest k hk).2⟩
    · rintro ⟨⟨hnew, hnodup⟩, hfirst, hrest⟩
      exact ⟨hfirst, hnodup, fun k hk => ⟨fun h => hnew (h ▸ hk), hrest k hk⟩⟩

/-! ## Blocks as they are built -/

/-- The blocks among the parts of which only the last counts. -/
def singlesOf (parts : List Sketch) : List (BlockKind × Option Position) :=
  parts.filterMap fun
    | .block kind _ place => if Node.isSingle kind then some (kind, place) else none
    | _ => none

/-- Adding blocks to earlier ones warns about those that come again. -/
theorem Node.addBlocks_warnings (h : ∀ x ∈ parts, IsBlock x) {blocks : List (BlockKind × Sketch)}
    {earlier : List BlockKind}
    (hearlier : ∀ kind, isSingle kind = true → (blocks.any (·.1 == kind) = true ↔ kind ∈ earlier)) :
    (addBlocks blocks parts).warnings = repeats earlier (singlesOf parts) := by
  induction parts generalizing blocks earlier with
  | nil => rfl
  | cons x parts ih =>
    rw [List.forall_mem_cons] at h
    obtain ⟨kind, value, place, rfl⟩ := h.1
    have hmore (kind' : BlockKind) : (blocks ++ [(kind, value)]).any (·.1 == kind') = true ↔
        kind' = kind ∨ blocks.any (·.1 == kind') = true := by
      simp only [List.any_append, List.any_cons, List.any_nil, Bool.or_false, Bool.or_eq_true,
        beq_iff_eq]
      rw [or_comm, eq_comm]
    rw [addBlocks, Build.warnings_bind (addBlock_outcome blocks kind value place)]
    cases hs : isSingle kind with
    | false =>
      have hsingles : singlesOf (.block kind value place :: parts) = singlesOf parts := by
        simp [singlesOf, hs]
      have hrest : (addBlocks (blocks ++ [(kind, value)]) parts).warnings =
          repeats earlier (singlesOf parts) := ih h.2 fun kind' hs' => by
        have hne : kind' ≠ kind := by
          rintro rfl
          rw [hs] at hs'
          cases hs'
        rw [hmore, or_iff_right hne, hearlier kind' hs']
      rw [hsingles, hrest]
      simp only [addBlock, hs, Bool.false_and]
      rfl
    | true =>
      have hsingles : singlesOf (.block kind value place :: parts) =
          (kind, place) :: singlesOf parts := by
        simp [singlesOf, hs]
      have hrest : (addBlocks (blocks ++ [(kind, value)]) parts).warnings =
          repeats (kind :: earlier) (singlesOf parts) := ih h.2 fun kind' hs' => by
        rw [hmore, List.mem_cons, hearlier kind' hs']
      rw [hsingles, repeats, hrest]
      congr 1
      by_cases hmem : kind ∈ earlier
      · simp only [addBlock, hs, (hearlier kind hs).2 hmem, if_pos hmem]
        rfl
      · have hany : blocks.any (·.1 == kind) = false :=
          Bool.eq_false_iff.2 (mt (hearlier kind hs).1 hmem)
        simp only [addBlock, hs, hany, if_neg hmem]
        rfl

/-- A block that is built is of the kind of its label, at the place of its node if a warning may
need it. -/
theorem Node.exists_place_of_assemble {n : Node} {kind : BlockKind} (hl : n.label = kind.label)
    (h : n.assemble.outcome = .ok x) :
    ∃ value place, x = .block kind value place ∧ (isSingle kind = true → place = n.place) := by
  have hkind : blockKind? n.label = some kind := by
    rw [hl]
    cases kind <;> rfl
  obtain ⟨value, place, rfl⟩ := exists_block_of_assemble hkind h
  refine ⟨value, place, rfl, fun hs => ?_⟩
  have hblock {thing : RecordKind}
      (h : (n.block kind thing).outcome = .ok (.block kind value place)) : place = n.place := by
    obtain ⟨v, -, hx⟩ := Build.exists_of_outcome_bind h
    cases hx
    rfl
  obtain ⟨label, place', parts, missing⟩ := n
  cases hl
  cases kind with
  | config | player | rules | sounds => exact hblock h
  | hud =>
    cases h
    rfl
  | assets | enemy | collectible | level => cases hs

/-! ### Enemies -/

theorem movement_of_asEnemy? {values : List Sketch} {e : Enemy}
    (h : (Sketch.record .enemy values).asEnemy? = some e) (hx : values[2]? = some x) :
    x.asOption? Sketch.asMovement? = some e.movement := by
  unfold Sketch.asEnemy? at h
  split at h
  · next heq =>
    cases heq
    cases hx
    simp only [Option.bind_eq_bind, Option.bind_eq_some_iff, Option.pure_def,
      Option.some.injEq] at h
    obtain ⟨_, -, _, -, movement, hmovement, _, -, _, -, _, -, rfl⟩ := h
    exact hmovement
  · cases h

theorem asOption?_of_asMovement? {m : Movement} (h : x.asMovement? = some m) :
    x.asOption? Sketch.asMovement? = some (some m) := by
  unfold Sketch.asOption?
  split
  · cases h
  · rw [h]
    rfl

/-- The last movement of a body is that of the last pattern. -/
theorem asMovement?_getLast? {ps : List Pattern} {xs : List Sketch}
    (h : List.Forall₂ (fun p x => x.asMovement? = some p.movement) ps xs) :
    (xs.getLast?.getD .null).asOption? Sketch.asMovement? =
      some (ps.getLast?.map Pattern.movement) := by
  have hreverse := List.forall₂_reverse_iff.2 h
  rw [← List.head?_reverse, ← List.head?_reverse]
  generalize ps.reverse = qs at hreverse ⊢
  generalize xs.reverse = ys at hreverse ⊢
  cases hreverse with
  | nil => rfl
  | cons hlast _ => exact asOption?_of_asMovement? hlast

/-- The enemy has the movement of the last pattern in the tokens. -/
def Moves (body : List Token) (x : Sketch) : Prop :=
  ∀ e, x.asEnemy? = some e → e.movement = (patternsIn body).getLast?.map Pattern.movement

theorem moves_enemy {children : List Tree} (hfirst : first.terminal = .keyword .enemy)
    (hd : Derives enemyBlock.inside (first :: body) children)
    (hm : ∀ tok ∈ first :: body, tok.terminal.Matches tok.text.toList)
    (hparts : (meanings children).outcome = .ok parts) {n : Node} (hlabel : n.label = .enemyBlock)
    (hn : n.parts = parts) {value : Sketch} {place : Option Position}
    (hx : n.assemble.outcome = .ok (.block .enemy value place)) {after : List Token}
    (hafter : patternsIn after = []) : Moves (body ++ after) value := by
  obtain ⟨ps, hadds, hmovements⟩ := tellsMovements_enemy hd hm hparts
  have hpatterns : patternsIn (body ++ after) = ps := by
    have hwhole := hadds after
    rw [hafter, List.append_nil, List.cons_append, patternsIn, hfirst] at hwhole
    exact hwhole
  intro e he
  obtain ⟨b, hb⟩ : ∃ b, body? .enemyBlock = some b := ⟨_, rfl⟩
  have hfit : b.Fit n.parts := hn ▸ Body.fit_of_derives hb (by cases hb; exact hd) hm hparts
  rw [Node.outcome_of_fit (hlabel ▸ hb) hfit] at hx
  cases hb
  cases hx
  have hlast : ((movementsOf n.parts).getLast?.getD .null).asOption? Sketch.asMovement? =
      some e.movement := movement_of_asEnemy? he rfl
  rw [hn, asMovement?_getLast? hmovements] at hlast
  rw [hpatterns]
  exact (Option.some.inj hlast).symm

/-! ### Blocks of all kinds -/

/-- What comes before the next block has no patterns. -/
def Idle (toks : List Token) : Prop := patternsIn (beforeBlock toks) = []

/-- The tokens tell which blocks are built, in what order, and how their enemies move. -/
structure TellsBlocks (toks : List Token) (_ : List Warning) (xs : List Sketch) : Prop where
  blocks : ∀ x ∈ xs, IsBlock x
  singles : singlesIn toks = singlesOf xs
  enemies : ∀ after, Idle after → Idle (toks ++ after) ∧ ∃ bodies,
    enemiesIn (toks ++ after) = bodies ++ enemiesIn after ∧
      List.Forall₂ Moves bodies (blocksOfKind .enemy xs)

theorem additive_tellsBlocks : Additive TellsBlocks where
  nil := ⟨List.forall_mem_nil _, rfl, fun _ h => ⟨h, [], rfl, .nil⟩⟩
  append {ts ws xs us vs ys} h h' := by
    refine ⟨List.forall_mem_append.2 ⟨h.blocks, h'.blocks⟩, ?_, fun after hafter => ?_⟩
    · rw [singlesIn_append, h.singles, h'.singles]
      exact List.filterMap_append.symm
    · obtain ⟨hidle, bodies', henemies', hmoves'⟩ := h'.enemies after hafter
      obtain ⟨hidle', bodies, henemies, hmoves⟩ := h.enemies (us ++ after) hidle
      rw [List.append_assoc]
      refine ⟨hidle', bodies ++ bodies', ?_, ?_⟩
      · rw [henemies, henemies', List.append_assoc]
      · rw [blocksOfKind, List.filterMap_append]
        exact List.rel_append hmoves hmoves'

theorem BlockKind.exists_phrase (kind : BlockKind) :
    ∃ rest, kind.phrase = .node kind.label (.seq (.word kind.word) rest) ∧
      rest.allTerminals (fun t => !startsBlock t) = true := by
  cases kind <;> exact ⟨_, rfl, by decide +kernel⟩

theorem singleBlock?_of_not_startsBlock {t : Terminal} (h : startsBlock t = false) :
    singleBlock? t = none := by
  unfold singleBlock?
  split
  case h_6 => rfl
  all_goals cases h

theorem singlesIn_eq_nil (h : ∀ tok ∈ toks, startsBlock tok.terminal = false) :
    singlesIn toks = [] := by
  refine List.filterMap_eq_nil_iff.2 fun tok htok => ?_
  rw [singleBlock?_of_not_startsBlock (h tok htok)]
  rfl

theorem adds_enemiesIn_nil (h : ∀ tok ∈ toks, startsBlock tok.terminal = false) :
    Adds enemiesIn toks [] := by
  refine .of_forall fun tok htok after => ?_
  have hne : tok.terminal ≠ .keyword .enemy := fun heq => by
    have hfree := h tok htok
    rw [heq] at hfree
    cases hfree
  rw [List.singleton_append, enemiesIn, if_neg hne]

theorem enemiesIn_block (hbody : ∀ tok ∈ body, startsBlock tok.terminal = false)
    (after : List Token) : enemiesIn (first :: body ++ after) =
      (if first.terminal = .keyword .enemy then [body ++ beforeBlock after] else []) ++
        enemiesIn after := by
  have hnext : beforeBlock (body ++ after) = body ++ beforeBlock after :=
    List.takeWhile_append_of_pos (by simpa using hbody)
  rw [List.cons_append, enemiesIn, hnext, adds_enemiesIn_nil hbody after]
  rfl

theorem singlesIn_block {kind : BlockKind} (hfirst : first.terminal = .keyword kind.word)
    (hbody : ∀ tok ∈ body, startsBlock tok.terminal = false) : singlesIn (first :: body) =
      if Node.isSingle kind then [(kind, some first.span.first)] else [] := by
  rw [← List.singleton_append, singlesIn_append, singlesIn_eq_nil hbody, List.append_nil, singlesIn,
    List.filterMap_cons, hfirst]
  cases kind <;> rfl

theorem tells_block (kind : BlockKind) : Tells kind.phrase TellsBlocks := by
  intro toks trees xs hd hm hxs
  obtain ⟨rest, hphrase, hfree⟩ := BlockKind.exists_phrase kind
  rw [hphrase] at hd
  obtain ⟨first, body, children, rfl, hinside, rfl⟩ := derives_node_iff.1 hd
  obtain ⟨_, _, hword, htoks, hrest⟩ := derives_skip_iff.1 hinside
  obtain ⟨rfl, rfl⟩ := List.cons.inj htoks
  obtain ⟨parts, x, hparts, rfl, hx, -⟩ := exists_of_meanings_node hxs
  obtain ⟨value, place, rfl, hplace⟩ := Node.exists_place_of_assemble rfl hx
  have hbody : ∀ tok ∈ body, startsBlock tok.terminal = false := fun tok htok => by
    simpa using hrest.forall_terminal hfree tok htok
  refine ⟨List.forall_mem_singleton.2 ⟨kind, value, place, rfl⟩, ?_, fun after hafter => ⟨?_, ?_⟩⟩
  · rw [singlesIn_block hword hbody]
    cases hs : Node.isSingle kind with
    | false => simp [singlesOf, hs]
    | true => simp [singlesOf, hs, hplace hs]
  · have hstarts : startsBlock first.terminal = true := by
      rw [hword]
      cases kind <;> rfl
    simp [Idle, beforeBlock, hstarts, patternsIn]
  · refine ⟨_, enemiesIn_block hbody after, ?_⟩
    by_cases henemy : kind = .enemy
    · subst henemy
      have hbare : enemyBlock.inside = .seq (.word .enemy) rest := congrArg Phrase.inside hphrase
      have hfirst : first.terminal = .keyword .enemy := hword
      rw [if_pos hfirst]
      exact .cons (moves_enemy hfirst (hbare ▸ hinside) hm hparts rfl rfl hx hafter) .nil
    · have hother : first.terminal ≠ .keyword .enemy := by
        rw [hword]
        cases kind <;> first | exact absurd rfl henemy | decide
      rw [if_neg hother]
      simp [blocksOfKind, henemy]

theorem tells_blocks : Tells (.many gameBlock) TellsBlocks := by
  refine .of_atoms additive_tellsBlocks fun q hq => ?_
  obtain ⟨kind, -, rfl⟩ : ∃ kind ∈ BlockKind.all, kind.phrase = q := List.mem_map.1 hq
  exact tells_block kind

/-! ## Games -/

theorem enemies_of_ofSketch? {title : Sketch} (h : ofSketch? (gameRecord title parts) = some d) :
    (blocksOfKind .enemy parts).mapM Sketch.asEnemy? = some d.enemies := by
  simp only [gameRecord, ofSketch?, Option.bind_eq_bind, Option.bind_eq_some_iff, Option.pure_def,
    Option.some.injEq] at h
  obtain ⟨_, -, _, -, _, -, _, -, enemies, henemies, _, -, _, -, _, -, _, -, _, -, rfl⟩ := h
  exact henemies

theorem movements_of_moves {bodies : List (List Token)} {xs : List Sketch}
    (h : List.Forall₂ Moves bodies xs) {es : List Enemy} (hes : xs.mapM Sketch.asEnemy? = some es) :
    es.map (·.movement) =
      bodies.map fun body => (patternsIn body).getLast?.map Pattern.movement := by
  induction h generalizing es with
  | nil =>
    cases hes
    rfl
  | cons hmoves _ ih =>
    simp only [List.mapM_cons, Option.bind_eq_bind, Option.bind_eq_some_iff, Option.pure_def,
      Option.some.injEq] at hes
    obtain ⟨e, he, es', hes', rfl⟩ := hes
    rw [List.map_cons, List.map_cons, hmoves e he, ih hes']

/-- What the tokens of a game tell about its building. -/
structure Told (toks : List Token) (warnings : List Warning) (d : Draft) : Prop where
  warnings_eq : warnings =
    (patternsIn toks).flatMap Pattern.ignored ++ repeats [] (singlesIn toks)
  readable : ∀ p ∈ patternsIn toks, p.Readable
  movements : d.enemies.map (·.movement) =
    (enemiesIn toks).map fun body => (patternsIn body).getLast?.map Pattern.movement

theorem Told.warnings_eq_nil_iff {warnings : List Warning} (h : Told toks warnings d) :
    warnings = [] ↔
      (∀ p ∈ patternsIn toks, ∀ e ∈ p.parameters, e.1 ∈ p.kind.parameters) ∧
        ((singlesIn toks).map (·.1)).Nodup := by
  rw [h.warnings_eq, List.append_eq_nil_iff, List.flatMap_eq_nil_iff, repeats_eq_nil_iff]
  simp [Pattern.ignored_eq_nil_iff]

/-- A game that is built of a title and blocks, with what is warned about at the end. -/
theorem assemble_game {place : Option Position} {title : Sketch} (h : ∀ x ∈ parts, IsBlock x) :
    Node.assemble ⟨.game, place, title :: parts, .noPart⟩ =
      ⟨repeats [] (singlesOf parts), .ok (gameRecord title parts)⟩ := by
  have hwarnings : (Node.addBlocks [] parts).warnings = repeats [] (singlesOf parts) :=
    Node.addBlocks_warnings h fun kind _ => by simp
  have houtcome : (Node.addBlocks [] parts).outcome = .ok (blocksOf parts) :=
    Node.addBlocks_outcome h []
  have hblocks : Node.addBlocks [] parts =
      ⟨repeats [] (singlesOf parts), .ok (blocksOf parts)⟩ := by
    rw [← hwarnings, ← houtcome]
  change (do pure (Node.gameOf title (← Node.addBlocks [] parts))) = _
  rw [hblocks, ← gameOf_blocksOf]
  change (⟨_ ++ [], _⟩ : Build Sketch) = _
  rw [List.append_nil]
  rfl

/-- The blocks of a game, and what stands around them. -/
theorem exists_tokens_of_start {tree : Tree} (h : Derives start toks [tree]) :
    ∃ front inside back span span' title blocks, toks = front ++ (inside ++ back) ∧
      (∀ tok ∈ front ++ back, startsBlock tok.terminal = false ∧
        movementKind? tok.terminal = none) ∧
      tree = .node .start span [.node .game span' (title :: blocks)] ∧
      Derives game.inside toks (title :: blocks) ∧ Derives (.many gameBlock) inside blocks := by
  obtain ⟨_, _, _, rfl, hgame, htree⟩ := derives_node_iff.1 h
  obtain ⟨_, _, _, hwhole, hparts, rfl⟩ := derives_node_iff.1 hgame
  obtain ⟨rfl, rfl⟩ := List.cons.inj hwhole
  obtain rfl := List.singleton_inj.1 htree
  obtain ⟨_, _, hfirst, hskip, hrest⟩ := derives_skip_iff.1 hparts
  obtain ⟨rfl, rfl⟩ := List.cons.inj hskip
  obtain ⟨_, _, _, blocks, rfl, rfl, htitle, hbraces⟩ := derives_seq_iff.1 hrest
  obtain ⟨_, _, _, rfl, hstring, rfl⟩ := derives_node_iff.1 htitle
  obtain ⟨_, hterminal, hone, rfl⟩ := derives_token_iff.1 hstring
  obtain ⟨brace, inside, close, rfl, hbrace, hclose, hinside⟩ :=
    exists_tokens_of_braces (derives_last_iff.1 hbraces)
  obtain ⟨rfl, rfl⟩ := List.cons.inj hone
  refine ⟨[_, _, brace], inside, [close], _, _, _, blocks, rfl, ?_, rfl, hparts, hinside⟩
  simpa [hfirst, hterminal, hbrace, hclose] using
    ⟨⟨rfl, rfl⟩, ⟨rfl, rfl⟩, ⟨rfl, rfl⟩, rfl, rfl⟩

theorem told_of_derives {tree : Tree} (hd : Derives start toks [tree])
    (hm : ∀ tok ∈ toks, tok.terminal.Matches tok.text.toList)
    (hx : (meanings [tree]).outcome = .ok [x]) (hsketch : ofSketch? x = some d) :
    Told toks (meanings [tree]).warnings d := by
  obtain ⟨front, inside, back, _, _, title, blocks, rfl, hframe, rfl, hgame, hblocks⟩ :=
    exists_tokens_of_start hd
  rw [List.forall_mem_append] at hframe
  -- the node of the text stands for the game in it
  obtain ⟨_, _, hy, hxs, hstart, hws⟩ := exists_of_meanings_node hx
  obtain ⟨xs, y, hparts, rfl, hgameof, hws'⟩ := exists_of_meanings_node hy
  cases hstart
  obtain rfl := List.singleton_inj.1 hxs
  obtain ⟨ys, zs, hys, hzs, rfl, -⟩ :=
    exists_of_meanings_append (show (meanings ([title] ++ blocks)).outcome = .ok xs from hparts)
  rw [meanings_singleton] at hys
  obtain ⟨t, -, hone⟩ := Build.exists_of_outcome_bind hys
  cases hone
  have hinside : ∀ tok ∈ inside, tok.terminal.Matches tok.text.toList := fun tok htok =>
    hm tok (by simp [htok])
  have htold := tells_blocks hblocks hinside hzs
  rw [List.singleton_append, assemble_game htold.blocks] at hgameof hws'
  cases hgameof
  obtain ⟨ps, hadds, hignored, hread⟩ :=
    tellsPatterns (p := game.inside) (by decide +kernel) hgame hm hparts
  have hpatterns := hadds.eq rfl
  have hfront : ∀ tok ∈ front, startsBlock tok.terminal = false := fun tok h => (hframe.1 tok h).1
  have hback : ∀ tok ∈ back, startsBlock tok.terminal = false := fun tok h => (hframe.2 tok h).1
  have hsingles : singlesIn (front ++ (inside ++ back)) = singlesOf zs := by
    rw [singlesIn_append, singlesIn_append, singlesIn_eq_nil hfront, singlesIn_eq_nil hback,
      List.nil_append, List.append_nil, htold.singles]
  have hidle : Idle back := Adds.eq (adds_patternsIn_nil fun tok htok => by
    rw [(hframe.2 tok ((List.takeWhile_sublist _).subset htok)).2]
    rfl) rfl
  obtain ⟨-, bodies, henemies, hmoves⟩ := htold.enemies back hidle
  refine ⟨?_, hpatterns ▸ hread, ?_⟩
  · rw [hws, hws', hignored, hpatterns, hsingles]
    exact List.append_nil _
  · have hbodies : enemiesIn (front ++ (inside ++ back)) = bodies := by
      rw [adds_enemiesIn_nil hfront, henemies, (adds_enemiesIn_nil hback).eq rfl, List.append_nil,
        List.nil_append]
    rw [hbodies]
    exact movements_of_moves hmoves (enemies_of_ofSketch? hsketch)

/-- The tokens of a text that is built tell all that is warned about, and how enemies move. -/
theorem exists_told_of_readDraft {source : String} {d : Draft}
    (h : (readDraft source).outcome = .ok d) :
    ∃ toks tree, readAs start source = .ok [tree] ∧ Derives start toks [tree] ∧
      Spelled .first source.toList toks ∧ Told toks (readDraft source).warnings d ∧
      ((readDraft source).warnings = [] ↔
        (∀ p ∈ patternsIn toks, ∀ e ∈ p.parameters, e.1 ∈ p.kind.parameters) ∧
          ((singlesIn toks).map (·.1)).Nodup) := by
  obtain ⟨toks, tree, x, hread, hd, hs, hx, hws, hsketch⟩ := exists_meanings_of_readDraft h
  have htold := told_of_derives hd hs.matches hx hsketch
  rw [hws] at htold
  exact ⟨toks, tree, hread, hd, hs, htold, htold.warnings_eq_nil_iff⟩

set_option maxRecDepth 2048

/-- A display that is given twice, and a chase with a parameter of another pattern. -/
def twiceShown : String :=
  r#"game "t" { hud { } enemy a { movement: chase { distance: 1 } }
hud { } }"#

theorem exists_told_of_readDraft_twiceShown :
    (readDraft twiceShown).outcome.toOption =
        some { title := some "t"
               enemies := [⟨"a", none, some (.chase none none), none, none, none⟩]
               hud := some [] } ∧
      (readDraft twiceShown).warnings = [.ignoredParameter "chase" "distance" (some ⟨1, 40⟩),
        .duplicateBlock "hud" (some ⟨2, 1⟩)] ∧
      ∃ d, (readDraft twiceShown).outcome = .ok d ∧ ∃ toks tree,
        readAs start twiceShown = .ok [tree] ∧ Derives start toks [tree] ∧
        Spelled .first twiceShown.toList toks ∧ Told toks (readDraft twiceShown).warnings d ∧
        ((readDraft twiceShown).warnings = [] ↔
          (∀ p ∈ patternsIn toks, ∀ e ∈ p.parameters, e.1 ∈ p.kind.parameters) ∧
            ((singlesIn toks).map (·.1)).Nodup) := by
  have hdraft : (readDraft twiceShown).outcome.toOption =
      some { title := some "t"
             enemies := [⟨"a", none, some (.chase none none), none, none, none⟩]
             hud := some [] } := by decide +kernel
  have hwarnings : (readDraft twiceShown).warnings =
      [.ignoredParameter "chase" "distance" (some ⟨1, 40⟩),
        .duplicateBlock "hud" (some ⟨2, 1⟩)] := by decide +kernel
  have houtcome := toOption_eq_some.1 hdraft
  exact ⟨hdraft, hwarnings, _, houtcome, exists_told_of_readDraft houtcome⟩

end Draft

end PlatformGame
