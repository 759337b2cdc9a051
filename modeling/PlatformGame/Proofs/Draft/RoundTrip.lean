import PlatformGame.Compile.Artifact
import PlatformGame.Proofs.Draft.Numbers
import PlatformGame.Proofs.Draft.Printing
import PlatformGame.Proofs.Draft.Reading
import PlatformGame.Proofs.Parse.Completeness
import PlatformGame.Proofs.Parse.Soundness

/-! # Printing and reading back

The words of a draft mean its sketch (`renders_words`), as long as the draft is one that a text can
describe, and every draft that was read from a text is (`written_of_readDraft`). So a draft that was
read without a warning is read again from what is printed of it (`readDraft_print`). -/

namespace PlatformGame.Draft

open Grammar Parse Source

/-! ## Blocks -/

/-- The words are blocks of the given kinds and values. -/
structure RendersBlocks (ws : List Word) (blocks : List (BlockKind × Sketch)) : Prop where
  closed : Word.Closed ws
  forms : Forms (.many gameBlock) ws fun trees => ∃ xs, meanings trees = pure xs ∧
    (∀ x ∈ xs, IsBlock x) ∧ blocksOf xs = blocks

namespace RendersBlocks

variable {us vs ws : List Word} {blocks blocks' : List (BlockKind × Sketch)}

theorem nil : RendersBlocks [] [] where
  closed := .nil
  forms := Forms.manyEnd.mono fun _ h => ⟨[], h ▸ rfl, by simp, rfl⟩

theorem append (h : RendersBlocks us blocks) (h' : RendersBlocks vs blocks') :
    RendersBlocks (us ++ vs) (blocks ++ blocks') where
  closed := h.closed.append h'.closed
  forms := (h.forms.append h'.forms).mono fun _ ⟨ts₁, ts₂, hts, hx, hy⟩ => by
    obtain ⟨xs, hxs, hxblocks, rfl⟩ := hx
    obtain ⟨ys, hys, hyblocks, rfl⟩ := hy
    refine ⟨xs ++ ys, ?_, List.forall_mem_append.2 ⟨hxblocks, hyblocks⟩, ?_⟩
    · rw [hts, meanings_append, hxs, hys]
      rfl
    · exact List.filterMap_append

/-- A block ends with a brace, so that anything may stand after it. -/
theorem block {l : Label} {p : Phrase} {xs : List Sketch} {kind : BlockKind} {value : Sketch}
    (front : List Word) (hin : ∀ {ws Q}, Forms (.node l p) ws Q → Forms gameBlock ws Q)
    (h : Renders p (front ++ Word.braces ws) xs)
    (hx : ∀ place, ∃ place', Node.assemble ⟨l, some place, xs, .noPart⟩ =
      pure (.block kind value place')) :
    RendersBlocks (front ++ Word.braces ws) [(kind, value)] where
  closed := ⟨h.legible, fun w hw => by
    rw [Word.braces, ← List.append_assoc, List.getLast?_concat] at hw
    cases hw
    simp [Word.ofKeyword]⟩
  forms := by
    have hnode := hin (h.forms.node l (by simp [Word.braces]))
    have hmore := hnode.more Forms.manyEnd
    rw [List.append_nil] at hmore
    refine hmore.mono fun _ hparts => ?_
    obtain ⟨ts₁, ts₂, hts, ⟨span, children, rfl, hm⟩, h₂⟩ := hparts
    obtain ⟨place', hblock⟩ := hx span.first
    refine ⟨[.block kind value place'], ?_, by simp [IsBlock], rfl⟩
    rw [hts, h₂, List.append_nil, meanings_singleton, meaning, hm, pure_bind, Option.map_some,
      hblock]
    rfl

theorem flatMap {f : α → List Word} {kind : BlockKind} {g : α → Sketch} {as : List α}
    (h : ∀ a ∈ as, RendersBlocks (f a) [(kind, g a)]) :
    RendersBlocks (as.flatMap f) (as.map fun a => (kind, g a)) := by
  induction as with
  | nil => exact nil
  | cons a as ih =>
    rw [List.forall_mem_cons] at h
    exact h.1.append (ih h.2)

end RendersBlocks

theorem rendersBlocks_config {c : Config} (h : c.Written Number.Whole) :
    RendersBlocks c.words [(.config, c.toSketch)] := by
  obtain ⟨parts, hbody, hrecord⟩ := rendersBody_config h
  have hne : c.body ≠ [] := fun hnil => h.ne_empty (by
    obtain ⟨width, height, gravity, background⟩ := c
    simpa [Config.body, and_assoc] using hnil)
  refine .block [_] (fun h => h.left) (hbody.renders_items hne).braces.skip fun place =>
    ⟨some place, ?_⟩
  change (do pure (Sketch.block _ (← Node.described _ _) _) : Build _) = _
  rw [Node.described_eq _ configSuits hbody.fits, hrecord]
  rfl

theorem rendersBlocks_assets {as : List Asset} (h : ∀ a ∈ as, a.Written Number.Whole) :
    RendersBlocks (assetsWords as) [(.assets, .ofItems Asset.toSketch as)] := by
  have hitems : RendersMany assetDef (Word.items Asset.words as) (as.map Asset.toSketch) :=
    .items fun a ha => renders_assetDef (h a ha)
  exact .block [_] (fun h => h.left.right) hitems.renders.braces.skip fun place => ⟨none, rfl⟩

theorem rendersBlocks_player {p : Player} (h : p.Written Number.Whole) :
    RendersBlocks p.words [(.player, p.toSketch)] := by
  obtain ⟨parts, hbody, hrecord⟩ := rendersBody_player h
  have hne : p.body ≠ [] := fun hnil => h.ne_empty (by
    have hclips := clipsWords_eq_nil h.animations
    obtain ⟨sprite, speed, jumpForce, lives, controls, animations⟩ := p
    simpa [Player.body, hclips, and_assoc] using hnil)
  refine .block [_] (fun h => h.left.right.right) (hbody.renders_items hne).braces.skip fun place =>
    ⟨some place, ?_⟩
  change (do pure (Sketch.block _ (← Node.described _ _) _) : Build _) = _
  rw [Node.described_eq _ playerSuits hbody.fits, hrecord]
  rfl

theorem rendersBlocks_enemy {e : Enemy} (h : e.Written Number.Whole True) :
    RendersBlocks e.words [(.enemy, e.toSketch)] := by
  obtain ⟨parts, hbody, hrecord⟩ := rendersBody_enemy h
  have hne : e.body ≠ [] := fun hnil => h.ne_empty (by
    have hclips := clipsWords_eq_nil h.animations
    obtain ⟨name, sprite, movement, damage, stompable, animations⟩ := e
    simpa [Enemy.body, hclips, and_assoc] using hnil)
  refine .block [_, _] (fun h => h.left.right.right.right)
    (Renders.skip (.ident_cons h.name (hbody.renders_items hne).braces.last)) fun place =>
      ⟨none, ?_⟩
  change (do pure (Sketch.block _ (← Node.describedAs _ _ _) _) : Build _) = _
  rw [Node.describedAs_eq _ enemySuits rfl hbody.fits, hrecord]
  rfl

theorem rendersBlocks_collectible {c : Collectible} (h : c.Written Number.Whole) :
    RendersBlocks c.words [(.collectible, c.toSketch)] := by
  obtain ⟨parts, hbody, hrecord⟩ := rendersBody_collectible h
  have hne : c.body ≠ [] := fun hnil => h.ne_empty (by
    have hclips := clipsWords_eq_nil h.animations
    obtain ⟨name, sprite, score, effect, animations⟩ := c
    simpa [Collectible.body, hclips, and_assoc] using hnil)
  refine .block [_, _] (fun h => h.left.right.right.right.right)
    (Renders.skip (.ident_cons h.name (hbody.renders_items hne).braces.last)) fun place =>
      ⟨none, ?_⟩
  change (do pure (Sketch.block _ (← Node.describedAs _ _ _) _) : Build _) = _
  rw [Node.describedAs_eq _ collectibleSuits rfl hbody.fits, hrecord]
  rfl

theorem rendersBlocks_level {l : Level} (h : l.Written Number.Whole) :
    RendersBlocks l.words [(.level, l.toSketch)] := by
  obtain ⟨parts, hbody, hrecord⟩ := rendersBody_level h
  refine .block [_, _] (fun h => h.left.right.right.right.right.right)
    (Renders.skip ((renders_string l.name).cons_keyword hbody.renders.braces.last)) fun place =>
      ⟨none, ?_⟩
  change (do pure (Sketch.block _ (← Node.describedAs _ _ _) _) : Build _) = _
  rw [Node.describedAs_eq _ levelSuits rfl hbody.fits, hrecord]
  rfl

theorem rendersBlocks_hud {es : List HudElement} (h : ∀ e ∈ es, e.Written Number.Whole) :
    RendersBlocks (hudWords es) [(.hud, hudSketch es)] := by
  have hitems : RendersMany hudElement (Word.items HudElement.words es)
      (es.map HudElement.toSketch) := .items fun e he => renders_hudElement (h e he)
  exact .block [_] (fun h => h.left.right.right.right.right.right.right)
    hitems.renders.braces.skip fun place => ⟨some place, rfl⟩

theorem rendersBlocks_rules {r : Rules} (h : r.Written Number.Whole) :
    RendersBlocks r.words [(.rules, r.toSketch)] := by
  obtain ⟨parts, hbody, hrecord⟩ := rendersBody_rules h
  have hne : r.body ≠ [] := fun hnil => h.ne_empty (by
    obtain ⟨win, lose, nextLevel⟩ := r
    simpa [Rules.body, and_assoc] using hnil)
  refine .block [_] (fun h => h.left.right.right.right.right.right.right.right)
    (hbody.renders_items hne).braces.skip fun place => ⟨some place, ?_⟩
  change (do pure (Sketch.block _ (← Node.described _ _) _) : Build _) = _
  rw [Node.described_eq _ rulesSuits hbody.fits, hrecord]
  rfl

theorem rendersBlocks_sounds {s : Sounds} (h : s.Written) :
    RendersBlocks s.words [(.sounds, s.toSketch)] := by
  obtain ⟨parts, hbody, hrecord⟩ := rendersBody_sounds h
  have hne : s.body ≠ [] := fun hnil => h.ne_empty (by
    obtain ⟨jump, collect, hurt, win, lose, bgm⟩ := s
    simpa [Sounds.body, SoundEvent.all, Sounds.get] using hnil)
  refine .block [_] (fun h => h.right.right.right.right.right.right.right.right)
    (hbody.renders_items hne).braces.skip fun place => ⟨some place, ?_⟩
  change (do pure (Sketch.block _ (← Node.described _ _) _) : Build _) = _
  rw [Node.described_eq _ soundSuits hbody.fits, hrecord]
  rfl

/-! ## Games -/

/-- The blocks of a draft in the order in which they are printed. -/
def blocks (d : Draft) : List (BlockKind × Sketch) :=
  d.config.toList.map (fun c => (.config, c.toSketch))
    ++ [(.assets, .ofItems Asset.toSketch d.assets)]
    ++ d.player.toList.map (fun p => (.player, p.toSketch))
    ++ d.enemies.map (fun e => (.enemy, e.toSketch))
    ++ d.collectibles.map (fun c => (.collectible, c.toSketch))
    ++ d.levels.map (fun l => (.level, l.toSketch))
    ++ d.hud.toList.map (fun es => (.hud, hudSketch es))
    ++ d.rules.toList.map (fun r => (.rules, r.toSketch))
    ++ d.sounds.toList.map (fun s => (.sounds, s.toSketch))

theorem rendersBlocks_body {d : Draft} (h : d.Written Number.Whole True) :
    RendersBlocks d.body d.blocks := by
  refine .append (.append (.append (.append (.append (.append (.append (.append
    (.flatMap fun c hc => rendersBlocks_config (h.config c (Option.mem_toList.1 hc)))
    (rendersBlocks_assets h.assets))
    (.flatMap fun p hp => rendersBlocks_player (h.player p (Option.mem_toList.1 hp))))
    (.flatMap fun e he => rendersBlocks_enemy (h.enemies e he)))
    (.flatMap fun c hc => rendersBlocks_collectible (h.collectibles c hc)))
    (.flatMap fun l hl => rendersBlocks_level (h.levels l hl)))
    (.flatMap fun es hes => rendersBlocks_hud (h.hud es (Option.mem_toList.1 hes))))
    (.flatMap fun r hr => rendersBlocks_rules (h.rules r (Option.mem_toList.1 hr))))
    (.flatMap fun s hs => rendersBlocks_sounds (h.sounds s (Option.mem_toList.1 hs)))

section

variable (kind k : BlockKind) (f : α → Sketch) (as : List α)

@[simp] theorem ofKind_append (bs cs : List (BlockKind × Sketch)) :
    Node.ofKind kind (bs ++ cs) = Node.ofKind kind bs ++ Node.ofKind kind cs := by
  simp [Node.ofKind]

@[simp] theorem ofKind_cons (v : Sketch) (bs : List (BlockKind × Sketch)) :
    Node.ofKind kind ((k, v) :: bs) = (if k = kind then [v] else []) ++ Node.ofKind kind bs := by
  by_cases h : k = kind <;> simp [Node.ofKind, h]

@[simp] theorem ofKind_map :
    Node.ofKind kind (as.map fun a => (k, f a)) = if k = kind then as.map f else [] := by
  rw [Node.ofKind, List.filter_map, List.map_map]
  split
  · next h => simp [Function.comp_def, h]
  · next h => simp [Function.comp_def, h]

@[simp] theorem singles_map : Node.singles (as.map fun a => (k, f a)) =
    if Node.isSingle k = true then as.map fun _ => k else [] := by
  rw [Node.singles, List.map_map, List.filter_map]
  split
  · next h => simp [Function.comp_def, h]
  · next h => simp [Function.comp_def, h]

end

theorem singles_append (bs cs : List (BlockKind × Sketch)) :
    Node.singles (bs ++ cs) = Node.singles bs ++ Node.singles cs := by
  simp [Node.singles]

/-- Every block is printed at most once if only the last one counts. -/
theorem nodup_singles_blocks (d : Draft) : (Node.singles d.blocks).Nodup := by
  obtain ⟨title, config, assets, player, enemies, collectibles, levels, hud, rules, sounds⟩ := d
  simp only [blocks, singles_append, singles_map]
  cases config <;> cases player <;> cases hud <;> cases rules <;> cases sounds
  all_goals simp [Node.singles, Node.isSingle]

theorem gameOf_blocks (d : Draft) (title : String) :
    Node.gameOf (.text title) d.blocks = { d with title := some title }.toSketch := by
  have hlast {β : Type} (o : Option β) : o.toList.getLast? = o := by cases o <;> rfl
  simp [Node.gameOf, Node.lastOfKind, blocks, toSketch, hlast, Sketch.ofOption, Sketch.ofItems,
    Sketch.items?]

theorem renders_game {title : String} {body : List Word} {blocks : List (BlockKind × Sketch)}
    (h : RendersBlocks body blocks) (hnodup : (Node.singles blocks).Nodup) :
    Renders game (gameWords title body) [Node.gameOf (.text title) blocks] := by
  have hstring := renders_string title
  have hbraces : Word.Legible (Word.braces body) := h.closed.toLegible.closed.toLegible.keyword_cons
  refine ⟨(hstring.legible.append_keyword hbraces).keyword_cons, ?_⟩
  refine ((hstring.forms.seq h.forms.braces.last).skip.node .game (List.cons_ne_nil _ _)).mono ?_
  rintro _ ⟨span, _, rfl, ts₁, ts₂, rfl, hts, xs, hxs, hall, rfl⟩
  have hadd : Node.addBlocks [] xs = pure ([] ++ blocksOf xs) :=
    Node.addBlocks_eq hall (by rwa [List.nil_append])
  have hgame : Node.assemble ⟨.game, some span.first, .text title :: xs, .noPart⟩ =
      pure (Node.gameOf (.text title) (blocksOf xs)) := by
    change (do pure (Node.gameOf _ (← Node.addBlocks _ _)) : Build _) = _
    rw [hadd, pure_bind, List.nil_append]
  rw [meanings_singleton, meaning, meanings_append, hts, hxs]
  simp only [pure_bind, List.singleton_append, Option.map_some, hgame]

theorem renders_start {title : String} {body : List Word} {blocks : List (BlockKind × Sketch)}
    (h : RendersBlocks body blocks) (hnodup : (Node.singles blocks).Nodup) :
    Renders start (gameWords title body) [Node.gameOf (.text title) blocks] :=
  (renders_game h hnodup).node (List.cons_ne_nil _ _) fun _ => rfl

/-- The words of a draft mean its sketch. -/
theorem renders_words {d : Draft} (h : d.Written Number.Whole True) :
    Renders start d.words [d.toSketch] := by
  obtain ⟨title, htitle⟩ := Option.isSome_iff_exists.1 h.title
  have hwords : d.words = gameWords title d.body := by
    rw [words, htitle, Option.getD_some]
  have hsketch : Node.gameOf (.text title) d.blocks = d.toSketch := by
    rw [gameOf_blocks, ← htitle]
  rw [hwords, ← hsketch]
  exact renders_start (rendersBlocks_body h) (nodup_singles_blocks d)

/-! ## Reading a draft -/

/-- An entry is read as a node, never as a leaf. -/
theorem sketch_of_derives {p : Phrase} {toks : List Token} {trees : List Tree}
    (h : Derives p toks trees) (hp : p.single = true) :
    ∀ tree ∈ trees, sketch tree = meaning tree := by
  induction h with
  | node => simp [sketch]
  | left _ ih => exact ih (Bool.and_eq_true_iff.1 hp).1
  | right _ ih => exact ih (Bool.and_eq_true_iff.1 hp).2
  | _ => cases hp

/-- A draft is read without a warning if the tree means its sketch. -/
theorem readDraft_eq_iff {source : String} {toks : List Token} {tree : Tree}
    (hread : readAs start source = .ok [tree]) (hd : Derives start toks [tree]) {d : Draft} :
    readDraft source = ⟨[], .ok d⟩ ↔
      ∃ x, meanings [tree] = pure [x] ∧ ofSketch? x = some d := by
  have hsketch := sketch_of_derives hd rfl tree List.mem_cons_self
  simp only [readDraft, readSketch, hread, sketchTree, hsketch, meanings_singleton]
  generalize meaning tree = built
  obtain ⟨warnings, _ | x⟩ := built
  · constructor
    · intro h
      cases congrArg Reading.outcome h
    · rintro ⟨x, hx, -⟩
      cases congrArg Build.outcome hx
  · -- the tree means a sketch, which may be no draft
    have hbuilt : ((⟨warnings, .ok x⟩ : Build Sketch) >>= fun x => pure [x]) =
        ⟨warnings ++ [], .ok [x]⟩ := rfl
    have hpure (y : Sketch) : (pure [y] : Build (List Sketch)) = ⟨[], .ok [y]⟩ := rfl
    rw [hbuilt, List.append_nil]
    simp only [Except.mapError, bind, Except.bind, hpure]
    cases hx : ofSketch? x with
    | none => simp [hx, throw, throwThe, MonadExceptOf.throw]
    | some d' => simp [hx, pure, Except.pure, and_comm]

theorem start_numbersLabelled : start.numbersLabelled = true := by decide

/-- A draft that is read from a text without fractional numbers is one that can be written. -/
theorem written_of_readDraft {source : String} {trees : List Tree} {d : Draft}
    (hread : readAs start source = .ok trees)
    (hwhole : ∀ s ∈ Tree.numbersOf trees, '.' ∉ s.toList)
    (h : readDraft source = ⟨[], .ok d⟩) : d.Written Number.Whole True := by
  have he : ("start", start) ∈ entries := List.mem_cons_self
  obtain ⟨toks, tree, rfl, hd, hs⟩ := exists_derives_of_readAs he hread
  obtain ⟨x, hx, hsketch⟩ := (readDraft_eq_iff hread hd).1 h
  have hreadable : ∀ tok ∈ toks, Readable Number.Whole tok := fun tok htok =>
    ⟨hs.matches tok htok, fun hnumber => by
      obtain ⟨hmem, n, hn⟩ := exists_ofLiteral_of_derives hd start_numbersLabelled
        (congrArg Build.outcome hx) htok hnumber
      exact ⟨n, hn, Number.whole_of_ofLiteral (hwhole _ hmem) hn⟩⟩
  have hmeans : Means Number.Whole True start _ := means_start
  obtain ⟨xs, hxs, hone⟩ := hmeans hd hreadable fun _ => congrArg Build.warnings hx
  rw [hx] at hxs
  cases hxs
  obtain ⟨d', rfl, hd'⟩ := one_singleton.1 hone
  rw [ofSketch?_toSketch] at hsketch
  cases hsketch
  exact hd'

/-- Words that mean something are read. -/
theorem exists_readAs_of_renders {ws : List Word} {xs : List Sketch} (h : Renders start ws xs) :
    ∃ tree, readAs start (Word.spaced ws) = .ok [tree] ∧
      Derives start (Word.tokens .first ws) [tree] ∧ meanings [tree] = pure xs := by
  obtain ⟨hlegible, hforms⟩ := h
  obtain ⟨trees, hd, hm⟩ := hforms (Word.map_word_tokens .first ws)
  have he : ("start", start) ∈ entries := List.mem_cons_self
  -- a keyword stands after every string, and no keyword clashes
  have hclear : ¬ Clashing ws := not_clashing_of_isChain <| hlegible.calm.imp fun v w h hclash => by
    obtain ⟨k, hk⟩ := h hclash.1
    rw [hclash.2.1] at hk
    cases hk
  obtain ⟨tree, rfl⟩ := hd.exists_eq_singleton rfl
  exact ⟨tree, readAs_of_not_clashing he hlegible.valid hd hclear, hd, hm⟩

theorem readDraft_of_renders {ws : List Word} {d : Draft} (h : Renders start ws [d.toSketch]) :
    readDraft (Word.spaced ws) = ⟨[], .ok d⟩ := by
  obtain ⟨tree, hread, hd, hm⟩ := exists_readAs_of_renders h
  exact (readDraft_eq_iff hread hd).2 ⟨_, hm, ofSketch?_toSketch d⟩

/-- A draft that is read without a warning from a text without fractional numbers is read again,
without a warning, from what is printed of it. -/
theorem readDraft_print {source : String} {trees : List Tree} {d : Draft}
    (hread : readAs start source = .ok trees)
    (hwhole : ∀ s ∈ Tree.numbersOf trees, '.' ∉ s.toList)
    (h : readDraft source = ⟨[], .ok d⟩) : readDraft d.print = ⟨[], .ok d⟩ :=
  readDraft_of_renders (renders_words (written_of_readDraft hread hwhole h))

/-- A game with the player in front of the configuration, which is printed the other way round. -/
def playerFirst : List Word :=
  gameWords "t" (Player.words { speed := some (.int 160) } ++
    Config.words { width := some (.int 800) })

theorem readDraft_print_reordered :
    let source :=
      r#"game "t" { player { speed : 160 , } config { width : 800 , } }"#
    let d : Draft := { title := some "t", config := some { width := some (.int 800) },
                       player := some { speed := some (.int 160) } }
    ∃ trees, readAs start source = .ok trees ∧
      (∀ s ∈ Tree.numbersOf trees, '.' ∉ s.toList) ∧ readDraft source = ⟨[], .ok d⟩ ∧
      readDraft d.print = ⟨[], .ok d⟩ := by
  intro source d
  have hwhole (m : Int) (hm : m.natAbs < 10 ^ 3) : (Number.int m).Whole :=
    ⟨m, rfl, Nat.lt_of_lt_of_le hm (Nat.pow_le_pow_right (by decide) (by decide))⟩
  have hplayer : Player.Written Number.Whole { speed := some (.int 160) } :=
    ⟨by decide, nofun, by simpa using hwhole 160 (by decide), nofun, nofun, nofun⟩
  have hconfig : Config.Written Number.Whole { width := some (.int 800) } :=
    ⟨by decide, by simpa using hwhole 800 (by decide), nofun, nofun, nofun⟩
  have hrenders : Renders start playerFirst [d.toSketch] :=
    renders_start ((rendersBlocks_player hplayer).append (rendersBlocks_config hconfig)) (by decide)
  have hsource : Word.spaced playerFirst = source := by decide
  have hpoint : ∀ w ∈ playerFirst, w.terminal = .number → '.' ∉ w.text.toList := by decide
  obtain ⟨tree, hread, hd, -⟩ := exists_readAs_of_renders hrenders
  have hdraft := readDraft_of_renders hrenders
  rw [hsource] at hread hdraft
  have hnumbers : ∀ s ∈ Tree.numbersOf [tree], '.' ∉ s.toList := by
    intro s hs
    obtain ⟨tok, htok, hterm, rfl⟩ := hd.exists_token_of_mem_numbersOf hs
    have hword := List.mem_map_of_mem (f := Token.word) htok
    rw [Word.map_word_tokens] at hword
    exact hpoint _ hword hterm
  exact ⟨[tree], hread, hnumbers, hdraft, readDraft_print hread hnumbers hdraft⟩

end PlatformGame.Draft
