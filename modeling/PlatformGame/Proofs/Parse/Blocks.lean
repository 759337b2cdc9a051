import PlatformGame.Parse.Failure
import PlatformGame.Proofs.Data.Except
import PlatformGame.Proofs.Draft.Literals
import PlatformGame.Proofs.Parse.Inside
import Mathlib.Data.List.Forall2

/-! # Reading a game block by block

A game is read as its blocks are read on their own: the text of a game that is put together from the
texts of blocks, each on lines of its own, is read as the tree of a game whose blocks have the
shapes of the trees of the blocks (`exists_readAs_gameText`).

Between two blocks only the keywords that start a block and the closing brace are admitted, and none
of them is the start of another, so the next word is recognised whatever stands behind it. -/

namespace PlatformGame.Grammar

/-- The keywords that start a block. -/
def blockWords : List Keyword :=
  [.config, .assets, .player, .enemy, .collectible, .level, .hud, .rules, .sounds]

/-- What may stand between two blocks of a game. -/
def bodyWords : List Keyword := .closeBrace :: blockWords

def blockLabels : List Label := [.configBlock, .assetsBlock, .playerBlock, .enemyBlock,
  .collectibleBlock, .levelBlock, .hudBlock, .rulesBlock, .soundsBlock]

/-- The names under which blocks are read on their own. -/
def blockNames : List String := ["config_block", "assets_block", "player_block", "enemy_block",
  "collectible_block", "level_block", "hud_block", "rules_block", "sounds_block"]

/-- Exactly the words between blocks are among the terminals, apart from the end of input. -/
def bodywise (ts : List Terminal) : Bool :=
  bodyWords.all (fun k => ts.contains (.keyword k)) &&
    ts.all fun t => t == .endOfInput || bodyWords.any fun k => t == .keyword k

theorem bodywise_follow {l : Label} (hl : l ∈ blockLabels) : bodywise (follow l) = true := by
  have hall : (blockLabels.all fun l => bodywise (follow l)) = true := by decide +kernel
  exact List.all_eq_true.1 hall l hl

theorem bodyWord_unique {k k' : Keyword} (hk : k ∈ bodyWords) (hk' : k' ∈ bodyWords)
    (h : k.text.toList <+: k'.text.toList) : k = k' := by
  have hall : (bodyWords.all fun k => bodyWords.all fun k' =>
      !k.text.toList.isPrefixOf k'.text.toList || k == k') = true := by decide +kernel
  have hpair := List.all_eq_true.1 (List.all_eq_true.1 hall k hk) k' hk'
  simpa [List.isPrefixOf_iff_prefix.2 h] using hpair

end PlatformGame.Grammar

namespace PlatformGame.Source

open Grammar

variable {k : Keyword}

theorem longestKeyword_of_unique {ks : List Keyword} {cs : List Char} {s : Split} (hk : k ∈ ks)
    (hs : keyword? k cs = some s) (hother : ∀ k' ∈ ks, k' ≠ k → keyword? k' cs = none) :
    longestKeyword ks cs = some (k, s) := by
  have step : ∀ (ks : List Keyword) (best : Option (Keyword × Split)),
      (∀ k' ∈ ks, k' ≠ k → keyword? k' cs = none) →
      (best = some (k, s) ∨ best = none ∧ k ∈ ks) →
      ks.foldl (longerKeyword cs) best = some (k, s) := by
    intro ks
    induction ks with
    | nil =>
      rintro best - (h | ⟨-, h⟩)
      · exact h
      · exact absurd h List.not_mem_nil
    | cons k' ks ih =>
      intro best hother h
      rw [List.forall_mem_cons] at hother
      refine ih _ hother.2 ?_
      by_cases hk' : k' = k
      · subst hk'
        rcases h with rfl | ⟨rfl, -⟩ <;> simp [longerKeyword, hs]
      · have hnone := hother.1 hk'
        simpa [longerKeyword, hnone, Ne.symm hk'] using h
  exact step ks none hother (.inr ⟨rfl, hk⟩)

/-- Keywords that could be names are only admitted where they are told from names. -/
def wordy (ts : List Terminal) : Bool :=
  ts.all fun
    | .keyword k => !namelike k || isWord k
    | _ => true

theorem eq_of_scan_keyword {cs : List Char} {t : Terminal} {s : Split}
    (h : scan [.keyword k] cs = some (t, s)) : t = .keyword k := by
  have hscan : scan [.keyword k] cs = (keyword? k cs).map (.keyword k, ·) := by
    have hlongest : longestKeyword [k] cs = (keyword? k cs).map (k, ·) := by
      cases hk : keyword? k cs <;> simp [longestKeyword, longerKeyword, hk]
    simp [scan, scanned, isEmbedded, keywordsOf, hlongest, Option.map_map, Function.comp_def]
  rw [hscan] at h
  obtain ⟨_, -, heq⟩ := Option.map_eq_some_iff.1 h
  cases heq
  rfl

/-- A word between blocks is recognised whatever stands behind it. -/
theorem scan_of_bodywise {ts : List Terminal} (h : bodywise ts = true) (hk : k ∈ bodyWords)
    (rest : List Char) :
    scan ts (k.text.toList ++ rest) = some (.keyword k, ⟨k.text.toList, rest⟩) := by
  simp only [bodywise, Bool.and_eq_true, List.all_eq_true, List.contains_iff_mem, Bool.or_eq_true,
    beq_iff_eq, List.any_eq_true] at h
  obtain ⟨hall, honly⟩ := h
  have hclass {t : Terminal} (ht : ∀ k, t ≠ .keyword k) (hend : t ≠ .endOfInput) : t ∉ ts := by
    intro hmem
    rcases honly t hmem with h | ⟨k, -, h⟩
    · exact hend h
    · exact ht k h
  have hname : .name ∉ ts := hclass (by simp) (by simp)
  have hstring : .string ∉ ts := hclass (by simp) (by simp)
  have hnumber : .number ∉ ts := hclass (by simp) (by simp)
  have hcolor : .color ∉ ts := hclass (by simp) (by simp)
  have hmem : k ∈ keywordsOf (scanned ts) := by
    simp [mem_keywordsOf, scanned, isEmbedded, hname, hall k hk]
  have hlongest : longestKeyword (keywordsOf (scanned ts)) (k.text.toList ++ rest) =
      some (k, ⟨k.text.toList, rest⟩) := by
    refine longestKeyword_of_unique hmem (keyword?_append k rest) fun k' hk' hne => ?_
    cases hs : keyword? k' (k.text.toList ++ rest) with
    | none => rfl
    | some s =>
      obtain ⟨hpiece, htext⟩ := of_keyword? hs
      have hbody : k' ∈ bodyWords := by
        have hts : .keyword k' ∈ ts := (List.mem_filter.1 (mem_keywordsOf.1 hk')).1
        rcases honly _ hts with h | ⟨k'', hk'', h⟩
        · cases h
        · cases h
          exact hk''
      have hpre' : k'.text.toList <+: k.text.toList ++ rest := ⟨s.rest, by rw [← hpiece, htext]⟩
      rcases List.prefix_or_prefix_of_prefix hpre' (List.prefix_append _ _) with h | h
      · exact absurd (bodyWord_unique hbody hk h) hne
      · exact absurd (bodyWord_unique hk hbody h).symm hne
  simp [scan, hname, hstring, hnumber, hcolor, hlongest]

end PlatformGame.Source

namespace PlatformGame.Parse

open Grammar Source

variable {k : Keyword} {l : Label} {ps : List Phrase} {tok : Token} {o : Opening} {text : String}
  {q : Phrase} {trees : List Tree}

/-- The tree of a title. -/
def titleTree (title : String) : Tree :=
  .node .string (some .origin) [.ofToken ⟨.string, Text.literal title, .origin⟩]

theorem shape_titleTree (title : String) : (titleTree title).shape = titleTree title := rfl

/-- What is left of a game after its title. -/
def afterTitle : Phrase := .seq (braces (.many gameBlock)) .nothing

/-- What is left of a game after its opening brace. -/
def wholeBody : List Phrase :=
  [.seq (.many gameBlock) (.seq (.word .closeBrace) .nothing), .nothing]

/-- What is left of a game after a block. -/
def furtherBody : List Phrase := [.many gameBlock, .seq (.word .closeBrace) .nothing, .nothing]

def IsBody (ps : List Phrase) : Prop := ps = wholeBody ∨ ps = furtherBody

theorem IsBody.bodywise (h : IsBody ps) : bodywise (firstOfAll ps (follow .game)) = true := by
  rcases h with rfl | rfl <;> decide +kernel

theorem IsBody.takeAll (h : IsBody ps) (ho : take tok gameBlock = some o) :
    takeAll tok ps = some { o with rest := o.rest ++ furtherBody } := by
  rcases h with rfl | rfl <;>
    simp [wholeBody, furtherBody, Parse.takeAll, take, ho, Opening.followedBy]

theorem IsBody.takeAll_closeBrace (h : IsBody ps) {span : Span} :
    Parse.takeAll ⟨.keyword .closeBrace, text, span⟩ ps = some ⟨[], [], [.nothing, .nothing]⟩ := by
  rcases h with rfl | rfl <;> rfl

/-- A keyword with a label and the inside of the node of that label: a block that ends with a token
of its own and that no other block is mistaken for. -/
structure IsBlockPhrase (k : Keyword) (l : Label) (q : Phrase) : Prop where
  word : k ∈ blockWords
  label : l ∈ blockLabels
  capped : q.capped = true
  first : q.first = [.keyword k]
  take_eq : ∀ tok : Token, tok.terminal = .keyword k → take tok gameBlock = take tok (.node l q)

theorem IsBlockPhrase.of_take (hk : k ∈ blockWords) (hl : l ∈ blockLabels)
    (hcapped : q.capped = true) (hfirst : q.first = [.keyword k])
    (htake : ∀ text span, take ⟨.keyword k, text, span⟩ gameBlock =
      take ⟨.keyword k, text, span⟩ (.node l q)) : IsBlockPhrase k l q := by
  refine ⟨hk, hl, hcapped, hfirst, ?_⟩
  rintro ⟨t, text, span⟩ rfl
  exact htake text span

theorem exists_isBlockPhrase {name : String} (hname : name ∈ blockNames) {p : Phrase}
    (hp : entry? name = .ok p) : ∃ k l q, p = .node l q ∧ IsBlockPhrase k l q := by
  simp only [blockNames, List.mem_cons, List.not_mem_nil, or_false] at hname
  rcases hname with rfl | rfl | rfl | rfl | rfl | rfl | rfl | rfl | rfl <;> cases hp
  · exact ⟨.config, _, _, rfl, .of_take (by decide) (by decide) rfl rfl fun _ _ => rfl⟩
  · exact ⟨.assets, _, _, rfl, .of_take (by decide) (by decide) rfl rfl fun _ _ => rfl⟩
  · exact ⟨.player, _, _, rfl, .of_take (by decide) (by decide) rfl rfl fun _ _ => rfl⟩
  · exact ⟨.enemy, _, _, rfl, .of_take (by decide) (by decide) rfl rfl fun _ _ => rfl⟩
  · exact ⟨.collectible, _, _, rfl, .of_take (by decide) (by decide) rfl rfl fun _ _ => rfl⟩
  · exact ⟨.level, _, _, rfl, .of_take (by decide) (by decide) rfl rfl fun _ _ => rfl⟩
  · exact ⟨.hud, _, _, rfl, .of_take (by decide) (by decide) rfl rfl fun _ _ => rfl⟩
  · exact ⟨.rules, _, _, rfl, .of_take (by decide) (by decide) rfl rfl fun _ _ => rfl⟩
  · exact ⟨.sounds, _, _, rfl, .of_take (by decide) (by decide) rfl rfl fun _ _ => rfl⟩

/-- The text is read on its own as a block with the given tree. -/
def ReadsBlock (text : String) (tree : Tree) : Prop :=
  ∃ name ∈ blockNames, ∃ p, entry? name = .ok p ∧ readAs p text = .ok [tree]

namespace Reader

/-! ## Between two blocks -/

/-- The reader of a game with the given parts so far. -/
def ofGame (parts : List Tree) (rest : List Phrase) (last : Option Token) : Reader :=
  ⟨[⟨.game, .first, parts, rest⟩, ⟨.start, .first, [], []⟩], [], [], last⟩

/-- The reader is in a game with the given parts, up to positions; the last block may still have to
be closed. -/
inductive Between (parts : List Tree) (rest : List Phrase) (r : Reader) : Prop
  | inGame (last : Option Token) : r.shape = (ofGame parts rest last).shape → Between parts rest r
  | inBlock {f : Frame} {fs : List Frame} (last : Option Token) : r.frames = f :: fs →
    f.label ∈ blockLabels → Spent f.rest → r.close.shape = (ofGame parts rest last).shape →
    Between parts rest r

namespace Between

variable {r : Reader} {parts : List Tree} {rest : List Phrase}

theorem bodywise_admitted (h : Between parts rest r) (hrest : IsBody rest) :
    bodywise r.admitted = true := by
  cases h with
  | inGame last hshape =>
    rw [← admitted_shape, hshape, admitted_shape]
    exact hrest.bodywise
  | inBlock last hf hl hspent _ =>
    simp only [admitted, hf, hspent.firstOfAll]
    exact bodywise_follow hl

theorem exists_feed (h : Between parts rest r) (hk : k ∈ bodyWords)
    (htok : tok.terminal = .keyword k) (ho : takeAll tok rest = some o) :
    ∃ s, r.feed tok = .taken s ∧ s.shape =
      (Reader.mk (o.frames ++ [⟨.game, .first, parts ++ o.parts, o.rest⟩, ⟨.start, .first, [], []⟩])
        [] [] (some tok)).shape := by
  have hgame (last : Option Token) : (ofGame parts rest last).feed tok = .taken
      ⟨o.frames ++ [⟨.game, .first, parts ++ o.parts, o.rest⟩, ⟨.start, .first, [], []⟩], [], [],
        some tok⟩ := by
    simp [feed, feedFrom, ofGame, ho]
  cases h with
  | inGame last hshape => exact exists_feed_of_shape_eq hshape rfl (hgame last)
  | @inBlock f fs last hf hl hspent hshape =>
    have hmem : (follow f.label).contains tok.terminal = true := by
      have hall := (Bool.and_eq_true_iff.1 (bodywise_follow hl)).1
      rw [htok]
      exact List.all_eq_true.1 hall k hk
    have hclose : r.feed tok = r.close.feed tok := by
      rw [feed, feed, length_frames_close, hf]
      simp only [List.length_cons, Nat.add_sub_cancel, feedFrom, hf, hspent.takeAll,
        hspent.allNullable, hmem, Bool.and_self, if_true]
    rw [hclose]
    exact exists_feed_of_shape_eq hshape rfl (hgame last)

end Between

/-! ## The blocks of a game -/

/-- A block that is read on its own starts with its keyword. -/
theorem exists_first_of_read (hq : IsBlockPhrase k l q) {c : Cursor}
    (h : (start (.node l q)).read c = .ok trees) :
    ∃ tok c' o, c.nextStart.token? [.keyword k] = some (tok, c') ∧ tok.terminal = .keyword k ∧
      take tok q = some o ∧
      (Reader.mk (o.frames ++ [⟨l, tok.span.first, o.parts, o.rest⟩]) [] [] (some tok)).read c' =
        .ok trees := by
  have hnullable := Phrase.nullable_of_capped hq.capped
  have hadmitted : (start (.node l q)).admitted = [.keyword k] := by
    simp [admitted, start, firstOfAll, Phrase.firstOr, Phrase.first, Phrase.nullable, hnullable,
      hq.first]
  by_cases hnil : c.nextStart.rest = []
  · rw [read_of_nil hnil] at h
    cases finishes_of_finish h with
    | goal _ hall => simp [start, allNullable, Phrase.nullable, hnullable] at hall
    | close hf _ _ => simp [start] at hf
  cases htok : c.nextStart.token? (start (.node l q)).admitted with
  | none =>
    have hnone := toOption_read_of_none hnil htok
    rw [h] at hnone
    cases hnone
  | some x =>
    obtain ⟨tok, c'⟩ := x
    have hterminal : tok.terminal = .keyword k := by
      rw [hadmitted] at htok
      obtain ⟨⟨t, s⟩, hscan, heq⟩ := Option.map_eq_some_iff.1 htok
      cases heq
      exact eq_of_scan_keyword hscan
    cases ho : take tok q with
    | none =>
      have hfeed : (start (.node l q)).feed tok = .refused (start (.node l q)) := by
        simp [feed, feedFrom, start, hterminal, takeAll, take, ho, Phrase.nullable, hnullable]
      have hnone := toOption_read_of_refused htok hfeed
      rw [h] at hnone
      cases hnone
    | some o =>
      have hfeed : (start (.node l q)).feed tok = .taken
          ⟨o.frames ++ [⟨l, tok.span.first, o.parts, o.rest⟩], [], [], some tok⟩ := by
        simp [feed, feedFrom, start, hterminal, takeAll, take, ho, Opening.enclose]
      rw [read_of_taken htok hfeed] at h
      exact ⟨tok, c', o, hadmitted ▸ htok, hterminal, ho, h⟩

/-- The keyword of a block is recognised between blocks, too. -/
theorem exists_token?_of_bodywise {ts : List Terminal} (hts : bodywise ts = true)
    (hk : k ∈ bodyWords) {cs rest : List Char} (hrest : Parted rest) {p : Position} {c : Cursor}
    (h : (Cursor.nextStart ⟨cs, p⟩).token? [.keyword k] = some (tok, c))
    (htok : tok.terminal = .keyword k) (q : Position) : ∃ tok' q', tok'.shape = tok.shape ∧
      (Cursor.nextStart ⟨cs ++ rest, q⟩).token? ts = some (tok', ⟨c.rest ++ rest, q'⟩) := by
  obtain ⟨tok', q', hshape, htok'⟩ := exists_token?_append hrest h q
  obtain ⟨hm, htext, hspan, hlast⟩ := Cursor.of_token? htok'
  have hterminal : tok'.terminal = .keyword k := by
    rw [← Token.terminal_shape, hshape, Token.terminal_shape, htok]
  refine ⟨tok', q', hshape, ?_⟩
  obtain ⟨t, text, span⟩ := tok'
  obtain rfl : t = .keyword k := hterminal
  obtain rfl : text = k.text := String.toList_injective hm
  rw [Cursor.token?, ← htext, scan_of_bodywise hts hk]
  simp only [Cursor.past, Option.map_some, String.ofList_toList, Option.some.injEq, Prod.mk.injEq,
    Token.mk.injEq, Cursor.mk.injEq, true_and]
  exact ⟨hspan.symm, (hlast.trans (congrArg Span.last hspan)).symm⟩

theorem inNode_or_ended_of_caps (h : o.Caps) (first : Position) (last : Option Token) :
    InNode l ⟨o.frames ++ [⟨l, first, o.parts, o.rest⟩], [], [], last⟩ ∨
      Ended l ⟨o.frames ++ [⟨l, first, o.parts, o.rest⟩], [], [], last⟩ := by
  rcases h with ⟨hframes, hspent⟩ | hcapped
  · exact .inr ⟨⟨_, by rw [hframes, List.nil_append], rfl, hspent⟩, rfl, rfl⟩
  · exact .inl ⟨(rooted_append _).2 ⟨rfl, hcapped⟩, rfl, rfl⟩

theorem between_of_ended (hl : l ∈ blockLabels) {r s : Reader} (hr : r.Ended l) {tree : Tree}
    (htrees : r.close.trees = [tree]) {parts : List Tree} {rest : List Phrase} (hs : s.shape =
      (r.inside ⟨.game, .first, parts, rest⟩ [⟨.start, .first, [], []⟩]).shape) :
    Between (parts ++ [tree]) rest s := by
  obtain ⟨f, hf, hlabel, hspent⟩ := hr.frames
  have hframes := congrArg Reader.frames hs
  simp only [shape, inside, hf, List.singleton_append, List.map_cons, List.map_eq_cons_iff,
    Frame.shape, Frame.mk.injEq] at hframes
  obtain ⟨f', fs, hf', ⟨hlabel', -, -, hrest⟩, -⟩ := hframes
  refine .inBlock r.last hf' (by rwa [hlabel', hlabel]) (by rwa [hrest]) ?_
  rw [← close_shape, hs, close_shape, close_inside (by simp [hf])]
  have hclose : r.close.frames = [] ∧ r.close.last = r.last := by simp [Reader.close, hf]
  simp [inside, ofGame, htrees, hclose.1, hclose.2]

/-- A block that is read on its own is read as the next block of a game. -/
theorem exists_read_block {r : Reader} {parts : List Tree} {rest : List Phrase}
    (hr : Between parts rest r) (hrest : IsBody rest) (hq : IsBlockPhrase k l q) {tree : Tree}
    (hread : readAs (.node l q) text = .ok [tree]) (tail : List Char) (p : Position) :
    ∃ (s : Reader) (p' : Position), Between (parts ++ [tree]) furtherBody s ∧
      r.read ⟨text.toList ++ '\n' :: tail, p⟩ = s.read ⟨tail, p'⟩ := by
  have hk : k ∈ bodyWords := List.mem_cons_of_mem _ hq.word
  have hparted : Parted ('\n' :: tail) := by simp [Parted, isSpace]
  obtain ⟨tok, c, o, htok, hterminal, ho, hinner⟩ := exists_first_of_read hq hread
  obtain ⟨tok', p₁, hshape, htok'⟩ :=
    exists_token?_of_bodywise (hr.bodywise_admitted hrest) hk hparted htok hterminal p
  have hterminal' : tok'.terminal = .keyword k := by
    rw [← Token.terminal_shape, hshape, Token.terminal_shape, hterminal]
  -- the block is opened in the game as it is on its own
  obtain ⟨o', ho', hopen⟩ : ∃ o', take tok' q = some o' ∧ o'.shape = o.shape := by
    have htake := take_shape tok' q
    rw [hshape, take_shape, ho] at htake
    obtain ⟨o', ho', heq⟩ := Option.map_eq_some_iff.1 htake.symm
    exact ⟨o', ho', heq⟩
  have htake : take tok' gameBlock = some (o'.enclose l tok'.span.first) := by
    rw [hq.take_eq tok' hterminal', take, ho']
    rfl
  obtain ⟨s, hfeed, hs⟩ := hr.exists_feed hk hterminal' (hrest.takeAll htake)
  have hinside : s.shape =
      (inside ⟨o.frames ++ [⟨l, tok.span.first, o.parts, o.rest⟩], [], [], some tok⟩
        ⟨.game, .first, parts, furtherBody⟩ [⟨.start, .first, [], []⟩]).shape := by
    simp only [Opening.shape, Opening.mk.injEq] at hopen
    rw [hs]
    simp [shape, inside, Opening.enclose, Frame.shape, hopen, hshape]
  obtain ⟨r', s', p', hended, htrees, hs', hread'⟩ := exists_read_inside
    (inNode_or_ended_of_caps ((Opens.of_take ho).caps hq.capped) _ _) hinside hinner tail p₁
  exact ⟨s', p', between_of_ended hq.label hended htrees hs',
    (read_of_taken htok' hfeed).trans hread'⟩

/-- The texts of blocks, each read on its own, are read one after the other in a game. -/
theorem exists_read_blocks {texts : List String} (h : List.Forall₂ ReadsBlock texts trees)
    {r : Reader} {parts : List Tree} {rest : List Phrase} (hr : Between parts rest r)
    (hrest : IsBody rest) (tail : List Char) (p : Position) :
    ∃ (s : Reader) (rest' : List Phrase) (p' : Position),
      Between (parts ++ trees) rest' s ∧ IsBody rest' ∧
      r.read ⟨texts.flatMap (fun b => b.toList ++ ['\n']) ++ tail, p⟩ = s.read ⟨tail, p'⟩ := by
  induction h generalizing r parts rest p with
  | nil => exact ⟨r, rest, p, by simpa using hr, hrest, rfl⟩
  | @cons text tree texts trees hblock _ ih =>
    obtain ⟨name, hname, q, hq, hread⟩ := hblock
    obtain ⟨k, l, q, rfl, hphrase⟩ := exists_isBlockPhrase hname hq
    obtain ⟨s, p', hs, hstep⟩ := exists_read_block hr hrest hphrase hread
      (texts.flatMap (fun b => b.toList ++ ['\n']) ++ tail) p
    obtain ⟨s', rest', p'', hs', hrest', hrun⟩ := ih hs (.inr rfl) p'
    refine ⟨s', rest', p'', by simpa using hs', hrest', ?_⟩
    rw [← hrun, ← hstep]
    simp

theorem finish_of_game (parts : List Tree) {rest : List Phrase} (hrest : Spent rest)
    (last : Option Token) : (ofGame parts rest last).finish.toOption.map (List.map Tree.shape) =
      some [.node .start (some .origin) [.node .game (some .origin) (parts.map Tree.shape)]] := by
  have hgame : .endOfInput ∈ follow .game := by decide +kernel
  have hstart : .endOfInput ∈ follow .start := by decide +kernel
  have hfeed : (ofGame parts rest last).feed (ofGame parts rest last).endToken = .finished
      (ofGame parts rest last).close.close.trees := by
    have hnil : allNullable [] = true := rfl
    simp [feed, feedFrom, ofGame, endToken, hrest.takeAll, hrest.allNullable, Reader.close,
      hnil, takeAll, hgame, hstart]
  rw [finish, hfeed]
  simp [ofGame, Reader.close, Tree.shape, Except.toOption]

/-- After the last block a brace closes the game. -/
theorem exists_read_closeBrace {r : Reader} {parts : List Tree} {rest : List Phrase}
    (hr : Between parts rest r) (hrest : IsBody rest) (p : Position) :
    ∃ tree, r.read ⟨Keyword.closeBrace.text.toList, p⟩ = .ok [tree] ∧
      tree.shape = .node .start (some .origin)
        [.node .game (some .origin) (parts.map Tree.shape)] := by
  have hk : .closeBrace ∈ bodyWords := List.mem_cons_self
  have hstart : Cursor.nextStart ⟨Keyword.closeBrace.text.toList, p⟩ =
      ⟨Keyword.closeBrace.text.toList, p⟩ := Cursor.nextStart_of_none rfl
  have hscan := scan_of_bodywise (hr.bodywise_admitted hrest) hk []
  have htok : (Cursor.nextStart ⟨Keyword.closeBrace.text.toList, p⟩).token? r.admitted = some
      (⟨.keyword .closeBrace, Keyword.closeBrace.text, p, p.after Keyword.closeBrace.text.toList⟩,
        ⟨[], p.after Keyword.closeBrace.text.toList⟩) := by
    rw [List.append_nil] at hscan
    rw [hstart, Cursor.token?, hscan]
    rfl
  obtain ⟨s, hfeed, hs⟩ := hr.exists_feed hk (rfl : Token.terminal
    ⟨.keyword .closeBrace, Keyword.closeBrace.text, p, p.after Keyword.closeBrace.text.toList⟩ = _)
    hrest.takeAll_closeBrace
  have hgame : s.shape = (ofGame parts [.nothing, .nothing] (some ⟨.keyword .closeBrace,
      Keyword.closeBrace.text, p, p.after Keyword.closeBrace.text.toList⟩)).shape := by
    simpa [ofGame] using hs
  have hfinish := finish_toOption_eq hgame
  rw [finish_of_game parts (by simp [Spent]), Option.map_eq_some_iff] at hfinish
  obtain ⟨trees, htrees, hshapes⟩ := hfinish
  obtain ⟨tree, rfl, hshape⟩ := List.map_eq_singleton_iff.1 hshapes
  rw [read_of_taken htok hfeed, read_of_nil (by rfl)]
  exact ⟨tree, toOption_eq_some.1 htrees, hshape⟩

/-! ## The title -/

/-- A run goes over the text of a terminal that is taken, and over the layout in front of it. -/
theorem read_of_matches {r s : Reader} {t : Terminal} {gap rest : List Char} {p : Position}
    (hgap : Gap gap) (hm : t.Matches text.toList) (hname : t ≠ .name) (hrest : Parted rest)
    (hfeed : r.feed ⟨t, text, p.after gap, (p.after gap).after text.toList⟩ = .taken s)
    (ht : t ∈ r.admitted) (hword : wordy r.admitted = true) :
    r.read ⟨gap ++ (text.toList ++ rest), p⟩ =
      s.read ⟨rest, (p.after gap).after text.toList⟩ := by
  have hscan := scan_append ht hm hrest (fun _ k hk hlike => by
    simpa [hlike] using List.all_eq_true.1 hword _ hk) fun h => absurd h hname
  refine read_of_taken ?_ hfeed
  have hstart := Cursor.nextStart_gap_append hgap (text.toList ++ rest) p
  rw [hstart, Cursor.nextStart_of_none (layout?_append hm rest), Cursor.token?, hscan]
  simp [Cursor.past]

theorem feed_start (text : String) (span : Span) :
    (Reader.start Grammar.start).feed ⟨.keyword .game, text, span⟩ = .taken
      ⟨[⟨.game, span.first, [], [.seq string afterTitle]⟩, ⟨.start, span.first, [], []⟩], [], [],
        some ⟨.keyword .game, text, span⟩⟩ := rfl

theorem feed_title (p : Position) (last : Option Token) (text : String) (span : Span) :
    Reader.feed ⟨[⟨.game, p, [], [.seq string afterTitle]⟩, ⟨.start, p, [], []⟩], [], [], last⟩
      ⟨.string, text, span⟩ = .taken
      ⟨[⟨.string, span.first, [.ofToken ⟨.string, text, span⟩], []⟩, ⟨.game, p, [], [afterTitle]⟩,
        ⟨.start, p, [], []⟩], [], [], some ⟨.string, text, span⟩⟩ := rfl

theorem feed_openBrace (p : Position) (title text : String) (span span' : Span) :
    Reader.feed ⟨[⟨.string, span.first, [.ofToken ⟨.string, title, span⟩], []⟩,
      ⟨.game, p, [], [afterTitle]⟩, ⟨.start, p, [], []⟩], [], [], some ⟨.string, title, span⟩⟩
      ⟨.keyword .openBrace, text, span'⟩ = .taken
      ⟨[⟨.game, p, [.node .string (some span) [.ofToken ⟨.string, title, span⟩]], wholeBody⟩,
        ⟨.start, p, [], []⟩], [], [], some ⟨.keyword .openBrace, text, span'⟩⟩ := by
  have hmem : .keyword .openBrace ∈ follow .string := by decide +kernel
  have hopen : takeAll ⟨.keyword .openBrace, text, span'⟩ [afterTitle] =
    some ⟨[], [], wholeBody⟩ := rfl
  have hnil : allNullable [] = true := rfl
  have hnone : takeAll ⟨.keyword .openBrace, text, span'⟩ [] = none := rfl
  simp [feed, feedFrom, hnone, hopen, hmem, hnil, Reader.close, spanFrom]

theorem exists_read_title (title : String) (tail : List Char) :
    ∃ (r : Reader) (p : Position), Between [titleTree title] wholeBody r ∧
      (Reader.start Grammar.start).read ⟨"game ".toList ++ ((Text.literal title).toList ++
        ([' ', '{', '\n'] ++ tail)), .first⟩ = r.read ⟨tail, p⟩ := by
  have hspace : Gap [' '] := .blank rfl .nil
  have hline : Gap ['\n'] := .blank rfl .nil
  have hparted (c : Char) (hc : isSpace c = true) (cs : List Char) : Parted (c :: cs) := by
    simp [Parted, hc]
  have hgame : wordy Grammar.start.first = true := by decide
  have htitle : .string ∈ firstOfAll [.seq string afterTitle] (follow .game) ∧
      wordy (firstOfAll [.seq string afterTitle] (follow .game)) = true := by decide +kernel
  have hopen : .keyword .openBrace ∈ firstOfAll [] (follow .string) ∧
      wordy (firstOfAll [] (follow .string)) = true := by decide +kernel
  refine ⟨?reader, ?position, ?between, ?read⟩
  case read =>
    refine (read_of_matches (t := .keyword .game) .nil rfl (by decide) (hparted ' ' rfl _)
      (feed_start Keyword.game.text _) List.mem_cons_self hgame).trans ?_
    refine (read_of_matches (t := .string) hspace (Text.isString_literal title) (by decide)
      (hparted ' ' rfl _) (feed_title _ _ _ _) htitle.1 htitle.2).trans ?_
    refine (read_of_matches (t := .keyword .openBrace) hspace rfl (by decide) (hparted '\n' rfl _)
      (feed_openBrace _ _ Keyword.openBrace.text _ _) hopen.1 hopen.2).trans ?_
    exact read_congr (Cursor.nextStart_gap_append hline tail _)
  case between => exact .inGame _ rfl

end Reader

/-- The text of a game that is put together from texts of blocks, each on lines of its own. -/
def gameText (title : String) (blocks : List String) : String :=
  "game " ++ Text.literal title ++ r" {" ++ "\n" ++ String.join (blocks.map (· ++ "\n")) ++ r"}"

theorem toList_gameText (title : String) (blocks : List String) :
    (gameText title blocks).toList = "game ".toList ++ ((Text.literal title).toList ++
      ([' ', '{', '\n'] ++ (blocks.flatMap (fun b => b.toList ++ ['\n']) ++
        Keyword.closeBrace.text.toList))) := by
  have hblocks : (String.join (blocks.map (· ++ "\n"))).toList =
      blocks.flatMap fun b => b.toList ++ ['\n'] := by
    rw [String.toList_join, List.flatMap_map]
    simp
  simp [gameText, hblocks, Keyword.text]

/-- A game whose blocks are read on their own is read, with the blocks in order as they are read on
their own, up to positions. -/
theorem exists_readAs_gameText (title : String) {texts : List String}
    (h : List.Forall₂ ReadsBlock texts trees) :
    ∃ tree, readAs Grammar.start (gameText title texts) = .ok [tree] ∧
      tree.shape = .node .start (some .origin) [.node .game (some .origin)
        (titleTree title :: trees.map Tree.shape)] := by
  obtain ⟨r, p, hr, htitle⟩ := Reader.exists_read_title title
    (texts.flatMap (fun b => b.toList ++ ['\n']) ++ Keyword.closeBrace.text.toList)
  obtain ⟨s, rest, p', hs, hrest, hblocks⟩ :=
    Reader.exists_read_blocks h hr (.inl rfl) Keyword.closeBrace.text.toList p
  obtain ⟨tree, hread, hshape⟩ := Reader.exists_read_closeBrace hs hrest p'
  refine ⟨tree, ?_, ?_⟩
  · rw [← hread, ← hblocks, ← htitle]
    change (Reader.start Grammar.start).read (.ofString _) = _
    rw [Cursor.ofString, toList_gameText]
  · rw [hshape]
    simp [shape_titleTree]

end PlatformGame.Parse
