import PlatformGame.Program.LevelScene
import PlatformGame.Proofs.Program.Calls
import PlatformGame.Proofs.Program.Performance

/-! # The statements of a level scene

The scene of a level is a class with a method that sets it up and one that is called in every frame.
Most of their statements have nothing to do with enemies and collectibles, and play no animations
(`Aside`). What is left is in four places: the enemies and the collectibles that are set up, how
enemies behave, and how the player moves (`exists_codes_levelListing`). -/

namespace PlatformGame.Script

open Program

-- The longest rows have more than a hundred characters, each a step of the reading.
set_option maxRecDepth 2048

/-! ## What is said of enemies and collectibles -/

/-- The words without which nothing is said of enemies and collectibles. -/
def subjects : List Token :=
  [.word ['e', 'n', 'e', 'm', 'y'], .word ['e', 'n', 'e', 'm', 'i', 'e', 's'],
    .word ['c', 'o', 'l', 'l', 'e', 'c', 't', 'i', 'b', 'l', 'e', 's'],
    .word ['k', 'i', 'n', 'd']]

/-- Whether a statement, or one inside, has one of the words. -/
def Stmt.speaks (s : Stmt Token) : Bool := s.lines.any (·.any (· ∈ subjects))

/-- The statements that are left when those without the words are left out. -/
def relevant (ss : List (Stmt Token)) : List (Stmt Token) := ss.filter Stmt.speaks

theorem relevant_append (ss ss' : List (Stmt Token)) :
    relevant (ss ++ ss') = relevant ss ++ relevant ss' :=
  List.filter_append ss ss'

theorem Stmt.speaks_eq_false_iff {s : Stmt Token} :
    s.speaks = false ↔ ∀ ts ∈ s.lines, ∀ t ∈ ts, t ∉ subjects := by
  simp [speaks]

theorem relevant_eq_nil_iff :
    relevant ss = [] ↔ ∀ ts ∈ Stmt.linesAll ss, ∀ t ∈ ts, t ∉ subjects := by
  simp only [relevant, List.filter_eq_nil_iff, Bool.not_eq_true, Stmt.speaks_eq_false_iff,
    Stmt.linesAll_eq, List.mem_flatMap]
  grind

/-- Whatever is found in relevant statements only is found there. -/
theorem flatMap_relevant {find : Stmt Token → List α} (h : ∀ s, s.speaks = false → find s = [])
    (ss : List (Stmt Token)) : (relevant ss).flatMap find = ss.flatMap find := by
  induction ss with
  | nil => rfl
  | cons s ss ih =>
    rw [relevant, List.filter_cons, List.flatMap_cons, ← ih]
    split
    · rfl
    · next hs => rw [h s (by simpa using hs), relevant, List.nil_append]

def Sign.isAside : Sign → Bool
  | token t => decide (t ∉ subjects)
  | name _ _ | number _ => true
  | payload _ => false

theorem notMem_subjects_of_mem (h : 'L' ∈ w) : Token.word w ∉ subjects := by
  have hletters : subjects.all (fun t => !t.letters.contains 'L') = true := by decide
  intro hmem
  simpa [Token.letters, h] using List.all_eq_true.1 hletters _ hmem

theorem Token.Numeral.notMem_subjects (h : Token.Numeral t) : t ∉ subjects := by
  have hletters : subjects.all (fun t => t.letters.any fun c => !isNumeral c) = true := by decide
  intro hmem
  have hletter := List.all_eq_true.1 hletters t hmem
  cases h with
  | word hw =>
    obtain ⟨c, hc, hletter⟩ := List.any_eq_true.1 hletter
    simp [hw c hc] at hletter
  | mark _ => cases hletter

theorem Sign.notMem_subjects {s : Sign} (hs : s.isAside = true) (ht : t ∈ s.tokens) :
    t ∉ subjects := by
  cases s with
  | token u => exact List.mem_singleton.1 ht ▸ of_decide_eq_true hs
  | name w h => exact List.mem_singleton.1 ht ▸ notMem_subjects_of_mem h
  | number q => exact (numeral_of_mem_pieceTokens ht).notMem_subjects
  | payload j => cases hs

theorem notMem_subjects_of_all {ss : List Sign} (h : ss.all Sign.isAside = true) :
    ∀ t ∈ ss.flatMap Sign.tokens, t ∉ subjects := by
  intro t ht
  obtain ⟨s, hs, ht⟩ := List.mem_flatMap.1 ht
  exact Sign.notMem_subjects (List.all_eq_true.1 h s hs) ht

theorem relevant_images {ss : List (Stmt Sign)}
    (h : (Stmt.linesAll ss).all (·.all Sign.isAside) = true) :
    relevant (Stmt.images Sign.tokens ss) = [] := by
  rw [relevant_eq_nil_iff, Stmt.linesAll_images]
  intro ts hts
  obtain ⟨us, hus, rfl⟩ := List.mem_map.1 hts
  exact notMem_subjects_of_all (List.all_eq_true.1 h us hus)

/-- What rows say of enemies and collectibles, and the keys of the animations that they play. -/
def Tells (rows : Listing) (ss : List (Stmt Token)) (keys : List (Option String)) : Prop :=
  ∃ ss', Codes rows ss' ∧ relevant ss' = ss ∧ plays ss' = keys

/-- Rows that play animations and say nothing of enemies and collectibles. -/
def Moves (rows : Listing) (keys : List (Option String)) : Prop := Tells rows [] keys

/-- Rows that do neither. -/
def Aside (rows : Listing) : Prop := Moves rows []

theorem Codes.tells (h : Codes rows ss) : Tells rows (relevant ss) (plays ss) := ⟨ss, h, rfl, rfl⟩

namespace Tells

theorem append (h : Tells rows ss keys) (h' : Tells rows' ss' keys') :
    Tells (rows ++ rows') (ss ++ ss') (keys ++ keys') := by
  obtain ⟨us, hus, rfl, rfl⟩ := h
  obtain ⟨vs, hvs, rfl, rfl⟩ := h'
  exact ⟨us ++ vs, hus.append hvs, relevant_append us vs, passedAll_append playing us vs⟩

theorem append_aside (h : Tells rows ss keys) (h' : Aside rows') :
    Tells (rows ++ rows') ss keys := by
  have happend := h.append h'
  rwa [List.append_nil, List.append_nil] at happend

theorem aside_append (h : Aside rows) (h' : Tells rows' ss keys) : Tells (rows ++ rows') ss keys :=
  append h h'

theorem moves_append (h : Moves rows keys) (h' : Tells rows' ss keys') :
    Tells (rows ++ rows') ss (keys ++ keys') :=
  append h h'

/-- Rows that are left out if some of them are empty. -/
theorem ite_isEmpty (h : Tells rows ss keys) (h' : Tells rows' ss keys) :
    Tells (if rows.isEmpty then [] else rows') ss keys := by
  split
  · next hempty =>
    rw [List.isEmpty_iff.1 hempty] at h
    exact h
  · exact h'

end Tells

namespace Moves

theorem of_signs (hspelled : SpelledAll rows qss)
    (hread : (framedSigns? qss).bind (stmts? Sign.mark?) = some ss)
    (haside : (Stmt.linesAll ss).all (·.all Sign.isAside) = true)
    (hplays : passedAll? playing ss = some keys) : Moves rows keys :=
  ⟨_, .of_signs hspelled hread rfl, relevant_images haside, passedAll_images rfl hplays⟩

theorem append (h : Moves rows keys) (h' : Moves rows' keys') :
    Moves (rows ++ rows') (keys ++ keys') :=
  Tells.append h h'

theorem append_aside (h : Moves rows keys) (h' : Aside rows') : Moves (rows ++ rows') keys :=
  Tells.append_aside h h'

theorem aside_append (h : Aside rows) (h' : Moves rows' keys) : Moves (rows ++ rows') keys :=
  append h h'

theorem blockTo (h : ∃ qss ss, SpelledAll (blockTo close header []) qss ∧
      (framedSigns? qss).bind (stmts? Sign.mark?) = some [.block ss []] ∧
      ss.all Sign.isAside = true ∧ passed? playing ss = some []) (hbody : Moves body keys) :
    Moves (Program.blockTo close header body) keys := by
  obtain ⟨qss, ss, hspelled, hread, hheader, hplays⟩ := h
  obtain ⟨us, hus, hnil, rfl⟩ := hbody
  have hframe : Codes (Program.blockTo close header []) [.block (ss.flatMap Sign.tokens) []] :=
    .of_signs hspelled hread rfl
  refine ⟨_, hframe.blockTo hus, relevant_eq_nil_iff.2 ?_, ?_⟩
  · rw [Stmt.linesAll, Stmt.lines, Stmt.linesAll, List.append_nil, List.forall_mem_cons]
    exact ⟨notMem_subjects_of_all hheader, relevant_eq_nil_iff.1 hnil⟩
  · rw [plays, passedAll_block, playing, passed_of_passed? rfl hplays]
    rfl

end Moves

namespace Aside

theorem nil : Aside [] := Codes.nil.tells

theorem append (h : Aside rows) (h' : Aside rows') : Aside (rows ++ rows') := Moves.append h h'

theorem blank : Aside [blank] := .of_signs (by repeat' constructor) rfl rfl rfl

theorem ite [Decidable c] (h : Aside rows) (h' : Aside rows') :
    Aside (if c then rows else rows') := by
  split
  · exact h
  · exact h'

theorem flatMap {f : α → Listing} {xs : List α} (h : ∀ x ∈ xs, Aside (f x)) :
    Aside (xs.flatMap f) := by
  induction xs with
  | nil => exact nil
  | cons x xs ih =>
    rw [List.forall_mem_cons] at h
    exact h.1.append (ih h.2)

theorem withBlank (h : Aside rows) : Aside (withBlank rows) := .ite .nil (h.append .blank)

end Aside

/-! ## The player -/

/-- What the player does: walk to either side, stand, and jump. -/
def motions : List String := ["walk", "walk", "idle", "jump"]

/-- The clips of the player that are played. -/
def playerClips (p : Player) : List (String × String) :=
  (motions.filter (hasClip p.animations)).map (p.sprite, ·)

/-- The key of a clip of the player, if there is one of this name. -/
def clipKeys (p : Player) (name : String) : List (Option String) :=
  if hasClip p.animations name then [some (animationKey p.sprite name)] else []

theorem map_playerClips (p : Player) :
    (playerClips p).map (fun q => some (animationKey q.1 q.2)) =
      clipKeys p "walk" ++ clipKeys p "walk" ++ clipKeys p "idle" ++ clipKeys p "jump" := by
  simp only [playerClips, motions, clipKeys, List.filter_cons, List.filter_nil]
  split_ifs <;> rfl

theorem moves_withClip (p : Player) (name : String)
    (h : before = "" ∨ before = "if (this.player.body.onFloor()) ") :
    Moves (withClip p name before ", true);") (clipKeys p name) := by
  unfold withClip clipKeys
  split
  · rcases h with rfl | rfl <;> exact .of_signs (by repeat' constructor) rfl rfl rfl
  · exact Aside.nil

theorem moves_playerUpdate (p : Player) : Moves (playerUpdate p)
    ((playerClips p).map fun q => some (animationKey q.1 q.2)) := by
  have hstill : Moves (if hasClip p.animations "idle" then withClip p "idle" "" ", true);"
      else [line ["this.player.anims.stop();"]]) (clipKeys p "idle") := by
    split
    · exact moves_withClip p "idle" (.inl rfl)
    · next hnone =>
      rw [clipKeys, if_neg hnone]
      exact .of_signs (by repeat' constructor) rfl rfl rfl
  unfold playerUpdate
  rw [keyDown_eq, keyDown_eq, keyDown_eq, map_playerClips]
  refine .append (.append_aside (.append (.append (.aside_append (.append (.append ?_ ?_) ?_)
    (.blockTo ?_ (.aside_append ?_ (moves_withClip p "walk" (.inr rfl)))))
    (.blockTo ?_ (.aside_append ?_ (moves_withClip p "walk" (.inr rfl)))))
    (.blockTo ⟨_, _, by repeat' constructor, rfl, rfl, rfl⟩ hstill)) .blank)
    (.blockTo ?_ (.append_aside (.aside_append ?_ (moves_withClip p "jump" (.inl rfl))) ?_))
  case refine_1 | refine_2 =>
    exact .ite (.of_signs (by repeat' constructor) rfl rfl rfl) .nil
  case refine_4 | refine_6 | refine_8 =>
    cases p.controls <;> exact ⟨_, _, by repeat' constructor, rfl, rfl, rfl⟩
  all_goals exact .of_signs (by repeat' constructor) rfl rfl rfl

/-! ## The parts of a scene -/

theorem aside_inputSetup (p : Player) : Aside (inputSetup p) := by
  unfold inputSetup usesArrows usesWasd
  cases p.controls <;> exact .of_signs (by repeat' constructor) rfl rfl rfl

theorem aside_tilemapCreate (l : Level) (assets : List Asset) : Aside (tilemapCreate l assets) := by
  have hlayers : Aside ((tiledLayers l).flatMap fun p => layerCreate p.1 p.2) :=
    .flatMap fun p _ => .of_signs (by repeat' constructor) rfl rfl rfl
  unfold tilemapCreate
  cases hl : tiledLayers l with
  | nil => exact .nil
  | cons p ps =>
    rw [hl] at hlayers
    exact .append (.of_signs (by repeat' constructor) rfl rfl rfl) hlayers

theorem aside_platformsCreate (ps : List Platform) : Aside (platformsCreate ps) := by
  unfold platformsCreate
  rw [List.map_eq_flatMap]
  refine .append (.append ?_ (.flatMap fun p _ => ?_)) ?_
  all_goals exact .of_signs (by repeat' constructor) rfl rfl rfl

theorem aside_soundsSetup (sounds : Option Sounds) : Aside (soundsSetup sounds) := by
  have hsetup (event : SoundEvent) (key : String) : Aside (soundSetup event key) := by
    cases event <;> exact .of_signs (by repeat' constructor) rfl rfl rfl
  unfold soundsSetup
  cases sounds with
  | none => exact .nil
  | some s =>
    refine .flatMap fun p _ => ?_
    obtain ⟨event, _ | key⟩ := p
    · exact .nil
    · exact .ite .nil (hsetup event key)

/-- The enemies of a level, with what happens when the player meets one. -/
def enemySection (g : Game) (l : Level) : Listing :=
  if (enemyCreate l g.symbols).isEmpty then []
  else enemyCreate l g.symbols ++ enemyCollision l (g.rules.win == .defeatAll) ++ [blank]

/-- The collectibles of a level, with what happens when the player meets one. -/
def collectibleSection (g : Game) (l : Level) : Listing :=
  if (collectibleCreate l g.symbols).isEmpty then []
  else collectibleCreate l g.symbols ++ collectibleCollision (goalOf g.rules.win) ++ [blank]

/-- How enemies behave, for the kinds of movement that are used. -/
def behaviourOf (patrol chase fly : Bool) : Listing :=
  let branches := (if patrol then patrolUpdate else []) ++ (if chase then chaseUpdate else [])
    ++ if fly then flyUpdate else []
  if branches.isEmpty then []
  else
    block ["if (this.enemies)"]
      (blockTo r"});" ["this.enemies.getChildren().forEach((enemy) =>"]
        ([line ["const def = enemy.enemyDef;"],
          line ["if (!def || !enemy.active) return;"]] ++ branches))

theorem enemyUpdate_eq (es : List Enemy) : enemyUpdate es =
    behaviourOf (usesMovement es .patrol) (usesMovement es .chase) (usesMovement es .fly) :=
  rfl

/-! ## Scenes -/

/-- The tokens of a fixed text. -/
def tokensOf (text : String) : List Token := (tokens? text.toList).getD []

theorem tokensOf_ofList (cs : List Char) : tokensOf (String.ofList cs) = (tokens? cs).getD [] := by
  rw [tokensOf, String.toList_ofList]

/-- The body of a block with the given header. -/
def Stmt.body? (header : List Token) : Stmt Token → Option (List (Stmt Token))
  | line _ => none
  | block ts body => if ts = header then some body else none

/-- The methods of a class with the given header. -/
def methods (header : String) (members : List (Stmt Token)) : List (List (Stmt Token)) :=
  members.filterMap (Stmt.body? (tokensOf header))

/-- The two methods of a level scene, among all its members, and what they say of enemies and
collectibles: what sets up the former and the latter, and how enemies behave. -/
structure LevelCode (enemies collectibles behaviour create update members : List (Stmt Token)) :
    Prop where
  create_eq : methods "create()" members = [create]
  update_eq : methods "update(time, delta)" members = [update]
  relevant_members : relevant members =
    relevant [.block (tokensOf "create()") create, .block (tokensOf "update(time, delta)") update]
  relevant_create : relevant create = relevant enemies ++ relevant collectibles
  relevant_update : relevant update = relevant behaviour

/-! ### Methods -/

/-- The headers of the methods of scenes. -/
def methodHeaders : List String :=
  ["constructor()", "preload()", "create()", "update(time, delta)", "handlePlayerDamage(amount)",
    "handleWin()", "handleGameOver()"]

theorem codes_method (h : header ∈ methodHeaders) (hbody : Codes body ss) :
    Codes (block [.code header] body) [.block (tokensOf header) ss] := by
  refine Codes.blockTo ?_ hbody
  simp only [methodHeaders, List.mem_cons, List.not_mem_nil, or_false] at h
  rcases h with rfl | rfl | rfl | rfl | rfl | rfl | rfl <;> rw [tokensOf_ofList] <;>
    exact .of_signs (by repeat' constructor) rfl rfl

theorem Tells.exists_method (h : header ∈ methodHeaders) (hbody : Tells body ss keys) :
    ∃ ss', Codes (block [.code header] body) [.block (tokensOf header) ss'] ∧ relevant ss' = ss ∧
      plays ss' = keys := by
  obtain ⟨ss', hss', hrest⟩ := hbody
  exact ⟨ss', codes_method h hss', hrest⟩

theorem exists_codes_levelCreate (he : Codes (enemySection g l) enemies)
    (hc : Codes (collectibleSection g l) collectibles) : ∃ create,
      Codes (levelCreate g l) [.block (tokensOf "create()") create] ∧
      relevant create = relevant enemies ++ relevant collectibles ∧
      plays create = plays enemies ++ plays collectibles := by
  have hplatforms : Aside (if l.platforms.isEmpty then []
      else platformsCreate l.platforms ++ [blank]) :=
    .ite .nil (.append (aside_platformsCreate l.platforms) .blank)
  refine Tells.exists_method (by simp [methodHeaders]) (.append_aside (.append_aside (.append_aside
    (.append_aside (.append_aside (.append (.aside_append ?before he.tells) hc.tells) ?exit)
    (aside_soundsSetup g.sounds)) ?hud) ?lose) ?win)
  case before =>
    refine .append (.append (.append (.append (.append (.append ?_ (aside_inputSetup g.player))
      .blank) ?_) .blank) (aside_tilemapCreate l g.assets).withBlank) hplatforms
    all_goals exact .of_signs (by repeat' constructor) rfl rfl rfl
  case exit =>
    cases l.exit with
    | none => exact .nil
    | some p => exact .append (.of_signs (by repeat' constructor) rfl rfl rfl) .blank
  case hud => exact .ite (.of_signs (by repeat' constructor) rfl rfl rfl) .nil
  case lose => exact .ite (.of_signs (by repeat' constructor) rfl rfl rfl) .nil
  case win =>
    cases g.rules.win with
    | survive seconds => exact .of_signs (by repeat' constructor) rfl rfl rfl
    | _ => exact .nil

theorem exists_codes_levelUpdate (l : Level) (h : Codes (enemyUpdate g.enemies) behaviour) :
    ∃ update, Codes (levelUpdate g l) [.block (tokensOf "update(time, delta)") update] ∧
      relevant update = relevant behaviour ∧
      plays update = (playerClips g.player).map (fun p => some (animationKey p.1 p.2))
        ++ plays behaviour := by
  have hbehaviour : Tells (if (enemyUpdate g.enemies).isEmpty then []
      else blank :: enemyUpdate g.enemies) (relevant behaviour) (plays behaviour) :=
    h.tells.ite_isEmpty (.aside_append .blank h.tells)
  refine Tells.exists_method (by simp [methodHeaders]) (.append_aside (.append_aside (.append_aside
    (.append_aside (.moves_append (.aside_append ?top (moves_playerUpdate g.player)) hbehaviour)
    .blank) ?lose) ?win) ?emit)
  case lose =>
    refine .ite (.blockTo ⟨_, _, by repeat' constructor, rfl, rfl, rfl⟩ ?_) .nil
    exact .of_signs (by repeat' constructor) rfl rfl rfl
  case win =>
    cases g.rules.win with
    | survive seconds => exact .of_signs (by repeat' constructor) rfl rfl rfl
    | _ => exact .nil
  all_goals exact .of_signs (by repeat' constructor) rfl rfl rfl

/-- The constructor of a scene registers its key and does nothing else. -/
theorem exists_codes_sceneConstructor (key : String)
    (h : options = "" ∨ options = ", active: false") : ∃ body,
      Codes (sceneConstructor key options) [.block (tokensOf "constructor()") body] ∧
      (relevant body = [] ∧ plays body = []) ∧ passedAll registering body = [some key] ∧
      passedAll creating body = [] := by
  have hbody : ∃ ss, Codes [line [r"super({ key: ", .literal key, options, r" });"]]
      (Stmt.images Sign.tokens ss) ∧ (Stmt.linesAll ss).all (·.all Sign.isAside) = true ∧
      passedAll? playing ss = some [] ∧ passedAll? registering ss = some [some key] ∧
      passedAll? creating ss = some [] := by
    rcases h with rfl | rfl <;>
      exact ⟨_, .of_signs (by repeat' constructor) rfl rfl, rfl, rfl, rfl, rfl⟩
  obtain ⟨ss, hss, haside, hplays, hkey, hcreates⟩ := hbody
  exact ⟨_, codes_method (by simp [methodHeaders]) hss,
    ⟨relevant_images haside, passedAll_images rfl hplays⟩, passedAll_images rfl hkey,
    passedAll_images rfl hcreates⟩

theorem exists_codes_winHandler (next : Option String) : ∃ body,
    Codes (winHandler next) [.block (tokensOf "handleWin()") body] ∧
    (relevant body = [] ∧ plays body = []) ∧ passedAll starting body = (next.map some).toList ∧
    passedAll showing body = if next.isNone then [some "YOU WIN!"] else [] := by
  cases next <;>
    exact ⟨_, codes_method (by simp [methodHeaders])
      (.of_signs (by repeat' constructor) rfl rfl), ⟨relevant_images rfl,
      passedAll_images rfl rfl⟩, passedAll_images rfl rfl, passedAll_images rfl rfl⟩

/-! ### Classes -/

theorem FitAll.exists_append (us : List Token) (h : FitAll (us.map .token ++ is) ts) :
    ∃ vs, ts = us ++ vs ∧ FitAll is vs := by
  induction us generalizing ts with
  | nil => exact ⟨ts, rfl, h⟩
  | cons u us ih =>
    cases h with
    | cons hu hus =>
      cases hu
      obtain ⟨vs, rfl, hvs⟩ := ih hus
      exact ⟨vs, rfl, hvs⟩

theorem FitAll.eq_of_tokens (us : List Token) (h : FitAll (us.map .token) ts) : ts = us := by
  rw [← List.append_nil (us.map _)] at h
  obtain ⟨vs, rfl, hvs⟩ := h.exists_append us
  cases hvs
  exact List.append_nil us

/-- The header of the class of a scene. -/
def sceneHeader (key : String) : List Token :=
  [classWord, .word key.toList, .word ['e', 'x', 't', 'e', 'n', 'd', 's'],
    .word ['P', 'h', 'a', 's', 'e', 'r'], .mark '.', .word ['S', 'c', 'e', 'n', 'e']]

theorem codes_sceneClass (hkey : IsName key) (h : Codes body ss) :
    Codes (sceneClass key body) [.block (sceneHeader key) ss] := by
  refine Codes.frame (.of_lines fun s t hs ht => ?_) h
  have hspells : Spells True [.code "class ", .name key, .code " extends Phaser.Scene",
      .code r" {"] _ := .code (.name hkey (.code (.code .nil)))
  obtain ⟨ts, hts, hfit⟩ := hspells.exists_tokens (rfl : items Item.token .code _ = some _) hs
  obtain ⟨us, rfl, hus⟩ := FitAll.exists_append [classWord] hfit
  cases hus with
  | cons hname hrest =>
    cases hname
    cases FitAll.eq_of_tokens [_, _, _, _, _] hrest
    have hclose : tokens? t.toList = some [.mark '}'] := by
      rw [← Except.ok.inj ht, String.append_empty, String.toList_ofList]
      rfl
    refine codeOf?_eq_some.2 ⟨[sceneHeader key ++ [.mark '{'], [.mark '}']], ?_, rfl⟩
    rw [List.mapM_cons, List.mapM_cons, tokens?, hts, hclose]
    rfl

theorem codes_blank : Codes [blank] [] := .of_signs (by repeat' constructor) rfl rfl

/-- The members of the class of a level. -/
def levelMembers (start create update damage win lose : List (Stmt Token)) : List (Stmt Token) :=
  [.block (tokensOf "constructor()") start, .block (tokensOf "create()") create,
    .block (tokensOf "update(time, delta)") update,
    .block (tokensOf "handlePlayerDamage(amount)") damage, .block (tokensOf "handleWin()") win,
    .block (tokensOf "handleGameOver()") lose]

/-- The scene of a level, given what is read of the parts that matter. -/
theorem exists_codes_levelListing (hstart : Codes (sceneConstructor (sceneKey l.name) "")
      [.block (tokensOf "constructor()") start])
    (hwin : Codes (winHandler (nextScene g index)) [.block (tokensOf "handleWin()") win])
    (he : Codes (enemySection g l) enemies) (hc : Codes (collectibleSection g l) collectibles)
    (hb : Codes (enemyUpdate g.enemies) behaviour) : ∃ create update damage lose,
      Codes (levelListing g l index) [.block (sceneHeader (sceneKey l.name))
        (levelMembers start create update damage win lose)] ∧
      (relevant create = relevant enemies ++ relevant collectibles ∧
        plays create = plays enemies ++ plays collectibles) ∧
      (relevant update = relevant behaviour ∧
        plays update = (playerClips g.player).map (fun p => some (animationKey p.1 p.2))
          ++ plays behaviour) ∧
      (relevant damage = [] ∧ plays damage = []) ∧ relevant lose = [] ∧ plays lose = [] := by
  obtain ⟨create, hcreate, hcreate'⟩ := exists_codes_levelCreate he hc
  obtain ⟨update, hupdate, hupdate'⟩ := exists_codes_levelUpdate l hb
  obtain ⟨damage, hdamage, hdamage'⟩ : ∃ ss, Codes damageHandler
      [.block (tokensOf "handlePlayerDamage(amount)") ss] ∧ relevant ss = [] ∧ plays ss = [] :=
    Tells.exists_method (by simp [methodHeaders])
      (Moves.of_signs (by repeat' constructor) rfl rfl rfl)
  obtain ⟨lose, hlose, hlose'⟩ : ∃ ss, Codes (gameOverHandler g (firstScene g l))
      [.block (tokensOf "handleGameOver()") ss] ∧ relevant ss = [] ∧ plays ss = [] :=
    Tells.exists_method (by simp [methodHeaders])
      (Moves.of_signs (by repeat' constructor) rfl rfl rfl)
  refine ⟨create, update, damage, lose, ?_, hcreate', hupdate', hdamage', hlose'⟩
  exact codes_sceneClass (isName_sceneKey l.name) ((((((((((hstart.append codes_blank).append
    hcreate).append codes_blank).append hupdate).append codes_blank).append hdamage).append
    codes_blank).append hwin).append codes_blank).append hlose)

/-- A method that says nothing of enemies and collectibles. -/
theorem relevant_method (h : header ∈ methodHeaders) (hbody : relevant body = [])
    (ss : List (Stmt Token)) : relevant (.block (tokensOf header) body :: ss) = relevant ss := by
  have hheader : (tokensOf header).all (fun t => t ∉ subjects) = true := by
    simp only [methodHeaders, List.mem_cons, List.not_mem_nil, or_false] at h
    rcases h with rfl | rfl | rfl | rfl | rfl | rfl | rfl <;> rw [tokensOf_ofList] <;> rfl
  have hspeaks : (Stmt.block (tokensOf header) body).speaks = false := by
    rw [Stmt.speaks_eq_false_iff, Stmt.lines, List.forall_mem_cons]
    exact ⟨fun t ht => of_decide_eq_true (List.all_eq_true.1 hheader t ht),
      relevant_eq_nil_iff.1 hbody⟩
  rw [relevant, List.filter_cons_of_neg (by simp [hspeaks]), relevant]

/-- The scene of a level is known up to what it says of enemies and collectibles. -/
theorem exists_levelCode (index : Nat) (he : Codes (enemySection g l) enemies)
    (hc : Codes (collectibleSection g l) collectibles)
    (hb : Codes (enemyUpdate g.enemies) behaviour) : ∃ key create update members,
      Codes (levelListing g l index) [.block key members] ∧
      LevelCode enemies collectibles behaviour create update members := by
  obtain ⟨start, hstart, ⟨hs, -⟩, -⟩ := exists_codes_sceneConstructor (sceneKey l.name) (.inl rfl)
  obtain ⟨win, hwin, ⟨hw, -⟩, -⟩ := exists_codes_winHandler (nextScene g index)
  obtain ⟨create, update, damage, lose, hcodes, ⟨hcreate, -⟩, ⟨hupdate, -⟩, ⟨hd, -⟩, hl, -⟩ :=
    exists_codes_levelListing hstart hwin he hc hb
  refine ⟨_, create, update, _, hcodes, rfl, rfl, ?_, hcreate, hupdate⟩
  rw [levelMembers, relevant_method (by simp [methodHeaders]) hs]
  refine (relevant_append [_, _] [_, _, _]).trans ?_
  rw [relevant_method (by simp [methodHeaders]) hd, relevant_method (by simp [methodHeaders]) hw,
    relevant_method (by simp [methodHeaders]) hl]
  exact List.append_nil _

end PlatformGame.Script
