import PlatformGame.Proofs.Program.Animations

/-! # The scenes of a program

A program is a list of classes, each a scene with a key that it registers in its constructor, and a
configuration (`scenes`). What is said of a scene is read off its members: which animations it
creates and plays, which scenes it starts and what it shows. `exists_gameScenes` says this for all
scenes of the program of a game. -/

namespace PlatformGame.Script

open Program

-- The longest rows have more than a hundred characters, each a step of the reading.
set_option maxRecDepth 2048

/-! ## Reading scenes -/

/-- A scene, with the key that it is registered under. -/
structure SceneClass where
  key : String
  members : List (Stmt Token)

/-- The key that the constructor among the members of a class registers. -/
def registered? (members : List (Stmt Token)) : Option String :=
  match methods "constructor()" members with
  | [body] =>
    match passedAll registering body with
    | [key] => key
    | _ => none
  | _ => none

def Stmt.scene? : Stmt Token → Option SceneClass
  | block (t :: _) members =>
    if t = classWord then (registered? members).map (⟨·, members⟩) else none
  | _ => none

/-- The scenes of a program, in order. -/
def scenes (program : List (Stmt Token)) : List SceneClass := program.filterMap Stmt.scene?

/-! ### Animations that are created -/

/-- The tokens of `key:`. -/
def keying : List Token := [.word ['k', 'e', 'y'], .mark ':']

/-- The tokens of `generateFrameNumbers(`. -/
def framing : List Token :=
  Callee.path [['g', 'e', 'n', 'e', 'r', 'a', 't', 'e', 'F', 'r', 'a', 'm', 'e', 'N', 'u', 'm', 'b',
    'e', 'r', 's']]

/-- The key of an animation and the sprite whose frames it shows, told by how it is created. -/
def animation? (settings : List (Stmt Token)) : Option (String × String) :=
  match passedAll keying settings, passedAll framing settings with
  | [some key], [some sprite] => some (key, sprite)
  | _, _ => none

mutual

/-- The animations that a statement creates, also inside; none where it cannot be read. -/
def Stmt.animations : Stmt Token → List (Option (String × String))
  | line ts => (passed creating ts).map fun _ => none
  | block header body =>
    (passed creating header).map (fun _ => animation? body) ++ animationsAll body

def Stmt.animationsAll : List (Stmt Token) → List (Option (String × String))
  | [] => []
  | s :: ss => s.animations ++ animationsAll ss

end

theorem Stmt.animationsAll_eq (ss : List (Stmt Token)) :
    animationsAll ss = ss.flatMap animations := by
  induction ss with
  | nil => rfl
  | cons s ss ih => rw [animationsAll, ih, List.flatMap_cons]

mutual

/-- There is an animation for each call. -/
theorem Stmt.length_animations : ∀ s : Stmt Token,
    s.animations.length = (s.lines.flatMap (passed creating)).length
  | line ts => by simp [animations, lines]
  | block header body => by
    rw [animations, lines, List.flatMap_cons, List.length_append, List.length_append,
      List.length_map, length_animationsAll body, passedAll]

theorem Stmt.length_animationsAll : ∀ ss : List (Stmt Token),
    (animationsAll ss).length = (passedAll creating ss).length
  | [] => rfl
  | s :: ss => by
    rw [animationsAll, List.length_append, length_animations s, length_animationsAll ss, passedAll,
      passedAll, linesAll, List.flatMap_append, List.length_append]

end

theorem Stmt.animationsAll_eq_nil (h : passedAll creating ss = []) : animationsAll ss = [] := by
  rw [← List.length_eq_zero_iff, length_animationsAll, h, List.length_nil]

/-! ## Rows with names and lists -/

theorem role_eq_plain (hhead : ts.head? = some t) (hlast : ts.getLast? = some u)
    (ht : Token.mark? t ≠ some '}') (hu : Token.mark? u ≠ some '{') :
    role Token.mark? ts = .plain := by
  have hempty : ts.isEmpty = false := by
    cases ts with
    | nil => cases hhead
    | cons => rfl
  simp [role, hempty, hhead, hlast, ht, hu]

/-- A row that is read as a single line, of which something is known. -/
theorem exists_codes_line {P : List Token → Prop}
    (h : ∀ s, writeAll ps = .ok s → ∃ ts, tokens? s.toList = some ts ∧ P ts)
    (hplain : ∀ ts, P ts → role Token.mark? ts = .plain) (hsome : ∃ ts, P ts) :
    ∃ ts, Codes [line ps] [.line ts] ∧ P ts := by
  cases hps : writeAll ps with
  | error e =>
    obtain ⟨ts, hts⟩ := hsome
    refine ⟨ts, fun n n' ls hls => ?_, hts⟩
    cases hls with
    | line hs => cases hps.symm.trans hs
  | ok s =>
    obtain ⟨ts, hts, hP⟩ := h s hps
    refine ⟨ts, fun n n' ls hls => ?_, hP⟩
    cases hls with
    | line hs hnil =>
      cases hps.symm.trans hs
      cases hnil
      refine codeOf?_eq_some.2 ⟨[ts], ?_, ?_⟩
      · rw [List.mapM_cons, tokens?_indented, hts]
        rfl
      · simp [stmts?, growAll, grow, hplain ts hP]

/-- The last token of a row that ends with fixed text. -/
theorem FitAll.getLast?_eq (h : FitAll is ts) (hlast : is.getLast? = some (.token u)) :
    ts.getLast? = some u := by
  induction is generalizing ts with
  | nil => cases hlast
  | cons i is ih =>
    cases h with
    | cons hi hfit =>
      cases is with
      | nil =>
        cases hlast
        cases hi
        cases hfit
        rfl
      | cons j is =>
        rw [List.getLast?_cons_cons] at hlast
        rw [List.getLast?_append, ih hfit hlast]
        rfl

/-! ## Methods -/

theorem plays_method (h : passed playing (tokensOf header) = []) (body ss : List (Stmt Token)) :
    plays (.block (tokensOf header) body :: ss) = plays body ++ plays ss := by
  rw [← List.singleton_append, plays, passedAll_append, passedAll_block, h]
  rfl

theorem animationsAll_method (h : passed creating (tokensOf header) = [])
    (body ss : List (Stmt Token)) : Stmt.animationsAll (.block (tokensOf header) body :: ss) =
      Stmt.animationsAll body ++ Stmt.animationsAll ss := by
  rw [Stmt.animationsAll, Stmt.animations, h]
  rfl

theorem registered?_of_methods (h : methods "constructor()" members = [body])
    (hkey : passedAll registering body = [some key]) : registered? members = some key := by
  simp only [registered?, h, hkey]

theorem scene?_sceneHeader (h : registered? members = some key') :
    (Stmt.block (sceneHeader key) members).scene? = some ⟨key', members⟩ := by
  rw [sceneHeader, Stmt.scene?, if_pos rfl, h, Option.map_some]

/-! ## The boot scene -/

/-- Statements for each member of a list, with what is known of them. -/
theorem Codes.exists_flatMap {f : α → Listing} {P : α → List (Stmt Token) → Prop} {xs : List α}
    (h : ∀ x ∈ xs, ∃ ss, Codes (f x) ss ∧ P x ss) :
    ∃ sss, Codes (xs.flatMap f) sss.flatten ∧ List.Forall₂ P xs sss := by
  induction xs with
  | nil => exact ⟨[], .nil, .nil⟩
  | cons x xs ih =>
    rw [List.forall_mem_cons] at h
    obtain ⟨ss, hss, hP⟩ := h.1
    obtain ⟨sss, hsss, hPs⟩ := ih h.2
    exact ⟨ss :: sss, hss.append hsss, .cons hP hPs⟩

theorem passedAll_flatten {xs : List α}
    (h : List.Forall₂ (fun _ ss => passedAll opening ss = []) xs sss) :
    passedAll opening sss.flatten = [] := by
  induction h with
  | nil => rfl
  | cons hss _ ih => rw [List.flatten_cons, passedAll_append, hss, ih, List.append_nil]

theorem animationsAll_flatten {f : α → Option (String × String)} {xs : List α}
    (h : List.Forall₂ (fun x ss => Stmt.animationsAll ss = [f x]) xs sss) :
    Stmt.animationsAll sss.flatten = xs.map f := by
  induction h with
  | nil => rfl
  | @cons _ ss _ sss hss _ ih =>
    rw [List.flatten_cons, Stmt.animationsAll_eq, List.flatMap_append, ← Stmt.animationsAll_eq,
      ← Stmt.animationsAll_eq, hss, ih]
    rfl

/-- The tokens of the frames of an animation, in front of the numbers. -/
def framesFront (sprite : String) : List Token :=
  [.word ['f', 'r', 'a', 'm', 'e', 's'], .mark ':', .word ['t', 'h', 'i', 's'], .mark '.',
    .word ['a', 'n', 'i', 'm', 's'], .mark '.'] ++ framing ++ [.literal sprite, .mark ',',
    .mark '{', .word ['f', 'r', 'a', 'm', 'e', 's'], .mark ':', .mark '[']

def framesBack : List Token := [.mark ']', .mark '}', .mark ')', .mark ',']

theorem exists_codes_frames (sprite : String) (ns : List Number) : ∃ mid,
    (∀ t ∈ mid, Token.Numeral t) ∧
    Codes [line ([Piece.code "frames: this.anims.generateFrameNumbers(", .literal sprite,
        r", { frames: ["] ++ separate ", " (ns.map num) ++ [.code r"] }),"])]
      [.line (framesFront sprite ++ (mid ++ framesBack))] := by
  have hrow : ∃ ts, Codes [line ([Piece.code "frames: this.anims.generateFrameNumbers(",
      .literal sprite, r", { frames: ["] ++ separate ", " (ns.map num) ++ [.code r"] }),"])]
      [.line ts] ∧
      ∃ mid, (∀ t ∈ mid, Token.Numeral t) ∧ ts = framesFront sprite ++ (mid ++ framesBack) := by
    refine exists_codes_line (fun s hs => ?_) ?_ ⟨_, [], List.forall_mem_nil _, rfl⟩
    · have hspells : Spells True ([Piece.code "frames: this.anims.generateFrameNumbers(",
          .literal sprite, r", { frames: ["] ++ (separate ", " (ns.map num) ++
          [.code r"] }),"])) _ := .code (.literal (.code (.numbers (.code .nil))))
      rw [List.append_assoc] at hs
      obtain ⟨ts, hts, hfit⟩ := hspells.exists_tokens (rfl : items Item.token .code _ = some _) hs
      obtain ⟨us, rfl, hus⟩ := FitAll.exists_append (framesFront sprite) hfit
      cases hus with
      | cons hmid hback =>
        cases hmid with
        | numbers hnumerals =>
          cases FitAll.eq_of_tokens framesBack hback
          exact ⟨_, hts, _, hnumerals, rfl⟩
    · rintro ts ⟨mid, -, rfl⟩
      exact role_eq_plain (u := .mark ',') rfl (by simp [framesBack]) (by decide) (by decide)
  obtain ⟨ts, hts, mid, hmid, rfl⟩ := hrow
  exact ⟨mid, hmid, hts⟩

theorem passed_numerals (hp : Token.isLoud p = true) (h : ∀ t ∈ us, Token.Numeral t)
    (ts : List Token) : passed (p :: ps) (us ++ ts) = passed (p :: ps) ts := by
  refine passed_append_of_notMem (fun hmem => ?_) ts
  rw [Token.Inert.isLoud_eq_false (.numeral (h p hmem))] at hp
  cases hp

/-- The settings of an animation: the keys and the sprites in them. They create and start nothing
themselves. -/
def Settings (rows : Listing) (keys sprites : List (Option String)) : Prop :=
  ∃ ss, Codes rows ss ∧ passedAll keying ss = keys ∧ passedAll framing ss = sprites ∧
    passedAll creating ss = [] ∧ passedAll starting ss = []

namespace Settings

theorem of_signs (hspelled : SpelledAll rows qss)
    (hread : (framedSigns? qss).bind (stmts? Sign.mark?) = some ss)
    (hkeys : passedAll? keying ss = some keys) (hsprites : passedAll? framing ss = some sprites)
    (hcreates : passedAll? creating ss = some []) (hstarts : passedAll? starting ss = some []) :
    Settings rows keys sprites :=
  ⟨_, .of_signs hspelled hread rfl, passedAll_images rfl hkeys, passedAll_images rfl hsprites,
    passedAll_images rfl hcreates, passedAll_images rfl hstarts⟩

theorem append (h : Settings rows keys sprites) (h' : Settings rows' keys' sprites') :
    Settings (rows ++ rows') (keys ++ keys') (sprites ++ sprites') := by
  obtain ⟨ss, hss, hkeys, hsprites, hcreates, hstarts⟩ := h
  obtain ⟨ss', hss', hkeys', hsprites', hcreates', hstarts'⟩ := h'
  refine ⟨ss ++ ss', hss.append hss', ?_, ?_, ?_, ?_⟩
  · rw [passedAll_append, hkeys, hkeys']
  · rw [passedAll_append, hsprites, hsprites']
  · rw [passedAll_append, hcreates, hcreates', List.append_nil]
  · rw [passedAll_append, hstarts, hstarts', List.append_nil]

end Settings

theorem settings_frames (sprite : String) (ns : List Number) :
    Settings [line ([Piece.code "frames: this.anims.generateFrameNumbers(", .literal sprite,
      r", { frames: ["] ++ separate ", " (ns.map num) ++ [.code r"] }),"])] []
      [some sprite] := by
  obtain ⟨mid, hmid, hcodes⟩ := exists_codes_frames sprite ns
  have hpassed (opening : List Token) :
      passedAll opening [.line (framesFront sprite ++ (mid ++ framesBack))] =
        passed opening (framesFront sprite ++ (mid ++ framesBack)) := by
    simp [passedAll, Stmt.linesAll, Stmt.lines]
  -- The numbers have none of the words, so that what is found is in front of them.
  have hback {p : Token} {ps : List Token} (hp : p.isLoud = true)
      (h : passed (p :: ps) framesBack = []) : passed (p :: ps) (mid ++ framesBack) = [] := by
    rw [passed_numerals hp hmid, h]
  refine ⟨_, hcodes, ?_, ?_, ?_, ?_⟩ <;> rw [hpassed]
  · exact hback (p := .word ['k', 'e', 'y']) rfl rfl
  · exact congrArg (some sprite :: ·) (hback rfl rfl)
  · exact hback rfl rfl
  · exact hback rfl rfl

/-- What is read of the code that creates the animation of a clip. -/
theorem exists_codes_clipCreate (sprite : String) (c : Clip) : ∃ ss,
    Codes (clipCreate sprite c) ss ∧
    Stmt.animationsAll ss = [some (animationKey sprite c.name, sprite)] ∧
    passedAll starting ss = [] := by
  have hframe : Codes [line [r"this.anims.create({"], line [r"});"]]
      [.block (.word ['t', 'h', 'i', 's'] :: .mark '.' :: creating) []] :=
    .of_signs (by repeat' constructor) rfl rfl
  have hkey : Settings [line ["key: ", .literal (animationKey sprite c.name), ","]]
      [some (animationKey sprite c.name)] [] :=
    .of_signs (by repeat' constructor) rfl rfl rfl rfl rfl
  have hrest : Settings [line ["frameRate: ", num c.fps, ","],
      line ["repeat: ", if c.loop then "-1" else "0", ","]] [] [] := by
    cases c.loop <;> exact .of_signs (by repeat' constructor) rfl rfl rfl rfl rfl
  obtain ⟨ss, hss, hkeys, hsprites, hcreates, hstarts⟩ :=
    (hkey.append (settings_frames sprite c.frames)).append hrest
  refine ⟨_, hframe.frame hss, ?_, ?_⟩
  · have hsettings : animation? ss = some (animationKey sprite c.name, sprite) := by
      simp only [animation?, hkeys, hsprites, List.nil_append, List.append_nil]
    rw [Stmt.animationsAll, Stmt.animations, Stmt.animationsAll_eq_nil hcreates, hsettings]
    rfl
  · rw [passedAll_block, hstarts]
    rfl

/-- What the boot scene does: it creates an animation for each clip and starts the first level. -/
structure BootClass (g : Game) (s : SceneClass) : Prop where
  key_eq : s.key = bootScene
  animations_eq : Stmt.animationsAll s.members =
    (clips g).map fun p => some (animationKey p.1 p.2.name, p.1)
  exists_create : ∃ body, methods "create()" s.members = [body] ∧
    passedAll starting body = (g.levels.head?.map fun l => some (sceneKey l.name)).toList

/-- The rows are read as the scene. -/
def Presents (rows : Listing) (cs : List SceneClass) : Prop := ∃ ss, Codes rows ss ∧ scenes ss = cs

namespace Presents

theorem append (h : Presents rows cs) (h' : Presents rows' cs') :
    Presents (rows ++ rows') (cs ++ cs') := by
  obtain ⟨ss, hss, rfl⟩ := h
  obtain ⟨ss', hss', rfl⟩ := h'
  exact ⟨ss ++ ss', hss.append hss', List.filterMap_append⟩

theorem append_nil (h : Presents rows cs) (h' : Presents rows' []) : Presents (rows ++ rows') cs :=
  List.append_nil cs ▸ h.append h'

theorem blank : Presents [blank] [] := ⟨[], .of_signs (by repeat' constructor) rfl rfl, rfl⟩

theorem of_codes (h : Codes rows [.block (sceneHeader key) members])
    (hregistered : registered? members = some key) : Presents rows [⟨key, members⟩] := by
  refine ⟨_, h, ?_⟩
  rw [scenes, List.filterMap_cons, scene?_sceneHeader hregistered]
  rfl

end Presents

theorem exists_codes_preload (assets : List Asset) : ∃ body,
    Codes (block ["preload()"] (assets.map assetLoad)) [.block (tokensOf "preload()") body] ∧
    passedAll creating body = [] := by
  have hload (a : Asset) : ∃ ss, Codes [assetLoad a] (Stmt.images Sign.tokens ss) ∧
      passedAll? creating ss = some [] := by
    unfold assetLoad
    cases a.kind <;> exact ⟨_, .of_signs (by repeat' constructor) rfl rfl, rfl⟩
  have hloads : ∀ a ∈ assets, ∃ ss, Codes [assetLoad a] ss ∧ passedAll creating ss = [] := by
    intro a _
    obtain ⟨ss, hss, hnone⟩ := hload a
    exact ⟨_, hss, passedAll_images rfl hnone⟩
  rw [List.map_eq_flatMap]
  obtain ⟨sss, hsss, hnone⟩ := Codes.exists_flatMap hloads
  exact ⟨_, codes_method (by simp [methodHeaders]) hsss, passedAll_flatten hnone⟩

theorem exists_codes_bootCreate (g : Game) : ∃ body,
    Codes (block ["create()"] ((clips g).flatMap (fun p => clipCreate p.1 p.2) ++
      match g.levels with
      | l :: _ => [startScene (sceneKey l.name)]
      | [] => [])) [.block (tokensOf "create()") body] ∧
    Stmt.animationsAll body = (clips g).map (fun p => some (animationKey p.1 p.2.name, p.1)) ∧
    passedAll starting body = (g.levels.head?.map fun l => some (sceneKey l.name)).toList := by
  obtain ⟨sss, hsss, hclips⟩ := Codes.exists_flatMap fun p (_ : p ∈ clips g) =>
    exists_codes_clipCreate p.1 p.2
  have hanimations := animationsAll_flatten (hclips.imp fun _ _ h => h.1)
  have hstarts := passedAll_flatten (hclips.imp fun _ _ h => h.2)
  cases hlevels : g.levels with
  | nil =>
    rw [List.append_nil]
    exact ⟨_, codes_method (by simp [methodHeaders]) hsss, hanimations, hstarts⟩
  | cons l ls =>
    have hstart : Codes [startScene (sceneKey l.name)] _ :=
      .of_signs (by repeat' constructor) rfl rfl
    refine ⟨_, codes_method (by simp [methodHeaders]) (hsss.append hstart), ?_, ?_⟩
    · rw [Stmt.animationsAll_eq, List.flatMap_append, ← Stmt.animationsAll_eq, hanimations]
      exact List.append_nil _
    · rw [passedAll_append, hstarts]
      rfl

theorem exists_presents_bootListing (g : Game) :
    ∃ s, Presents (bootListing g) [s] ∧ BootClass g s := by
  obtain ⟨start, hstart, -, hkey, hnone⟩ := exists_codes_sceneConstructor bootScene (.inl rfl)
  obtain ⟨preload, hpreload, hnone'⟩ := exists_codes_preload g.assets
  obtain ⟨create, hcreate, hanimations, hstarts⟩ := exists_codes_bootCreate g
  have hmembers : Codes _ [.block (tokensOf "constructor()") start,
      .block (tokensOf "preload()") preload, .block (tokensOf "create()") create] :=
    (((hstart.append codes_blank).append hpreload).append codes_blank).append hcreate
  refine ⟨⟨bootScene, _⟩, .of_codes (codes_sceneClass isName_bootScene hmembers)
    (registered?_of_methods rfl hkey), rfl, ?_, create, rfl, hstarts⟩
  rw [animationsAll_method (by decide), animationsAll_method (by decide),
    animationsAll_method (by decide), Stmt.animationsAll_eq_nil hnone,
    Stmt.animationsAll_eq_nil hnone', hanimations]
  exact List.append_nil _

/-! ## The scene of a level -/

/-- What the scene of a level does: what it plays, and what it does when the level is won. -/
structure LevelClass (g : Game) (l : Level) (index : Nat) (s : SceneClass) : Prop where
  key_eq : s.key = sceneKey l.name
  plays_eq : plays s.members = (levelClips g l).map fun p => some (animationKey p.1 p.2)
  exists_win : ∃ body, methods "handleWin()" s.members = [body] ∧
    passedAll starting body = ((nextScene g index).map some).toList ∧
    passedAll showing body = if (nextScene g index).isNone then [some "YOU WIN!"] else []

theorem exists_presents_levelListing (g : Game) (l : Level) (index : Nat) :
    ∃ s, Presents (levelListing g l index) [s] ∧ LevelClass g l index s := by
  obtain ⟨start, hstart, ⟨-, hstart'⟩, hkey, -⟩ :=
    exists_codes_sceneConstructor (sceneKey l.name) (.inl rfl)
  obtain ⟨win, hwin, ⟨-, hwin'⟩, hwins⟩ := exists_codes_winHandler (nextScene g index)
  obtain ⟨enemies, he, hplays⟩ := plays_enemySection g l
  obtain ⟨collectibles, hc, hplays'⟩ := plays_collectibleSection g l
  obtain ⟨behaviour, hb, hnone⟩ := motionless_enemyUpdate g.enemies
  obtain ⟨_, _, _, _, hcodes, ⟨-, hcreate⟩, ⟨-, hupdate⟩, ⟨-, hdamage⟩, -, hlose⟩ :=
    exists_codes_levelListing hstart hwin he hc hb
  refine ⟨⟨sceneKey l.name, _⟩, .of_codes hcodes (registered?_of_methods rfl hkey), rfl, ?_, win,
    rfl, hwins⟩
  have hnil : plays [] = [] := rfl
  rw [levelMembers, plays_method (by decide), plays_method (by decide), plays_method (by decide),
    plays_method (by decide), plays_method (by decide), plays_method (by decide), hstart', hcreate,
    hupdate, hdamage, hwin', hlose, hplays, hplays', hnone, hnil]
  simp [levelClips]

/-! ## The display and the configuration -/

theorem exists_codes_hudElementCreate (g : Game) (e : HudElement) :
    ∃ ts, Codes [hudElementCreate g e] [.line ts] := by
  have hspells : ∃ qs is, Spells True (hudElementCreate g e).pieces qs ∧
      items Item.token .code qs = some (.token (.word ['t', 'h', 'i', 's']) :: is) ∧
      (Item.token (.word ['t', 'h', 'i', 's']) :: is).getLast? = some (.token (.mark ';')) := by
    unfold hudElementCreate
    cases e.kind <;> exact ⟨_, _, by repeat' constructor, rfl, rfl⟩
  obtain ⟨qs, is, hqs, his, hlast⟩ := hspells
  have hrow : ∃ ts, Codes [hudElementCreate g e] [.line ts] ∧ role Token.mark? ts = .plain := by
    refine exists_codes_line (fun s hs => ?_) (fun _ h => h) ⟨[.mark ';'], rfl⟩
    obtain ⟨ts, hts, hfit⟩ := hqs.exists_tokens his hs
    obtain ⟨us, rfl, -⟩ := FitAll.exists_append [_] hfit
    exact ⟨_, hts, role_eq_plain rfl (hfit.getLast?_eq hlast) (by decide) (by decide)⟩
  obtain ⟨ts, hts, -⟩ := hrow
  exact ⟨ts, hts⟩

theorem exists_codes_hudCreate (g : Game) (elements : List HudElement) : ∃ body,
    Codes (block ["create()"]
      ([line ["this.scoreText = null;"], line ["this.livesText = null;"],
          line ["this.timerText = null;"], blank]
        ++ elements.map (hudElementCreate g) ++ [blank]
        ++ hudListener "updateScore" "score"
          "if (this.scoreText) this.scoreText.setText('Score: ' + score);"
        ++ hudListener "updateLives" "lives"
          "if (this.livesText) this.livesText.setText('Lives: ' + lives);"
        ++ hudListener "updateTimer" "time"
          "if (this.timerText) this.timerText.setText('Time: ' + Math.ceil(time));"))
      [.block (tokensOf "create()") body] := by
  have helements : ∃ sss, Codes (elements.map (hudElementCreate g)) (List.flatten sss) := by
    have heach : ∀ e ∈ elements, ∃ ss, Codes [hudElementCreate g e] ss ∧ True := by
      intro e _
      obtain ⟨ts, hts⟩ := exists_codes_hudElementCreate g e
      exact ⟨_, hts, trivial⟩
    obtain ⟨sss, hsss, -⟩ := Codes.exists_flatMap heach
    exact ⟨sss, List.map_eq_flatMap ▸ hsss⟩
  obtain ⟨sss, hsss⟩ := helements
  exact ⟨_, codes_method (by simp [methodHeaders]) (.append (.append (.append (.append (.append
    (.of_signs (by repeat' constructor) rfl rfl) hsss) codes_blank)
    (.of_signs (by repeat' constructor) rfl rfl))
    (.of_signs (by repeat' constructor) rfl rfl))
    (.of_signs (by repeat' constructor) rfl rfl))⟩

theorem exists_presents_hudListing (g : Game) (elements : List HudElement) :
    ∃ s, Presents (hudListing g elements) [s] ∧ s.key = hudScene := by
  obtain ⟨start, hstart, -, hkey, -⟩ := exists_codes_sceneConstructor hudScene (.inr rfl)
  obtain ⟨create, hcreate⟩ := exists_codes_hudCreate g elements
  have hmembers : Codes _ [.block (tokensOf "constructor()") start,
      .block (tokensOf "create()") create] := (hstart.append codes_blank).append hcreate
  exact ⟨⟨hudScene, _⟩, .of_codes (codes_sceneClass isName_hudScene hmembers)
    (registered?_of_methods rfl hkey), rfl⟩

theorem exists_codes_sceneRow {names : List String} (h : ∀ s ∈ names, IsName s) : ∃ ts,
    Codes [line ([Piece.code "scene: ["] ++ separate ", " (names.map .name) ++ [.code "],"])]
      [.line ts] := by
  obtain ⟨ts, hts, -⟩ := exists_codes_line
    (P := (· = listOpening ++ (listTokens names ++ [.mark ']', .mark ','])))
    (fun s hs => ⟨_, by rw [toList_sceneRow hs]; exact tokens?_sceneRow h, rfl⟩)
    (fun ts hts => by
      rw [hts]
      exact role_eq_plain (u := .mark ',') rfl (by simp) (by decide) (by decide)) ⟨_, rfl⟩
  exact ⟨ts, hts⟩

theorem presents_configListing (g : Game) : Presents (configListing g) [] := by
  have hframe : Codes (blockTo r"};" ["const config ="] [])
      [.block (tokensOf "const config =") []] := by
    rw [tokensOf_ofList]
    exact .of_signs (by repeat' constructor) rfl rfl
  have hsettings : Codes ([line ["type: Phaser.AUTO,"], line ["width: ", num g.config.width, ","],
      line ["height: ", num g.config.height, ","]] ++ blockTo r"}," ["physics:"]
        ([line ["default: 'arcade',"]] ++ blockTo r"}," ["arcade:"]
          [line [r"gravity: { y: ", num g.config.gravity, r" },"],
            line ["debug: false,"]])) _ :=
    .of_signs (by repeat' constructor) rfl rfl
  have hgame : Codes [blank, line ["const game = new Phaser.Game(config);"]] _ :=
    .of_signs (by repeat' constructor) rfl rfl
  obtain ⟨ts, hts⟩ := exists_codes_sceneRow fun s hs => isName_of_mem_sceneList (g := g) hs
  refine ⟨_, (hframe.blockTo (hsettings.append hts)).append hgame, ?_⟩
  rw [tokensOf_ofList]
  rfl

/-! ## The program -/

theorem Presents.exists_flatMap {f : α → Listing} {P : α → SceneClass → Prop} {xs : List α}
    (h : ∀ x ∈ xs, ∃ s, Presents (f x) [s] ∧ P x s) :
    ∃ cs, Presents (xs.flatMap f) cs ∧ List.Forall₂ P xs cs := by
  induction xs with
  | nil => exact ⟨[], ⟨[], .nil, rfl⟩, .nil⟩
  | cons x xs ih =>
    rw [List.forall_mem_cons] at h
    obtain ⟨s, hs, hP⟩ := h.1
    obtain ⟨cs, hcs, hPs⟩ := ih h.2
    exact ⟨s :: cs, hs.append hcs, .cons hP hPs⟩

/-- What the scenes of the program of a game are. -/
structure GameScenes (g : Game) (boot : SceneClass) (levels displays : List SceneClass) : Prop where
  bootClass : BootClass g boot
  levelClasses : List.Forall₂ (fun p s => LevelClass g p.1 p.2 s) g.levels.zipIdx levels
  keys_displays : displays.map SceneClass.key = if g.hud.isSome then [hudScene] else []

namespace GameScenes

theorem forall₂_levels {P : Level → SceneClass → Prop} (h : GameScenes g boot levels displays)
    (hP : ∀ l index s, LevelClass g l index s → P l s) : List.Forall₂ P g.levels levels := by
  have hlevels : List.Forall₂ (fun p s => P p.1 s) g.levels.zipIdx levels :=
    h.levelClasses.imp fun _ _ => hP _ _ _
  rwa [← List.forall₂_map_left_iff, List.zipIdx_map_fst] at hlevels

theorem keys_levels (h : GameScenes g boot levels displays) :
    levels.map SceneClass.key = g.levels.map (sceneKey ·.name) := by
  have hkeys : List.Forall₂ (fun l s => sceneKey l.name = s.key) g.levels levels :=
    h.forall₂_levels fun _ _ _ hs => hs.key_eq.symm
  have heq := List.forall₂_map_left_iff.2 (List.forall₂_map_right_iff.2 hkeys)
  rw [List.forall₂_eq_eq_eq] at heq
  exact heq.symm

theorem keys_eq (h : GameScenes g boot levels displays) :
    (boot :: levels ++ displays).map SceneClass.key = sceneList g := by
  rw [List.map_append, List.map_cons, h.bootClass.key_eq, h.keys_levels, h.keys_displays]
  rfl

end GameScenes

theorem exists_presents_programListing (g : Game) : ∃ boot levels displays,
    Presents (programListing g) (boot :: levels ++ displays) ∧
      GameScenes g boot levels displays := by
  obtain ⟨boot, hboot, hboot'⟩ := exists_presents_bootListing g
  have heach : ∀ p ∈ g.levels.zipIdx, ∃ s, Presents (levelListing g p.1 p.2 ++ [blank]) [s] ∧
      LevelClass g p.1 p.2 s := by
    intro p _
    obtain ⟨s, hs, hs'⟩ := exists_presents_levelListing g p.1 p.2
    exact ⟨s, hs.append_nil .blank, hs'⟩
  obtain ⟨levels, hlevels, hlevels'⟩ := Presents.exists_flatMap heach
  have hfront := (hboot.append_nil .blank).append hlevels
  have hconfig := presents_configListing g
  unfold programListing
  cases hhud : g.hud with
  | none =>
    have hnone : Presents [] [] := ⟨[], .nil, rfl⟩
    exact ⟨boot, levels, [], (hfront.append hnone).append_nil hconfig, hboot', hlevels',
      by rw [hhud]; rfl⟩
  | some elements =>
    obtain ⟨s, hs, hkey⟩ := exists_presents_hudListing g elements
    exact ⟨boot, levels, [s], (hfront.append (hs.append_nil .blank)).append_nil hconfig, hboot',
      hlevels', by rw [hhud, List.map_singleton, hkey]; rfl⟩

/-- The scenes of the written program. -/
theorem exists_gameScenes (hb : (programListing g).sheet = .ok b) (minify : Bool) :
    ∃ program boot levels displays, codeOf? (shown minify b.lines) = some program ∧
      scenes program = boot :: levels ++ displays ∧ GameScenes g boot levels displays := by
  obtain ⟨boot, levels, displays, ⟨program, hprogram, hscenes⟩, h⟩ :=
    exists_presents_programListing g
  exact ⟨program, boot, levels, displays,
    codeOf?_shown (hprogram _ _ _ (written_of_sheet hb)) minify, hscenes, h⟩

end PlatformGame.Script
