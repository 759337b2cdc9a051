import PlatformGame.Proofs.Draft.Rendering
import PlatformGame.Proofs.Draft.Things

/-! # Things that are printed

The words of every part of a draft mean the sketch of that part, if the part is one that a text can
describe: each `X.Written` of an earlier module has its `renders_x` here. -/

namespace PlatformGame.Draft

open Grammar Parse Source

variable {k : Keyword} {s : String} {n : Number} {ws : List Word} {l : Label} {x : Sketch}

/-! ## Values -/

theorem renders_ident (h : Named s) : Renders ident (Word.nameWords s) [.text s] :=
  (Renders.token .name h).node (List.cons_ne_nil _ _) fun _ => rfl

theorem renders_color (h : IsColor s.toList) : Renders color (Word.colorWords s) [.text s] :=
  (Renders.token .color h).node (List.cons_ne_nil _ _) fun _ => rfl

theorem renders_string (s : String) : Renders string (Word.stringWords s) [.text s] := by
  refine (Renders.token .string (Text.isString_literal s)).node (List.cons_ne_nil _ _)
    fun place => ?_
  exact congrArg (fun t => pure (Sketch.text t)) (unquote_literal s)

theorem renders_number (h : n.Whole) : Renders number (Word.numberWords n) [.number n] := by
  have hnumber : IsNumber n.decimal.toList := by
    obtain ⟨m, rfl, -⟩ := h
    exact Number.isNumber_decimal m
  refine (Renders.token .number hnumber).node (List.cons_ne_nil _ _) fun place => ?_
  change Node.number _ = _
  simp only [Node.number, Node.firstText, Node.first, pure_bind, Sketch.plain, Sketch.text?,
    Option.getD_some, Number.ofLiteral_decimal h]

theorem Renders.ident_cons (h : Named s) {q : Phrase} {xs : List Sketch} (hq : Renders q ws xs) :
    Renders (.seq ident q) (.ofName s :: ws) (.text s :: xs) :=
  (renders_ident h).cons (by simp [Word.ofName]) hq

theorem Renders.number_cons (h : n.Whole) {q : Phrase} {xs : List Sketch} (hq : Renders q ws xs) :
    Renders (.seq number q) (.ofNumber n :: ws) (.number n :: xs) :=
  (renders_number h).cons (by simp [Word.ofNumber]) hq

theorem renders_boolean (b : Bool) : Renders boolean (Word.flagWords b) [.flag b] := by
  cases b
  · exact .choice (by decide) fun _ => rfl
  · exact .choice (by decide) fun _ => rfl

theorem Renders.numberPair {k' : Keyword} {m : Number} (hm : m.Whole) (hn : n.Whole)
    (hx : ∀ place, Node.assemble ⟨l, some place, [.number m, .number n], .noPart⟩ = pure x) :
    Renders (numberPair l k k') (Word.numberPair k k' m n) [x] := by
  have hpart (k : Keyword) {n : Number} (hn : n.Whole) :
      Renders (Grammar.withComma (.chain [.word k, .word .colon, number]))
        (Word.field k (Word.numberWords n) ++ [Word.comma]) [.number n] :=
    (skip (skip (renders_number hn).last)).withComma
  have hboth := (hpart k hm).seq (hpart k' hn).last
    ((hpart k hm).legible.append_keyword (hpart k' hn).legible)
  have hwords : Word.numberPair k k' m n = Word.braces ((Word.field k (Word.numberWords m) ++
      [Word.comma]) ++ (Word.field k' (Word.numberWords n) ++ [Word.comma])) := by
    simp [Word.numberPair, Word.items]
  rw [hwords]
  exact hboth.braces.node (List.cons_ne_nil _ _) hx

theorem renders_point {p : Point} (h : p.Written Number.Whole) :
    Renders point p.words [p.toSketch] :=
  .numberPair h.1 h.2 fun _ => rfl

theorem renders_frameConfig {f : FrameSize} (h : f.Written Number.Whole) :
    Renders frameConfig f.words [f.toSketch] :=
  .numberPair h.1 h.2 fun _ => rfl

theorem renders_controlScheme (c : ControlScheme) :
    Renders controlScheme [.ofKeyword c.keyword] [.choice (.controls c)] := by
  cases c <;> exact .choice (by decide) fun _ => rfl

theorem renders_collectibleEffect (e : Effect) :
    Renders collectibleEffect [.ofKeyword e.keyword] [.choice (.effect e)] := by
  cases e <;> exact .choice (by decide) fun _ => rfl

theorem renders_hudType (k : HudKind) :
    Renders hudType [.ofKeyword k.keyword] [.choice (.hud k)] := by
  cases k <;> exact .choice (by decide) fun _ => rfl

theorem renders_hudPosition (a : Anchor) :
    Renders hudPosition [.ofKeyword a.keyword] [.choice (.anchor a)] := by
  obtain ⟨_ | _, _ | _ | _⟩ := a <;> exact .choice (by decide) fun _ => rfl

theorem renders_soundEvent (e : SoundEvent) :
    Renders soundEvent [.ofKeyword e.keyword] [.text e.text] := by
  cases e <;> exact .choice (by decide) fun _ => rfl

/-! ## Bodies

Each body sets the fields of its thing to the values that they have. -/

@[simp] theorem property_eq_nil {f : α → List Word} {o : Option α} :
    Word.property k f o = [] ↔ o = none := by
  cases o <;> simp [Word.property, Word.items]

theorem clipsWords_eq_nil {clips : Option (List Clip)} (h : WrittenClips Number.Whole clips) :
    clipsWords clips = [] ↔ clips = none := by
  cases clips with
  | none => simp [clipsWords, Word.items]
  | some cs =>
    have hne := (h cs rfl).1
    cases cs with
    | nil => exact absurd rfl hne
    | cons c cs => simp [clipsWords, Word.items]

theorem rendersBody_config {c : Config} (h : c.Written Number.Whole) :
    ∃ parts, RendersBody configProp configKeys [] c.body parts ∧
      .record .config (RecordKind.config.fields.map (Node.fieldValue .config [] parts)) =
        c.toSketch := by
  refine ⟨_, .append (.append (.append
    (.property "width" (fun _ _ => rfl) (by decide) (fun h => h.left)
      fun n hn => renders_number (h.width n hn))
    (.property "height" (fun _ _ => rfl) (by decide) (fun h => h.left.right)
      fun n hn => renders_number (h.height n hn)))
    (.property "gravity" (fun _ _ => rfl) (by decide) (fun h => h.left.right.right)
      fun n hn => renders_number (h.gravity n hn)))
    (.property "background" (fun _ _ => rfl) (by decide) (fun h => h.right.right.right)
      fun s hs => renders_color (h.background s hs)), ?_⟩
  simp [RecordKind.fields, RecordKind.lists, Node.fieldValue, Node.unset, valueOf, Config.toSketch,
    Sketch.ofOption]

theorem rendersBody_clip {c : Clip} (h : c.Written Number.Whole) :
    ∃ parts, RendersBody animProp ["fps", "loop"] ["frames"] c.body parts ∧
      .record .clip (RecordKind.clip.fields.map
        (Node.fieldValue .clip [("name", .text c.name)] parts)) = c.toSketch := by
  refine ⟨_, .append (.append
    (.listed "frames" (fun _ _ => rfl) (fun _ _ => rfl) (by decide) (fun h => h.left)
      fun n hn => renders_number (h.frames n hn))
    (.property "fps" (fun _ _ => rfl) (by decide) (fun h => h.left.right)
      fun n hn => renders_number (h.fps n hn)))
    (.property "loop" (fun _ _ => rfl) (by decide) (fun h => h.right.right)
      fun b _ => renders_boolean b), ?_⟩
  simp [RecordKind.fields, RecordKind.lists, Node.fieldValue, Node.unset, valueOf, Clip.toSketch,
    Sketch.ofOption, Sketch.ofItems, itemsOf, List.lookup_cons]

theorem renders_animation {c : Clip} (h : c.Written Number.Whole) :
    Renders animation c.words [c.toSketch] := by
  obtain ⟨parts, hbody, hrecord⟩ := rendersBody_clip h
  have hitems := hbody.renders_items (by simp [Clip.body, Word.listed, Word.field])
  refine (Renders.skip (.ident_cons h.name hitems.braces.last)).node (List.cons_ne_nil _ _)
    fun place => ?_
  change Node.describedAs _ _ _ = _
  rw [Node.describedAs_eq _ clipSuits rfl hbody.fits, hrecord]

/-- Clips in the body of something that has animations. -/
theorem RendersBody.clips {p : Phrase} {singles lists : List String}
    (hmem : "animations" ∈ lists) (hin : ∀ {ws xs}, Renders animation ws xs → Renders p ws xs)
    {clips : Option (List Clip)} (h : WrittenClips Number.Whole clips) :
    RendersBody p singles lists (clipsWords clips) ((clips.getD []).map Clip.toSketch) where
  toRendersMany := by
    refine .items fun c hc => hin (renders_animation ?_)
    cases clips with
    | none => exact nomatch hc
    | some cs => exact (h cs rfl).2 c hc
  fits x hx := by
    obtain ⟨c, -, rfl⟩ := List.mem_map.1 hx
    exact .clip hmem

theorem foldl_clips (key : String) (cs : List Clip) (v : Option Sketch) :
    (cs.map Clip.toSketch).foldl (valueStep key) v =
      if key = "animations" ∧ cs ≠ [] then
        some (.tuple (itemsOf v ++ cs.map Clip.toSketch)) else v := by
  induction cs generalizing v with
  | nil => simp
  | cons c cs ih =>
    rw [List.map_cons, List.foldl_cons, ih]
    by_cases hkey : key = "animations"
    · by_cases hcs : cs = []
      · simp [hkey, hcs, valueStep, Clip.toSketch]
      · simp [hkey, hcs, valueStep, Clip.toSketch, itemsOf]
    · simp [hkey, valueStep, Clip.toSketch]

/-- Clips are the value under their key. -/
@[simp] theorem foldl_valueStep_clips (key : String) {clips : Option (List Clip)}
    (h : WrittenClips Number.Whole clips) (v : Option Sketch)
    (hv : key = "animations" → v = none) :
    ((clips.getD []).map Clip.toSketch).foldl (valueStep key) v =
      if key = "animations" then clips.map (.ofItems Clip.toSketch) else v := by
  rw [foldl_clips]
  by_cases hkey : key = "animations"
  · cases clips with
    | none => simp [hv hkey]
    | some cs => simp [hkey, (h cs rfl).1, hv hkey, itemsOf, Sketch.ofItems]
  · simp [hkey]

theorem rendersBody_player {p : Player} (h : p.Written Number.Whole) :
    ∃ parts, RendersBody playerProp playerKeys ["animations"] p.body parts ∧
      .record .player (RecordKind.player.fields.map (Node.fieldValue .player [] parts)) =
        p.toSketch := by
  refine ⟨_, .append (.append (.append (.append (.append
    (.property "sprite" (fun _ _ => rfl) (by decide) (fun h => h.left)
      fun s hs => renders_ident (h.sprite s hs))
    (.property "speed" (fun _ _ => rfl) (by decide) (fun h => h.left.right)
      fun n hn => renders_number (h.speed n hn)))
    (.property "jump_force" (fun _ _ => rfl) (by decide) (fun h => h.left.right.right)
      fun n hn => renders_number (h.jumpForce n hn)))
    (.property "lives" (fun _ _ => rfl) (by decide) (fun h => h.left.right.right.right)
      fun n hn => renders_number (h.lives n hn)))
    (.property "controls" (fun _ _ => rfl) (by decide) (fun h => h.left.right.right.right.right)
      fun c _ => renders_controlScheme c))
    (.clips (by decide) (fun h => h.right.right.right.right.right) h.animations), ?_⟩
  simp [RecordKind.fields, RecordKind.lists, Node.fieldValue, Node.unset, valueOf, Player.toSketch,
    Sketch.ofOption, h.animations]

/-! ## Enemies -/

/-- A movement with a parameter, and no parameters but its own. -/
theorem Renders.pattern (kind : RecordKind) {parts : List Sketch}
    (hl : ∀ n : Node, n.label = l → n.assemble = n.movement kind) (hown : Node.ownKey ∉ kind.fields)
    (h : RendersBody movementParam kind.fields [] ws parts) (hne : ws ≠ [])
    (hx : .record kind (kind.fields.map (Node.fieldValue kind [] parts)) = x) :
    Renders (pattern l k) (.ofKeyword k :: Word.braces ws) [x] := by
  refine (skip (h.renders_items hne).braces).node (List.cons_ne_nil _ _) fun place => ?_
  rw [hl _ rfl, Node.movement_eq_pure _ h.fits hown, hx]

theorem movement_body_ne_nil {m : Movement} (h : m.Written Number.Whole True)
    (hm : m ≠ .static) : m.body ≠ [] := by
  obtain ⟨o, ho, hsome⟩ := (h.exists_param trivial).resolve_left hm
  cases m <;> simp only [Movement.params, List.mem_cons, List.not_mem_nil, or_false] at ho
  all_goals
    intro hnil
    simp only [Movement.body, List.append_eq_nil_iff, property_eq_nil] at hnil
    simp_all

theorem renders_movement {m : Movement} (h : m.Written Number.Whole True) :
    Renders movement m.words [m.toSketch] := by
  have hspeed {kind : RecordKind} {speed : Option Number} (hmem : "speed" ∈ kind.fields)
      (hs : ∀ n ∈ speed, n.Whole) : RendersBody movementParam kind.fields []
        (Word.property .speed Word.numberWords speed) (properties "speed" .number speed) :=
    .property "speed" (fun _ _ => rfl) hmem (fun h => h.left) fun n hn => renders_number (hs n hn)
  have hparams := h.params
  cases m with
  | patrol speed distance =>
    simp only [Movement.params, List.forall_mem_cons] at hparams
    refine (Renders.pattern .patrol (fun n hn => by rw [Node.assemble, hn]) (by decide)
      ((hspeed (by decide) hparams.1).append (.property "distance" (fun _ _ => rfl) (by decide)
        (fun h => h.left.right) fun n hn => renders_number (hparams.2.1 n hn)))
      (movement_body_ne_nil h (by simp)) ?_).left
    simp [RecordKind.fields, RecordKind.lists, Node.fieldValue, Node.unset, valueOf,
      Movement.toSketch, Sketch.ofOption]
  | chase speed range =>
    simp only [Movement.params, List.forall_mem_cons] at hparams
    refine (Renders.pattern .chase (fun n hn => by rw [Node.assemble, hn]) (by decide)
      ((hspeed (by decide) hparams.1).append (.property "range" (fun _ _ => rfl) (by decide)
        (fun h => h.left.right.right) fun n hn => renders_number (hparams.2.1 n hn)))
      (movement_body_ne_nil h (by simp)) ?_).left.right
    simp [RecordKind.fields, RecordKind.lists, Node.fieldValue, Node.unset, valueOf,
      Movement.toSketch, Sketch.ofOption]
  | fly speed amplitude frequency =>
    simp only [Movement.params, List.forall_mem_cons] at hparams
    refine (Renders.pattern .fly (fun n hn => by rw [Node.assemble, hn]) (by decide)
      (((hspeed (by decide) hparams.1).append (.property "amplitude" (fun _ _ => rfl) (by decide)
        (fun h => h.left.right.right.right) fun n hn => renders_number (hparams.2.1 n hn))).append
        (.property "frequency" (fun _ _ => rfl) (by decide) (fun h => h.right.right.right.right)
          fun n hn => renders_number (hparams.2.2.1 n hn)))
      (movement_body_ne_nil h (by simp)) ?_).left.right.right
    simp [RecordKind.fields, RecordKind.lists, Node.fieldValue, Node.unset, valueOf,
      Movement.toSketch, Sketch.ofOption]
  | static =>
    have hnode : Renders (.node .staticMovement (.word .static)) [.ofKeyword .static]
        [.record .static []] := (Renders.word .static).node (List.cons_ne_nil _ _) fun _ => rfl
    exact hnode.right.right.right

theorem rendersBody_enemy {e : Enemy} (h : e.Written Number.Whole True) :
    ∃ parts, RendersBody enemyProp enemyKeys ["animations"] e.body parts ∧
      .record .enemy (RecordKind.enemy.fields.map
        (Node.fieldValue .enemy [("name", .text e.name)] parts)) = e.toSketch := by
  refine ⟨_, .append (.append (.append (.append
    (.property "sprite" (fun _ _ => rfl) (by decide) (fun h => h.left)
      fun s hs => renders_ident (h.sprite s hs))
    (.property "movement" (fun _ _ => rfl) (by decide) (fun h => h.left.right)
      fun m hm => renders_movement (h.movement m hm)))
    (.property "damage" (fun _ _ => rfl) (by decide) (fun h => h.left.right.right)
      fun n hn => renders_number (h.damage n hn)))
    (.property "stompable" (fun _ _ => rfl) (by decide) (fun h => h.left.right.right.right)
      fun b _ => renders_boolean b))
    (.clips (by decide) (fun h => h.right.right.right.right) h.animations), ?_⟩
  simp [RecordKind.fields, RecordKind.lists, Node.fieldValue, Node.unset, valueOf, Enemy.toSketch,
    Sketch.ofOption, List.lookup_cons, h.animations]

/-! ## Collectibles -/

theorem rendersBody_collectible {c : Collectible} (h : c.Written Number.Whole) :
    ∃ parts, RendersBody collectibleProp collectibleKeys ["animations"] c.body parts ∧
      .record .collectible (RecordKind.collectible.fields.map
        (Node.fieldValue .collectible [("name", .text c.name)] parts)) = c.toSketch := by
  refine ⟨_, .append (.append (.append
    (.property "sprite" (fun _ _ => rfl) (by decide) (fun h => h.left)
      fun s hs => renders_ident (h.sprite s hs))
    (.property "score" (fun _ _ => rfl) (by decide) (fun h => h.left.right)
      fun n hn => renders_number (h.score n hn)))
    (.property "effect" (fun _ _ => rfl) (by decide) (fun h => h.left.right.right)
      fun e _ => renders_collectibleEffect e))
    (.clips (by decide) (fun h => h.right.right.right) h.animations), ?_⟩
  simp [RecordKind.fields, RecordKind.lists, Node.fieldValue, Node.unset, valueOf,
    Collectible.toSketch, Sketch.ofOption, List.lookup_cons, h.animations]

/-! ## Levels -/

theorem renders_layerMapping {l : String × String} (h : Named l.1) :
    Renders layerMapping (layerWords l) [Node.layerSketch l] :=
  (Renders.ident_cons h (.skip (renders_string l.2).last)).node (List.cons_ne_nil _ _) fun _ => rfl

theorem renders_placement {p : Placement} (h : p.Written Number.Whole) :
    Renders placement p.words [p.toSketch] :=
  (Renders.ident_cons h.entity (.skip (.skip (.number_cons h.place.1 (.skip
    (renders_number h.place.2).closed))))).node (List.cons_ne_nil _ _) fun _ => rfl

theorem renders_platform {p : Platform} (h : p.Written Number.Whole) :
    Renders platform p.words [p.toSketch] :=
  (Renders.ident_cons h.asset (.skip (.skip (.number_cons h.place.1 (.skip
    (.number_cons h.place.2 (.skip (.number_cons h.size.1 (.skip
      (renders_number h.size.2).closed))))))))).node (List.cons_ne_nil _ _) fun _ => rfl

theorem rendersBody_layers {o : Option (List (String × String))} (h : ∀ ls ∈ o, WrittenLayers ls) :
    RendersBody levelProp levelKeys levelLists
      (Word.property .layers (fun ls => Word.braces (Word.items layerWords ls)) o)
      (properties "layers" layersSketch o) where
  toRendersMany := by
    refine .items fun ls hls => ?_
    have hwritten := h ls (Option.mem_toList.1 hls)
    have hitems : RendersMany layerMapping (Word.items layerWords ls) (ls.map Node.layerSketch) :=
      .items fun l hl => renders_layerMapping (hwritten.named l hl)
    have hne : Word.items layerWords ls ≠ [] := by
      have hls := hwritten.ne_nil
      cases ls with
      | nil => exact absurd rfl hls
      | cons l ls => simp [Word.items, layerWords]
    refine ((hitems.renders_items hne).braces.field fun place => ?_).left.right
    change (do pure (Sketch.property _ (.mapping (← Node.addLayers _ _ _ _)) _) : Build _) = _
    rw [Node.addLayers_eq, putPairs_of_nodup hwritten.nodup]
    rfl
  fits x hx := by
    obtain ⟨ls, -, rfl⟩ := List.mem_map.1 hx
    exact .single (by decide)

theorem rendersBody_level {l : Level} (h : l.Written Number.Whole) :
    ∃ parts, RendersBody levelProp levelKeys levelLists l.body parts ∧
      .record .level (RecordKind.level.fields.map
        (Node.fieldValue .level [("name", .text l.name)] parts)) = l.toSketch := by
  refine ⟨_, .append (.append (.append (.append (.append (.append
    (.property "tilemap" (fun _ _ => rfl) (by decide) (fun h => h.left)
      fun s hs => renders_ident (h.tilemap s hs))
    (rendersBody_layers h.layers))
    (.property "spawn" (fun _ _ => rfl) (by decide) (fun h => h.left.right.right)
      fun p hp => renders_point (h.spawn p hp)))
    (.listed "enemies" (fun _ _ => rfl) (fun _ _ => rfl) (by decide)
      (fun h => h.left.right.right.right) fun p hp => renders_placement (h.enemies p hp)))
    (.listed "collectibles" (fun _ _ => rfl) (fun _ _ => rfl) (by decide)
      (fun h => h.left.right.right.right.right.right)
      fun p hp => renders_placement (h.collectibles p hp)))
    (.listed "platforms" (fun _ _ => rfl) (fun _ _ => rfl) (by decide)
      (fun h => h.left.right.right.right.right.right.right)
      fun p hp => renders_platform (h.platforms p hp)))
    (.property "exit" (fun _ _ => rfl) (by decide)
      (fun h => h.right.right.right.right.right.right.right)
      fun p hp => renders_point (h.exit p hp)), ?_⟩
  simp [RecordKind.fields, RecordKind.lists, Node.fieldValue, Node.unset, valueOf, Level.toSketch,
    Sketch.ofOption, Sketch.ofItems, itemsOf, List.lookup_cons]

/-! ## The head-up display -/

theorem rendersBody_hudElement {e : HudElement} (h : e.Written Number.Whole) :
    ∃ parts, RendersBody hudProp hudKeys [] e.body parts ∧
      .record .hudElement (RecordKind.hudElement.fields.map
        (Node.fieldValue .hudElement [("type", .choice (.hud e.kind))] parts)) = e.toSketch := by
  refine ⟨_, .append (.append (.append
    (.property "position" (fun _ _ => rfl) (by decide) (fun h => h.left)
      fun a _ => renders_hudPosition a)
    (.property "font_size" (fun _ _ => rfl) (by decide) (fun h => h.left.right)
      fun n hn => renders_number (h.fontSize n hn)))
    (.property "color" (fun _ _ => rfl) (by decide) (fun h => h.left.right.right)
      fun s hs => renders_color (h.color s hs)))
    (.property "max" (fun _ _ => rfl) (by decide) (fun h => h.right.right.right)
      fun n hn => renders_number (h.max n hn)), ?_⟩
  simp [RecordKind.fields, RecordKind.lists, Node.fieldValue, Node.unset, valueOf,
    HudElement.toSketch, Sketch.ofOption, List.lookup_cons]

theorem renders_hudElement {e : HudElement} (h : e.Written Number.Whole) :
    Renders hudElement e.words [e.toSketch] := by
  obtain ⟨parts, hbody, hrecord⟩ := rendersBody_hudElement h
  have hne : e.body ≠ [] := fun hnil => h.ne_empty (by
    obtain ⟨kind, position, size, color, max⟩ := e
    simpa [HudElement.body, and_assoc] using hnil)
  have hitems := hbody.renders_items hne
  refine ((renders_hudType e.kind).cons (by simp [Word.ofKeyword]) hitems.braces).node
    (List.cons_ne_nil _ _) fun place => ?_
  change Node.describedAs _ _ _ = _
  rw [Node.describedAs_eq _ hudSuits rfl hbody.fits, hrecord]

/-! ## Rules -/

theorem renders_winCondition {w : WinCondition} (h : w.Written Number.Whole) :
    Renders winCondition w.words [w.toSketch] := by
  cases w with
  | reachExit =>
    exact ((Renders.word .reachExit).node (List.cons_ne_nil _ _) fun _ => rfl).left
  | collectAll entity =>
    exact ((renders_ident h).skip.node (List.cons_ne_nil _ _) fun _ => rfl).left.right
  | defeatAll =>
    exact ((Renders.word .defeatAll).node (List.cons_ne_nil _ _) fun _ => rfl).left.right.right
  | survive seconds =>
    exact ((renders_number h).skip.node (List.cons_ne_nil _ _) fun _ => rfl).right.right.right

theorem renders_loseCondition (l : LoseCondition) :
    Renders loseCondition l.words [l.toSketch] := by
  cases l with
  | noLives => exact ((Renders.word .noLives).node (List.cons_ne_nil _ _) fun _ => rfl).left
  | timerExpires =>
    exact ((Renders.word .timerExpires).node (List.cons_ne_nil _ _) fun _ => rfl).left.right
  | fallOff =>
    exact ((Renders.word .fallOff).node (List.cons_ne_nil _ _) fun _ => rfl).right.right

theorem rendersBody_rules {r : Rules} (h : r.Written Number.Whole) :
    ∃ parts, RendersBody ruleProp rulesKeys [] r.body parts ∧
      .record .rules (RecordKind.rules.fields.map (Node.fieldValue .rules [] parts)) =
        r.toSketch := by
  refine ⟨_, .append (.append
    (.property "win" (fun _ _ => rfl) (by decide) (fun h => h.left)
      fun w hw => renders_winCondition (h.win w hw))
    (.property "lose" (fun _ _ => rfl) (by decide) (fun h => h.left.right)
      fun l _ => renders_loseCondition l))
    (.property "next_level" (fun _ _ => rfl) (by decide) (fun h => h.right.right)
      fun s _ => renders_string s), ?_⟩
  simp [RecordKind.fields, RecordKind.lists, Node.fieldValue, Node.unset, valueOf, Rules.toSketch,
    Sketch.ofOption]

/-! ## Sounds -/

theorem rendersBody_sound (e : SoundEvent) {o : Option String} (h : ∀ s ∈ o, Named s) :
    RendersBody soundProp soundKeys [] (Word.property e.keyword Word.nameWords o)
      (properties e.text .text o) where
  toRendersMany := by
    refine .items fun s hs => ?_
    have hname := renders_ident (h s (Option.mem_toList.1 hs))
    exact ((renders_soundEvent e).cons (by simp [Word.ofKeyword]) (.skip hname.last)).node
      (List.cons_ne_nil _ _) fun _ => rfl
  fits x hx := by
    obtain ⟨s, -, rfl⟩ := List.mem_map.1 hx
    exact .single (text_mem_soundKeys e)

theorem rendersBody_sounds {s : Sounds} (h : s.Written) :
    ∃ parts, RendersBody soundProp soundKeys [] s.body parts ∧
      .record .sounds (RecordKind.sounds.fields.map (Node.fieldValue .sounds [] parts)) =
        s.toSketch := by
  have hsound (e : SoundEvent) := rendersBody_sound e (h.named e)
  have hnil : RendersBody soundProp soundKeys [] [] [] := ⟨.nil, by simp⟩
  refine ⟨_, (hsound .jump).append ((hsound .collect).append ((hsound .hurt).append
    ((hsound .win).append ((hsound .lose).append ((hsound .bgm).append hnil))))), ?_⟩
  simp [RecordKind.fields, RecordKind.lists, SoundEvent.all, SoundEvent.text, Sounds.get,
    Node.fieldValue, Node.unset, valueOf, Sounds.toSketch, Sketch.ofOption]

/-! ## Assets -/

/-- An asset with a key and a path. -/
theorem Renders.asset {key path : String} (hkey : Named key)
    (hx : ∀ place, Node.assemble ⟨l, some place, [.text key, .text path], .noPart⟩ = pure x) :
    Renders (.node l (.chain [.word k, ident, string]))
      [.ofKeyword k, .ofName key, .ofString path] [x] :=
  (skip (ident_cons hkey (renders_string path).last)).node (List.cons_ne_nil _ _) hx

theorem renders_assetDef {a : Asset} (h : a.Written Number.Whole) :
    Renders assetDef a.words [a.toSketch] := by
  obtain ⟨kind, key, path, frames⟩ := a
  have hframes := h.frames
  cases kind with
  | image =>
    obtain rfl : frames = none := by simpa using hframes
    exact (Renders.asset h.key fun _ => rfl).left
  | spritesheet =>
    obtain ⟨size, rfl⟩ : ∃ size, frames = some size := by
      simpa [Option.isSome_iff_exists] using hframes
    have hsize := (renders_frameConfig (h.size size rfl)).last
    have hpath := (renders_string path).cons_keyword hsize
    exact ((Renders.skip (.ident_cons h.key hpath)).node (List.cons_ne_nil _ _)
      fun _ => rfl).left.right
  | tilemap =>
    obtain rfl : frames = none := by simpa using hframes
    exact (Renders.asset h.key fun _ => rfl).left.right.right
  | audio =>
    obtain rfl : frames = none := by simpa using hframes
    exact (Renders.asset h.key fun _ => rfl).right.right.right

end PlatformGame.Draft
