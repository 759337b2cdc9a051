import PlatformGame.Proofs.Draft.Values

/-! # Things that texts describe

Every block and every part of a block means something of its sort: the sketch of a part of a draft
that can be written. -/

namespace PlatformGame.Draft

open Grammar Parse Source

variable {Num : Number → Prop} {quiet : Prop} {body parts : List Sketch} {name : String}

/-- A block of a kind whose value is of a sort. -/
def BlockOf (kind : BlockKind) (P : Sketch → Prop) (x : Sketch) : Prop :=
  ∃ v place, x = .block kind v place ∧ P v

/-! ## Configuration -/

/-- The sorts of the values of a configuration. -/
def configSort (Num : Number → Prop) : String → Sketch → Prop
  | "width" | "height" | "gravity" => Of .number Num
  | "background" => Of .text fun s => IsColor s.toList
  | _ => fun _ => False

def configKeys : List String := ["width", "height", "gravity", "background"]

theorem means_configProp :
    Means Num quiet configProp (One (Entry configKeys [] (configSort Num))) :=
  .alt (.field "width" (fun _ _ => rfl) (by decide) means_number)
    (.alt (.field "height" (fun _ _ => rfl) (by decide) means_number)
      (.alt (.field "gravity" (fun _ _ => rfl) (by decide) means_number)
        (.field "background" (fun _ _ => rfl) (by decide) means_color)))

theorem configSuits : Node.Suits .config [] configKeys [] :=
  ⟨by decide, by decide, by decide, by decide⟩

theorem exists_config (hparts : Several (Entry configKeys [] (configSort Num)) parts) :
    Of Config.toSketch (Config.Written Num)
      (.record .config (RecordKind.config.fields.map (Node.fieldValue .config [] parts))) := by
  obtain ⟨hne, hparts⟩ := hparts
  obtain ⟨width, hw, hwidth⟩ := exists_single configSuits hparts "width" (by decide) fun _ => id
  obtain ⟨height, hh, hheight⟩ :=
    exists_single configSuits hparts "height" (by decide) fun _ => id
  obtain ⟨gravity, hg, hgravity⟩ :=
    exists_single configSuits hparts "gravity" (by decide) fun _ => id
  obtain ⟨background, hb, hbackground⟩ :=
    exists_single configSuits hparts "background" (by decide) fun _ => id
  refine ⟨⟨width, height, gravity, background⟩, ?_, ?_, hwidth, hheight, hgravity, hbackground⟩
  · simp only [RecordKind.fields, List.map_cons, List.map_nil, Node.fieldValue, hw, hh, hg, hb]
    rfl
  · rintro ⟨⟩
    refine hne (eq_nil_of_valueOf (fun x hx => (hparts x hx).fits) ?_)
    simp [configKeys, hw, hh, hg, hb]

theorem means_configBlock :
    Means Num quiet configBlock
      (One (BlockOf .config (Of Config.toSketch (Config.Written Num)))) := by
  refine (Means.skip means_configProp.items.braces).node fun place parts hparts => ?_
  change (do pure (Sketch.block _ (← Node.described _ _) _) : Build _).Gives quiet _
  rw [Node.described_eq _ configSuits fun x hx => (hparts.2 x hx).fits]
  exact .pure ⟨_, _, rfl, exists_config hparts⟩

/-! ## Animations -/

def clipSort (Num : Number → Prop) : String → Sketch → Prop
  | "frames" | "fps" => Of .number Num
  | "loop" => Of .flag fun _ => True
  | _ => fun _ => False

theorem clipSuits : Node.Suits .clip ["name"] ["fps", "loop"] ["frames"] :=
  ⟨by decide, by decide, by decide, by decide⟩

theorem means_animProp :
    Means Num quiet animProp (One (Entry ["fps", "loop"] ["frames"] (clipSort Num))) :=
  .alt (.listed "frames" (fun _ _ => rfl) (fun _ _ => rfl) (by decide) (by decide) means_number)
    (.alt (.field "fps" (fun _ _ => rfl) (by decide) means_number)
      (.field "loop" (fun _ _ => rfl) (by decide) means_boolean))

theorem exists_clip (hname : Named name)
    (hbody : Each (Entry ["fps", "loop"] ["frames"] (clipSort Num)) body) :
    Of Clip.toSketch (Clip.Written Num) (.record .clip
      (RecordKind.clip.fields.map (Node.fieldValue .clip [("name", .text name)] body))) := by
  obtain ⟨frames, h₁, hframes⟩ := exists_list clipSuits hbody "frames" (by decide) fun _ => id
  obtain ⟨fps, h₂, hfps⟩ := exists_single clipSuits hbody "fps" (by decide) fun _ => id
  obtain ⟨loop, h₃, -⟩ := exists_single clipSuits hbody "loop" (by decide) fun _ => id
  refine ⟨⟨name, frames, fps, loop⟩, ?_, hname, hframes, hfps⟩
  change Sketch.record .clip [.text name, (valueOf "frames" body).getD (.tuple []),
    (valueOf "fps" body).getD .null, (valueOf "loop" body).getD .null] = _
  rw [h₁, h₂, h₃]
  rfl

theorem means_animation :
    Means Num quiet animation (One (Of Clip.toSketch (Clip.Written Num))) := by
  refine (Means.skip (means_ident.cons means_animProp.items.braces.last)).node
    fun place parts hparts => ?_
  obtain ⟨_, body, rfl, ⟨name, rfl, hname⟩, hbody⟩ := hparts.exists_eq
  change (Node.describedAs _ _ _).Gives quiet _
  rw [Node.describedAs_eq _ clipSuits rfl fun x hx => (hbody.2 x hx).fits]
  exact .pure (exists_clip hname hbody.2)

/-- A clip in the body of something that has animations. -/
theorem means_animation_entry {singles lists : List String} {T : String → Sketch → Prop}
    (hmem : "animations" ∈ lists)
    (hT : ∀ x, Of Clip.toSketch (Clip.Written Num) x → T "animations" x) :
    Means Num quiet animation (One (Entry singles lists T)) := by
  refine means_animation.mono fun xs hxs => ?_
  obtain ⟨_, rfl, c, rfl, hc⟩ := hxs.exists_eq
  exact one_singleton.2 (.clip hmem (hT _ ⟨c, rfl, hc⟩))

/-! ## The player -/

def playerSort (Num : Number → Prop) : String → Sketch → Prop
  | "sprite" => Of .text Named
  | "speed" | "jump_force" | "lives" => Of .number Num
  | "controls" => Of (fun c => .choice (.controls c)) fun _ => True
  | "animations" => Of Clip.toSketch (Clip.Written Num)
  | _ => fun _ => False

def playerKeys : List String := ["sprite", "speed", "jump_force", "lives", "controls"]

theorem playerSuits : Node.Suits .player [] playerKeys ["animations"] :=
  ⟨by decide, by decide, by decide, by decide⟩

theorem means_playerProp :
    Means Num quiet playerProp (One (Entry playerKeys ["animations"] (playerSort Num))) :=
  .alt (.field "sprite" (fun _ _ => rfl) (by decide) means_ident)
    (.alt (.field "speed" (fun _ _ => rfl) (by decide) means_number)
      (.alt (.field "jump_force" (fun _ _ => rfl) (by decide) means_number)
        (.alt (.field "lives" (fun _ _ => rfl) (by decide) means_number)
          (.alt (.field "controls" (fun _ _ => rfl) (by decide) means_controlScheme)
            (means_animation_entry (by decide) fun _ => id)))))

theorem exists_player (hparts : Several (Entry playerKeys ["animations"] (playerSort Num)) parts) :
    Of Player.toSketch (Player.Written Num)
      (.record .player (RecordKind.player.fields.map (Node.fieldValue .player [] parts))) := by
  obtain ⟨hne, hparts⟩ := hparts
  obtain ⟨sprite, h₁, hsprite⟩ := exists_single playerSuits hparts "sprite" (by decide) fun _ => id
  obtain ⟨speed, h₂, hspeed⟩ := exists_single playerSuits hparts "speed" (by decide) fun _ => id
  obtain ⟨jump, h₃, hjump⟩ := exists_single playerSuits hparts "jump_force" (by decide) fun _ => id
  obtain ⟨lives, h₄, hlives⟩ := exists_single playerSuits hparts "lives" (by decide) fun _ => id
  obtain ⟨controls, h₅, -⟩ := exists_single playerSuits hparts "controls" (by decide) fun _ => id
  obtain ⟨clips, h₆, hclips⟩ := exists_items playerSuits hparts "animations" (by decide) fun _ => id
  refine ⟨⟨sprite, speed, jump, lives, controls, clips⟩, ?_, ?_, hsprite, hspeed, hjump, hlives,
    fun cs hcs => ⟨(hclips cs hcs).1 rfl, (hclips cs hcs).2⟩⟩
  · simp only [RecordKind.fields, List.map_cons, List.map_nil, Node.fieldValue, h₁, h₂, h₃, h₄, h₅,
      h₆]
    rfl
  · rintro ⟨⟩
    refine hne (eq_nil_of_valueOf (fun x hx => (hparts x hx).fits) ?_)
    simp [playerKeys, h₁, h₂, h₃, h₄, h₅, h₆]

theorem means_playerBlock :
    Means Num quiet playerBlock
      (One (BlockOf .player (Of Player.toSketch (Player.Written Num)))) := by
  refine (Means.skip means_playerProp.items.braces).node fun place parts hparts => ?_
  change (do pure (Sketch.block _ (← Node.described _ _) _) : Build _).Gives quiet _
  rw [Node.described_eq _ playerSuits fun x hx => (hparts.2 x hx).fits]
  exact .pure ⟨_, _, rfl, exists_player hparts⟩

/-! ## Enemies -/

def paramKeys : List String := ["speed", "distance", "range", "amplitude", "frequency"]

theorem means_movementParam :
    Means Num quiet movementParam (One (Entry paramKeys [] fun _ => Of .number Num)) :=
  .alt (.field "speed" (fun _ _ => rfl) (by decide) means_number)
    (.alt (.field "distance" (fun _ _ => rfl) (by decide) means_number)
      (.alt (.field "range" (fun _ _ => rfl) (by decide) means_number)
        (.alt (.field "amplitude" (fun _ _ => rfl) (by decide) means_number)
          (.field "frequency" (fun _ _ => rfl) (by decide) means_number))))

theorem mem_keysOf {key : String} (h : (valueOf key parts).isSome = true) :
    key ∈ Node.keysOf parts := by
  have hlookup := lookup_foldl_addPair [] parts key
  rw [List.lookup_nil] at hlookup
  rw [valueOf, ← hlookup, List.lookup_isSome_iff] at h
  obtain ⟨p, hp, heq⟩ := h
  rw [beq_iff_eq.1 heq]
  exact List.mem_map_of_mem hp

/-- A movement that is not warned about has one of the parameters that it uses. -/
theorem gives_movement {n : Node} {kind : RecordKind} {P : Sketch → Prop}
    (hparts : Several (Entry paramKeys [] fun _ => Of .number Num) n.parts)
    (hown : Node.ownKey ∉ kind.fields)
    (h : (quiet → ∃ k ∈ kind.fields, (valueOf k n.parts).isSome = true) →
      P (.record kind (kind.fields.map (Node.fieldValue kind [] n.parts)))) :
    (n.movement kind).Gives quiet P := by
  have hfit : ∀ x ∈ n.parts, Fits paramKeys [] x := fun x hx => (hparts.2 x hx).fits
  rw [n.movement_eq hfit hown]
  intro hwarn
  refine ⟨_, rfl, h fun hq => ?_⟩
  obtain ⟨k, -, hsome⟩ := exists_valueOf hfit hparts.1
  refine ⟨k, ?_, hsome⟩
  have hnone := List.map_eq_nil_iff.1 (hwarn hq)
  rw [List.filter_eq_nil_iff] at hnone
  simpa using hnone k (mem_keysOf hsome)

theorem Means.pattern {l : Label} {k : Keyword} (kind : RecordKind) {P : Sketch → Prop}
    (hl : ∀ n : Node, n.label = l → n.assemble = n.movement kind)
    (hown : Node.ownKey ∉ kind.fields)
    (h : ∀ parts, Each (Entry paramKeys [] fun _ => Of .number Num) parts →
      (quiet → ∃ k ∈ kind.fields, (valueOf k parts).isSome = true) →
      P (.record kind (kind.fields.map (Node.fieldValue kind [] parts)))) :
    Means Num quiet (pattern l k) (One P) := by
  refine (Means.skip means_movementParam.items.braces).node fun place parts hparts => ?_
  rw [hl _ rfl]
  exact gives_movement hparts hown (h parts hparts.2)

theorem exists_param (hparts : Each (Entry paramKeys [] fun _ => Of .number Num) parts)
    (key : String) (hkey : key ∈ paramKeys) :
    ∃ o : Option Number, valueOf key parts = o.map .number ∧ ∀ n ∈ o, Num n := by
  refine exists_option_of_forall fun v hv => ?_
  have hsorted := sorted_valueOf (by simp) hparts key v hv
  rwa [Sorted, if_pos hkey] at hsorted

theorem means_movement : Means Num quiet movement
    (One (Of Movement.toSketch (Movement.Written Num quiet))) := by
  refine .alt ?_ (.alt ?_ (.alt ?_ ?_))
  · refine .pattern .patrol (fun n hn => by rw [Node.assemble, hn]) (by decide)
      fun parts hparts hsome => ?_
    obtain ⟨speed, h₁, hspeed⟩ := exists_param hparts "speed" (by decide)
    obtain ⟨distance, h₂, hdistance⟩ := exists_param hparts "distance" (by decide)
    simp only [RecordKind.fields, List.map_cons, List.map_nil, Node.fieldValue, h₁, h₂] at hsome ⊢
    refine ⟨.patrol speed distance, rfl, ?_, fun hq => .inr ?_⟩
    · simpa [Movement.params] using ⟨hspeed, hdistance⟩
    · simpa [Movement.params, h₁, h₂] using hsome hq
  · refine .pattern .chase (fun n hn => by rw [Node.assemble, hn]) (by decide)
      fun parts hparts hsome => ?_
    obtain ⟨speed, h₁, hspeed⟩ := exists_param hparts "speed" (by decide)
    obtain ⟨range, h₂, hrange⟩ := exists_param hparts "range" (by decide)
    simp only [RecordKind.fields, List.map_cons, List.map_nil, Node.fieldValue, h₁, h₂] at hsome ⊢
    refine ⟨.chase speed range, rfl, ?_, fun hq => .inr ?_⟩
    · simpa [Movement.params] using ⟨hspeed, hrange⟩
    · simpa [Movement.params, h₁, h₂] using hsome hq
  · refine .pattern .fly (fun n hn => by rw [Node.assemble, hn]) (by decide)
      fun parts hparts hsome => ?_
    obtain ⟨speed, h₁, hspeed⟩ := exists_param hparts "speed" (by decide)
    obtain ⟨amplitude, h₂, hamplitude⟩ := exists_param hparts "amplitude" (by decide)
    obtain ⟨frequency, h₃, hfrequency⟩ := exists_param hparts "frequency" (by decide)
    simp only [RecordKind.fields, List.map_cons, List.map_nil, Node.fieldValue, h₁, h₂, h₃]
      at hsome ⊢
    refine ⟨.fly speed amplitude frequency, rfl, ?_, fun hq => .inr ?_⟩
    · simpa [Movement.params] using ⟨hspeed, hamplitude, hfrequency⟩
    · simpa [Movement.params, h₁, h₂, h₃] using hsome hq
  · refine (Means.word .static).node fun place parts _ => ?_
    exact .pure ⟨.static, rfl, fun o ho => (nomatch ho), fun _ => .inl rfl⟩

def enemySort (Num : Number → Prop) (quiet : Prop) : String → Sketch → Prop
  | "sprite" => Of .text Named
  | "movement" => Of Movement.toSketch (Movement.Written Num quiet)
  | "damage" => Of .number Num
  | "stompable" => Of .flag fun _ => True
  | "animations" => Of Clip.toSketch (Clip.Written Num)
  | _ => fun _ => False

def enemyKeys : List String := ["sprite", "movement", "damage", "stompable"]

theorem enemySuits : Node.Suits .enemy ["name"] enemyKeys ["animations"] :=
  ⟨by decide, by decide, by decide, by decide⟩

theorem means_enemyProp :
    Means Num quiet enemyProp (One (Entry enemyKeys ["animations"] (enemySort Num quiet))) :=
  .alt (.field "sprite" (fun _ _ => rfl) (by decide) means_ident)
    (.alt (.field "movement" (fun _ _ => rfl) (by decide) means_movement)
      (.alt (.field "damage" (fun _ _ => rfl) (by decide) means_number)
        (.alt (.field "stompable" (fun _ _ => rfl) (by decide) means_boolean)
          (means_animation_entry (by decide) fun _ => id))))

theorem exists_enemy (hname : Named name)
    (hbody : Several (Entry enemyKeys ["animations"] (enemySort Num quiet)) body) :
    Of Enemy.toSketch (Enemy.Written Num quiet) (.record .enemy
      (RecordKind.enemy.fields.map (Node.fieldValue .enemy [("name", .text name)] body))) := by
  obtain ⟨hne, hbody⟩ := hbody
  obtain ⟨sprite, h₁, hsprite⟩ := exists_single enemySuits hbody "sprite" (by decide) fun _ => id
  obtain ⟨move, h₂, hmove⟩ := exists_single enemySuits hbody "movement" (by decide) fun _ => id
  obtain ⟨damage, h₃, hdamage⟩ := exists_single enemySuits hbody "damage" (by decide) fun _ => id
  obtain ⟨stompable, h₄, -⟩ := exists_single enemySuits hbody "stompable" (by decide) fun _ => id
  obtain ⟨clips, h₅, hclips⟩ := exists_items enemySuits hbody "animations" (by decide) fun _ => id
  refine ⟨⟨name, sprite, move, damage, stompable, clips⟩, ?_, ?_, hname, hsprite, hmove, hdamage,
    fun cs hcs => ⟨(hclips cs hcs).1 rfl, (hclips cs hcs).2⟩⟩
  · simp only [RecordKind.fields, List.map_cons, List.map_nil, Node.fieldValue, h₁, h₂, h₃, h₄, h₅]
    rfl
  · rintro ⟨⟩
    refine hne (eq_nil_of_valueOf (fun x hx => (hbody x hx).fits) ?_)
    simp [enemyKeys, h₁, h₂, h₃, h₄, h₅]

theorem means_enemyBlock : Means Num quiet enemyBlock
    (One (BlockOf .enemy (Of Enemy.toSketch (Enemy.Written Num quiet)))) := by
  refine (Means.skip (means_ident.cons means_enemyProp.items.braces.last)).node
    fun place parts hparts => ?_
  obtain ⟨_, body, rfl, ⟨name, rfl, hname⟩, hbody⟩ := hparts.exists_eq
  change (do pure (Sketch.block _ (← Node.describedAs _ _ _) _) : Build _).Gives quiet _
  rw [Node.describedAs_eq _ enemySuits rfl fun x hx => (hbody.2 x hx).fits]
  exact .pure ⟨_, _, rfl, exists_enemy hname hbody⟩

/-! ## Collectibles -/

def collectibleSort (Num : Number → Prop) : String → Sketch → Prop
  | "sprite" => Of .text Named
  | "score" => Of .number Num
  | "effect" => Of (fun e => .choice (.effect e)) fun _ => True
  | "animations" => Of Clip.toSketch (Clip.Written Num)
  | _ => fun _ => False

def collectibleKeys : List String := ["sprite", "score", "effect"]

theorem collectibleSuits : Node.Suits .collectible ["name"] collectibleKeys ["animations"] :=
  ⟨by decide, by decide, by decide, by decide⟩

theorem means_collectibleProp : Means Num quiet collectibleProp
    (One (Entry collectibleKeys ["animations"] (collectibleSort Num))) :=
  .alt (.field "sprite" (fun _ _ => rfl) (by decide) means_ident)
    (.alt (.field "score" (fun _ _ => rfl) (by decide) means_number)
      (.alt (.field "effect" (fun _ _ => rfl) (by decide) means_collectibleEffect)
        (means_animation_entry (by decide) fun _ => id)))

theorem exists_collectible (hname : Named name)
    (hbody : Several (Entry collectibleKeys ["animations"] (collectibleSort Num)) body) :
    Of Collectible.toSketch (Collectible.Written Num) (.record .collectible
      (RecordKind.collectible.fields.map
        (Node.fieldValue .collectible [("name", .text name)] body))) := by
  obtain ⟨hne, hbody⟩ := hbody
  have hs := collectibleSuits
  obtain ⟨sprite, h₁, hsprite⟩ := exists_single hs hbody "sprite" (by decide) fun _ => id
  obtain ⟨score, h₂, hscore⟩ := exists_single hs hbody "score" (by decide) fun _ => id
  obtain ⟨effect, h₃, -⟩ := exists_single hs hbody "effect" (by decide) fun _ => id
  obtain ⟨clips, h₄, hclips⟩ := exists_items hs hbody "animations" (by decide) fun _ => id
  refine ⟨⟨name, sprite, score, effect, clips⟩, ?_, ?_, hname, hsprite, hscore,
    fun cs hcs => ⟨(hclips cs hcs).1 rfl, (hclips cs hcs).2⟩⟩
  · simp only [RecordKind.fields, List.map_cons, List.map_nil, Node.fieldValue, h₁, h₂, h₃, h₄]
    rfl
  · rintro ⟨⟩
    refine hne (eq_nil_of_valueOf (fun x hx => (hbody x hx).fits) ?_)
    simp [collectibleKeys, h₁, h₂, h₃, h₄]

theorem means_collectibleBlock : Means Num quiet collectibleBlock
    (One (BlockOf .collectible (Of Collectible.toSketch (Collectible.Written Num)))) := by
  refine (Means.skip (means_ident.cons means_collectibleProp.items.braces.last)).node
    fun place parts hparts => ?_
  obtain ⟨_, body, rfl, ⟨name, rfl, hname⟩, hbody⟩ := hparts.exists_eq
  change (do pure (Sketch.block _ (← Node.describedAs _ _ _) _) : Build _).Gives quiet _
  rw [Node.describedAs_eq _ collectibleSuits rfl fun x hx => (hbody.2 x hx).fits]
  exact .pure ⟨_, _, rfl, exists_collectible hname hbody⟩

/-! ## Levels -/

theorem means_layerMapping : Means Num quiet layerMapping
    (One (Of Node.layerSketch fun l => Named l.1)) := by
  refine (means_ident.cons (.skip means_string.last)).node fun place parts hparts => ?_
  obtain ⟨_, _, rfl, ⟨key, rfl, hkey⟩, hrest₁⟩ := hparts.exists_eq
  obtain ⟨_, rfl, path, rfl, -⟩ := hrest₁.exists_eq
  exact .pure ⟨(key, path), rfl, hkey⟩

theorem means_placement :
    Means Num quiet placement (One (Of Placement.toSketch (Placement.Written Num))) := by
  refine (means_ident.cons (.skip (.skip (means_number.cons (.skip
    means_number.closed))))).node fun place parts hparts => ?_
  obtain ⟨_, _, rfl, ⟨key, rfl, hkey⟩, hrest₁⟩ := hparts.exists_eq
  obtain ⟨_, _, rfl, ⟨x, rfl, hx⟩, hrest₂⟩ := hrest₁.exists_eq
  obtain ⟨_, rfl, y, rfl, hy⟩ := hrest₂.exists_eq
  exact .pure ⟨⟨key, x, y⟩, rfl, hkey, hx, hy⟩

theorem means_platform :
    Means Num quiet platform (One (Of Platform.toSketch (Platform.Written Num))) := by
  refine (means_ident.cons (.skip (.skip (means_number.cons (.skip (means_number.cons (.skip
    (means_number.cons (.skip means_number.closed))))))))).node fun place parts hparts => ?_
  obtain ⟨_, _, rfl, ⟨key, rfl, hkey⟩, hrest₁⟩ := hparts.exists_eq
  obtain ⟨_, _, rfl, ⟨x, rfl, hx⟩, hrest₂⟩ := hrest₁.exists_eq
  obtain ⟨_, _, rfl, ⟨y, rfl, hy⟩, hrest₃⟩ := hrest₂.exists_eq
  obtain ⟨_, _, rfl, ⟨w, rfl, hw⟩, hrest₄⟩ := hrest₃.exists_eq
  obtain ⟨_, rfl, h, rfl, hh⟩ := hrest₄.exists_eq
  exact .pure ⟨⟨key, x, y, w, h⟩, rfl, hkey, ⟨hx, hy⟩, hw, hh⟩

def levelSort (Num : Number → Prop) : String → Sketch → Prop
  | "tilemap" => Of .text Named
  | "layers" => Of layersSketch WrittenLayers
  | "spawn" | "exit" => Of Point.toSketch (Point.Written Num)
  | "enemies" | "collectibles" => Of Placement.toSketch (Placement.Written Num)
  | "platforms" => Of Platform.toSketch (Platform.Written Num)
  | _ => fun _ => False

def levelKeys : List String := ["tilemap", "layers", "spawn", "exit"]

def levelLists : List String := ["enemies", "collectibles", "platforms"]

theorem levelSuits : Node.Suits .level ["name"] levelKeys levelLists :=
  ⟨by decide, by decide, by decide, by decide⟩

theorem writtenLayers_putPairs {ls : List (String × String)} (hne : ls ≠ [])
    (hls : ∀ l ∈ ls, Named l.1) : WrittenLayers (putPairs ls) where
  ne_nil := putPairs_ne_nil hne
  nodup := nodup_putPairs ls
  named l hl := hls l (mem_putPairs hl)

theorem means_layers : Means Num quiet (field .layers .layers (braces (items layerMapping)))
    (One (Entry levelKeys levelLists (levelSort Num))) := by
  refine (Means.skip (.skip means_layerMapping.items.braces.last)).node
    fun place parts hparts => ?_
  obtain ⟨ls, rfl, hls⟩ := exists_list_of_forall hparts.2
  change (do pure (Sketch.property _ (.mapping (← Node.addLayers _ _ _ _)) _) : Build _).Gives
    quiet _
  rw [Node.addLayers_eq]
  refine .pure (.single (by decide) ⟨putPairs ls, rfl, writtenLayers_putPairs ?_ hls⟩)
  exact fun h => hparts.1 (by rw [h, List.map_nil])

theorem means_levelProp :
    Means Num quiet levelProp (One (Entry levelKeys levelLists (levelSort Num))) :=
  .alt (.field "tilemap" (fun _ _ => rfl) (by decide) means_ident)
    (.alt means_layers
      (.alt (.field "spawn" (fun _ _ => rfl) (by decide) means_point)
        (.alt (.listed "enemies" (fun _ _ => rfl) (fun _ _ => rfl) (by decide) (by decide)
            means_placement)
          (.alt (.listed "collectibles" (fun _ _ => rfl) (fun _ _ => rfl) (by decide) (by decide)
              means_placement)
            (.alt (.listed "collectibles" (fun _ _ => rfl) (fun _ _ => rfl) (by decide)
                (by decide) means_placement)
              (.alt (.listed "platforms" (fun _ _ => rfl) (fun _ _ => rfl) (by decide) (by decide)
                  means_platform)
                (.field "exit" (fun _ _ => rfl) (by decide) means_point)))))))

theorem exists_level (hbody : Each (Entry levelKeys levelLists (levelSort Num)) body) :
    Of Level.toSketch (Level.Written Num) (.record .level
      (RecordKind.level.fields.map (Node.fieldValue .level [("name", .text name)] body))) := by
  have hs := levelSuits
  obtain ⟨tilemap, h₁, htilemap⟩ := exists_single hs hbody "tilemap" (by decide) fun _ => id
  obtain ⟨layers, h₂, hlayers⟩ := exists_single hs hbody "layers" (by decide) fun _ => id
  obtain ⟨spawn, h₃, hspawn⟩ := exists_single hs hbody "spawn" (by decide) fun _ => id
  obtain ⟨exit, h₄, hexit⟩ := exists_single hs hbody "exit" (by decide) fun _ => id
  obtain ⟨enemies, h₅, henemies⟩ := exists_list hs hbody "enemies" (by decide) fun _ => id
  obtain ⟨coins, h₆, hcoins⟩ := exists_list hs hbody "collectibles" (by decide) fun _ => id
  obtain ⟨platforms, h₇, hplatforms⟩ := exists_list hs hbody "platforms" (by decide) fun _ => id
  refine ⟨⟨name, spawn, tilemap, layers, enemies, coins, platforms, exit⟩, ?_, hspawn, htilemap,
    hlayers, henemies, hcoins, hplatforms, hexit⟩
  change Sketch.record .level [.text name, (valueOf "spawn" body).getD .null,
    (valueOf "tilemap" body).getD .null, (valueOf "layers" body).getD .null,
    (valueOf "enemies" body).getD (.tuple []), (valueOf "collectibles" body).getD (.tuple []),
    (valueOf "platforms" body).getD (.tuple []), (valueOf "exit" body).getD .null] = _
  rw [h₁, h₂, h₃, h₄, h₅, h₆, h₇]
  rfl

theorem means_levelBlock : Means Num quiet levelBlock
    (One (BlockOf .level (Of Level.toSketch (Level.Written Num)))) := by
  refine (Means.skip (means_string.cons means_levelProp.withComma.many.braces.last)).node
    fun place parts hparts => ?_
  obtain ⟨_, body, rfl, ⟨name, rfl, -⟩, hbody⟩ := hparts.exists_eq
  change (do pure (Sketch.block _ (← Node.describedAs _ _ _) _) : Build _).Gives quiet _
  rw [Node.describedAs_eq _ levelSuits rfl fun x hx => (hbody x hx).fits]
  exact .pure ⟨_, _, rfl, exists_level hbody⟩

/-! ## The head-up display -/

def hudSort (Num : Number → Prop) : String → Sketch → Prop
  | "position" => Of (fun a => .choice (.anchor a)) fun _ => True
  | "font_size" | "max" => Of .number Num
  | "color" => Of .text fun s => IsColor s.toList
  | _ => fun _ => False

def hudKeys : List String := ["position", "font_size", "color", "max"]

theorem hudSuits : Node.Suits .hudElement ["type"] hudKeys [] :=
  ⟨by decide, by decide, by decide, by decide⟩

theorem means_hudProp : Means Num quiet hudProp (One (Entry hudKeys [] (hudSort Num))) :=
  .alt (.field "position" (fun _ _ => rfl) (by decide) means_hudPosition)
    (.alt (.field "font_size" (fun _ _ => rfl) (by decide) means_number)
      (.alt (.field "color" (fun _ _ => rfl) (by decide) means_color)
        (.field "max" (fun _ _ => rfl) (by decide) means_number)))

theorem exists_hudElement {kind : HudKind} (hbody : Several (Entry hudKeys [] (hudSort Num)) body) :
    Of HudElement.toSketch (HudElement.Written Num) (.record .hudElement
      (RecordKind.hudElement.fields.map
        (Node.fieldValue .hudElement [("type", .choice (.hud kind))] body))) := by
  obtain ⟨hne, hbody⟩ := hbody
  obtain ⟨position, h₁, -⟩ := exists_single hudSuits hbody "position" (by decide) fun _ => id
  obtain ⟨size, h₂, hsize⟩ := exists_single hudSuits hbody "font_size" (by decide) fun _ => id
  obtain ⟨color, h₃, hcolor⟩ := exists_single hudSuits hbody "color" (by decide) fun _ => id
  obtain ⟨max, h₄, hmax⟩ := exists_single hudSuits hbody "max" (by decide) fun _ => id
  refine ⟨⟨kind, position, size, color, max⟩, ?_, ?_, hsize, hcolor, hmax⟩
  · simp only [RecordKind.fields, List.map_cons, List.map_nil, Node.fieldValue, h₁, h₂, h₃, h₄]
    rfl
  · rintro ⟨⟩
    refine hne (eq_nil_of_valueOf (fun x hx => (hbody x hx).fits) ?_)
    simp [hudKeys, h₁, h₂, h₃, h₄]

theorem means_hudElement : Means Num quiet hudElement
    (One (Of HudElement.toSketch (HudElement.Written Num))) := by
  refine (means_hudType.cons means_hudProp.items.braces).node fun place parts hparts => ?_
  obtain ⟨_, body, rfl, ⟨kind, rfl, -⟩, hbody⟩ := hparts.exists_eq
  change (Node.describedAs _ _ _).Gives quiet _
  rw [Node.describedAs_eq _ hudSuits rfl fun x hx => (hbody.2 x hx).fits]
  exact .pure (exists_hudElement hbody)

theorem means_hudBlock : Means Num quiet hudBlock
    (One (BlockOf .hud (Of hudSketch fun es => ∀ e ∈ es, e.Written Num))) := by
  refine (Means.skip means_hudElement.withComma.many.braces).node fun place parts hparts => ?_
  obtain ⟨es, rfl, hes⟩ := exists_list_of_forall hparts
  exact .pure ⟨_, _, rfl, es, rfl, hes⟩

/-! ## Rules -/

theorem means_winCondition : Means Num quiet winCondition
    (One (Of WinCondition.toSketch (WinCondition.Written Num))) := by
  refine .alt ?_ (.alt ?_ (.alt ?_ ?_))
  · exact (Means.word .reachExit).node fun _ _ _ => .pure ⟨.reachExit, rfl, trivial⟩
  · refine (Means.skip means_ident).node fun place parts hparts => ?_
    obtain ⟨_, rfl, entity, rfl, hentity⟩ := hparts.exists_eq
    exact .pure ⟨.collectAll entity, rfl, hentity⟩
  · exact (Means.word .defeatAll).node fun _ _ _ => .pure ⟨.defeatAll, rfl, trivial⟩
  · refine (Means.skip means_number).node fun place parts hparts => ?_
    obtain ⟨_, rfl, seconds, rfl, hseconds⟩ := hparts.exists_eq
    exact .pure ⟨.survive seconds, rfl, hseconds⟩

theorem means_loseCondition :
    Means Num quiet loseCondition (One (Of LoseCondition.toSketch fun _ => True)) :=
  .alt ((Means.word .noLives).node fun _ _ _ => .pure ⟨.noLives, rfl, trivial⟩)
    (.alt ((Means.word .timerExpires).node fun _ _ _ => .pure ⟨.timerExpires, rfl, trivial⟩)
      ((Means.word .fallOff).node fun _ _ _ => .pure ⟨.fallOff, rfl, trivial⟩))

def rulesSort (Num : Number → Prop) : String → Sketch → Prop
  | "win" => Of WinCondition.toSketch (WinCondition.Written Num)
  | "lose" => Of LoseCondition.toSketch fun _ => True
  | "next_level" => Of .text fun _ => True
  | _ => fun _ => False

def rulesKeys : List String := ["win", "lose", "next_level"]

theorem rulesSuits : Node.Suits .rules [] rulesKeys [] :=
  ⟨by decide, by decide, by decide, by decide⟩

theorem means_ruleProp : Means Num quiet ruleProp (One (Entry rulesKeys [] (rulesSort Num))) :=
  .alt (.field "win" (fun _ _ => rfl) (by decide) means_winCondition)
    (.alt (.field "lose" (fun _ _ => rfl) (by decide) means_loseCondition)
      (.field "next_level" (fun _ _ => rfl) (by decide) means_string))

theorem exists_rules (hparts : Several (Entry rulesKeys [] (rulesSort Num)) parts) :
    Of Rules.toSketch (Rules.Written Num)
      (.record .rules (RecordKind.rules.fields.map (Node.fieldValue .rules [] parts))) := by
  obtain ⟨hne, hparts⟩ := hparts
  obtain ⟨win, h₁, hwin⟩ := exists_single rulesSuits hparts "win" (by decide) fun _ => id
  obtain ⟨lose, h₂, -⟩ := exists_single rulesSuits hparts "lose" (by decide) fun _ => id
  obtain ⟨next, h₃, -⟩ := exists_single rulesSuits hparts "next_level" (by decide) fun _ => id
  refine ⟨⟨win, lose, next⟩, ?_, ?_, hwin⟩
  · simp only [RecordKind.fields, List.map_cons, List.map_nil, Node.fieldValue, h₁, h₂, h₃]
    rfl
  · rintro ⟨⟩
    refine hne (eq_nil_of_valueOf (fun x hx => (hparts x hx).fits) ?_)
    simp [rulesKeys, h₁, h₂, h₃]

theorem means_rulesBlock :
    Means Num quiet rulesBlock (One (BlockOf .rules (Of Rules.toSketch (Rules.Written Num)))) := by
  refine (Means.skip means_ruleProp.items.braces).node fun place parts hparts => ?_
  change (do pure (Sketch.block _ (← Node.described _ _) _) : Build _).Gives quiet _
  rw [Node.described_eq _ rulesSuits fun x hx => (hparts.2 x hx).fits]
  exact .pure ⟨_, _, rfl, exists_rules hparts⟩

/-! ## Sounds -/

def soundKeys : List String := SoundEvent.all.map SoundEvent.text

theorem soundSuits : Node.Suits .sounds [] soundKeys [] :=
  ⟨by decide, by decide, by decide, by decide⟩

theorem text_mem_soundKeys (e : SoundEvent) : e.text ∈ soundKeys := by
  cases e <;> decide

theorem means_soundProp :
    Means Num quiet soundProp (One (Entry soundKeys [] fun _ => Of .text Named)) := by
  refine (means_soundEvent.cons (.skip means_ident.last)).node fun place parts hparts => ?_
  obtain ⟨_, _, rfl, ⟨event, rfl, -⟩, hrest⟩ := hparts.exists_eq
  obtain ⟨_, rfl, key, rfl, hkey⟩ := hrest.exists_eq
  exact .pure (.single (text_mem_soundKeys event) ⟨key, rfl, hkey⟩)

theorem exists_sounds (hparts : Several (Entry soundKeys [] fun _ => Of .text Named) parts) :
    Of Sounds.toSketch Sounds.Written
      (.record .sounds (RecordKind.sounds.fields.map (Node.fieldValue .sounds [] parts))) := by
  obtain ⟨hne, hparts⟩ := hparts
  -- the key of each event
  have hkey : ∀ e : SoundEvent, ∃ o : Option String,
      valueOf e.text parts = o.map .text ∧ ∀ key ∈ o, Named key := fun e =>
    exists_single soundSuits hparts e.text (text_mem_soundKeys e) fun _ => id
  obtain ⟨jump, h₁, hjump⟩ := hkey .jump
  obtain ⟨collect, h₂, hcollect⟩ := hkey .collect
  obtain ⟨hurt, h₃, hhurt⟩ := hkey .hurt
  obtain ⟨win, h₄, hwin⟩ := hkey .win
  obtain ⟨lose, h₅, hlose⟩ := hkey .lose
  obtain ⟨bgm, h₆, hbgm⟩ := hkey .bgm
  refine ⟨⟨jump, collect, hurt, win, lose, bgm⟩, ?_, ?_, fun e => ?_⟩
  · simp only [RecordKind.fields, SoundEvent.all, List.map_cons, List.map_nil, Node.fieldValue,
      h₁, h₂, h₃, h₄, h₅, h₆]
    rfl
  · rintro ⟨⟩
    refine hne (eq_nil_of_valueOf (fun x hx => (hparts x hx).fits) ?_)
    simp [soundKeys, SoundEvent.all, h₁, h₂, h₃, h₄, h₅, h₆]
  · cases e <;> assumption

theorem means_soundsBlock :
    Means Num quiet soundsBlock (One (BlockOf .sounds (Of Sounds.toSketch Sounds.Written))) := by
  refine (Means.skip means_soundProp.items.braces).node fun place parts hparts => ?_
  change (do pure (Sketch.block _ (← Node.described _ _) _) : Build _).Gives quiet _
  rw [Node.described_eq _ soundSuits fun x hx => (hparts.2 x hx).fits]
  exact .pure ⟨_, _, rfl, exists_sounds hparts⟩

/-! ## Assets -/

/-- An asset with a key and a path. -/
theorem Means.asset {l : Label} {k : Keyword} (kind : AssetKind) (hkind : kind ≠ .spritesheet)
    (hl : ∀ n : Node, n.label = l → n.assemble = n.asset kind) :
    Means Num quiet (.node l (.chain [.word k, ident, string]))
      (One (Of Asset.toSketch (Asset.Written Num))) := by
  refine (Means.skip (means_ident.cons means_string.last)).node fun place parts hparts => ?_
  obtain ⟨_, _, rfl, ⟨key, rfl, hkey⟩, hrest⟩ := hparts.exists_eq
  obtain ⟨_, rfl, path, rfl, -⟩ := hrest.exists_eq
  rw [hl _ rfl]
  cases kind with
  | spritesheet => exact absurd rfl hkind
  | _ => exact .pure ⟨⟨_, key, path, none⟩, rfl, hkey, by simp, by simp⟩

theorem means_assetDef :
    Means Num quiet assetDef (One (Of Asset.toSketch (Asset.Written Num))) := by
  refine .alt ?_ (.alt ?_ (.alt ?_ ?_))
  · exact .asset .image (by decide) fun n hn => by rw [Node.assemble, hn]
  · refine (Means.skip (means_ident.cons (means_string.cons means_frameConfig.last))).node
      fun place parts hparts => ?_
    obtain ⟨_, _, rfl, ⟨key, rfl, hkey⟩, hrest⟩ := hparts.exists_eq
    obtain ⟨_, _, rfl, ⟨path, rfl, -⟩, hlast⟩ := hrest.exists_eq
    obtain ⟨_, rfl, size, rfl, hsize⟩ := hlast.exists_eq
    exact .pure ⟨⟨.spritesheet, key, path, some size⟩, rfl, hkey, by simp, by simpa using hsize⟩
  · exact .asset .tilemap (by decide) fun n hn => by rw [Node.assemble, hn]
  · exact .asset .audio (by decide) fun n hn => by rw [Node.assemble, hn]

theorem means_assetsBlock : Means Num quiet assetsBlock
    (One (BlockOf .assets (Of (.ofItems Asset.toSketch) fun as => ∀ a ∈ as, a.Written Num))) := by
  refine (Means.skip means_assetDef.withComma.many.braces).node fun place parts hparts => ?_
  obtain ⟨as, rfl, has⟩ := exists_list_of_forall hparts
  exact .pure ⟨_, _, rfl, as, rfl, has⟩

end PlatformGame.Draft
