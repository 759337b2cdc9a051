import PlatformGame.Draft.Json
import PlatformGame.Proofs.Data.JsonPretty

/-! # Drafts from JSON

A draft is taken back from its value node by node: each field is looked up by its name, null is an
unset field, and the kinds of movements and conditions tell which they are. Only the order of the
layers of a level is lost, since the members of an object come in the order of their keys
(`Draft.ofJson?_toJson`). -/

namespace PlatformGame

namespace Json

/-! ## Parts of a value -/

def asText? : Json → Option String
  | text s => some s
  | _ => none

def asNumber? : Json → Option Number
  | number n => some n
  | _ => none

def asBool? : Json → Option Bool
  | bool b => some b
  | _ => none

/-- One of the words of an enumeration. -/
def asWord? (ofText? : String → Option α) (j : Json) : Option α := j.asText?.bind ofText?

/-- Null, or something. -/
def asOpt? (f : Json → Option α) : Json → Option (Option α)
  | null => some none
  | j => (f j).map some

def asList? (f : Json → Option α) : Json → Option (List α)
  | list xs => xs.mapM f
  | _ => none

/-- An object as pairs of texts. -/
def asPairs? : Json → Option (List (String × String))
  | object ms => ms.mapM fun m => m.2.asText?.map (m.1, ·)
  | _ => none

/-- The member with the given key. -/
def member? (key : String) (f : Json → Option α) : Json → Option α
  | object ms => (ms.lookup key).bind f
  | _ => none

end Json

open Json

/-! ## Things -/

def Point.ofJson? (j : Json) : Option Point := do
  pure ⟨← j.member? "x" asNumber?, ← j.member? "y" asNumber?⟩

def FrameSize.ofJson? (j : Json) : Option FrameSize := do
  pure ⟨← j.member? "frame_width" asNumber?, ← j.member? "frame_height" asNumber?⟩

def Asset.ofJson? (j : Json) : Option Asset := do
  pure ⟨← j.member? "kind" (asWord? AssetKind.ofText?), ← j.member? "key" asText?,
    ← j.member? "path" asText?, ← j.member? "frames" (asOpt? FrameSize.ofJson?)⟩

def Placement.ofJson? (j : Json) : Option Placement := do
  pure ⟨← j.member? "entity" asText?, ← j.member? "x" asNumber?, ← j.member? "y" asNumber?⟩

def Platform.ofJson? (j : Json) : Option Platform := do
  pure ⟨← j.member? "asset" asText?, ← j.member? "x" asNumber?, ← j.member? "y" asNumber?,
    ← j.member? "width" asNumber?, ← j.member? "height" asNumber?⟩

def Level.ofJson? (j : Json) : Option Level := do
  pure ⟨← j.member? "name" asText?, ← j.member? "spawn" (asOpt? Point.ofJson?),
    ← j.member? "tilemap" (asOpt? asText?), ← j.member? "layers" (asOpt? asPairs?),
    ← j.member? "enemies" (asList? Placement.ofJson?),
    ← j.member? "collectibles" (asList? Placement.ofJson?),
    ← j.member? "platforms" (asList? Platform.ofJson?), ← j.member? "exit" (asOpt? Point.ofJson?)⟩

def WinCondition.ofJson? (j : Json) : Option WinCondition := do
  match ← j.member? "kind" asText? with
  | "reachExit" => pure .reachExit
  | "collectAll" => pure (.collectAll (← j.member? "entity" asText?))
  | "defeatAll" => pure .defeatAll
  | "survive" => pure (.survive (← j.member? "seconds" asNumber?))
  | _ => none

def LoseCondition.ofKind? (s : String) : Option LoseCondition :=
  [noLives, timerExpires, fallOff].find? (·.kind == s)

def LoseCondition.ofJson? (j : Json) : Option LoseCondition := j.member? "kind" (asWord? ofKind?)

def Sounds.ofJson? (j : Json) : Option Sounds := do
  pure ⟨← j.member? "jump" (asOpt? asText?), ← j.member? "collect" (asOpt? asText?),
    ← j.member? "hurt" (asOpt? asText?), ← j.member? "win" (asOpt? asText?),
    ← j.member? "lose" (asOpt? asText?), ← j.member? "bgm" (asOpt? asText?)⟩

namespace Draft

def Config.ofJson? (j : Json) : Option Config := do
  pure ⟨← j.member? "width" (asOpt? asNumber?), ← j.member? "height" (asOpt? asNumber?),
    ← j.member? "gravity" (asOpt? asNumber?), ← j.member? "background" (asOpt? asText?)⟩

def Clip.ofJson? (j : Json) : Option Clip := do
  pure ⟨← j.member? "name" asText?, ← j.member? "frames" (asList? asNumber?),
    ← j.member? "fps" (asOpt? asNumber?), ← j.member? "loop" (asOpt? asBool?)⟩

def clipsOf? (j : Json) : Option (Option (List Clip)) := j.asOpt? (asList? Clip.ofJson?)

def Movement.ofJson? (j : Json) : Option Movement := do
  match ← j.member? "kind" asText? with
  | "patrol" => pure (.patrol (← j.member? "speed" (asOpt? asNumber?))
      (← j.member? "distance" (asOpt? asNumber?)))
  | "chase" => pure (.chase (← j.member? "speed" (asOpt? asNumber?))
      (← j.member? "range" (asOpt? asNumber?)))
  | "fly" => pure (.fly (← j.member? "speed" (asOpt? asNumber?))
      (← j.member? "amplitude" (asOpt? asNumber?)) (← j.member? "frequency" (asOpt? asNumber?)))
  | "static" => pure .static
  | _ => none

def Player.ofJson? (j : Json) : Option Player := do
  pure ⟨← j.member? "sprite" (asOpt? asText?), ← j.member? "speed" (asOpt? asNumber?),
    ← j.member? "jump_force" (asOpt? asNumber?), ← j.member? "lives" (asOpt? asNumber?),
    ← j.member? "controls" (asOpt? (asWord? ControlScheme.ofText?)),
    ← j.member? "animations" clipsOf?⟩

def Enemy.ofJson? (j : Json) : Option Enemy := do
  pure ⟨← j.member? "name" asText?, ← j.member? "sprite" (asOpt? asText?),
    ← j.member? "movement" (asOpt? Movement.ofJson?), ← j.member? "damage" (asOpt? asNumber?),
    ← j.member? "stompable" (asOpt? asBool?), ← j.member? "animations" clipsOf?⟩

def Collectible.ofJson? (j : Json) : Option Collectible := do
  pure ⟨← j.member? "name" asText?, ← j.member? "sprite" (asOpt? asText?),
    ← j.member? "score" (asOpt? asNumber?),
    ← j.member? "effect" (asOpt? (asWord? Effect.ofText?)), ← j.member? "animations" clipsOf?⟩

def HudElement.ofJson? (j : Json) : Option HudElement := do
  pure ⟨← j.member? "type" (asWord? HudKind.ofText?),
    ← j.member? "position" (asOpt? (asWord? Anchor.ofText?)),
    ← j.member? "font_size" (asOpt? asNumber?), ← j.member? "color" (asOpt? asText?),
    ← j.member? "max" (asOpt? asNumber?)⟩

def hudOf? (j : Json) : Option (List HudElement) :=
  j.member? "elements" (asList? HudElement.ofJson?)

def Rules.ofJson? (j : Json) : Option Rules := do
  pure ⟨← j.member? "win" (asOpt? WinCondition.ofJson?),
    ← j.member? "lose" (asOpt? LoseCondition.ofJson?), ← j.member? "next_level" (asOpt? asText?)⟩

end Draft

def Draft.ofJson? (j : Json) : Option Draft := do
  pure ⟨← j.member? "title" (asOpt? asText?), ← j.member? "config" (asOpt? Draft.Config.ofJson?),
    ← j.member? "assets" (asList? Asset.ofJson?),
    ← j.member? "player" (asOpt? Draft.Player.ofJson?),
    ← j.member? "enemies" (asList? Draft.Enemy.ofJson?),
    ← j.member? "collectibles" (asList? Draft.Collectible.ofJson?),
    ← j.member? "levels" (asList? Level.ofJson?), ← j.member? "hud" (asOpt? Draft.hudOf?),
    ← j.member? "rules" (asOpt? Draft.Rules.ofJson?), ← j.member? "sounds" (asOpt? Sounds.ofJson?)⟩

/-! ## Taking back what was given -/

namespace Json

theorem lookup_map_sorted (ms : List (String × Json)) (key : String) :
    (ms.map fun m => (m.1, m.2.sorted)).lookup key = (ms.lookup key).map sorted := by
  induction ms with
  | nil => rfl
  | cons m ms ih =>
    rw [List.map_cons, List.lookup_cons, List.lookup_cons, ih]
    cases key == m.1 <;> rfl

/-- Members are found by their keys, wherever these differ. -/
theorem member?_sorted {ms : List (String × Json)} (h : (ms.map Prod.fst).Nodup) (key : String)
    (f : Json → Option α) :
    (object ms).sorted.member? key f = (ms.lookup key).bind fun x => f x.sorted := by
  have hkeys : ((sortedMembers ms).map Prod.fst).Nodup := by
    rw [sortedMembers_eq_map, List.map_map]
    exact h
  rw [sorted, member?, lookup_sortMembers hkeys, sortedMembers_eq_map, lookup_map_sorted,
    Option.bind_map]
  rfl

@[simp] theorem asText?_sorted (s : String) : (text s).sorted.asText? = some s := rfl

@[simp] theorem asNumber?_sorted (n : Number) : (number n).sorted.asNumber? = some n := rfl

@[simp] theorem asBool?_sorted (b : Bool) : (bool b).sorted.asBool? = some b := rfl

@[simp] theorem asWord?_sorted (ofText? : String → Option α) (s : String) :
    (text s).sorted.asWord? ofText? = ofText? s := rfl

/-- A field that may be unset. Null alone stands for one that is. -/
theorem asOpt?_opt {f : Json → Option α} {g : β → Json} {o : Option β} {h : β → α}
    (hnull : f .null = none) (hg : ∀ a ∈ o, f (g a).sorted = some (h a)) :
    (opt g o).sorted.asOpt? f = some (o.map h) := by
  cases o with
  | none => rfl
  | some a =>
    have ha := hg a rfl
    rw [opt]
    unfold asOpt?
    split
    · next heq =>
      rw [heq, hnull] at ha
      cases ha
    · rw [ha]
      rfl

theorem asOpt?_opt_self {f : Json → Option α} {g : α → Json} (hnull : f .null = none)
    (hg : ∀ a, f (g a).sorted = some a) (o : Option α) : (opt g o).sorted.asOpt? f = some o := by
  rw [asOpt?_opt (h := id) hnull fun a _ => hg a, Option.map_id]
  rfl

theorem mapM_map {f : γ → Option α} {g : β → γ} {h : β → α} {xs : List β}
    (hg : ∀ x ∈ xs, f (g x) = some (h x)) : (xs.map g).mapM f = some (xs.map h) := by
  induction xs with
  | nil => rfl
  | cons x xs ih =>
    rw [List.forall_mem_cons] at hg
    rw [List.map_cons, List.mapM_cons, hg.1, ih hg.2]
    rfl

theorem asList?_map {f : Json → Option α} {g : β → Json} {h : β → α} {xs : List β}
    (hg : ∀ x ∈ xs, f (g x).sorted = some (h x)) :
    (list (xs.map g)).sorted.asList? f = some (xs.map h) := by
  rw [sorted, sortedAll_eq_map, List.map_map, asList?]
  exact mapM_map hg

theorem asList?_map_self {f : Json → Option α} {g : α → Json} (hg : ∀ a, f (g a).sorted = some a)
    (xs : List α) : (list (xs.map g)).sorted.asList? f = some xs := by
  rw [asList?_map (h := id) fun a _ => hg a, List.map_id]

@[simp] theorem asOpt?_text (o : Option String) : (opt text o).sorted.asOpt? asText? = some o :=
  asOpt?_opt_self rfl asText?_sorted o

@[simp] theorem asOpt?_number (o : Option Number) :
    (opt number o).sorted.asOpt? asNumber? = some o := asOpt?_opt_self rfl asNumber?_sorted o

@[simp] theorem asOpt?_bool (o : Option Bool) : (opt bool o).sorted.asOpt? asBool? = some o :=
  asOpt?_opt_self rfl asBool?_sorted o

end Json

theorem Point.ofJson?_toJson (p : Point) : ofJson? p.toJson.sorted = some p := by
  simp [ofJson?, toJson, member?_sorted, List.lookup_cons]

theorem FrameSize.ofJson?_toJson (s : FrameSize) : ofJson? s.toJson.sorted = some s := by
  simp [ofJson?, toJson, member?_sorted, List.lookup_cons]

theorem Asset.ofJson?_toJson (a : Asset) : ofJson? a.toJson.sorted = some a := by
  have hkind : AssetKind.ofText? a.kind.text = some a.kind := by cases a.kind <;> rfl
  have hframes := asOpt?_opt_self rfl FrameSize.ofJson?_toJson a.frames
  simp [ofJson?, toJson, member?_sorted, List.lookup_cons, hkind, hframes]

theorem Placement.ofJson?_toJson (p : Placement) : ofJson? p.toJson.sorted = some p := by
  simp [ofJson?, toJson, member?_sorted, List.lookup_cons]

theorem Platform.ofJson?_toJson (p : Platform) : ofJson? p.toJson.sorted = some p := by
  simp [ofJson?, toJson, member?_sorted, List.lookup_cons]

/-- The level with its layers in the order of their names. -/
def Level.ordered (l : Level) : Level := { l with layers := l.layers.map sortMembers }

theorem Json.insertMember_map (f : α → β) (m : String × α) (ms : List (String × α)) :
    insertMember (m.1, f m.2) (ms.map fun m => (m.1, f m.2)) =
      (insertMember m ms).map fun m => (m.1, f m.2) := by
  induction ms with
  | nil => rfl
  | cons n ms ih =>
    rw [List.map_cons, insertMember, insertMember, ih]
    split <;> rfl

theorem Json.sortMembers_map (f : α → β) (ms : List (String × α)) :
    sortMembers (ms.map fun m => (m.1, f m.2)) = (sortMembers ms).map fun m => (m.1, f m.2) := by
  induction ms with
  | nil => rfl
  | cons m ms ih =>
    rw [List.map_cons]
    exact (congrArg _ ih).trans (insertMember_map f m _)

theorem Json.asPairs?_sorted (ls : List (String × String)) :
    (object (ls.map fun l => (l.1, text l.2))).sorted.asPairs? = some (sortMembers ls) := by
  rw [sorted, sortedMembers_eq_map, List.map_map]
  refine (congrArg (fun ms => (object ms).asPairs?) (sortMembers_map text ls)).trans ?_
  refine (mapM_map (f := fun m : String × Json => m.2.asText?.map (m.1, ·)) (h := id)
    fun l _ => rfl).trans ?_
  rw [List.map_id]

theorem Level.ofJson?_toJson (l : Level) : ofJson? l.toJson.sorted = some l.ordered := by
  have hpoint (o : Option Point) := asOpt?_opt_self rfl Point.ofJson?_toJson o
  have hplaces (ps : List Placement) := asList?_map_self Placement.ofJson?_toJson ps
  have hplatforms := asList?_map_self Platform.ofJson?_toJson l.platforms
  have hlayers := asOpt?_opt (o := l.layers) rfl fun ls _ => asPairs?_sorted ls
  simp [ofJson?, toJson, member?_sorted, List.lookup_cons, hpoint, hplaces, hplatforms, hlayers,
    ordered]

theorem WinCondition.ofJson?_toJson (w : WinCondition) : ofJson? w.toJson.sorted = some w := by
  cases w <;> simp [ofJson?, toJson, member?_sorted, List.lookup_cons, kind]

theorem LoseCondition.ofJson?_toJson (l : LoseCondition) : ofJson? l.toJson.sorted = some l := by
  cases l <;> rfl

theorem Sounds.ofJson?_toJson (s : Sounds) : ofJson? s.toJson.sorted = some s := by
  simp [ofJson?, toJson, events, SoundEvent.all, SoundEvent.text, get, member?_sorted,
    List.lookup_cons]

namespace Draft

theorem Config.ofJson?_toJson (c : Config) : ofJson? c.toJson.sorted = some c := by
  simp [ofJson?, toJson, member?_sorted, List.lookup_cons]

theorem Clip.ofJson?_toJson (c : Clip) : ofJson? c.toJson.sorted = some c := by
  have hframes := asList?_map_self asNumber?_sorted c.frames
  simp [ofJson?, toJson, member?_sorted, List.lookup_cons, hframes]

@[simp] theorem clipsOf?_clipsJson (cs : Option (List Clip)) :
    clipsOf? (clipsJson cs).sorted = some cs :=
  asOpt?_opt_self rfl (asList?_map_self Clip.ofJson?_toJson) cs

theorem Movement.ofJson?_toJson (m : Movement) : ofJson? m.toJson.sorted = some m := by
  cases m <;> simp [ofJson?, toJson, member?_sorted, List.lookup_cons, kind]

theorem Player.ofJson?_toJson (p : Player) : ofJson? p.toJson.sorted = some p := by
  have hcontrols := asOpt?_opt_self (f := asWord? ControlScheme.ofText?) rfl
    (g := fun c => .text c.text) (fun c => by cases c <;> rfl) p.controls
  simp [ofJson?, toJson, member?_sorted, List.lookup_cons, hcontrols]

theorem Enemy.ofJson?_toJson (e : Enemy) : ofJson? e.toJson.sorted = some e := by
  have hmovement := asOpt?_opt_self rfl Movement.ofJson?_toJson e.movement
  simp [ofJson?, toJson, member?_sorted, List.lookup_cons, hmovement]

theorem Collectible.ofJson?_toJson (c : Collectible) : ofJson? c.toJson.sorted = some c := by
  have heffect := asOpt?_opt_self (f := asWord? Effect.ofText?) rfl (g := fun e => .text e.text)
    (fun e => by cases e <;> rfl) c.effect
  simp [ofJson?, toJson, member?_sorted, List.lookup_cons, heffect]

theorem HudElement.ofJson?_toJson (e : HudElement) : ofJson? e.toJson.sorted = some e := by
  have hkind : HudKind.ofText? e.kind.text = some e.kind := by cases e.kind <;> rfl
  have hposition := asOpt?_opt_self (f := asWord? Anchor.ofText?) rfl (g := fun a => .text a.text)
    (fun a => by obtain ⟨_ | _, _ | _ | _⟩ := a <;> rfl) e.position
  simp [ofJson?, toJson, member?_sorted, List.lookup_cons, hkind, hposition]

theorem hudOf?_hudJson (es : List HudElement) : hudOf? (hudJson es).sorted = some es := by
  have helements := asList?_map_self HudElement.ofJson?_toJson es
  simp [hudOf?, hudJson, member?_sorted, helements]

theorem Rules.ofJson?_toJson (r : Rules) : ofJson? r.toJson.sorted = some r := by
  have hwin := asOpt?_opt_self rfl WinCondition.ofJson?_toJson r.win
  have hlose := asOpt?_opt_self rfl LoseCondition.ofJson?_toJson r.lose
  simp [ofJson?, toJson, member?_sorted, List.lookup_cons, hwin, hlose]

end Draft

def Draft.ordered (d : Draft) : Draft := { d with levels := d.levels.map Level.ordered }

/-- A draft comes back from its value, with the layers of its levels in order. -/
theorem Draft.ofJson?_toJson (d : Draft) : ofJson? d.toJson.sorted = some d.ordered := by
  have hconfig := asOpt?_opt_self rfl Config.ofJson?_toJson d.config
  have hassets := asList?_map_self Asset.ofJson?_toJson d.assets
  have hplayer := asOpt?_opt_self rfl Player.ofJson?_toJson d.player
  have henemies := asList?_map_self Enemy.ofJson?_toJson d.enemies
  have hcollectibles := asList?_map_self Collectible.ofJson?_toJson d.collectibles
  have hlevels := asList?_map fun l (_ : l ∈ d.levels) => l.ofJson?_toJson
  have hhud := asOpt?_opt_self rfl hudOf?_hudJson d.hud
  have hrules := asOpt?_opt_self rfl Rules.ofJson?_toJson d.rules
  have hsounds := asOpt?_opt_self rfl Sounds.ofJson?_toJson d.sounds
  simp [ofJson?, toJson, member?_sorted, List.lookup_cons, hconfig, hassets, hplayer, henemies,
    hcollectibles, hlevels, hhud, hrules, hsounds, ordered]

end PlatformGame
