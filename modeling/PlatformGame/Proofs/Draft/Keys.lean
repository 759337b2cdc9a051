import PlatformGame.Proofs.Draft.Body
import PlatformGame.Proofs.Draft.Meaning
import Mathlib.Data.List.Induction

/-! # Properties by key

The key of a property can be seen in its tree (`Parse.Tree.key?`): it is fixed by the label, and for
a sound it is the event. What is built of a property has the same key (`keys_of_derives`).

What the parts of a body come to under a key is told by the parts with this key alone, in order
(`valueOf_eq_settled`): the value of the last one, or for keys of lists all that they add. -/

namespace PlatformGame.Grammar

namespace Label

/-- The keys of properties with a single value. -/
def single? : Label → Option String
  | width => some "width"
  | height => some "height"
  | gravity => some "gravity"
  | background => some "background"
  | sprite => some "sprite"
  | speed => some "speed"
  | jumpForce => some "jump_force"
  | lives => some "lives"
  | controls => some "controls"
  | movementProp => some "movement"
  | damage => some "damage"
  | stompable => some "stompable"
  | distance => some "distance"
  | chaseRange => some "range"
  | amplitude => some "amplitude"
  | frequency => some "frequency"
  | score => some "score"
  | effect => some "effect"
  | levelTilemap => some "tilemap"
  | spawn => some "spawn"
  | exitPoint => some "exit"
  | position => some "position"
  | fontSize => some "font_size"
  | colorProp => some "color"
  | maxValue => some "max"
  | win => some "win"
  | lose => some "lose"
  | nextLevel => some "next_level"
  | fps => some "fps"
  | loop => some "loop"
  | _ => none

/-- The keys of properties with a list. Coins are collectibles. -/
def listing? : Label → Option String
  | enemyPlacements => some "enemies"
  | collectiblePlacements => some "collectibles"
  | platforms => some "platforms"
  | frames => some "frames"
  | _ => none

/-- The keys of properties that are fixed by the label. All animations have one key. -/
def key? : Label → Option String
  | layers => some "layers"
  | animation => some "animations"
  | l => l.single?.or l.listing?

end Label

end PlatformGame.Grammar

namespace PlatformGame

open Grammar

/-- The key of a property; a sound is named by its event. -/
def Parse.Tree.key? : Parse.Tree → Option String
  | .node .soundProp _ (.node .soundEvent _ (.leaf _ event _ :: _) :: _) => some event
  | .node l _ _ => l.key?
  | .leaf _ _ _ => none

theorem Parse.Tree.key?_node {l : Label} (hl : l ≠ .soundProp) (span : Option Source.Span)
    (children : List Parse.Tree) : (Parse.Tree.node l span children).key? = l.key? := by
  rw [Parse.Tree.key?]
  exact fun _ _ _ _ _ _ h => absurd h hl

namespace Sketch

/-- The key of a part of a body; clips stand for animations. -/
def key? : Sketch → Option String
  | .property (.text k) _ _ => some k
  | .record .clip _ => some "animations"
  | _ => none

/-- The value of a property that is not a list. -/
def single? : Sketch → Option Sketch
  | .property _ value false => some value
  | _ => none

/-- What a part adds to the list under its key. -/
def additions : Sketch → List Sketch
  | .record .clip values => [.record .clip values]
  | .property _ value true => value.items?.getD []
  | _ => []

end Sketch

namespace Draft

open Parse Source

/-! ## What stands under a key -/

/-- The keys under which lists are kept. -/
def listKeys : List String := ["animations", "frames", "enemies", "collectibles", "platforms"]

/-- The parts with a key, in order. -/
def under (key : String) (parts : List Sketch) : List Sketch :=
  parts.filter fun x => x.key? == some key

/-- What the parts under a key come to: all that they add, or the last single value. -/
def settled (key : String) (parts : List Sketch) : Option Sketch :=
  if key ∈ listKeys then
    if under key parts = [] then none
    else some (.tuple ((under key parts).flatMap Sketch.additions))
  else ((under key parts).filterMap Sketch.single?).getLast?

theorem under_append (key : String) (xs ys : List Sketch) :
    under key (xs ++ ys) = under key xs ++ under key ys := List.filter_append ..

/-- Parts with different keys may be swapped. -/
theorem under_swap {x y : Sketch} {k k' : String} (hx : x.key? = some k) (hy : y.key? = some k')
    (hne : k ≠ k') (key : String) (before after : List Sketch) :
    under key (before ++ y :: x :: after) = under key (before ++ x :: y :: after) := by
  have hpair : under key (y :: x :: after) = under key (x :: y :: after) := by
    by_cases hk : k = key
    · subst hk
      simp [under, hx, hy, Ne.symm hne]
    · simp [under, List.filter_cons, hx, hk]
  rw [under_append, under_append, hpair]

theorem settled_swap {x y : Sketch} {k k' : String} (hx : x.key? = some k) (hy : y.key? = some k')
    (hne : k ≠ k') (key : String) (before after : List Sketch) :
    settled key (before ++ y :: x :: after) = settled key (before ++ x :: y :: after) := by
  simp only [settled, under_swap hx hy hne]

section

variable {key : String} {x : Sketch} {parts : List Sketch}

theorem settled_append_of_ne (hx : x.key? ≠ some key) :
    settled key (parts ++ [x]) = settled key parts := by
  have hunder : under key (parts ++ [x]) = under key parts := by simp [under, hx]
  simp only [settled, hunder]

theorem settled_append_of_mem (hx : x.key? = some key) (hkey : key ∈ listKeys) :
    settled key (parts ++ [x]) = some (.tuple (itemsOf (settled key parts) ++ x.additions)) := by
  have hunder : under key (parts ++ [x]) = under key parts ++ [x] := by simp [under, hx]
  have hitems : itemsOf (settled key parts) = (under key parts).flatMap Sketch.additions := by
    by_cases hnil : under key parts = []
    · simp [settled, hkey, hnil, itemsOf]
    · simp [settled, hkey, hnil, itemsOf]
  rw [hitems]
  simp [settled, hkey, hunder]

theorem settled_append_single (hx : x.key? = some key) (hkey : key ∉ listKeys) {v : Sketch}
    (hv : x.single? = some v) : settled key (parts ++ [x]) = some v := by
  have hunder : under key (parts ++ [x]) = under key parts ++ [x] := by simp [under, hx]
  simp [settled, hkey, hunder, hv]

end

/-- Parts that fit come to what is settled under their keys. -/
theorem valueOf_eq_settled {singles lists : List String} (hsingles : ∀ k ∈ singles, k ∉ listKeys)
    (hlists : ∀ k ∈ lists, k ∈ listKeys) (key : String) {parts : List Sketch}
    (h : ∀ x ∈ parts, Fits singles lists x) : valueOf key parts = settled key parts := by
  induction parts using List.reverseRecOn with
  | nil => simp [valueOf, settled, under]
  | append_singleton parts x ih =>
    rw [List.forall_mem_append, List.forall_mem_singleton] at h
    have hstep : valueOf key (parts ++ [x]) = valueStep key (valueOf key parts) x := by
      rw [valueOf, List.foldl_append]
      rfl
    rw [hstep, ih h.1]
    cases h.2 with
    | clip hk =>
      by_cases heq : key = "animations"
      · subst heq
        rw [settled_append_of_mem rfl (hlists _ hk)]
        rfl
      · rw [settled_append_of_ne (by simpa [Sketch.key?] using Ne.symm heq)]
        simp [valueStep, heq]
    | @single k v hk =>
      by_cases heq : key = k
      · subst heq
        rw [settled_append_single rfl (hsingles _ hk) rfl]
        simp [valueStep]
      · rw [settled_append_of_ne (by simpa [Sketch.key?] using Ne.symm heq)]
        simp [valueStep, heq]
    | @more k items hk =>
      by_cases heq : key = k
      · subst heq
        rw [settled_append_of_mem rfl (hlists _ hk)]
        simp [valueStep, Sketch.additions]
      · rw [settled_append_of_ne (by simpa [Sketch.key?] using Ne.symm heq)]
        simp [valueStep, heq]

/-! ## Keys of trees and of what is built of them -/

namespace Node

variable {n : Node} {k : String} {x : Sketch}

theorem assemble_of_single (h : n.label.single? = some k) : n.assemble = n.value k := by
  obtain ⟨label, place, parts, missing⟩ := n
  cases label <;> cases h <;> rfl

theorem assemble_of_listing (h : n.label.listing? = some k) : n.assemble = n.listing k := by
  obtain ⟨label, place, parts, missing⟩ := n
  cases label <;> cases h <;> rfl

theorem key?_of_value (h : (n.value k).outcome = .ok x) : x.key? = some k := by
  obtain ⟨v, -, h⟩ := Build.exists_of_outcome_bind h
  cases h
  rfl

theorem key?_of_listing (h : (n.listing k).outcome = .ok x) : x.key? = some k := by
  unfold listing at h
  split at h
  · cases h
    rfl
  · split at h
    · cases h
      rfl
    · cases h

theorem exists_record_of_construct {kind : RecordKind} {given : List (String × Sketch)} {bag : Bag}
    (h : (n.construct kind given bag).outcome = .ok x) : ∃ values, x = .record kind values := by
  unfold construct at h
  split at h
  · cases h
  · split at h
    · cases h
    · split at h
      · cases h
      · cases h
        exact ⟨_, rfl⟩

theorem exists_record_of_describedAs {kind : RecordKind} {field : String}
    (h : (n.describedAs kind field).outcome = .ok x) : ∃ values, x = .record kind values := by
  obtain ⟨_, -, h⟩ := Build.exists_of_outcome_bind h
  obtain ⟨_, -, h⟩ := Build.exists_of_outcome_bind h
  exact exists_record_of_construct h

/-- A property that is built has the key of its label. -/
theorem key?_of_assemble (hk : n.label.key? = some k) (h : n.assemble.outcome = .ok x) :
    x.key? = some k := by
  by_cases hlayers : n.label = .layers
  · simp only [hlayers, Label.key?, Option.some.injEq] at hk
    simp only [assemble, hlayers] at h
    obtain ⟨bag, -, h⟩ := Build.exists_of_outcome_bind h
    cases h
    rw [← hk]
    rfl
  by_cases hanimation : n.label = .animation
  · simp only [hanimation, Label.key?, Option.some.injEq] at hk
    simp only [assemble, hanimation] at h
    obtain ⟨values, rfl⟩ := exists_record_of_describedAs h
    rw [← hk]
    rfl
  have hor : n.label.single?.or n.label.listing? = some k := by
    rw [← hk, Label.key?]
    · exact hlayers
    · exact hanimation
  rcases Option.or_eq_some_iff.1 hor with hs | ⟨-, hl⟩
  · exact key?_of_value (assemble_of_single hs ▸ h)
  · exact key?_of_listing (assemble_of_listing hl ▸ h)

theorem exists_property_of_keyed {event : Sketch} {rest : List Sketch}
    (hparts : n.parts = event :: rest) (h : n.keyed.outcome = .ok x) :
    ∃ value, x = .property event value false := by
  unfold keyed exactly at h
  dsimp only at h
  split at h
  · cases h
  · split at h
    · cases h
    · rw [hparts] at h
      rcases rest with _ | ⟨value, _ | ⟨y, ys⟩⟩
      · simp_all
      · cases h
        exact ⟨value, rfl⟩
      · simp_all

end Node

end Draft

namespace Grammar.Phrase

open Parse

/-- One of several tokens that stay in the tree. -/
def isChoice : Phrase → Bool
  | token _ keep => keep
  | alt p q => p.isChoice && q.isChoice
  | _ => false

theorem exists_ofToken_of_isChoice {p : Phrase} {toks : List Source.Token} {trees : List Tree}
    (h : Derives p toks trees) (hp : p.isChoice = true) : ∃ tok, trees = [Tree.ofToken tok] := by
  induction h with
  | token tok keep => exact ⟨tok, if_pos hp⟩
  | left _ ih => exact ih (Bool.and_eq_true_iff.1 hp).1
  | right _ ih => exact ih (Bool.and_eq_true_iff.1 hp).2
  | _ => cases hp

/-- The nodes are properties or names. -/
def keyed : Phrase → Bool
  | nothing => true
  | token _ keep => !keep
  | seq p q | alt p q => p.keyed && q.keyed
  | many p => p.keyed
  | node l p => l.key?.isSome || [.ident, .string, .hudType].contains l ||
    (l == .soundProp && p == chain [soundEvent, word .colon, ident])
  | afterItem _ | afterComma _ => false

end Grammar.Phrase

namespace Draft

open Parse Source

theorem key?_of_soundProp {toks : List Token} {children : List Tree}
    (hd : Derives (.chain [soundEvent, .word .colon, ident]) toks children) {span : Option Span}
    {x : Sketch} (h : (meaning (.node .soundProp span children)).outcome = .ok x) :
    x.key? = (Parse.Tree.node .soundProp span children).key? := by
  obtain ⟨_, _, _, rest, -, rfl, hevent, -⟩ := derives_seq_iff.1 hd
  obtain ⟨_, _, ys, -, hword, rfl⟩ := derives_node_iff.1 hevent
  obtain ⟨tok, rfl⟩ := Phrase.exists_ofToken_of_isChoice hword rfl
  rw [meaning] at h
  obtain ⟨parts, hparts, h⟩ := Build.exists_of_outcome_bind h
  rw [List.singleton_append, meanings, meaning, meanings_singleton, meaning_ofToken] at hparts
  obtain ⟨event, hevent, hparts⟩ := Build.exists_of_outcome_bind hparts
  cases hevent
  obtain ⟨others, -, hparts⟩ := Build.exists_of_outcome_bind hparts
  cases hparts
  obtain ⟨value, rfl⟩ := Node.exists_property_of_keyed rfl h
  rfl

theorem key?_of_name {n : Node} (hl : n.label ∈ [.ident, .string, .hudType]) {x : Sketch}
    (h : n.assemble.outcome = .ok x) : x.key? = none := by
  simp only [List.mem_cons, List.not_mem_nil, or_false] at hl
  rcases hl with hl | hl | hl <;> simp only [Node.assemble, hl] at h
  · obtain ⟨_, -, h⟩ := Build.exists_of_outcome_bind h
    cases h
    rfl
  · obtain ⟨_, -, h⟩ := Build.exists_of_outcome_bind h
    cases h
    rfl
  · obtain ⟨_, -, h⟩ := Build.exists_of_outcome_bind h
    split at h <;> cases h
    rfl

/-- What is built of properties has their keys. -/
theorem keys_of_derives {p : Phrase} {toks : List Token} {trees : List Tree}
    (h : Derives p toks trees) (hp : p.keyed = true) {xs : List Sketch}
    (hxs : (meanings trees).outcome = .ok xs) : xs.map Sketch.key? = trees.map Tree.key? := by
  induction h generalizing xs with
  | nothing | manyEnd =>
    cases hxs
    rfl
  | token tok keep =>
    cases keep with
    | true => cases hp
    | false =>
      cases hxs
      rfl
  | seq _ _ ihp ihq =>
    rw [Phrase.keyed, Bool.and_eq_true] at hp
    rw [meanings_append] at hxs
    obtain ⟨ys, hys, hxs⟩ := Build.exists_of_outcome_bind hxs
    obtain ⟨zs, hzs, hxs⟩ := Build.exists_of_outcome_bind hxs
    cases hxs
    rw [List.map_append, List.map_append, ihp hp.1 hys, ihq hp.2 hzs]
  | left _ ih => exact ih (Bool.and_eq_true_iff.1 hp).1 hxs
  | right _ ih => exact ih (Bool.and_eq_true_iff.1 hp).2 hxs
  | more _ _ ihp ihq =>
    rw [meanings_append] at hxs
    obtain ⟨ys, hys, hxs⟩ := Build.exists_of_outcome_bind hxs
    obtain ⟨zs, hzs, hxs⟩ := Build.exists_of_outcome_bind hxs
    cases hxs
    rw [List.map_append, List.map_append, ihp hp hys, ihq hp hzs]
  | comma | itemEnd | item | commaEnd => cases hp
  | @node p ts ys l tok hd _ =>
    rw [meanings_singleton] at hxs
    obtain ⟨x, hx, hxs⟩ := Build.exists_of_outcome_bind hxs
    cases hxs
    rw [List.map_singleton, List.map_singleton]
    simp only [Phrase.keyed, Bool.or_eq_true, Bool.and_eq_true, beq_iff_eq,
      List.contains_iff_mem] at hp
    -- the key comes from the label, except for sounds, where it is the event that is named
    rcases hp with (hkey | hname) | ⟨rfl, rfl⟩
    · obtain ⟨k, hk⟩ := Option.isSome_iff_exists.1 hkey
      have hl : l ≠ .soundProp := by
        rintro rfl
        cases hk
      rw [meaning] at hx
      obtain ⟨parts, -, hx⟩ := Build.exists_of_outcome_bind hx
      rw [Node.key?_of_assemble hk hx, Tree.key?_node hl, hk]
    · have hl : l ≠ .soundProp ∧ l.key? = none := by
        simp only [List.mem_cons, List.not_mem_nil, or_false] at hname
        rcases hname with rfl | rfl | rfl <;> decide
      rw [meaning] at hx
      obtain ⟨parts, -, hx⟩ := Build.exists_of_outcome_bind hx
      rw [key?_of_name hname hx, Tree.key?_node hl.1, hl.2]
    · rw [key?_of_soundProp hd hx]

end Draft

end PlatformGame
