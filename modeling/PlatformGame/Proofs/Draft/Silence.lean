import PlatformGame.Draft.Assemble
import PlatformGame.Proofs.Draft.Build

/-! # Building without warnings

Only movement patterns and whole games are warned about: what any other node is put together of, it
is put together silently, whether that succeeds or not. A block that is built so has the place of
the node, or is a part of it (`Node.silently_assemble`). -/

namespace PlatformGame.Draft

open Grammar

namespace Build

/-- Nothing is warned about, and where building succeeds, its result is in `V`. -/
structure Silently (x : Build α) (V : α → Prop) : Prop where
  silent : x.warnings = []
  yields : ∀ a, x.outcome = .ok a → V a

namespace Silently

theorem pure {V : α → Prop} {a : α} (h : V a) : Silently (pure a) V :=
  ⟨rfl, fun _ ha => Except.ok.inj ha ▸ h⟩

theorem fail {V : α → Prop} (e : BuildError) : Silently (Build.fail e) V :=
  ⟨rfl, fun _ ha => by cases ha⟩

theorem bind {x : Build α} {f : α → Build β} {U : α → Prop} {V : β → Prop} (hx : x.Silently U)
    (hf : ∀ a, (f a).Silently V) : (x >>= f).Silently V := by
  constructor
  · change (x.andThen f).warnings = []
    unfold andThen
    split
    · next a ha => exact List.append_eq_nil_iff.2 ⟨hx.silent, (hf a).silent⟩
    · exact hx.silent
  · intro b hb
    obtain ⟨a, -, hb⟩ := exists_of_outcome_bind hb
    exact (hf a).yields b hb

end Silently

end Build

namespace Node

open Build (Silently)

variable {n : Node}

/-- A block that a warning can be about has the place of the node, or it is a part of it. -/
def Rooted (n : Node) (x : Sketch) : Prop :=
  ∀ kind value place, x = .block kind value place → isSingle kind = true →
    place = n.place ∨ x ∈ n.parts

theorem rooted_of_ne_block {x : Sketch} (h : ∀ kind value place, x ≠ .block kind value place) :
    n.Rooted x := fun kind value place hx => absurd hx (h kind value place)

theorem rooted_named (kind : BlockKind) (value : Sketch) (h : isSingle kind = false) :
    n.Rooted (.block kind value none) := by
  intro kind' value' place hx hs
  cases hx
  rw [h] at hs
  cases hs

theorem rooted_placed (kind : BlockKind) (value : Sketch) :
    n.Rooted (.block kind value n.place) := by
  intro kind' value' place hx _
  cases hx
  exact .inl rfl

theorem silently_first : n.first.Silently n.Rooted := by
  unfold first
  split
  · next hparts => exact .pure fun _ _ _ _ _ => .inr (by rw [hparts]; exact List.mem_cons_self)
  · exact .fail _

theorem silently_firstText : n.firstText.Silently fun _ => True :=
  silently_first.bind fun _ => .pure trivial

theorem silently_exactly {count : Nat} {make : List Sketch → Sketch}
    (h : ∀ xs kind value place, make xs ≠ .block kind value place) :
    (n.exactly count make).Silently n.Rooted := by
  unfold exactly
  dsimp only
  split
  · exact .fail _
  · split
    · exact .fail _
    · exact .pure (rooted_of_ne_block (h _))

theorem silently_named : n.named.Silently fun _ => True := by
  unfold named
  split
  · exact .pure trivial
  · exact .fail _

theorem silently_value (key : String) : (n.value key).Silently n.Rooted :=
  silently_first.bind fun _ => .pure (rooted_of_ne_block (by simp))

theorem silently_listing (key : String) : (n.listing key).Silently n.Rooted := by
  unfold listing
  split
  · exact .pure (rooted_of_ne_block (by simp))
  · split
    · exact .pure (rooted_of_ne_block (by simp))
    · exact .fail _

theorem silently_put (bag : Bag) (key value : Sketch) :
    (n.put bag key value).Silently fun _ => True := by
  unfold put
  split
  · exact .fail _
  · exact .pure trivial

theorem silently_append (bag : Bag) (key : Sketch) (items : List Sketch) :
    (n.append bag key items).Silently fun _ => True := by
  unfold append
  split
  · exact silently_put _ _ _
  · exact silently_put _ _ _
  · exact .fail _

theorem silently_addPart (bag : Bag) (x : Sketch) :
    (n.addPart bag x).Silently fun _ => True := by
  unfold addPart
  split
  · exact silently_append _ _ _
  · split
    · exact silently_append _ _ _
    · exact silently_put _ _ _
  · exact .fail _

theorem silently_addParts (bag : Bag) (xs : List Sketch) :
    (n.addParts bag xs).Silently fun _ => True := by
  induction xs generalizing bag with
  | nil => exact .pure trivial
  | cons x xs ih => exact (silently_addPart bag x).bind fun bag => ih bag

theorem silently_construct (kind : RecordKind) (given : List (String × Sketch)) (bag : Bag) :
    (n.construct kind given bag).Silently n.Rooted := by
  unfold construct
  split
  · exact .fail _
  · split
    · exact .fail _
    · split
      · exact .fail _
      · exact .pure (rooted_of_ne_block (by simp))

theorem silently_describedAs (kind : RecordKind) (field : String) :
    (n.describedAs kind field).Silently n.Rooted :=
  silently_named.bind fun _ => (silently_addParts _ _).bind fun _ => silently_construct _ _ _

theorem silently_block (kind : BlockKind) (thing : RecordKind) :
    (n.block kind thing).Silently n.Rooted :=
  Silently.bind ((silently_addParts [] n.parts).bind fun _ => silently_construct _ _ _)
    fun _ => .pure (rooted_placed _ _)

theorem silently_namedBlock (kind : BlockKind) (thing : RecordKind) (h : isSingle kind = false) :
    (n.namedBlock kind thing).Silently n.Rooted :=
  (silently_describedAs thing "name").bind fun _ => .pure (rooted_named _ _ h)

theorem silently_chosen (kind : ChoiceKind) : (n.chosen kind).Silently n.Rooted := by
  refine silently_firstText.bind fun s => ?_
  split
  · exact .pure (rooted_of_ne_block (by simp))
  · exact .fail _

theorem silently_number : n.number.Silently n.Rooted := by
  refine silently_firstText.bind fun s => ?_
  split
  · exact .pure (rooted_of_ne_block (by simp))
  · exact .fail _

theorem silently_addLayers (index : Nat) (bag : Bag) (xs : List Sketch) :
    (n.addLayers index bag xs).Silently fun _ => True := by
  induction xs generalizing index bag with
  | nil => exact .pure trivial
  | cons x xs ih =>
    unfold addLayers
    split
    · exact (silently_put _ _ _).bind fun bag => ih _ bag
    · exact .fail _
    · exact .fail _

theorem silently_keyed : n.keyed.Silently n.Rooted := by
  refine silently_exactly fun xs kind value place => ?_
  split <;> simp

theorem silently_asset (kind : AssetKind) : (n.asset kind).Silently n.Rooted := by
  unfold asset
  dsimp only
  split
  · exact silently_exactly (by simp)
  · exact silently_exactly (by simp)

theorem silently_own (name : String) (o : OwnName) :
    (n.own name (.list n.parts) o).Silently n.Rooted := by
  cases o
  case parts | nothing => exact .pure (rooted_of_ne_block (by simp))
  all_goals exact .fail _

/-- The labels of the nodes that may be warned about. -/
def warned : List Label := [.game, .patrol, .chase, .fly]

theorem silently_assemble (h : n.label ∉ warned) : n.assemble.Silently n.Rooted := by
  have hmade {α : Type} {V : α → Prop} {x : Build α} (hx : x.Silently V) {f : α → Sketch}
      (hf : ∀ a kind value place, f a ≠ .block kind value place) :
      Silently (do pure (f (← x))) n.Rooted :=
    hx.bind fun a => .pure (rooted_of_ne_block (hf a))
  obtain ⟨label, place, parts, missing⟩ := n
  cases label
  case other name =>
    simp only [assemble]
    split
    · exact silently_own _ _
    · exact .fail _
  case game | patrol | chase | fly => simp [warned] at h
  case hudBlock => exact .pure (rooted_placed _ _)
  case assetsBlock => exact .pure (rooted_named _ _ rfl)
  case imageAsset => exact silently_asset .image
  case spritesheetAsset => exact silently_asset .spritesheet
  case tilemapAsset => exact silently_asset .tilemap
  case audioAsset => exact silently_asset .audio
  case soundProp => exact silently_keyed
  case layers => exact hmade (silently_addLayers _ _ _) (by simp)
  all_goals first
    | exact .pure (rooted_of_ne_block (by simp))
    | exact silently_value _
    | exact silently_block _ _
    | exact silently_namedBlock _ _ rfl
    | exact silently_describedAs _ _
    | exact silently_exactly (by simp)
    | exact silently_chosen _
    | exact silently_listing _
    | exact silently_first
    | exact silently_number
    | exact hmade silently_firstText (by simp)
    | exact hmade silently_first (by simp)

end Node

end PlatformGame.Draft
