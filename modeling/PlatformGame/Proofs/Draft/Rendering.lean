import Mathlib.Data.List.Chain
import PlatformGame.Proofs.Draft.Body
import PlatformGame.Proofs.Draft.Encoding
import PlatformGame.Proofs.Draft.Meaning
import PlatformGame.Proofs.Draft.Print

/-! # Words that mean a sketch

`Renders p ws xs` says that the words `ws` are a text of the phrase `p` which means the sketches
`xs` and is not warned about, wherever it stands. Words are `Legible` if they have the forms of
their terminals and every string is followed by a keyword, so that no word is taken for another
one.

There is one rule for each shape that the grammar is made of. `RendersMany` is about items with a
comma after each; `RendersBody` is about such items that are properties of known keys. -/

namespace PlatformGame.Source.Word

open Grammar

structure Legible (ws : List Word) : Prop where
  valid : ∀ w ∈ ws, w.Valid
  calm : ws.IsChain fun v w => v.terminal = .string → ∃ k, w.terminal = .keyword k

/-- Words that anything may stand after. -/
structure Closed (ws : List Word) : Prop extends Legible ws where
  ended : ∀ w ∈ ws.getLast?, w.terminal ≠ .string

namespace Legible

variable {w : Word} {us vs ws : List Word} {k : Keyword}

theorem singleton (hw : w.Valid) : Legible [w] := ⟨by simpa using hw, by simp⟩

theorem cons (hw : w.Valid) (hs : w.terminal ≠ .string) (h : Legible ws) : Legible (w :: ws) where
  valid := List.forall_mem_cons.2 ⟨hw, h.valid⟩
  calm := List.isChain_cons.2 ⟨fun _ _ heq => absurd heq hs, h.calm⟩

theorem keyword_cons (h : Legible ws) : Legible (.ofKeyword k :: ws) :=
  h.cons (valid_ofKeyword k) (by simp [ofKeyword])

theorem append_keyword (h : Legible us) (hv : Legible (.ofKeyword k :: vs)) :
    Legible (us ++ .ofKeyword k :: vs) where
  valid := List.forall_mem_append.2 ⟨h.valid, hv.valid⟩
  calm := List.isChain_append.2 ⟨h.calm, hv.calm, fun _ _ y hy _ => by
    obtain rfl : Word.ofKeyword k = y := by simpa using hy
    exact ⟨k, rfl⟩⟩

theorem closed (h : Legible ws) : Closed (ws ++ [.ofKeyword k]) where
  toLegible := h.append_keyword (singleton (valid_ofKeyword k))
  ended := by simp [ofKeyword]

end Legible

namespace Closed

variable {us vs : List Word}

theorem nil : Closed [] := ⟨⟨by simp, by simp⟩, by simp⟩

theorem legible_append (h : Closed us) (hv : Legible vs) : Legible (us ++ vs) where
  valid := List.forall_mem_append.2 ⟨h.valid, hv.valid⟩
  calm := List.isChain_append.2
    ⟨h.calm, hv.calm, fun v hv' _ _ heq => absurd heq (h.ended v hv')⟩

theorem append (h : Closed us) (hv : Closed vs) : Closed (us ++ vs) where
  toLegible := h.legible_append hv.toLegible
  ended w hw := by
    rw [List.getLast?_append] at hw
    rcases hlast : vs.getLast? with _ | v
    · exact h.ended w (by simpa [hlast] using hw)
    · exact hv.ended w (by simpa [hlast] using hw)

end Closed

end PlatformGame.Source.Word

namespace PlatformGame.Draft

open Grammar Parse Source

/-! ## Single phrases -/

structure Renders (p : Phrase) (ws : List Word) (xs : List Sketch) : Prop where
  legible : Word.Legible ws
  forms : Forms p ws fun trees => meanings trees = pure xs

namespace Renders

variable {p q : Phrase} {us vs ws : List Word} {xs ys : List Sketch} {x : Sketch} {k : Keyword}

theorem seq (hp : Renders p us xs) (hq : Renders q vs ys) (hl : Word.Legible (us ++ vs)) :
    Renders (.seq p q) (us ++ vs) (xs ++ ys) where
  legible := hl
  forms := (hp.forms.seq hq.forms).mono fun _ ⟨ts₁, ts₂, hts, h₁, h₂⟩ => by
    rw [hts, meanings_append, h₁, h₂]
    rfl

theorem nothing : Renders .nothing [] [] where
  legible := Word.Closed.nil.toLegible
  forms := Forms.nothing.mono fun _ h => h ▸ rfl

theorem word (k : Keyword) : Renders (.word k) [.ofKeyword k] [] where
  legible := .singleton (Word.valid_ofKeyword k)
  forms := (Forms.word k).mono fun _ h => h ▸ rfl

/-- A token that stays in the tree. -/
theorem token (t : Terminal) {s : String} (h : t.Matches s.toList) :
    Renders (.token t true) [⟨t, s⟩] [.token (Tree.kindOf t) s] where
  legible := .singleton h
  forms := (Forms.token ⟨t, s⟩ true).mono fun _ ⟨tok, htok, hts⟩ => by
    obtain ⟨rfl, rfl⟩ := Word.mk.inj htok
    rw [hts, if_pos rfl, meanings_singleton, meaning_ofToken]
    rfl

theorem left (h : Renders p ws xs) : Renders (.alt p q) ws xs := ⟨h.legible, h.forms.left⟩

theorem right (h : Renders q ws xs) : Renders (.alt p q) ws xs := ⟨h.legible, h.forms.right⟩

theorem node {l : Label} (h : Renders p ws xs) (hne : ws ≠ [])
    (hx : ∀ place, Node.assemble ⟨l, some place, xs, .noPart⟩ = pure x) :
    Renders (.node l p) ws [x] where
  legible := h.legible
  forms := (h.forms.node l hne).mono fun _ ⟨_, _, hts, hm⟩ => by
    rw [hts, meanings_singleton, meaning, hm, pure_bind, Option.map_some, hx]
    rfl

/-! ### Sequences -/

theorem skip (h : Renders p ws xs) : Renders (.seq (.word k) p) (.ofKeyword k :: ws) xs :=
  ⟨h.legible.keyword_cons, h.forms.skip⟩

theorem last (h : Renders p ws xs) : Renders (.seq p .nothing) ws xs := ⟨h.legible, h.forms.last⟩

theorem closed (h : Renders p ws xs) :
    Renders (.seq p (.seq (.word k) .nothing)) (ws ++ [.ofKeyword k]) xs :=
  ⟨h.legible.closed.toLegible, h.forms.closed⟩

/-- A word that is no string, and what comes after it. -/
theorem cons {w : Word} (hp : Renders p [w] [x]) (hs : w.terminal ≠ .string)
    (hq : Renders q ws xs) : Renders (.seq p q) (w :: ws) (x :: xs) :=
  hp.seq hq (hq.legible.cons (hp.legible.valid w List.mem_cons_self) hs)

/-- A word, and a keyword after it. -/
theorem cons_keyword {w : Word} (hp : Renders p [w] [x])
    (hq : Renders q (.ofKeyword k :: ws) xs) :
    Renders (.seq p q) (w :: .ofKeyword k :: ws) (x :: xs) :=
  hp.seq hq (hp.legible.append_keyword hq.legible)

theorem braces (h : Renders p ws xs) : Renders (braces p) (Word.braces ws) xs := skip h.closed

theorem withComma (h : Renders p ws xs) : Renders (withComma p) (ws ++ [Word.comma]) xs :=
  ⟨h.legible.closed.toLegible, h.forms.withComma⟩

theorem field {l : Label} {value : Phrase} (h : Renders value ws xs)
    (hx : ∀ place, Node.assemble ⟨l, some place, xs, .noPart⟩ = pure x) :
    Renders (field l k value) (Word.field k ws) [x] :=
  (skip (skip h.last)).node (List.cons_ne_nil _ _) hx

/-- A word of a choice. -/
theorem choice {l : Label} {ks : List Keyword} (hk : k ∈ ks)
    (hx : ∀ place, Node.assemble ⟨l, some place, [.token "WORD" k.text], .noPart⟩ = pure x) :
    Renders (choice l ks) [.ofKeyword k] [x] := by
  have hword : Renders (.token (.keyword k) true) [.ofKeyword k] [.token "WORD" k.text] :=
    token (.keyword k) rfl
  have hone : Renders (.oneOf (ks.map fun k => .token (.keyword k) true)) [.ofKeyword k]
      [.token "WORD" k.text] := by
    induction ks with
    | nil => exact nomatch hk
    | cons k' ks ih =>
      cases ks with
      | nil =>
        obtain rfl := List.mem_singleton.1 hk
        exact hword
      | cons k'' ks =>
        rcases List.mem_cons.1 hk with rfl | hk
        · exact hword.left
        · exact (ih hk).right
  exact hone.node (List.cons_ne_nil _ _) hx

end Renders

/-! ## Items with a comma after each -/

structure RendersMany (p : Phrase) (ws : List Word) (xs : List Sketch) : Prop where
  closed : Word.Closed ws
  forms : Forms (.many (withComma p)) ws fun trees => meanings trees = pure xs

namespace RendersMany

variable {p q : Phrase} {us vs ws : List Word} {xs ys : List Sketch}

theorem nil : RendersMany p [] [] where
  closed := .nil
  forms := Forms.manyEnd.mono fun _ h => h ▸ rfl

theorem append (h : RendersMany p us xs) (h' : RendersMany p vs ys) :
    RendersMany p (us ++ vs) (xs ++ ys) where
  closed := h.closed.append h'.closed
  forms := (h.forms.append h'.forms).mono fun _ ⟨ts₁, ts₂, hts, h₁, h₂⟩ => by
    rw [hts, meanings_append, h₁, h₂]
    rfl

theorem one (h : Renders p ws xs) : RendersMany p (ws ++ [Word.comma]) xs where
  closed := h.legible.closed
  forms := by
    have hmore := h.withComma.forms.more Forms.manyEnd
    rw [List.append_nil] at hmore
    refine hmore.mono fun _ ⟨ts₁, ts₂, hts, h₁, h₂⟩ => ?_
    rw [hts, h₂, List.append_nil, h₁]

theorem items {f : α → List Word} {g : α → Sketch} {as : List α}
    (h : ∀ a ∈ as, Renders p (f a) [g a]) : RendersMany p (Word.items f as) (as.map g) := by
  induction as with
  | nil => exact nil
  | cons a as ih =>
    rw [List.forall_mem_cons] at h
    exact (one h.1).append (ih h.2)

theorem renders (h : RendersMany p ws xs) : Renders (.many (withComma p)) ws xs :=
  ⟨h.closed.toLegible, h.forms⟩

theorem renders_items (h : RendersMany p ws xs) (hne : ws ≠ []) :
    Renders (Grammar.items p) ws xs :=
  ⟨h.closed.toLegible, h.forms.some hne⟩

end RendersMany

/-- The items of a listing, with a comma after each. -/
theorem Renders.listing {item : Phrase} {f : α → List Word} {g : α → Sketch} {as : List α}
    (h : ∀ a ∈ as, Renders item (f a) [g a]) (hne : as ≠ []) :
    Renders (.listing item) (Word.items f as) (as.map g) := by
  have hitems : Word.Closed (Word.items f as) ∧
      Forms (.afterComma item) (Word.items f as) fun trees =>
        meanings trees = pure (as.map g) := by
    clear hne
    induction as with
    | nil => exact ⟨.nil, Forms.commaEnd.mono fun _ h => h ▸ rfl⟩
    | cons a as ih =>
      rw [List.forall_mem_cons] at h
      obtain ⟨hclosed, hforms⟩ := ih h.2
      refine ⟨h.1.legible.closed.append hclosed, ?_⟩
      have hitem := h.1.forms.item hforms
      rw [Word.items, List.flatMap_cons, List.append_assoc]
      refine hitem.mono fun _ ⟨ts₁, ts₂, hts, h₁, h₂⟩ => ?_
      rw [hts, meanings_append, h₁, h₂]
      rfl
  refine ⟨hitems.1.toLegible, hitems.2.listing ?_⟩
  cases as with
  | nil => exact absurd rfl hne
  | cons a as => simp [Word.items]

/-! ## Bodies -/

/-- The part of a property with a single value, if it is set. -/
def properties (key : String) (enc : α → Sketch) (o : Option α) : List Sketch :=
  o.toList.map fun a => .property (.text key) (enc a) false

/-- The part of a property with a list. -/
def listProperty (key : String) (enc : α → Sketch) (as : List α) : Sketch :=
  .property (.text key) (.ofItems enc as) true

structure RendersBody (p : Phrase) (singles lists : List String) (ws : List Word)
    (xs : List Sketch) : Prop extends RendersMany p ws xs where
  fits : ∀ x ∈ xs, Fits singles lists x

namespace RendersBody

variable {p : Phrase} {singles lists : List String} {us vs : List Word} {xs ys : List Sketch}

theorem append (h : RendersBody p singles lists us xs) (h' : RendersBody p singles lists vs ys) :
    RendersBody p singles lists (us ++ vs) (xs ++ ys) where
  toRendersMany := h.toRendersMany.append h'.toRendersMany
  fits := List.forall_mem_append.2 ⟨h.fits, h'.fits⟩

theorem property {l : Label} {k : Keyword} {value : Phrase} (key : String)
    {words : α → List Word} {enc : α → Sketch} {o : Option α}
    (hl : ∀ place xs,
      Node.assemble ⟨l, place, xs, .noPart⟩ = Node.value ⟨l, place, xs, .noPart⟩ key)
    (hkey : key ∈ singles)
    (hin : ∀ {ws xs}, Renders (field l k value) ws xs → Renders p ws xs)
    (h : ∀ a ∈ o, Renders value (words a) [enc a]) :
    RendersBody p singles lists (Word.property k words o) (properties key enc o) where
  toRendersMany := by
    refine .items fun a ha => hin ((h a (Option.mem_toList.1 ha)).field fun place => ?_)
    rw [hl]
    rfl
  fits x hx := by
    obtain ⟨a, -, rfl⟩ := List.mem_map.1 hx
    exact .single hkey

theorem listed {l m : Label} {k : Keyword} {item : Phrase} (key : String)
    {words : α → List Word} {enc : α → Sketch} {as : List α}
    (hl : ∀ place xs,
      Node.assemble ⟨l, place, xs, .noPart⟩ = Node.listing ⟨l, place, xs, .noPart⟩ key)
    (hm : ∀ place xs, Node.assemble ⟨m, place, xs, .noPart⟩ = pure (.list xs)) (hkey : key ∈ lists)
    (hin : ∀ {ws xs}, Renders (listed l k (.node m (.listing item))) ws xs → Renders p ws xs)
    (h : ∀ a ∈ as, Renders item (words a) [enc a]) :
    RendersBody p singles lists (Word.listed k words as) [listProperty key enc as] where
  toRendersMany := by
    obtain ⟨xs, hopt, hlisting⟩ : ∃ xs, Renders (.optional (.node m (.listing item)))
        (Word.items words as) xs ∧ ∀ place,
          Node.listing ⟨l, place, xs, .noPart⟩ key = pure (listProperty key enc as) := by
      cases as with
      | nil => exact ⟨[], Renders.nothing.right, fun _ => rfl⟩
      | cons a as =>
        have hlist := Renders.listing h (List.cons_ne_nil a as)
        have hnode := hlist.node (by simp [Word.items]) fun place => hm (some place) _
        exact ⟨_, hnode.left, fun _ => rfl⟩
    refine .one (hin ((Renders.skip (.skip (.skip hopt.closed))).node (List.cons_ne_nil _ _)
      fun place => ?_))
    rw [hl, hlisting]
  fits x hx := by
    rw [List.mem_singleton.1 hx]
    exact .more hkey

end RendersBody

/-! ### What bodies come to -/

@[simp] theorem foldl_properties (key k : String) (enc : α → Sketch) (o : Option α)
    (v : Option Sketch) :
    (properties k enc o).foldl (valueStep key) v = if key = k then (o.map enc).or v else v := by
  cases o with
  | none => simp [properties]
  | some a => simp [properties, valueStep]

@[simp] theorem valueStep_listProperty (key k : String) (enc : α → Sketch) (as : List α)
    (v : Option Sketch) : valueStep key v (listProperty k enc as) =
      if key = k then some (.tuple (itemsOf v ++ as.map enc)) else v := rfl

end PlatformGame.Draft
