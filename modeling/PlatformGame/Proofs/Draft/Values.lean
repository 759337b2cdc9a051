import PlatformGame.Proofs.Draft.Body
import PlatformGame.Proofs.Draft.Encoding
import PlatformGame.Proofs.Draft.Meaning
import PlatformGame.Proofs.Draft.Written

/-! # Values and properties

What the values of the language mean, what the shapes of properties mean, and which values a body of
known sorts has. -/

namespace PlatformGame.Draft

open Grammar Parse Source

/-- The sketch of a value that satisfies a predicate. -/
def Of (enc : α → Sketch) (P : α → Prop) (x : Sketch) : Prop := ∃ a, x = enc a ∧ P a

variable {Num : Number → Prop} {quiet : Prop}

/-! ## Values -/

theorem means_ident : Means Num quiet ident (One (Of .text Named)) := by
  refine (Means.token .name).node fun place xs hxs => ?_
  obtain ⟨_, rfl, tok, htok, hname, rfl⟩ := hxs.exists_eq
  have hm := htok.matches_text
  rw [hname] at hm
  exact .pure ⟨tok.text, rfl, hm⟩

theorem means_string : Means Num quiet string (One (Of .text fun _ => True)) := by
  refine (Means.token .string).node fun place xs hxs => ?_
  obtain ⟨_, rfl, tok, -, -, rfl⟩ := hxs.exists_eq
  exact .pure ⟨unquote tok.text, rfl, trivial⟩

theorem means_color : Means Num quiet color (One (Of .text fun s => IsColor s.toList)) := by
  refine (Means.token .color).node fun place xs hxs => ?_
  obtain ⟨_, rfl, tok, htok, hcolor, rfl⟩ := hxs.exists_eq
  have hm := htok.matches_text
  rw [hcolor] at hm
  exact .pure ⟨tok.text, rfl, hm⟩

theorem means_number : Means Num quiet number (One (Of .number Num)) := by
  refine (Means.token .number).node fun place xs hxs => ?_
  obtain ⟨_, rfl, tok, htok, hnumber, rfl⟩ := hxs.exists_eq
  obtain ⟨n, hn, hN⟩ := htok.number hnumber
  change (Node.number _).Gives quiet _
  simp only [Node.number, Node.firstText, Node.first, pure_bind, Sketch.plain, Sketch.text?,
    Option.getD_some, hn]
  exact .pure ⟨n, rfl, hN⟩

theorem Means.oneOf {ps : List Phrase} {V : List Sketch → Prop} (hne : ps ≠ [])
    (h : ∀ p ∈ ps, Means Num quiet p V) : Means Num quiet (.oneOf ps) V := by
  induction ps with
  | nil => exact absurd rfl hne
  | cons p ps ih =>
    rw [List.forall_mem_cons] at h
    cases ps with
    | nil => exact h.1
    | cons q ps => exact h.1.alt (ih (List.cons_ne_nil q ps) h.2)

/-- One of several words, which stays in the tree. -/
theorem Means.choice {l : Label} {ks : List Keyword} {P : Sketch → Prop} (hne : ks ≠ [])
    (h : ∀ k ∈ ks, ∀ place, (Node.assemble ⟨l, some place, [.token "WORD" k.text], .noPart⟩).Gives
      quiet P) : Means Num quiet (choice l ks) (One P) := by
  have hwords : Means Num quiet (.oneOf (ks.map fun k => .token (.keyword k) true))
      (One fun x => ∃ k ∈ ks, x = .token "WORD" k.text) := by
    refine .oneOf (by simpa using hne) fun p hp => ?_
    obtain ⟨k, hk, rfl⟩ := List.mem_map.1 hp
    refine (Means.token (.keyword k)).mono fun xs hxs => ?_
    obtain ⟨_, rfl, tok, htok, hword, rfl⟩ := hxs.exists_eq
    have hm := htok.matches_text
    rw [hword] at hm
    exact one_singleton.2 ⟨k, hk, by rw [String.toList_injective hm]; rfl⟩
  refine hwords.node fun place xs hxs => ?_
  obtain ⟨_, rfl, k, hk, rfl⟩ := hxs.exists_eq
  exact h k hk place

theorem means_boolean : Means Num quiet boolean (One (Of .flag fun _ => True)) := by
  refine .choice (by simp) fun k _ place => ?_
  exact .pure ⟨k.text == "true", rfl, trivial⟩

theorem means_controlScheme : Means Num quiet controlScheme
    (One (Of (fun c => .choice (.controls c)) fun _ => True)) := by
  refine .choice (by simp) fun k hk place => ?_
  simp only [List.mem_cons, List.not_mem_nil, or_false] at hk
  rcases hk with rfl | rfl | rfl <;> exact .pure ⟨_, rfl, trivial⟩

theorem means_collectibleEffect : Means Num quiet collectibleEffect
    (One (Of (fun e => .choice (.effect e)) fun _ => True)) := by
  refine .choice (by simp) fun k hk place => ?_
  simp only [List.mem_cons, List.not_mem_nil, or_false] at hk
  rcases hk with rfl | rfl | rfl | rfl <;> exact .pure ⟨_, rfl, trivial⟩

theorem means_hudType : Means Num quiet hudType
    (One (Of (fun k => .choice (.hud k)) fun _ => True)) := by
  refine .choice (by simp) fun k hk place => ?_
  simp only [List.mem_cons, List.not_mem_nil, or_false] at hk
  rcases hk with rfl | rfl | rfl <;> exact .pure ⟨_, rfl, trivial⟩

theorem means_hudPosition : Means Num quiet hudPosition
    (One (Of (fun a => .choice (.anchor a)) fun _ => True)) := by
  refine .choice (by simp) fun k hk place => ?_
  simp only [List.mem_cons, List.not_mem_nil, or_false] at hk
  rcases hk with rfl | rfl | rfl | rfl | rfl | rfl <;> exact .pure ⟨_, rfl, trivial⟩

theorem means_soundEvent : Means Num quiet soundEvent
    (One (Of (fun e : SoundEvent => .text e.text) fun _ => True)) := by
  refine .choice (by simp) fun k hk place => ?_
  simp only [List.mem_cons, List.not_mem_nil, or_false] at hk
  rcases hk with rfl | rfl | rfl | rfl | rfl | rfl
  · exact .pure ⟨.jump, rfl, trivial⟩
  · exact .pure ⟨.collect, rfl, trivial⟩
  · exact .pure ⟨.hurt, rfl, trivial⟩
  · exact .pure ⟨.win, rfl, trivial⟩
  · exact .pure ⟨.lose, rfl, trivial⟩
  · exact .pure ⟨.bgm, rfl, trivial⟩

/-- A number under each of two keys. -/
theorem Means.numberPair {l : Label} {k k' : Keyword} {P : Sketch → Prop}
    (h : ∀ place m n, Num m → Num n →
      (Node.assemble ⟨l, some place, [.number m, .number n], .noPart⟩).Gives quiet P) :
    Means Num quiet (numberPair l k k') (One P) := by
  have hpart (k : Keyword) : Means Num quiet (Grammar.withComma (.chain [.word k, .word .colon,
      number])) (One (Of .number Num)) := (skip (skip (last means_number))).withComma
  refine ((hpart k).cons (hpart k').last).braces.node fun place xs hxs => ?_
  obtain ⟨_, _, rfl, ⟨m, rfl, hm⟩, hrest⟩ := hxs.exists_eq
  obtain ⟨_, rfl, n, rfl, hn⟩ := hrest.exists_eq
  exact h place m n hm hn

theorem means_point : Means Num quiet point (One (Of Point.toSketch (Point.Written Num))) :=
  .numberPair fun _ m n hm hn => .pure ⟨⟨m, n⟩, rfl, hm, hn⟩

theorem means_frameConfig :
    Means Num quiet frameConfig (One (Of FrameSize.toSketch (FrameSize.Written Num))) :=
  .numberPair fun _ m n hm hn => .pure ⟨⟨m, n⟩, rfl, hm, hn⟩

/-! ## Properties -/

/-- A property with a single value. -/
theorem Means.field {l : Label} {k : Keyword} {value : Phrase} (key : String)
    {singles lists : List String} {T : String → Sketch → Prop}
    (hl : ∀ place xs,
      Node.assemble ⟨l, place, xs, .noPart⟩ = Node.value ⟨l, place, xs, .noPart⟩ key)
    (hkey : key ∈ singles) (h : Means Num quiet value (One (T key))) :
    Means Num quiet (field l k value) (One (Entry singles lists T)) := by
  refine (skip (skip (last h))).node fun place xs hxs => ?_
  obtain ⟨v, rfl, hv⟩ := hxs.exists_eq
  rw [hl]
  exact .pure (.single hkey hv)

/-- A property with a list of items, which are built by a node of their own. -/
theorem Means.listed {l m : Label} {k : Keyword} {item : Phrase} (key : String)
    {singles lists : List String} {T : String → Sketch → Prop}
    (hl : ∀ place xs,
      Node.assemble ⟨l, place, xs, .noPart⟩ = Node.listing ⟨l, place, xs, .noPart⟩ key)
    (hm : ∀ place xs, Node.assemble ⟨m, place, xs, .noPart⟩ = pure (.list xs)) (hkey : key ∈ lists)
    (hclip : key ≠ "animations") (h : Means Num quiet item (One (T key))) :
    Means Num quiet (listed l k (.node m (.listing item))) (One (Entry singles lists T)) := by
  have hitems : Means Num quiet (.node m (.listing item))
      (One fun x => ∃ items, x = .list items ∧ Each (T key) items) := by
    refine h.listing.node fun place xs hxs => ?_
    rw [hm]
    exact .pure ⟨xs, rfl, hxs⟩
  have hopt : Means Num quiet (.optional (.node m (.listing item)))
      fun xs => xs = [] ∨ ∃ items, xs = [.list items] ∧ Each (T key) items := by
    refine (hitems.mono ?_).alt (Means.nothing.mono fun xs hxs => .inl hxs)
    intro xs hxs
    obtain ⟨_, rfl, items, rfl, hitems⟩ := hxs.exists_eq
    exact .inr ⟨items, rfl, hitems⟩
  refine (skip (skip (skip hopt.closed))).node fun place xs hxs => ?_
  rw [hl]
  rcases hxs with rfl | ⟨items, rfl, hitems⟩
  · exact .pure (.more hkey hclip fun x hx => nomatch hx)
  · exact .pure (.more hkey hclip hitems)

/-! ## Values of keys -/

section

variable {singles lists : List String} {T : String → Sketch → Prop} {parts : List Sketch}
  {kind : RecordKind} {given : List String} {enc : α → Sketch} {P : α → Prop}

theorem exists_option_of_forall {x : Option Sketch} (h : ∀ v ∈ x, Of enc P v) :
    ∃ o : Option α, x = o.map enc ∧ ∀ a ∈ o, P a := by
  cases x with
  | none => exact ⟨none, rfl, fun a ha => nomatch ha⟩
  | some v =>
    obtain ⟨a, rfl, ha⟩ := h v rfl
    exact ⟨some a, rfl, fun b hb => by cases hb; exact ha⟩

theorem exists_list_of_forall {xs : List Sketch} (h : ∀ x ∈ xs, Of enc P x) :
    ∃ as : List α, xs = as.map enc ∧ ∀ a ∈ as, P a := by
  induction xs with
  | nil => exact ⟨[], rfl, fun a ha => nomatch ha⟩
  | cons x xs ih =>
    rw [List.forall_mem_cons] at h
    obtain ⟨a, rfl, ha⟩ := h.1
    obtain ⟨as, rfl, has⟩ := ih h.2
    exact ⟨a :: as, rfl, List.forall_mem_cons.2 ⟨ha, has⟩⟩

/-- The value of a key with single values. -/
theorem exists_single (hs : Node.Suits kind given singles lists)
    (hparts : Each (Entry singles lists T) parts) (key : String) (hkey : key ∈ singles)
    (hT : ∀ v, T key v → Of enc P v) :
    ∃ o : Option α, valueOf key parts = o.map enc ∧ ∀ a ∈ o, P a := by
  refine exists_option_of_forall fun v hv => hT v ?_
  have hsorted := sorted_valueOf hs.disjoint hparts key v hv
  rwa [Sorted, if_pos hkey] at hsorted

/-- The value of a key that items are appended to. -/
theorem exists_items (hs : Node.Suits kind given singles lists)
    (hparts : Each (Entry singles lists T) parts) (key : String) (hkey : key ∉ singles)
    (hT : ∀ v, T key v → Of enc P v) :
    ∃ o : Option (List α), valueOf key parts = o.map (Sketch.ofItems enc) ∧
      ∀ as ∈ o, (key = "animations" → as ≠ []) ∧ ∀ a ∈ as, P a := by
  refine exists_option_of_forall fun v hv => ?_
  have hsorted := sorted_valueOf hs.disjoint hparts key v hv
  rw [Sorted, if_neg hkey] at hsorted
  obtain ⟨items, rfl, hne, hitems⟩ := hsorted
  obtain ⟨as, rfl, has⟩ := exists_list_of_forall fun x hx => hT x (hitems x hx)
  exact ⟨as, rfl, fun hk h => hne hk (by simp [h]), has⟩

/-- The value of a key that items are appended to, where none are as good as an empty list. -/
theorem exists_list (hs : Node.Suits kind given singles lists)
    (hparts : Each (Entry singles lists T) parts) (key : String) (hkey : key ∉ singles)
    (hT : ∀ v, T key v → Of enc P v) :
    ∃ as : List α, (valueOf key parts).getD (.tuple []) = Sketch.ofItems enc as ∧
      ∀ a ∈ as, P a := by
  obtain ⟨o, ho, has⟩ := exists_items hs hparts key hkey hT
  cases o with
  | none => exact ⟨[], by rw [ho]; rfl, fun a ha => nomatch ha⟩
  | some as => exact ⟨as, by rw [ho]; rfl, (has as rfl).2⟩

end

end PlatformGame.Draft
