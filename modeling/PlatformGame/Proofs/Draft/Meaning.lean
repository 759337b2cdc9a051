import PlatformGame.Draft.Assemble
import PlatformGame.Proofs.Draft.Build
import PlatformGame.Proofs.Parse.Derivation
import PlatformGame.Proofs.Source.Lexeme

/-! # What phrases mean

`Means p V` says that every text of the phrase `p` is built, and that the sketches of its trees are
in `V`, as long as the number literals of the text can be read. There is one rule for each form of
phrase and for the shapes that the grammar is made of. -/

namespace PlatformGame.Draft

open Grammar Parse Source

/-- A token in the form of its terminal; the value of a number literal is in `Num`. -/
structure Readable (Num : Number → Prop) (tok : Token) : Prop where
  matches_text : tok.terminal.Matches tok.text.toList
  number : tok.terminal = .number → ∃ n, Number.ofLiteral tok.text = .ok n ∧ Num n

theorem meanings_append (ts us : List Tree) :
    meanings (ts ++ us) = (do
      let xs ← meanings ts
      let ys ← meanings us
      pure (xs ++ ys)) := by
  induction ts with
  | nil => simp [meanings]
  | cons t ts ih => simp [meanings, ih]

theorem meanings_singleton (t : Tree) : meanings [t] = (do pure [← meaning t]) := by
  simp [meanings]

/-- Leaves that come from tokens stand for themselves. -/
theorem meaning_ofToken (tok : Token) :
    meaning (Tree.ofToken tok) = pure (.token (Tree.kindOf tok.terminal) tok.text) := by
  have hleaf : ∀ kind ∈ ["NAME", "STRING", "NUMBER", "COLOR", "END", "WORD"],
      Label.ofText kind = .other kind ∧ Node.ownName? kind = none := by
    decide
  have hkind : Tree.kindOf tok.terminal ∈ ["NAME", "STRING", "NUMBER", "COLOR", "END", "WORD"] := by
    cases tok.terminal <;> simp [Tree.kindOf]
  obtain ⟨hlabel, hown⟩ := hleaf _ hkind
  simp [Tree.ofToken, meaning, Node.ofLeaf, hlabel, hown]

/-! ## Lists of sketches -/

/-- No sketch. -/
def Nil (xs : List Sketch) : Prop := xs = []

/-- A first sketch and others. -/
def Cons (P : Sketch → Prop) (V : List Sketch → Prop) : List Sketch → Prop
  | [] => False
  | x :: xs => P x ∧ V xs

def One (P : Sketch → Prop) : List Sketch → Prop := Cons P Nil

def Each (P : Sketch → Prop) (xs : List Sketch) : Prop := ∀ x ∈ xs, P x

/-- At least one sketch. -/
def Several (P : Sketch → Prop) (xs : List Sketch) : Prop := xs ≠ [] ∧ Each P xs

theorem one_singleton {P : Sketch → Prop} {x : Sketch} : One P [x] ↔ P x := by
  simp [One, Cons, Nil]

theorem Cons.exists_eq {P : Sketch → Prop} {V : List Sketch → Prop} {xs : List Sketch}
    (h : Cons P V xs) : ∃ y ys, xs = y :: ys ∧ P y ∧ V ys := by
  cases xs with
  | nil => exact h.elim
  | cons y ys => exact ⟨y, ys, rfl, h⟩

theorem One.exists_eq {P : Sketch → Prop} {xs : List Sketch} (h : One P xs) :
    ∃ x, xs = [x] ∧ P x := by
  obtain ⟨x, _, rfl, hx, rfl⟩ := Cons.exists_eq h
  exact ⟨x, rfl, hx⟩

theorem One.several {P : Sketch → Prop} {xs : List Sketch} (h : One P xs) : Several P xs := by
  obtain ⟨x, rfl, hx⟩ := h.exists_eq
  exact ⟨List.cons_ne_nil x [], by simpa [Each] using hx⟩

theorem Each.append {P : Sketch → Prop} {xs ys : List Sketch} (hx : Each P xs) (hy : Each P ys) :
    Each P (xs ++ ys) := fun x h => (List.mem_append.1 h).elim (hx x) (hy x)

/-! ## Phrases -/

variable (Num : Number → Prop) (quiet : Prop)

def Means (p : Phrase) (V : List Sketch → Prop) : Prop :=
  ∀ ⦃toks trees⦄, Derives p toks trees → (∀ tok ∈ toks, Readable Num tok) →
    (meanings trees).Gives quiet V

variable {Num quiet} {p q : Phrase} {V W : List Sketch → Prop} {P Q : Sketch → Prop}

namespace Means

theorem mono (h : Means Num quiet p V) (hVW : ∀ xs, V xs → W xs) : Means Num quiet p W :=
  fun _ _ hd hr => (h hd hr).mono hVW

theorem nothing : Means Num quiet .nothing Nil := by
  intro toks trees hd _
  obtain ⟨rfl, rfl⟩ := derives_nothing_iff.1 hd
  exact .pure rfl

theorem seq (hp : Means Num quiet p V) (hq : Means Num quiet q W) :
    Means Num quiet (.seq p q) fun xs => ∃ ys zs, xs = ys ++ zs ∧ V ys ∧ W zs := by
  intro toks trees hd hr
  obtain ⟨us, vs, ts, ts', rfl, rfl, hd₁, hd₂⟩ := derives_seq_iff.1 hd
  rw [List.forall_mem_append] at hr
  rw [meanings_append]
  refine (hp hd₁ hr.1).bind fun ys hys => (hq hd₂ hr.2).bind fun zs hzs => ?_
  exact .pure ⟨ys, zs, rfl, hys, hzs⟩

theorem alt (hp : Means Num quiet p V) (hq : Means Num quiet q V) :
    Means Num quiet (.alt p q) V := by
  intro toks trees hd hr
  rcases derives_alt_iff.1 hd with hd | hd
  · exact hp hd hr
  · exact hq hd hr

theorem word (k : Keyword) : Means Num quiet (.word k) Nil := by
  intro toks trees hd _
  obtain ⟨tok, -, -, rfl⟩ := derives_token_iff.1 hd
  exact .pure rfl

/-- A token that stays in the tree. -/
theorem token (t : Terminal) : Means Num quiet (.token t true) (One fun x => ∃ tok : Token,
    Readable Num tok ∧ tok.terminal = t ∧ x = .token (Tree.kindOf t) tok.text) := by
  intro toks trees hd hr
  obtain ⟨tok, rfl, rfl, rfl⟩ := derives_token_iff.1 hd
  rw [if_pos rfl, meanings_singleton, meaning_ofToken]
  exact .pure (one_singleton.2 ⟨tok, hr tok (List.mem_singleton_self tok), rfl, rfl⟩)

theorem node {l : Label} (hp : Means Num quiet p V) (h : ∀ place xs, V xs →
    (Node.assemble ⟨l, some place, xs, .noPart⟩).Gives quiet P) :
    Means Num quiet (.node l p) (One P) := by
  intro toks trees hd hr
  obtain ⟨tok, us, ys, rfl, hp', rfl⟩ := derives_node_iff.1 hd
  rw [meanings_singleton, meaning]
  refine Build.Gives.bind ((hp hp' hr).bind fun xs hxs => h _ xs hxs) fun x hx => ?_
  exact .pure (one_singleton.2 hx)

/-! ### Sequences -/

theorem skip {k : Keyword} (hp : Means Num quiet p V) : Means Num quiet (.seq (.word k) p) V := by
  refine ((word k).seq hp).mono ?_
  rintro xs ⟨ys, zs, rfl, rfl, hzs⟩
  exact hzs

theorem last (hp : Means Num quiet p V) : Means Num quiet (.seq p .nothing) V := by
  refine (hp.seq nothing).mono ?_
  rintro xs ⟨ys, zs, rfl, hys, rfl⟩
  rwa [List.append_nil]

theorem cons (hp : Means Num quiet p (One P)) (hq : Means Num quiet q V) :
    Means Num quiet (.seq p q) (Cons P V) := by
  refine (hp.seq hq).mono ?_
  rintro xs ⟨ys, zs, rfl, hys, hzs⟩
  obtain ⟨y, rfl, hy⟩ := hys.exists_eq
  exact ⟨hy, hzs⟩

theorem closed {k : Keyword} (hp : Means Num quiet p V) :
    Means Num quiet (.seq p (.seq (.word k) .nothing)) V := by
  refine (hp.seq (skip nothing)).mono ?_
  rintro xs ⟨ys, zs, rfl, hys, rfl⟩
  rwa [List.append_nil]

theorem braces (hp : Means Num quiet p V) : Means Num quiet (braces p) V := skip hp.closed

theorem withComma (hp : Means Num quiet p V) : Means Num quiet (withComma p) V := by
  refine (hp.seq ((word .comma).alt nothing)).mono ?_
  rintro xs ⟨ys, zs, rfl, hys, rfl⟩
  rwa [List.append_nil]

/-! ### Repetitions -/

theorem many (hp : Means Num quiet p (One P)) : Means Num quiet (.many p) (Each P) := by
  intro toks trees hd hr
  generalize hq : Phrase.many p = q at hd
  induction hd with
  | manyEnd => exact .pure fun x hx => nomatch hx
  | more hd₁ _ _ ih =>
    cases hq
    rw [List.forall_mem_append] at hr
    rw [meanings_append]
    refine (hp hd₁ hr.1).bind fun xs hxs => (ih hr.2 rfl).bind fun ys hys => ?_
    exact .pure (hxs.several.2.append hys)
  | _ => cases hq

theorem items (hp : Means Num quiet p (One P)) : Means Num quiet (items p) (Several P) := by
  refine (hp.withComma.seq hp.withComma.many).mono ?_
  rintro xs ⟨ys, zs, rfl, hys, hzs⟩
  refine ⟨?_, hys.several.2.append hzs⟩
  exact fun h => hys.several.1 (List.append_eq_nil_iff.1 h).1

/-- The items of a listing after the first. -/
theorem afterItem (hp : Means Num quiet p (One P)) : Means Num quiet (.afterItem p) (Each P) := by
  intro toks trees hd hr
  -- what stands after an item and what stands after a comma are derived in turn
  have both : ∀ {q toks trees}, Derives q toks trees → (∀ tok ∈ toks, Readable Num tok) →
      q = .afterItem p ∨ q = .afterComma p → (meanings trees).Gives quiet (Each P) := by
    intro q toks trees hd hr hq
    induction hd with
    | itemEnd => exact .pure fun x hx => nomatch hx
    | commaEnd => exact .pure fun x hx => nomatch hx
    | comma _ _ ih =>
      rcases hq with hq | hq <;> cases hq
      exact ih (fun tok htok => hr tok (.tail _ htok)) (.inr rfl)
    | item hd₁ _ _ ih =>
      rcases hq with hq | hq <;> cases hq
      rw [List.forall_mem_append] at hr
      rw [meanings_append]
      refine (hp hd₁ hr.1).bind fun xs hxs => (ih hr.2 (.inl rfl)).bind fun ys hys => ?_
      exact .pure (hxs.several.2.append hys)
    | _ => rcases hq with hq | hq <;> cases hq
  exact both hd hr (.inl rfl)

theorem listing (hp : Means Num quiet p (One P)) : Means Num quiet (.listing p) (Each P) := by
  refine (hp.seq hp.afterItem).mono ?_
  rintro xs ⟨ys, zs, rfl, hys, hzs⟩
  exact hys.several.2.append hzs

end Means

end PlatformGame.Draft
