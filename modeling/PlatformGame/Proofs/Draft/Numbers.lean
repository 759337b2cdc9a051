import PlatformGame.Proofs.Draft.Meaning
import PlatformGame.Parse.Reader

/-! # Number literals of a text

Every number token of a text stands in its tree, under a node of its own, so a tree that is built
has had all its number literals read (`exists_ofLiteral_of_derives`). -/

namespace PlatformGame

open Grammar Parse Source

variable {p : Phrase} {toks : List Token} {trees : List Tree}

namespace Parse.Tree

mutual

/-- The texts of the number tokens of a tree, from left to right. -/
def numbers : Tree → List String
  | node _ _ children => numbersOf children
  | leaf kind text _ => if kind = kindOf .number then [text] else []

def numbersOf : List Tree → List String
  | [] => []
  | t :: ts => t.numbers ++ numbersOf ts

end

theorem numbersOf_append (ts us : List Tree) :
    numbersOf (ts ++ us) = numbersOf ts ++ numbersOf us := by
  induction ts with
  | nil => rfl
  | cons t ts ih => rw [List.cons_append, numbersOf, numbersOf, ih, List.append_assoc]

end Parse.Tree

/-- Number tokens stand alone in nodes that are labelled so. -/
def Grammar.Phrase.numbersLabelled : Phrase → Bool
  | nothing => true
  | token t _ => t != .number
  | seq p q | alt p q => p.numbersLabelled && q.numbersLabelled
  | many p | afterItem p | afterComma p => p.numbersLabelled
  | node .number (token .number true) => true
  | node _ p => p.numbersLabelled

theorem Grammar.Phrase.of_numbersLabelled_node {l : Label} (h : (node l p).numbersLabelled = true) :
    (l = .number ∧ p = token .number true) ∨ p.numbersLabelled = true := by
  by_cases hnode : l = .number ∧ p = token .number true
  · exact .inl hnode
  · refine .inr ?_
    rwa [numbersLabelled] at h
    rintro rfl rfl
    exact hnode ⟨rfl, rfl⟩

/-- The numbers of a tree are number tokens of its text. -/
theorem Parse.Derives.exists_token_of_mem_numbersOf (h : Derives p toks trees) {s : String}
    (hs : s ∈ Tree.numbersOf trees) : ∃ tok ∈ toks, tok.terminal = .number ∧ tok.text = s := by
  induction h with
  | nothing | manyEnd | itemEnd | commaEnd => exact nomatch hs
  | token tok keep =>
    cases keep with
    | false => exact nomatch hs
    | true =>
      refine ⟨tok, List.mem_cons_self, ?_⟩
      cases hterm : tok.terminal <;>
        simp_all [Tree.numbersOf, Tree.numbers, Tree.ofToken, Tree.kindOf]
  | seq _ _ ih₁ ih₂ | more _ _ ih₁ ih₂ | item _ _ ih₁ ih₂ =>
    rw [Tree.numbersOf_append, List.mem_append] at hs
    rcases hs with hs | hs
    · obtain ⟨tok, htok, h⟩ := ih₁ hs
      exact ⟨tok, List.mem_append_left _ htok, h⟩
    · obtain ⟨tok, htok, h⟩ := ih₂ hs
      exact ⟨tok, List.mem_append_right _ htok, h⟩
  | left _ ih | right _ ih => exact ih hs
  | comma _ _ ih =>
    obtain ⟨tok, htok, h⟩ := ih hs
    exact ⟨tok, .tail _ htok, h⟩
  | node l _ ih =>
    rw [Tree.numbersOf, Tree.numbers, Tree.numbersOf, List.append_nil] at hs
    exact ih hs

/-- A number token of a text stands in its tree. -/
theorem Parse.Derives.mem_numbersOf (h : Derives p toks trees) (hp : p.numbersLabelled = true)
    {tok : Token} (htok : tok ∈ toks) (hnumber : tok.terminal = .number) :
    tok.text ∈ Tree.numbersOf trees := by
  induction h with
  | nothing | manyEnd | itemEnd | commaEnd => exact nomatch htok
  | token tok' keep =>
    obtain rfl := List.mem_singleton.1 htok
    simp [Phrase.numbersLabelled, hnumber] at hp
  | seq _ _ ih₁ ih₂ =>
    obtain ⟨hp₁, hp₂⟩ := Bool.and_eq_true_iff.1 hp
    rw [Tree.numbersOf_append, List.mem_append]
    exact (List.mem_append.1 htok).imp (ih₁ hp₁) (ih₂ hp₂)
  | left _ ih => exact ih (Bool.and_eq_true_iff.1 hp).1 htok
  | right _ ih => exact ih (Bool.and_eq_true_iff.1 hp).2 htok
  | more _ _ ih₁ ih₂ | item _ _ ih₁ ih₂ =>
    rw [Tree.numbersOf_append, List.mem_append]
    exact (List.mem_append.1 htok).imp (ih₁ hp) (ih₂ hp)
  | comma hcomma _ ih =>
    rcases List.mem_cons.1 htok with rfl | htok
    · rw [hnumber] at hcomma
      cases hcomma
    · exact ih hp htok
  | node l hd ih =>
    rw [Tree.numbersOf, Tree.numbers, Tree.numbersOf, List.append_nil]
    rcases Phrase.of_numbersLabelled_node hp with ⟨rfl, rfl⟩ | hp
    · obtain ⟨tok', -, htoks, rfl⟩ := derives_token_iff.1 hd
      rw [htoks] at htok
      obtain rfl := List.mem_singleton.1 htok
      simp [Tree.numbersOf, Tree.numbers, Tree.ofToken, hnumber]
    · exact ih hp htok

namespace Draft

/-- A number token of a text stands in the tree, and its literal is read where the tree is built. -/
theorem exists_ofLiteral_of_derives (h : Derives p toks trees) (hp : p.numbersLabelled = true)
    {xs : List Sketch} (hxs : (meanings trees).outcome = .ok xs) {tok : Token} (htok : tok ∈ toks)
    (hnumber : tok.terminal = .number) :
    tok.text ∈ Tree.numbersOf trees ∧ ∃ n, Number.ofLiteral tok.text = .ok n := by
  refine ⟨h.mem_numbersOf hp htok hnumber, ?_⟩
  induction h generalizing xs with
  | nothing | manyEnd | itemEnd | commaEnd => exact nomatch htok
  | token tok' keep =>
    obtain rfl := List.mem_singleton.1 htok
    simp [Phrase.numbersLabelled, hnumber] at hp
  | seq _ _ ih₁ ih₂ =>
    rw [meanings_append] at hxs
    obtain ⟨ys, hys, hrest⟩ := Build.exists_of_outcome_bind hxs
    obtain ⟨zs, hzs, -⟩ := Build.exists_of_outcome_bind hrest
    obtain ⟨hp₁, hp₂⟩ := Bool.and_eq_true_iff.1 hp
    exact (List.mem_append.1 htok).elim (ih₁ hp₁ hys) (ih₂ hp₂ hzs)
  | left _ ih => exact ih (Bool.and_eq_true_iff.1 hp).1 hxs htok
  | right _ ih => exact ih (Bool.and_eq_true_iff.1 hp).2 hxs htok
  | more _ _ ih₁ ih₂ | item _ _ ih₁ ih₂ =>
    rw [meanings_append] at hxs
    obtain ⟨ys, hys, hrest⟩ := Build.exists_of_outcome_bind hxs
    obtain ⟨zs, hzs, -⟩ := Build.exists_of_outcome_bind hrest
    exact (List.mem_append.1 htok).elim (ih₁ hp hys) (ih₂ hp hzs)
  | comma hcomma _ ih =>
    rcases List.mem_cons.1 htok with rfl | htok
    · rw [hnumber] at hcomma
      cases hcomma
    · exact ih hp hxs htok
  | node l hd ih =>
    rw [meanings_singleton, meaning] at hxs
    obtain ⟨x, hx, -⟩ := Build.exists_of_outcome_bind hxs
    obtain ⟨zs, hzs, hassemble⟩ := Build.exists_of_outcome_bind hx
    rcases Phrase.of_numbersLabelled_node hp with ⟨rfl, rfl⟩ | hp
    · obtain ⟨tok', -, htoks, rfl⟩ := derives_token_iff.1 hd
      rw [htoks] at htok
      obtain rfl := List.mem_singleton.1 htok
      rw [if_pos rfl, meanings_singleton, meaning_ofToken] at hzs
      cases hzs
      change (Node.number _).outcome = _ at hassemble
      simp only [Node.number, Node.firstText, Node.first, pure_bind, Sketch.plain, Sketch.text?,
        Option.getD_some] at hassemble
      cases hn : Number.ofLiteral tok.text with
      | ok n => exact ⟨n, rfl⟩
      | error e =>
        rw [hn] at hassemble
        cases hassemble
    · exact ih hp hzs htok

end Draft

end PlatformGame
