import PlatformGame.Proofs.Parse.Derivation

/-! # Nodes inside trees

Every node inside a tree of a phrase comes from a node of the phrase with the same label, and its
children are trees of what stands in that node (`Derives.exists_of_within`). -/

namespace PlatformGame.Grammar

/-- The nodes of a phrase, at any depth, with what stands in them. -/
def Phrase.nodes : Phrase → List (Label × Phrase)
  | nothing | token _ _ => []
  | seq p q | alt p q => p.nodes ++ q.nodes
  | many p | afterItem p | afterComma p => p.nodes
  | node l p => (l, p) :: p.nodes

/-- The phrase is a node with one of the labels, or several such nodes. -/
def Phrase.rootedIn (ls : List Label) : Phrase → Bool
  | node l _ => ls.contains l
  | alt p q => p.rootedIn ls && q.rootedIn ls
  | many p => p.rootedIn ls
  | _ => false

end PlatformGame.Grammar

namespace PlatformGame.Parse

open Grammar Source

/-- The tree is the other one or stands inside it. -/
inductive Tree.Within (t : Tree) : Tree → Prop
  | refl : Within t t
  | child : u ∈ children → Within t u → Within t (.node l span children)

theorem Tree.Within.trans {t u v : Tree} (h : t.Within u) (h' : u.Within v) : t.Within v := by
  induction h' with
  | refl => exact h
  | child hmem _ ih => exact .child hmem ih

theorem Derives.exists_of_within {p : Phrase} {toks : List Token} {trees : List Tree}
    (h : Derives p toks trees) {t : Tree} (ht : t ∈ trees) {l : Label} {span : Option Span}
    {children : List Tree} (hw : Tree.Within (.node l span children) t) :
    ∃ q us, (l, q) ∈ p.nodes ∧ Derives q us children ∧ us ⊆ toks := by
  induction h generalizing t with
  | nothing | manyEnd | itemEnd | commaEnd => exact absurd ht List.not_mem_nil
  | token tok keep =>
    cases keep with
    | false => exact absurd ht List.not_mem_nil
    | true =>
      obtain rfl := List.mem_singleton.1 ht
      cases hw
  | seq _ _ ihp ihq =>
    rcases List.mem_append.1 ht with ht | ht
    · obtain ⟨q, us, hq, hd, hus⟩ := ihp ht hw
      exact ⟨q, us, List.mem_append_left _ hq, hd, List.subset_append_of_subset_left _ hus⟩
    · obtain ⟨q, us, hq, hd, hus⟩ := ihq ht hw
      exact ⟨q, us, List.mem_append_right _ hq, hd, List.subset_append_of_subset_right _ hus⟩
  | left _ ih =>
    obtain ⟨q, us, hq, h⟩ := ih ht hw
    exact ⟨q, us, List.mem_append_left _ hq, h⟩
  | right _ ih =>
    obtain ⟨q, us, hq, h⟩ := ih ht hw
    exact ⟨q, us, List.mem_append_right _ hq, h⟩
  | more _ _ ihp ihq | item _ _ ihp ihq =>
    rcases List.mem_append.1 ht with ht | ht
    · obtain ⟨q, us, hq, hd, hus⟩ := ihp ht hw
      exact ⟨q, us, hq, hd, List.subset_append_of_subset_left _ hus⟩
    · obtain ⟨q, us, hq, hd, hus⟩ := ihq ht hw
      exact ⟨q, us, hq, hd, List.subset_append_of_subset_right _ hus⟩
  | comma _ _ ih =>
    obtain ⟨q, us, hq, hd, hus⟩ := ih ht hw
    exact ⟨q, us, hq, hd, List.subset_cons_of_subset _ hus⟩
  | node l' hd ih =>
    obtain rfl := List.mem_singleton.1 ht
    cases hw with
    | refl => exact ⟨_, _, List.mem_cons_self, hd, List.Subset.refl _⟩
    | child hu hw =>
      obtain ⟨q, us, hq, h⟩ := ih hu hw
      exact ⟨q, us, List.mem_cons_of_mem _ hq, h⟩

theorem Derives.exists_node_of_rootedIn {p : Phrase} {toks : List Token} {trees : List Tree}
    (h : Derives p toks trees) {ls : List Label} (hp : p.rootedIn ls = true) :
    ∀ t ∈ trees, ∃ l span children, t = .node l span children ∧ l ∈ ls := by
  induction h with
  | manyEnd => exact fun _ ht => absurd ht List.not_mem_nil
  | left _ ih => exact ih (Bool.and_eq_true_iff.1 hp).1
  | right _ ih => exact ih (Bool.and_eq_true_iff.1 hp).2
  | more _ _ ihp ihq => exact List.forall_mem_append.2 ⟨ihp hp, ihq hp⟩
  | node l hd _ =>
    exact List.forall_mem_singleton.2 ⟨l, _, _, rfl, List.contains_iff_mem.1 hp⟩
  | _ => cases hp

end PlatformGame.Parse
