import PlatformGame.Proofs.Parse.Derivation
import PlatformGame.Proofs.Source.Lexeme

/-! # The grammar is predictive

The next token alone decides how a text goes on: which alternative it belongs to, whether a
repetition or a listing ends, and whether a node is complete. `Phrase.predictive` checks this on the
phrase, given what stands after it in two senses:

* `near`, what stands after it in the node around it or after such nodes anywhere, as far as
  `mayFollow` knows; among these terminals the next token is recognised;
* `far`, what stands after it in the text at hand.

The check also says where recognising a token can go wrong. Where names are admitted, no admitted
keyword looks like one, except after a string: there the keywords in `clashing` are admitted
together with names. They are so after every string, but at no single place can both a name and one
of them stand. -/

namespace PlatformGame.Grammar

open Parse Source

variable {t : Terminal} {l : Label} {ts : List Terminal}

/-- Keywords in the form of a name that are admitted together with names after a string. -/
def clashing : List Keyword := [.win, .lose, .nextLevel]

/-- What may stand after a node, as closely as it matters here. -/
def mayFollow : Label → Terminal → Bool
  | .numberList, t | .placementList, t | .platformList, t => t == .keyword .closeBracket
  | .string, .keyword k => !namelike k || clashing.contains k
  | .string, _ | .layerMapping, _ => true
  | _, t => t != .name

/-- None of the terminals satisfies the predicate. -/
def noneOf (ts : List Terminal) (after : Terminal → Bool) : Bool := ts.all fun t => !after t

/-- After the terminal `t`, a name is told from every other terminal of `near`, the clashing
keywords after a string excepted. -/
def lexical (t : Terminal) (near : Terminal → Bool) : Bool :=
  !near .name || Keyword.all.all fun k =>
    !near (.keyword k) || !namelike k || (t == .string && clashing.contains k)

/-- Names and clashing keywords do not stand at one place. -/
def apart (far : List Terminal) : Bool :=
  !(far.contains .name && clashing.any fun k => far.contains (.keyword k))

namespace Phrase

/-- What may come next while a text of `p` and then something of `near` is read. -/
def ahead (p : Phrase) (near : Terminal → Bool) (t : Terminal) : Bool :=
  p.first.contains t || (p.nullable && near t)

def predictive : Phrase → (near : Terminal → Bool) → (far : List Terminal) → Bool
  | nothing, _, _ => true
  | token t _, near, far => lexical t near && apart far
  | seq p q, near, far => p.predictive (q.ahead near) (q.firstOr far) && q.predictive near far
  | alt p q, near, far =>
    p.predictive near far && q.predictive near far && noneOf p.first q.first.contains
      && (!(p.nullable || q.nullable) || noneOf (p.first ++ q.first) near)
  | many p, near, far =>
    p.predictive ((many p).ahead near) (p.first ++ far) && noneOf p.first near
  | afterItem p, near, far | afterComma p, near, far =>
    p.predictive ((afterItem p).ahead near) (.keyword .comma :: far) && !p.nullable
      && noneOf (.keyword .comma :: p.first) near
      && lexical (.keyword .comma) ((afterComma p).ahead near) && apart (p.first ++ far)
  | node l p, _, far => p.predictive (mayFollow l) far && !p.nullable

end Phrase

/-- The end of the text stands after it. -/
def atEnd (t : Terminal) : Bool := t == .endOfInput

theorem entries_predictive : ∀ e ∈ entries, e.2.predictive atEnd [.endOfInput] = true := by
  have h : (entries.all fun e => e.2.predictive atEnd [.endOfInput]) = true := by decide +kernel
  exact List.all_eq_true.1 h

/-! ## What follows a node -/

private theorem mem_foldr_insert {set : List Terminal} :
    t ∈ ts.foldr List.insert set ↔ t ∈ ts ∨ t ∈ set := by
  induction ts with
  | nil => simp
  | cons u ts ih => simp [ih, or_assoc]

private theorem mem_foldr_places {es : List (Label × List Terminal)} :
    t ∈ es.foldr (fun (m, ts) set => if m = l then ts.foldr List.insert set else set) [] ↔
      ∃ ts, (l, ts) ∈ es ∧ t ∈ ts := by
  induction es with
  | nil => simp
  | cons e es ih =>
    obtain ⟨m, ts⟩ := e
    rw [List.foldr_cons]
    by_cases h : m = l
    · simp only [if_pos h, mem_foldr_insert, ih]
      simp [h, or_and_right, exists_or]
    · simp only [if_neg h, ih]
      simp [Ne.symm h]

theorem mem_follow_iff : t ∈ follow l ↔ ∃ ts, (l, ts) ∈ placesOfNodes ∧ t ∈ ts := mem_foldr_places

theorem mayFollow_of_mem_follow (h : t ∈ follow l) : mayFollow l t = true := by
  have checked : (placesOfNodes.all fun e => e.2.all (mayFollow e.1)) = true := by
    decide +kernel
  obtain ⟨ts, hl, ht⟩ := mem_follow_iff.1 h
  exact List.all_eq_true.1 (List.all_eq_true.1 checked (l, ts) hl) t ht

/-! ## Sure phrases -/

theorem noneOf_iff {after : Terminal → Bool} :
    noneOf ts after = true ↔ ∀ t ∈ ts, after t = false := by
  simp [noneOf]

theorem told_of_lexical {near : Terminal → Bool} (h : lexical t near = true)
    (hts : ∀ u ∈ ts, near u = true) :
    .name ∈ ts → ∀ k, .keyword k ∈ ts → namelike k = true → t = .string ∧ k ∈ clashing := by
  intro hname k hk hlike
  simp only [lexical, hts _ hname, Bool.not_true, Bool.false_or, List.all_eq_true] at h
  have hk' := h k (Keyword.mem_all k)
  simpa [hts _ hk, hlike] using hk'

theorem notMem_of_apart {far : List Terminal} (h : apart far = true) (hname : .name ∈ far)
    {k : Keyword} (hk : k ∈ clashing) : .keyword k ∉ far := by
  simp only [apart, Bool.not_eq_true', Bool.and_eq_false_iff, List.any_eq_false,
    List.contains_iff_mem] at h
  rcases h with h | h
  · simp [hname] at h
  · exact h k hk

/-- A phrase at a place: it is predictive there, and what stands after a node inside it is known to
follow such nodes. -/
structure Phrase.Sure (p : Phrase) (near : Terminal → Bool) (far : List Terminal) : Prop where
  predictive : p.predictive near far = true
  followed : ∀ e ∈ p.followers far, ∀ t ∈ e.2, t ∈ follow e.1

theorem entries_sure {e : String × Phrase} (he : e ∈ entries) : e.2.Sure atEnd [.endOfInput] where
  predictive := entries_predictive e he
  followed f hf _ ht := mem_follow_iff.2 ⟨f.2, List.mem_flatMap.2 ⟨e, he, hf⟩, ht⟩

namespace Phrase.Sure

variable {p q : Phrase} {near : Terminal → Bool} {far : List Terminal}

theorem seq (h : (Phrase.seq p q).Sure near far) :
    p.Sure (q.ahead near) (q.firstOr far) ∧ q.Sure near far := by
  obtain ⟨hp, hf⟩ := h
  simp only [Phrase.predictive, Bool.and_eq_true] at hp
  simp only [followers, List.mem_append, or_imp, forall_and] at hf
  exact ⟨⟨hp.1, hf.1⟩, ⟨hp.2, hf.2⟩⟩

theorem alt (h : (Phrase.alt p q).Sure near far) :
    p.Sure near far ∧ q.Sure near far ∧ (∀ t ∈ p.first, t ∉ q.first) ∧
      ((Phrase.alt p q).nullable = true → ∀ t ∈ (Phrase.alt p q).first, near t = false) := by
  obtain ⟨hp, hf⟩ := h
  simp only [Phrase.predictive, Bool.and_eq_true, noneOf_iff] at hp
  obtain ⟨⟨⟨hp, hq⟩, hd⟩, hn⟩ := hp
  simp only [followers, List.mem_append, or_imp, forall_and] at hf
  refine ⟨⟨hp, hf.1⟩, ⟨hq, hf.2⟩, fun t ht => by simpa using hd t ht, fun hnull => ?_⟩
  rw [nullable] at hnull
  simp only [hnull, Bool.not_true, Bool.false_or, noneOf_iff] at hn
  exact hn

theorem many (h : (Phrase.many p).Sure near far) :
    p.Sure ((Phrase.many p).ahead near) ((Phrase.many p).firstOr far) ∧
      ∀ t ∈ p.first, near t = false := by
  obtain ⟨hp, hf⟩ := h
  simp only [Phrase.predictive, Bool.and_eq_true, noneOf_iff] at hp
  exact ⟨⟨hp.1, hf⟩, hp.2⟩

theorem afterItem (h : (Phrase.afterItem p).Sure near far) :
    (Phrase.afterComma p).Sure near far := ⟨h.predictive, h.followed⟩

theorem afterComma (h : (Phrase.afterComma p).Sure near far) :
    p.Sure ((Phrase.afterItem p).ahead near) ((Phrase.afterItem p).firstOr far) ∧
      p.nullable = false ∧ (∀ t ∈ p.first, near t = false) ∧ near (.keyword .comma) = false ∧
      lexical (.keyword .comma) ((Phrase.afterComma p).ahead near) = true ∧
      apart ((Phrase.afterComma p).firstOr far) = true ∧ (Phrase.afterItem p).Sure near far := by
  obtain ⟨hp, hf⟩ := h
  have hp' := hp
  simp only [Phrase.predictive, Bool.and_eq_true, noneOf_iff, Bool.not_eq_true'] at hp'
  obtain ⟨⟨⟨⟨hp', hn⟩, hd⟩, hl⟩, ha⟩ := hp'
  exact ⟨⟨hp', hf⟩, hn, fun t ht => hd t (List.mem_cons_of_mem _ ht), hd _ List.mem_cons_self, hl,
    ha, ⟨hp, hf⟩⟩

theorem node (h : (Phrase.node l p).Sure near far) :
    p.Sure (mayFollow l) far ∧ p.nullable = false ∧ ∀ t ∈ far, t ∈ follow l := by
  obtain ⟨hp, hf⟩ := h
  simp only [Phrase.predictive, Bool.and_eq_true, Bool.not_eq_true'] at hp
  simp only [followers, List.mem_cons, forall_eq_or_imp] at hf
  exact ⟨⟨hp.1, hf.2⟩, hp.2, hf.1⟩

theorem solid (h : p.Sure near far) : p.solid = true := by
  induction p generalizing near far with
  | nothing | token => rfl
  | seq p q ihp ihq =>
    rw [Phrase.solid, ihp h.seq.1, ihq h.seq.2]
    rfl
  | alt p q ihp ihq =>
    rw [Phrase.solid, ihp h.alt.1, ihq h.alt.2.1]
    rfl
  | many p ih => exact ih h.many.1
  | afterItem p ih =>
    obtain ⟨hp, hn, -⟩ := h.afterItem.afterComma
    rw [Phrase.solid, ih hp, hn]
    rfl
  | afterComma p ih =>
    obtain ⟨hp, hn, -⟩ := h.afterComma
    rw [Phrase.solid, ih hp, hn]
    rfl
  | node l p ih =>
    obtain ⟨hp, hn, -⟩ := h.node
    rw [Phrase.solid, ih hp, hn]
    rfl

/-- A nullable phrase is told from what stands after it. -/
theorem near_eq_false (h : p.Sure near far) (hn : p.nullable = true) (ht : t ∈ p.first) :
    near t = false := by
  induction p generalizing near far with
  | nothing => cases ht
  | token => cases hn
  | seq p q ihp ihq =>
    simp only [nullable, Bool.and_eq_true] at hn
    simp only [first, if_pos hn.1, List.mem_append] at ht
    rcases ht with ht | ht
    · have := ihp h.seq.1 hn.1 ht
      simp only [ahead, hn.2, Bool.true_and, Bool.or_eq_false_iff] at this
      exact this.2
    · exact ihq h.seq.2 hn.2 ht
  | alt p q => exact h.alt.2.2.2 hn t ht
  | many p => exact h.many.2 t ht
  | afterItem p =>
    obtain ⟨-, -, -, hc, -⟩ := h.afterItem.afterComma
    rw [List.mem_singleton.1 ht]
    exact hc
  | afterComma p =>
    obtain ⟨-, -, hp, -⟩ := h.afterComma
    exact hp t ht
  | node l p =>
    rw [nullable, h.node.2.1] at hn
    cases hn

end Phrase.Sure

end PlatformGame.Grammar
