import PlatformGame.Proofs.Parse.Inside

/-! # Complete nodes cannot go on

A node may be closed as soon as nothing that is left of it has to be read. Where it is not the node
of a listing, nothing is left of it at all then: a text of it is never the beginning of a longer
one. The grammar is checked for this once (`entries_nodesSettle`), and a reader keeps it
(`Takes.settled`). -/

namespace PlatformGame.Grammar

namespace Phrase

/-- Once begun, a text of the phrase is complete only when nothing of the phrase is left. -/
def settles : Phrase → Bool
  | nothing | token _ _ | node _ _ => true
  | seq p q => if q.nullable then p.settles && q == nothing else q.settles
  | alt p q => p.settles && q.settles
  | many _ | afterItem _ | afterComma _ => false

end Phrase

/-- The labels of listings, which may end or go on after each of their items. -/
def listings : List Label := [.numberList, .placementList, .platformList]

/-- The nodes inside the phrase settle, those of listings excepted. -/
def Phrase.nodesSettle : Phrase → Bool
  | nothing | token _ _ => true
  | seq p q | alt p q => p.nodesSettle && q.nodesSettle
  | many p | afterItem p | afterComma p => p.nodesSettle
  | node l p => p.nodesSettle && (p.settles || listings.contains l)

theorem entries_nodesSettle : ∀ e ∈ entries, e.2.nodesSettle = true := by
  have h : (entries.all fun e => e.2.nodesSettle) = true := by decide
  exact List.all_eq_true.1 h

/-- A listing stands in brackets. -/
theorem eq_closeBracket_of_mem_follow {l : Label} (hl : l ∈ listings) {t : Terminal}
    (ht : t ∈ follow l) : t = .keyword .closeBracket := by
  have hmay := mayFollow_of_mem_follow ht
  simp only [listings, List.mem_cons, List.not_mem_nil, or_false] at hl
  rcases hl with rfl | rfl | rfl <;> exact beq_iff_eq.1 hmay

end PlatformGame.Grammar

namespace PlatformGame.Parse

open Grammar Source

variable {tok : Token} {o : Opening}

/-- Nothing is left, or a phrase that has to be read and settles, with nothing after it. -/
def Settling (ps : List Phrase) : Prop :=
  Spent ps ∨ ∃ qs q ns, ps = qs ++ q :: ns ∧ q.nullable = false ∧ q.settles = true ∧ Spent ns

namespace Settling

variable {ps ns : List Phrase}

theorem append_spent (h : Settling ps) (hns : Spent ns) : Settling (ps ++ ns) := by
  obtain h | ⟨qs, q, ns', rfl, hq, hsettles, hns'⟩ := h
  · exact .inl (h.append hns)
  · exact .inr ⟨qs, q, ns' ++ ns, by simp, hq, hsettles, hns'.append hns⟩

/-- What may be empty is. -/
theorem spent (h : Settling ps) (hn : allNullable ps = true) : Spent ps := by
  obtain h | ⟨qs, q, ns, rfl, hq, -, -⟩ := h
  · exact h
  · have hnull := List.all_eq_true.1 hn q (by simp)
    rw [hq] at hnull
    cases hnull

end Settling

theorem Opens.settling {p : Phrase} (h : Opens tok p o) (hp : p.settles = true) :
    Settling o.rest := by
  have hnil : Spent [] := fun _ hq => absurd hq List.not_mem_nil
  induction h with
  | token | node => exact .inl hnil
  | @first _ o q _ ih =>
    rw [Phrase.settles] at hp
    by_cases hq : q.nullable = true
    · rw [if_pos hq, Bool.and_eq_true, beq_iff_eq] at hp
      obtain ⟨hp, rfl⟩ := hp
      exact (ih hp).append_spent spent_nothing
    · rw [if_neg hq] at hp
      exact .inr ⟨o.rest, q, [], rfl, Bool.eq_false_iff.2 hq, hp, hnil⟩
  | @second q _ _ _ hopens ih =>
    rw [Phrase.settles] at hp
    by_cases hq : q.nullable = true
    · rw [if_pos hq, Bool.and_eq_true, beq_iff_eq] at hp
      obtain ⟨-, rfl⟩ := hp
      cases hopens
    · rw [if_neg hq] at hp
      exact ih hp
  | left _ ih =>
    rw [Phrase.settles, Bool.and_eq_true] at hp
    exact ih hp.1
  | right _ ih =>
    rw [Phrase.settles, Bool.and_eq_true] at hp
    exact ih hp.2
  | more | comma | item => cases hp

theorem settling_of_takeAll {ps : List Phrase} (hps : Settling ps) (h : takeAll tok ps = some o) :
    Settling o.rest := by
  obtain hps | ⟨qs, q, ns, rfl, hq, hsettles, hns⟩ := hps
  · rw [hps.takeAll] at h
    cases h
  · replace h := OpensAll.of_takeAll h
    induction qs with
    | nil =>
      cases h with
      | head h => exact (h.settling hsettles).append_spent hns
      | tail hn =>
        rw [hq] at hn
        cases hn
    | cons p qs ih =>
      cases h with
      | @head _ o => exact .inr ⟨o.rest ++ qs, q, ns, by simp, hq, hsettles, hns⟩
      | tail _ h => exact ih h

/-! ## Open nodes -/

/-- The nodes still to come inside an open one settle, and so does it, if it is no listing. -/
structure Frame.Settled (f : Frame) : Prop where
  rest : ∀ p ∈ f.rest, p.nodesSettle = true
  self : Settling f.rest ∨ f.label ∈ listings

structure Opening.Settled (o : Opening) : Prop where
  rest : ∀ p ∈ o.rest, p.nodesSettle = true
  frames : ∀ f ∈ o.frames, f.Settled

theorem Opening.Settled.append (h : o.Settled) {ps : List Phrase}
    (hps : ∀ p ∈ ps, p.nodesSettle = true) : Opening.Settled { o with rest := o.rest ++ ps } where
  rest := List.forall_mem_append.2 ⟨h.rest, hps⟩
  frames := h.frames

theorem Opens.settled {p : Phrase} (h : Opens tok p o) (hp : p.nodesSettle = true) : o.Settled := by
  induction h with
  | token => exact ⟨List.forall_mem_nil _, List.forall_mem_nil _⟩
  | first _ ih =>
    rw [Phrase.nodesSettle, Bool.and_eq_true] at hp
    exact (ih hp.1).append (List.forall_mem_singleton.2 hp.2)
  | left _ ih =>
    rw [Phrase.nodesSettle, Bool.and_eq_true] at hp
    exact ih hp.1
  | second _ _ ih | right _ ih =>
    rw [Phrase.nodesSettle, Bool.and_eq_true] at hp
    exact ih hp.2
  | more _ ih | item _ ih => exact (ih hp).append (List.forall_mem_singleton.2 hp)
  | comma => exact ⟨List.forall_mem_singleton.2 hp, List.forall_mem_nil _⟩
  | node h ih =>
    rw [Phrase.nodesSettle, Bool.and_eq_true, Bool.or_eq_true, List.contains_iff_mem] at hp
    have hinner := ih hp.1
    refine ⟨List.forall_mem_nil _, List.forall_mem_append.2 ⟨hinner.frames, ?_⟩⟩
    exact List.forall_mem_singleton.2 ⟨hinner.rest, hp.2.imp_left h.settling⟩

theorem settled_of_takeAll {ps : List Phrase} (hps : ∀ p ∈ ps, p.nodesSettle = true)
    (h : takeAll tok ps = some o) : o.Settled := by
  replace h := OpensAll.of_takeAll h
  induction h with
  | head h =>
    rw [List.forall_mem_cons] at hps
    exact (h.settled hps.1).append hps.2
  | tail _ _ ih => exact ih (List.forall_mem_cons.1 hps).2

namespace Reader

structure Settled (r : Reader) : Prop where
  goal : ∀ p ∈ r.goal, p.nodesSettle = true
  frames : ∀ f ∈ r.frames, f.Settled

theorem settled_start {e : String × Phrase} (he : e ∈ entries) : (Reader.start e.2).Settled where
  goal := List.forall_mem_singleton.2 (entries_nodesSettle e he)
  frames := List.forall_mem_nil _

theorem Settled.close {r : Reader} {f : Frame} {fs : List Frame} (hr : r.Settled)
    (hf : r.frames = f :: fs) : r.close.Settled := by
  obtain ⟨hgoal, hframes⟩ := hr
  rw [hf, List.forall_mem_cons] at hframes
  cases fs with
  | nil => exact ⟨by simpa [Reader.close, hf] using hgoal, by simp [Reader.close, hf]⟩
  | cons g gs =>
    obtain ⟨hg, hgs⟩ := List.forall_mem_cons.1 hframes.2
    refine ⟨by simpa [Reader.close, hf] using hgoal, ?_⟩
    simp only [Reader.close, hf]
    exact List.forall_mem_cons.2 ⟨⟨hg.rest, hg.self⟩, hgs⟩

theorem Takes.settled {r r' : Reader} (h : Takes tok r r') (hr : r.Settled) : r'.Settled := by
  induction h with
  | goal hf ho =>
    have hopen := settled_of_takeAll hr.goal ho
    exact ⟨hopen.rest, hopen.frames⟩
  | @node r f fs o hf ho =>
    have hframes := hr.frames
    rw [hf, List.forall_mem_cons] at hframes
    have hopen := settled_of_takeAll hframes.1.rest ho
    refine ⟨hr.goal, List.forall_mem_append.2 ⟨hopen.frames, ?_⟩⟩
    refine List.forall_mem_cons.2 ⟨?_, hframes.2⟩
    exact ⟨hopen.rest, hframes.1.self.imp_left fun hself => settling_of_takeAll hself ho⟩
  | close hf _ _ ih => exact ih (hr.close hf)

end Reader

end PlatformGame.Parse
