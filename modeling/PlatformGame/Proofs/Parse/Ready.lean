import PlatformGame.Proofs.Parse.Completion

/-! # Ready readers

A reader is ready if the phrases left in its open nodes are sure at their places. Taking a token
keeps a reader ready (`Phrase.Sure.opening`), and then also says among what the next token is
recognised: after the token, names are told from keywords as far as `lexical` says, and no place
asks for a name and a clashing keyword at once. -/

namespace PlatformGame.Parse

open Grammar Source

/-- What may come next while texts of the given phrases and then something of `near` are read. -/
def aheadAll : List Phrase → (Terminal → Bool) → Terminal → Bool
  | [], near => near
  | p :: ps, near => p.ahead (aheadAll ps near)

/-- Phrases that are sure one after the other. -/
def SureAll : List Phrase → (Terminal → Bool) → List Terminal → Prop
  | [], _, _ => True
  | p :: ps, near, far => p.Sure (aheadAll ps near) (firstOfAll ps far) ∧ SureAll ps near far

theorem aheadAll_append (ps qs : List Phrase) (near : Terminal → Bool) :
    aheadAll (ps ++ qs) near = aheadAll ps (aheadAll qs near) := by
  induction ps with
  | nil => rfl
  | cons p ps ih => simp only [List.cons_append, aheadAll, ih]

theorem firstOfAll_append (ps qs : List Phrase) (far : List Terminal) :
    firstOfAll (ps ++ qs) far = firstOfAll ps (firstOfAll qs far) := by
  induction ps with
  | nil => rfl
  | cons p ps ih => simp only [List.cons_append, firstOfAll, ih]

theorem sureAll_append {ps qs : List Phrase} {near : Terminal → Bool} {far : List Terminal} :
    SureAll (ps ++ qs) near far ↔
      SureAll ps (aheadAll qs near) (firstOfAll qs far) ∧ SureAll qs near far := by
  induction ps with
  | nil => simp [SureAll]
  | cons p ps ih =>
    simp only [List.cons_append, SureAll, aheadAll_append, firstOfAll_append, ih, and_assoc]

theorem SureAll.solid {ps : List Phrase} {near : Terminal → Bool} {far : List Terminal}
    (h : SureAll ps near far) : ∀ p ∈ ps, p.solid = true := by
  induction ps with
  | nil => simp
  | cons p ps ih =>
    intro q hq
    rcases List.mem_cons.1 hq with rfl | hq
    · exact h.1.solid
    · exact ih h.2 q hq

/-- What may come next while the given nodes are open and `far` stands after them. -/
def expectedFrom (far : List Terminal) : List Frame → List Terminal
  | [] => far
  | f :: fs => firstOfAll f.rest (expectedFrom far fs)

theorem expectedIn_eq (goal : List Phrase) (fs : List Frame) :
    Reader.expectedIn goal fs = expectedFrom (firstOfAll goal [.endOfInput]) fs := by
  induction fs with
  | nil => rfl
  | cons f fs ih => simp only [Reader.expectedIn, expectedFrom, ih]

theorem expectedFrom_append (far : List Terminal) (fs gs : List Frame) :
    expectedFrom far (fs ++ gs) = expectedFrom (expectedFrom far gs) fs := by
  induction fs with
  | nil => rfl
  | cons f fs ih => simp only [List.cons_append, expectedFrom, ih]

/-- Open nodes whose phrases are sure, `far` standing after all of them. -/
def ReadyFrames (far : List Terminal) : List Frame → Prop
  | [] => True
  | f :: fs => SureAll f.rest (mayFollow f.label) (expectedFrom far fs) ∧
      (∀ t ∈ expectedFrom far fs, t ∈ follow f.label) ∧ ReadyFrames far fs

theorem readyFrames_append {far : List Terminal} {fs gs : List Frame} :
    ReadyFrames far (fs ++ gs) ↔ ReadyFrames (expectedFrom far gs) fs ∧ ReadyFrames far gs := by
  induction fs with
  | nil => simp [ReadyFrames]
  | cons f fs ih =>
    simp only [List.cons_append, ReadyFrames, expectedFrom_append, ih, and_assoc]

/-! ## Taking a token -/

/-- The terminals among which the next token is recognised once an opening is made, as far as they
are known. -/
def Opening.near (o : Opening) (near : Terminal → Bool) : Terminal → Bool :=
  match o.frames with
  | [] => aheadAll o.rest near
  | f :: _ => aheadAll f.rest (mayFollow f.label)

/-- What a token has opened is ready, and names are told from keywords after it. -/
structure Opening.Ready (o : Opening) (t : Terminal) (near : Terminal → Bool)
    (far : List Terminal) : Prop where
  rest : SureAll o.rest near far
  frames : ReadyFrames (firstOfAll o.rest far) o.frames
  lexical : lexical t (o.near near) = true
  apart : apart (expectedFrom (firstOfAll o.rest far) o.frames) = true

namespace Opening.Ready

variable {o : Opening} {t : Terminal} {near : Terminal → Bool} {far : List Terminal}

/-- More phrases to be read after those that the token has left. -/
theorem append (ps : List Phrase) (h : o.Ready t (aheadAll ps near) (firstOfAll ps far))
    (hps : SureAll ps near far) : ({ o with rest := o.rest ++ ps } : Opening).Ready t near far where
  rest := sureAll_append.2 ⟨h.rest, hps⟩
  frames := by
    rw [firstOfAll_append]
    exact h.frames
  lexical := by
    have := h.lexical
    simp only [Opening.near, aheadAll_append] at this ⊢
    exact this
  apart := by
    rw [firstOfAll_append]
    exact h.apart

theorem enclose {l : Label} {first : Position} (h : o.Ready t (mayFollow l) far)
    (hl : ∀ u ∈ far, u ∈ follow l) : (o.enclose l first).Ready t near far where
  rest := trivial
  frames := readyFrames_append.2 ⟨h.frames, h.rest, hl, trivial⟩
  lexical := by
    have := h.lexical
    unfold Opening.near Opening.enclose at *
    cases hf : o.frames with
    | nil => simpa [hf] using this
    | cons f fs => simpa [hf] using this
  apart := by
    simp only [Opening.enclose, expectedFrom_append, expectedFrom, firstOfAll]
    exact h.apart

end Opening.Ready

end PlatformGame.Parse

namespace PlatformGame.Grammar

open Parse Source

theorem Phrase.Sure.opening {p : Phrase} {near : Terminal → Bool} {far : List Terminal}
    (hs : p.Sure near far) {tok : Token} {o : Opening} (h : Opens tok p o) :
    o.Ready tok.terminal near far := by
  induction h generalizing near far with
  | token keep =>
    have hp := hs.predictive
    simp only [Phrase.predictive, Bool.and_eq_true] at hp
    exact ⟨trivial, trivial, hp.1, hp.2⟩
  | first _ ih => exact (ih hs.seq.1).append [_] ⟨hs.seq.2, trivial⟩
  | second _ _ ih => exact ih hs.seq.2
  | left _ ih => exact ih hs.alt.1
  | right _ ih => exact ih hs.alt.2.1
  | more _ ih => exact (ih hs.many.1).append [_] ⟨hs, trivial⟩
  | comma ht =>
    obtain ⟨-, -, -, -, hl, ha, -⟩ := hs.afterItem.afterComma
    rw [ht]
    exact ⟨⟨hs.afterItem, trivial⟩, trivial, hl, ha⟩
  | item _ ih =>
    obtain ⟨hp, -, -, -, -, -, hi⟩ := hs.afterComma
    exact (ih hp).append [_] ⟨hi, trivial⟩
  | node _ ih =>
    obtain ⟨hp, -, hl⟩ := hs.node
    exact (ih hp).enclose hl

end PlatformGame.Grammar

namespace PlatformGame.Parse

open Grammar Source

variable {ps : List Phrase} {tok : Token} {far : List Terminal} {o : Opening} {us : List Token}
  {xs : List Tree}

/-! ## Taking a token in several phrases -/

theorem mem_firstOfAll_of_takeAll (h : takeAll tok ps = some o) (far : List Terminal) :
    tok.terminal ∈ firstOfAll ps far := by
  replace h := OpensAll.of_takeAll h
  induction h with
  | head h => exact List.mem_append_left _ h.mem_first
  | tail hn _ ih =>
    rw [firstOfAll, Phrase.firstOr, if_pos hn]
    exact List.mem_append_right _ ih

theorem DerivesAll.of_takeAll (hs : ∀ p ∈ ps, p.solid = true) (h : takeAll tok ps = some o)
    (hc : o.Completes tok.span.last us xs) : DerivesAll ps (tok :: us) xs := by
  replace h := OpensAll.of_takeAll h
  induction h with
  | head h =>
    rw [List.forall_mem_cons] at hs
    obtain ⟨us₁, us₂, ys, zs, rfl, rfl, h₁, h₂⟩ := completes_goal_append.1 hc
    exact .cons (h.derives hs.1 h₁) h₂
  | tail hn _ ih =>
    rw [List.forall_mem_cons] at hs
    exact .cons (Phrase.derives_nil_of_nullable hs.1 hn) (ih hs.2 hc)

/-- A token that stands after all phrases is not taken for a start of one of them. -/
theorem SureAll.takeAll_eq_none {near : Terminal → Bool} (hs : SureAll ps near far)
    (hn : allNullable ps = true) (ht : near tok.terminal = true) : takeAll tok ps = none := by
  have hnear : ∀ qs, allNullable qs = true → aheadAll qs near tok.terminal = true := by
    intro qs hqs
    induction qs with
    | nil => exact ht
    | cons q qs ih =>
      rw [allNullable_cons, Bool.and_eq_true] at hqs
      simp [aheadAll, Phrase.ahead, hqs.1, ih hqs.2]
  induction ps with
  | nil => rfl
  | cons p ps ih =>
    rw [allNullable_cons, Bool.and_eq_true] at hn
    have hnone : take tok p = none := by
      refine Option.eq_none_iff_forall_not_mem.2 fun o ho => ?_
      have := hs.1.near_eq_false hn.1 (Opens.of_take ho).mem_first
      rw [hnear ps hn.2] at this
      cases this
    simp [takeAll, hnone, ih hs.2 hn.2]

theorem DerivesAll.mem_firstOfAll (hs : ∀ p ∈ ps, p.solid = true) (h : DerivesAll ps (tok :: us) xs)
    (far : List Terminal) : tok.terminal ∈ firstOfAll ps far := by
  induction ps generalizing xs with
  | nil => cases (derivesAll_nil_iff.1 h).1
  | cons p ps ih =>
    obtain ⟨vs, ws, ys, zs, hts, rfl, hp, hps⟩ := derivesAll_cons_iff.1 h
    have hsolid := hs p List.mem_cons_self
    simp only [firstOfAll, Phrase.firstOr, List.mem_append]
    cases vs with
    | nil =>
      rw [if_pos (hp.eq_nil rfl).1]
      rw [List.nil_append] at hts
      subst hts
      exact .inr (ih (fun q hq => hs q (List.mem_cons_of_mem _ hq)) hps)
    | cons v vs =>
      cases hts
      exact .inl (hp.mem_first hsolid rfl)

theorem aheadAll_of_mem_firstOfAll {near : Terminal → Bool} (hf : ∀ t ∈ far, near t = true)
    {t : Terminal} (h : t ∈ firstOfAll ps far) : aheadAll ps near t = true := by
  induction ps with
  | nil => exact hf t h
  | cons p ps ih =>
    simp only [firstOfAll, Phrase.firstOr, List.mem_append] at h
    simp only [aheadAll, Phrase.ahead, Bool.or_eq_true, List.contains_eq_mem, decide_eq_true_eq,
      Bool.and_eq_true]
    rcases h with h | h
    · exact .inl h
    · split at h
      · next hn => exact .inr ⟨hn, ih h⟩
      · cases h

theorem DerivesAll.exists_takeAll {near : Terminal → Bool} (hs : SureAll ps near far)
    (h : DerivesAll ps (tok :: us) xs) :
    ∃ o, takeAll tok ps = some o ∧ o.Completes tok.span.last us xs := by
  induction ps generalizing xs with
  | nil => cases (derivesAll_nil_iff.1 h).1
  | cons p ps ih =>
    obtain ⟨vs, ws, ys, zs, hts, rfl, hp, hps⟩ := derivesAll_cons_iff.1 h
    cases vs with
    | nil =>
      obtain ⟨hn, rfl⟩ := hp.eq_nil rfl
      rw [List.nil_append] at hts
      subst hts
      obtain ⟨o, ho, hc⟩ := ih hs.2 hps
      refine ⟨o, ?_, hc⟩
      have hnone : take tok p = none := by
        refine Option.eq_none_iff_forall_not_mem.2 fun o' ho' => ?_
        have hfar := hps.mem_firstOfAll hs.2.solid []
        have := hs.1.near_eq_false hn (Opens.of_take ho').mem_first
        rw [aheadAll_of_mem_firstOfAll (by simp) hfar] at this
        cases this
      simp [takeAll, hnone, hn, ho]
    | cons v vs =>
      cases hts
      obtain ⟨o, ho, hc⟩ := hp.exists_take hs.1 rfl
      exact ⟨{ o with rest := o.rest ++ ps }, by simp [takeAll, ho],
        completes_goal_append.2 ⟨vs, ws, ys, zs, rfl, rfl, hc, hps⟩⟩

theorem SureAll.opening {near : Terminal → Bool} (hs : SureAll ps near far)
    (h : takeAll tok ps = some o) : o.Ready tok.terminal near far := by
  replace h := OpensAll.of_takeAll h
  induction h with
  | head h => exact (hs.1.opening h).append _ hs.2
  | tail _ _ ih => exact ih hs.2

end PlatformGame.Parse
