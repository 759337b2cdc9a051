import PlatformGame.Proofs.Grammar.Predictive

/-! # What completes a reader

`Completes` says of a stack of open nodes which tokens complete it and what trees come of it.
Everything about a reader's run rests on two facts about taking a token, one for each direction:

* what completes the nodes after a token is taken, completes them before it with the token in front
  (`Opens.derives`, `Reader.completes_of_feed`);
* if the phrases are sure, a token that starts a completion is taken, and the rest of the completion
  completes what is left (`Derives.exists_take`, `Reader.exists_feed`). -/

namespace PlatformGame.Parse

open Grammar Source

variable {us : List Token} {xs : List Tree} {tok : Token} {e : Position}

/-- The tokens `us` complete the open nodes, innermost first, and then the phrases of `goal`. The
trees `pending` are complete nodes that still have to be added to the innermost open node, `e` is
where the text so far ends, `trees` stand outside all nodes, and `xs` are the trees of the whole. -/
def Completes (trees : List Tree) (goal : List Phrase) :
    List Frame → List Tree → Position → List Token → List Tree → Prop
  | [], pending, _, us, xs => ∃ ys, DerivesAll goal us ys ∧ xs = trees ++ pending ++ ys
  | f :: fs, pending, e, us, xs => ∃ us₁ us₂ ys, us = us₁ ++ us₂ ∧ DerivesAll f.rest us₁ ys ∧
      Completes trees goal fs
        [.node f.label (some ⟨f.first, endOf e us₁⟩) (f.parts ++ pending ++ ys)]
        (endOf e us₁) us₂ xs

theorem completes_goal_append {trees : List Tree} {goal ps : List Phrase} {fs : List Frame}
    {pending : List Tree} : Completes trees (goal ++ ps) fs pending e us xs ↔
      ∃ us₁ us₂ ys zs, us = us₁ ++ us₂ ∧ xs = ys ++ zs ∧
        Completes trees goal fs pending e us₁ ys ∧ DerivesAll ps us₂ zs := by
  induction fs generalizing pending e us with
  | nil =>
    constructor
    · rintro ⟨ys, h, rfl⟩
      obtain ⟨us₁, us₂, ys₁, ys₂, rfl, rfl, h₁, h₂⟩ := derivesAll_append_iff.1 h
      exact ⟨us₁, us₂, _, ys₂, rfl, by simp, ⟨ys₁, h₁, rfl⟩, h₂⟩
    · rintro ⟨us₁, us₂, _, zs, rfl, rfl, ⟨ys, h, rfl⟩, hps⟩
      exact ⟨ys ++ zs, derivesAll_append_iff.2 ⟨us₁, us₂, ys, zs, rfl, rfl, h, hps⟩, by simp⟩
  | cons f fs ih =>
    constructor
    · rintro ⟨us₁, us₂, ys, rfl, hf, h⟩
      obtain ⟨vs₁, vs₂, zs₁, zs₂, rfl, rfl, hfs, hps⟩ := ih.1 h
      exact ⟨us₁ ++ vs₁, vs₂, zs₁, zs₂, by simp, rfl, ⟨us₁, vs₁, ys, rfl, hf, hfs⟩, hps⟩
    · rintro ⟨_, vs₂, zs₁, zs₂, rfl, rfl, ⟨us₁, vs₁, ys, rfl, hf, hfs⟩, hps⟩
      exact ⟨us₁, vs₁ ++ vs₂, ys, by simp, hf, ih.2 ⟨vs₁, vs₂, zs₁, zs₂, rfl, rfl, hfs, hps⟩⟩

theorem completes_append_cons {trees : List Tree} {goal : List Phrase} {fs gs : List Frame}
    {f : Frame} {pending : List Tree} : Completes trees goal (fs ++ f :: gs) pending e us xs ↔
      ∃ us₁ us₂ ys, us = us₁ ++ us₂ ∧ Completes f.parts f.rest fs pending e us₁ ys ∧
        Completes trees goal gs [.node f.label (some ⟨f.first, endOf e us₁⟩) ys] (endOf e us₁)
          us₂ xs := by
  induction fs generalizing pending e us with
  | nil =>
    constructor
    · rintro ⟨us₁, us₂, ys, rfl, hf, h⟩
      exact ⟨us₁, us₂, _, rfl, ⟨ys, hf, rfl⟩, h⟩
    · rintro ⟨us₁, us₂, _, rfl, ⟨ys, hf, rfl⟩, h⟩
      exact ⟨us₁, us₂, ys, rfl, hf, h⟩
  | cons g fs ih =>
    constructor
    · rintro ⟨us₁, us₂, ys, rfl, hg, h⟩
      obtain ⟨vs₁, vs₂, zs, rfl, hfs, hgs⟩ := ih.1 h
      rw [← endOf_append] at hgs
      exact ⟨us₁ ++ vs₁, vs₂, zs, by simp, ⟨us₁, vs₁, ys, rfl, hg, hfs⟩, hgs⟩
    · rintro ⟨_, vs₂, zs, rfl, ⟨us₁, vs₁, ys, rfl, hg, hfs⟩, hgs⟩
      rw [endOf_append] at hgs
      exact ⟨us₁, vs₁ ++ vs₂, ys, by simp, hg, ih.2 ⟨vs₁, vs₂, zs, rfl, hfs, hgs⟩⟩

/-! ## Taking a token -/

/-- The tokens that complete what a token has opened. -/
def Opening.Completes (o : Opening) (e : Position) (us : List Token) (xs : List Tree) : Prop :=
  Parse.Completes o.parts o.rest o.frames [] e us xs

theorem Opening.completes_followedBy {o : Opening} {p : Phrase} :
    (o.followedBy p).Completes e us xs ↔
      ∃ us₁ us₂ ys zs, us = us₁ ++ us₂ ∧ xs = ys ++ zs ∧ o.Completes e us₁ ys ∧
        Derives p us₂ zs := by
  simp only [Opening.Completes, Opening.followedBy, completes_goal_append,
    derivesAll_singleton_iff]

theorem Opening.completes_enclose {o : Opening} {l : Label} {first : Position} :
    (o.enclose l first).Completes e us xs ↔
      ∃ ys, o.Completes e us ys ∧ xs = [.node l (some ⟨first, endOf e us⟩) ys] := by
  simp only [Opening.Completes, Opening.enclose, completes_append_cons]
  constructor
  · rintro ⟨us₁, us₂, ys, rfl, h, zs, hz, rfl⟩
    obtain ⟨rfl, rfl⟩ := derivesAll_nil_iff.1 hz
    exact ⟨ys, by simpa using h, by simp⟩
  · rintro ⟨ys, h, rfl⟩
    exact ⟨us, [], ys, by simp, h, [], .nil, by simp⟩

/-! ## Taking a token -/

/-- How taking a token opens a phrase: one rule for each way to the place of the token in it. -/
inductive Opens (tok : Token) : Phrase → Opening → Prop
  | token (keep : Bool) :
      Opens tok (.token tok.terminal keep) ⟨[], if keep then [Tree.ofToken tok] else [], []⟩
  | first : Opens tok p o → Opens tok (.seq p q) (o.followedBy q)
  | second : p.nullable = true → Opens tok q o → Opens tok (.seq p q) o
  | left : Opens tok p o → Opens tok (.alt p q) o
  | right : Opens tok q o → Opens tok (.alt p q) o
  | more : Opens tok p o → Opens tok (.many p) (o.followedBy (.many p))
  | comma : tok.terminal = .keyword .comma → Opens tok (.afterItem p) ⟨[], [], [.afterComma p]⟩
  | item : Opens tok p o → Opens tok (.afterComma p) (o.followedBy (.afterItem p))
  | node : Opens tok p o → Opens tok (.node l p) (o.enclose l tok.span.first)

theorem Opens.of_take {p : Phrase} {o : Opening} (h : take tok p = some o) : Opens tok p o := by
  induction p generalizing o with
  | nothing => cases h
  | token t keep =>
    simp only [take] at h
    split at h
    · next ht =>
      cases h
      exact ht ▸ .token keep
    · cases h
  | seq p q ihp ihq =>
    simp only [take] at h
    split at h
    · next o' ho =>
      cases h
      exact .first (ihp ho)
    · split at h
      · next hn => exact .second hn (ihq h)
      · cases h
  | alt p q ihp ihq =>
    simp only [take, Option.orElse_eq_orElse, Option.orElse_eq_or, Option.or_eq_some_iff] at h
    rcases h with h | ⟨-, h⟩
    · exact .left (ihp h)
    · exact .right (ihq h)
  | many p ih =>
    obtain ⟨o', ho, rfl⟩ := Option.map_eq_some_iff.1 h
    exact .more (ih ho)
  | afterItem p =>
    simp only [take] at h
    split at h
    · next ht =>
      cases h
      exact .comma ht
    · cases h
  | afterComma p ih =>
    obtain ⟨o', ho, rfl⟩ := Option.map_eq_some_iff.1 h
    exact .item (ih ho)
  | node l p ih =>
    obtain ⟨o', ho, rfl⟩ := Option.map_eq_some_iff.1 h
    exact .node (ih ho)

/-- The same for several phrases, one after the other. -/
inductive OpensAll (tok : Token) : List Phrase → Opening → Prop
  | head : Opens tok p o → OpensAll tok (p :: ps) { o with rest := o.rest ++ ps }
  | tail : p.nullable = true → OpensAll tok ps o → OpensAll tok (p :: ps) o

theorem OpensAll.of_takeAll {ps : List Phrase} {o : Opening} (h : takeAll tok ps = some o) :
    OpensAll tok ps o := by
  induction ps with
  | nil => cases h
  | cons p ps ih =>
    simp only [takeAll] at h
    split at h
    · next o' ho =>
      cases h
      exact .head (.of_take ho)
    · split at h
      · next hn => exact .tail hn (ih h)
      · cases h

theorem Opens.mem_first {p : Phrase} {o : Opening} (h : Opens tok p o) :
    tok.terminal ∈ p.first := by
  induction h with
  | token => exact List.mem_singleton.2 rfl
  | first _ ih | left _ ih => exact List.mem_append_left _ ih
  | second hn _ ih =>
    rw [Phrase.first, if_pos hn]
    exact List.mem_append_right _ ih
  | right _ ih => exact List.mem_append_right _ ih
  | more _ ih | item _ ih | node _ ih => exact ih
  | comma ht => exact List.mem_singleton.2 ht

/-- What completes a phrase after a token is taken makes a text of the phrase with it. -/
theorem Opens.derives {p : Phrase} {o : Opening} (h : Opens tok p o) (hs : p.solid = true)
    (hc : o.Completes tok.span.last us xs) : Derives p (tok :: us) xs := by
  induction h generalizing us xs with
  | token keep =>
    obtain ⟨ys, hy, rfl⟩ := hc
    obtain ⟨rfl, rfl⟩ := derivesAll_nil_iff.1 hy
    simpa using Derives.token tok keep
  | first _ ih =>
    simp only [Phrase.solid, Bool.and_eq_true] at hs
    obtain ⟨us₁, us₂, ys, zs, rfl, rfl, hp, hq⟩ := Opening.completes_followedBy.1 hc
    exact .seq (ih hs.1 hp) hq
  | second hn _ ih =>
    simp only [Phrase.solid, Bool.and_eq_true] at hs
    exact .seq (Phrase.derives_nil_of_nullable hs.1 hn) (ih hs.2 hc)
  | left _ ih =>
    simp only [Phrase.solid, Bool.and_eq_true] at hs
    exact .left (ih hs.1 hc)
  | right _ ih =>
    simp only [Phrase.solid, Bool.and_eq_true] at hs
    exact .right (ih hs.2 hc)
  | more _ ih =>
    obtain ⟨us₁, us₂, ys, zs, rfl, rfl, hp, hq⟩ := Opening.completes_followedBy.1 hc
    exact .more (ih hs hp) hq
  | comma ht =>
    obtain ⟨ys, hy, rfl⟩ := hc
    exact .comma ht (derivesAll_singleton_iff.1 hy)
  | item _ ih =>
    simp only [Phrase.solid, Bool.and_eq_true] at hs
    obtain ⟨us₁, us₂, ys, zs, rfl, rfl, hp, hq⟩ := Opening.completes_followedBy.1 hc
    exact .item (ih hs.1 hp) hq
  | @node _ _ l _ ih =>
    simp only [Phrase.solid, Bool.and_eq_true] at hs
    obtain ⟨ys, hp, rfl⟩ := Opening.completes_enclose.1 hc
    exact .node l (ih hs.1 hp)

/-- A text of a sure phrase is read by taking its first token and then completing what that
opens. -/
theorem Derives.exists_take {p : Phrase} {ts : List Token} (h : Derives p ts xs)
    {near : Terminal → Bool} {far : List Terminal} (hs : p.Sure near far) (hts : ts = tok :: us) :
    ∃ o, take tok p = some o ∧ o.Completes tok.span.last us xs := by
  induction h generalizing near far tok us with
  | nothing | manyEnd | itemEnd | commaEnd => cases hts
  | token t keep =>
    cases hts
    exact ⟨⟨[], if keep then [Tree.ofToken t] else [], []⟩, by simp [take], [], .nil, by simp⟩
  | @seq p ts xs q vs ys hp hq ihp ihq =>
    cases ts with
    | nil =>
      obtain ⟨hn, rfl⟩ := hp.eq_nil rfl
      have hfirst := hq.mem_first hs.seq.2.solid hts
      obtain ⟨o, ho, hc⟩ := ihq hs.seq.2 hts
      refine ⟨o, ?_, hc⟩
      -- the first part is empty, so the token must not be taken for a start of it
      have hnone : take tok p = none := by
        refine Option.eq_none_iff_forall_not_mem.2 fun o' ho' => ?_
        have := hs.seq.1.near_eq_false hn (Opens.of_take ho').mem_first
        simp [Phrase.ahead, hfirst] at this
      simp [take, hnone, hn, ho]
    | cons t ts =>
      cases hts
      obtain ⟨o, ho, hc⟩ := ihp hs.seq.1 rfl
      exact ⟨o.followedBy q, by simp [take, ho],
        Opening.completes_followedBy.2 ⟨ts, vs, xs, ys, rfl, rfl, hc, hq⟩⟩
  | left _ ih =>
    obtain ⟨o, ho, hc⟩ := ih hs.alt.1 hts
    exact ⟨o, by simp [take, ho], hc⟩
  | @right q ts xs p hq ih =>
    obtain ⟨o, ho, hc⟩ := ih hs.alt.2.1 hts
    refine ⟨o, ?_, hc⟩
    have hnone : take tok p = none := by
      refine Option.eq_none_iff_forall_not_mem.2 fun o' ho' => ?_
      exact hs.alt.2.2.1 _ (Opens.of_take ho').mem_first (hq.mem_first hs.alt.2.1.solid hts)
    simp [take, hnone, ho]
  | @more p ts xs vs ys hp hq ihp ihq =>
    cases ts with
    | nil =>
      obtain ⟨-, rfl⟩ := hp.eq_nil rfl
      exact ihq hs hts
    | cons t ts =>
      cases hts
      obtain ⟨o, ho, hc⟩ := ihp hs.many.1 rfl
      exact ⟨o.followedBy (.many p), by simp [take, ho],
        Opening.completes_followedBy.2 ⟨ts, vs, xs, ys, rfl, rfl, hc, hq⟩⟩
  | @comma p ts xs t ht hr =>
    cases hts
    exact ⟨⟨[], [], [.afterComma p]⟩, by simp only [take, if_pos ht], xs,
      derivesAll_singleton_iff.2 hr, by simp⟩
  | @item p ts xs vs ys hp hq ihp ihq =>
    obtain ⟨hsp, hn, -⟩ := hs.afterComma
    cases ts with
    | nil => simp [(hp.eq_nil rfl).1] at hn
    | cons t ts =>
      cases hts
      obtain ⟨o, ho, hc⟩ := ihp hsp rfl
      exact ⟨o.followedBy (.afterItem p), by simp [take, ho],
        Opening.completes_followedBy.2 ⟨ts, vs, xs, ys, rfl, rfl, hc, hq⟩⟩
  | @node p ts xs l t _ ih =>
    cases hts
    obtain ⟨o, ho, hc⟩ := ih hs.node.1 rfl
    exact ⟨o.enclose l t.span.first, by simp [take, ho],
      Opening.completes_enclose.2 ⟨_, hc, rfl⟩⟩

end PlatformGame.Parse
