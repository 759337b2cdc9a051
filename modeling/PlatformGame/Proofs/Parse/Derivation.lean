import PlatformGame.Parse.Reader

/-! # Derivations

`Derives p ts xs` says that the tokens `ts` form a text of the phrase `p` and that `xs` are the
trees it leaves. The relation follows the phrases and knows nothing of readers. Tokens bring their
spans, so the trees of a derivation are trees with spans.

A listing is defined by what may stand after an item and after a comma: further items, each after a
comma, and at the end possibly one more comma. -/

namespace PlatformGame.Parse

open Grammar Source

/-- Where a text ends that goes on from `e` with the given tokens. -/
def endOf (e : Position) (ts : List Token) : Position := ts.foldl (fun _ t => t.span.last) e

@[simp] theorem endOf_nil (e : Position) : endOf e [] = e := rfl

@[simp] theorem endOf_cons (e : Position) (t : Token) (ts : List Token) :
    endOf e (t :: ts) = endOf t.span.last ts := rfl

theorem endOf_append (e : Position) (ts us : List Token) :
    endOf e (ts ++ us) = endOf (endOf e ts) us := List.foldl_append

/-- The tokens of a phrase and the trees they leave. A node has at least one token, from whose start
its span goes to the end of its last. -/
inductive Derives : Phrase → List Token → List Tree → Prop
  | nothing : Derives .nothing [] []
  | token (tok : Token) (keep : Bool) :
    Derives (.token tok.terminal keep) [tok] (if keep then [Tree.ofToken tok] else [])
  | seq : Derives p ts xs → Derives q us ys → Derives (.seq p q) (ts ++ us) (xs ++ ys)
  | left : Derives p ts xs → Derives (.alt p q) ts xs
  | right : Derives q ts xs → Derives (.alt p q) ts xs
  | manyEnd : Derives (.many p) [] []
  | more : Derives p ts xs → Derives (.many p) us ys → Derives (.many p) (ts ++ us) (xs ++ ys)
  | itemEnd : Derives (.afterItem item) [] []
  | comma {tok : Token} : tok.terminal = .keyword .comma → Derives (.afterComma item) ts xs →
    Derives (.afterItem item) (tok :: ts) xs
  | commaEnd : Derives (.afterComma item) [] []
  | item : Derives item ts xs → Derives (.afterItem item) us ys →
    Derives (.afterComma item) (ts ++ us) (xs ++ ys)
  | node (l : Label) {tok : Token} : Derives p (tok :: ts) xs →
    Derives (.node l p) (tok :: ts)
      [.node l (some ⟨tok.span.first, endOf tok.span.last ts⟩) xs]

/-- The tokens of several phrases, one after the other. -/
inductive DerivesAll : List Phrase → List Token → List Tree → Prop
  | nil : DerivesAll [] [] []
  | cons : Derives p ts xs → DerivesAll ps us ys → DerivesAll (p :: ps) (ts ++ us) (xs ++ ys)

variable {xs : List Tree} {ts : List Token} {ps : List Phrase}

/-! ## Inversion -/

theorem derives_token_iff {t : Terminal} {keep : Bool} : Derives (.token t keep) ts xs ↔
      ∃ tok : Token, tok.terminal = t ∧ ts = [tok] ∧
        xs = if keep then [Tree.ofToken tok] else [] := by
  constructor
  · rintro ⟨⟩
    exact ⟨_, rfl, rfl, rfl⟩
  · rintro ⟨tok, rfl, rfl, rfl⟩
    exact .token tok keep

theorem derives_seq_iff {p q : Phrase} : Derives (.seq p q) ts xs ↔
      ∃ us vs ys zs, ts = us ++ vs ∧ xs = ys ++ zs ∧ Derives p us ys ∧ Derives q vs zs := by
  constructor
  · rintro ⟨⟩
    exact ⟨_, _, _, _, rfl, rfl, ‹_›, ‹_›⟩
  · rintro ⟨_, _, _, _, rfl, rfl, hp, hq⟩
    exact .seq hp hq

theorem derives_alt_iff {p q : Phrase} :
    Derives (.alt p q) ts xs ↔ Derives p ts xs ∨ Derives q ts xs := by
  constructor
  · rintro (⟨⟩ | ⟨⟩)
    · exact .inl ‹_›
    · exact .inr ‹_›
  · rintro (h | h)
    · exact .left h
    · exact .right h

theorem derives_nothing_iff : Derives .nothing ts xs ↔ ts = [] ∧ xs = [] := by
  constructor
  · rintro ⟨⟩
    exact ⟨rfl, rfl⟩
  · rintro ⟨rfl, rfl⟩
    exact .nothing

theorem derives_node_iff {l : Label} {p : Phrase} : Derives (.node l p) ts xs ↔
      ∃ tok us ys, ts = tok :: us ∧ Derives p (tok :: us) ys ∧
        xs = [.node l (some ⟨tok.span.first, endOf tok.span.last us⟩) ys] := by
  constructor
  · rintro ⟨⟩
    exact ⟨_, _, _, rfl, ‹_›, rfl⟩
  · rintro ⟨tok, us, ys, rfl, h, rfl⟩
    exact .node l h

/-- A keyword in front leaves no tree. -/
theorem derives_skip_iff {k : Keyword} {p : Phrase} : Derives (.seq (.word k) p) ts xs ↔
      ∃ tok us, tok.terminal = .keyword k ∧ ts = tok :: us ∧ Derives p us xs := by
  constructor
  · intro h
    obtain ⟨_, us, _, zs, rfl, rfl, hword, hp⟩ := derives_seq_iff.1 h
    obtain ⟨tok, hk, rfl, rfl⟩ := derives_token_iff.1 hword
    exact ⟨tok, us, hk, rfl, hp⟩
  · rintro ⟨tok, us, hk, rfl, hp⟩
    exact .seq (derives_token_iff.2 ⟨tok, hk, rfl, rfl⟩) hp

theorem derives_last_iff {p : Phrase} : Derives (.seq p .nothing) ts xs ↔ Derives p ts xs := by
  constructor
  · intro h
    obtain ⟨_, _, _, _, rfl, rfl, hp, hnothing⟩ := derives_seq_iff.1 h
    obtain ⟨rfl, rfl⟩ := derives_nothing_iff.1 hnothing
    rwa [List.append_nil, List.append_nil]
  · intro h
    have hseq := Derives.seq h .nothing
    rwa [List.append_nil, List.append_nil] at hseq

theorem exists_derives_of_braces {p : Phrase} (h : Derives (braces p) ts xs) :
    ∃ us, (∀ u ∈ us, u ∈ ts) ∧ Derives p us xs := by
  obtain ⟨_, _, -, rfl, hinside⟩ := derives_skip_iff.1 h
  obtain ⟨us, _, _, _, rfl, rfl, hp, hclose⟩ := derives_seq_iff.1 hinside
  obtain ⟨_, -, -, rfl⟩ := derives_token_iff.1 (derives_last_iff.1 hclose)
  refine ⟨us, fun u hu => List.mem_cons_of_mem _ (List.mem_append_left _ hu), ?_⟩
  rwa [if_neg Bool.false_ne_true, List.append_nil]

theorem derivesAll_cons_iff {p : Phrase} : DerivesAll (p :: ps) ts xs ↔
      ∃ us vs ys zs, ts = us ++ vs ∧ xs = ys ++ zs ∧ Derives p us ys ∧ DerivesAll ps vs zs := by
  constructor
  · rintro ⟨⟩
    exact ⟨_, _, _, _, rfl, rfl, ‹_›, ‹_›⟩
  · rintro ⟨_, _, _, _, rfl, rfl, hp, hq⟩
    exact .cons hp hq

theorem derivesAll_nil_iff : DerivesAll [] ts xs ↔ ts = [] ∧ xs = [] := by
  constructor
  · rintro ⟨⟩
    exact ⟨rfl, rfl⟩
  · rintro ⟨rfl, rfl⟩
    exact .nil

theorem derivesAll_singleton_iff {p : Phrase} : DerivesAll [p] ts xs ↔ Derives p ts xs := by
  rw [derivesAll_cons_iff]
  constructor
  · rintro ⟨us, vs, ys, zs, rfl, rfl, hp, hq⟩
    obtain ⟨rfl, rfl⟩ := derivesAll_nil_iff.1 hq
    simpa using hp
  · intro h
    exact ⟨ts, [], xs, [], by simp, by simp, h, .nil⟩

theorem derivesAll_append_iff {qs : List Phrase} : DerivesAll (ps ++ qs) ts xs ↔
      ∃ us vs ys zs, ts = us ++ vs ∧ xs = ys ++ zs ∧ DerivesAll ps us ys ∧
        DerivesAll qs vs zs := by
  induction ps generalizing ts xs with
  | nil =>
    constructor
    · intro h
      exact ⟨[], ts, [], xs, rfl, rfl, .nil, h⟩
    · rintro ⟨us, vs, ys, zs, rfl, rfl, hp, hq⟩
      obtain ⟨rfl, rfl⟩ := derivesAll_nil_iff.1 hp
      exact hq
  | cons p ps ih =>
    rw [List.cons_append, derivesAll_cons_iff]
    constructor
    · rintro ⟨us, vs, ys, zs, rfl, rfl, hp, hr⟩
      obtain ⟨us', vs', ys', zs', rfl, rfl, hps, hqs⟩ := ih.1 hr
      exact ⟨us ++ us', vs', ys ++ ys', zs', by simp, by simp, .cons hp hps, hqs⟩
    · rintro ⟨us, vs, ys, zs, rfl, rfl, hpps, hqs⟩
      obtain ⟨us₁, us₂, ys₁, ys₂, rfl, rfl, hp, hps⟩ := derivesAll_cons_iff.1 hpps
      exact ⟨us₁, us₂ ++ vs, ys₁, ys₂ ++ zs, by simp, by simp, hp,
        ih.2 ⟨us₂, vs, ys₂, zs, rfl, rfl, hps, hqs⟩⟩

/-! ## Empty texts and first tokens -/

/-- A text without tokens is one of a nullable phrase and leaves no trees. -/
theorem Derives.eq_nil {p : Phrase} (h : Derives p ts xs) (hts : ts = []) :
    p.nullable = true ∧ xs = [] := by
  induction h with
  | nothing | manyEnd | itemEnd | commaEnd => exact ⟨rfl, rfl⟩
  | token | comma | node => cases hts
  | seq _ _ ihp ihq =>
    obtain ⟨rfl, rfl⟩ := List.append_eq_nil_iff.1 hts
    obtain ⟨hp, rfl⟩ := ihp rfl
    obtain ⟨hq, rfl⟩ := ihq rfl
    exact ⟨by simp [Phrase.nullable, hp, hq], rfl⟩
  | left _ ih =>
    obtain ⟨hp, rfl⟩ := ih hts
    exact ⟨by simp [Phrase.nullable, hp], rfl⟩
  | right _ ih =>
    obtain ⟨hq, rfl⟩ := ih hts
    exact ⟨by simp [Phrase.nullable, hq], rfl⟩
  | more _ _ ihp ihq | item _ _ ihp ihq =>
    obtain ⟨rfl, rfl⟩ := List.append_eq_nil_iff.1 hts
    obtain ⟨-, rfl⟩ := ihp rfl
    obtain ⟨-, rfl⟩ := ihq rfl
    exact ⟨rfl, rfl⟩

theorem allNullable_cons {p : Phrase} :
    allNullable (p :: ps) = (p.nullable && allNullable ps) := rfl

theorem DerivesAll.eq_nil (h : DerivesAll ps [] xs) : allNullable ps = true ∧ xs = [] := by
  induction ps generalizing xs with
  | nil => exact ⟨rfl, (derivesAll_nil_iff.1 h).2⟩
  | cons p ps ih =>
    obtain ⟨us, vs, ys, zs, hts, rfl, hp, hps⟩ := derivesAll_cons_iff.1 h
    obtain ⟨rfl, rfl⟩ := List.append_eq_nil_iff.1 hts.symm
    obtain ⟨hn, rfl⟩ := hp.eq_nil rfl
    obtain ⟨hns, rfl⟩ := ih hps
    exact ⟨by rw [allNullable_cons, hn, hns]; rfl, rfl⟩

end PlatformGame.Parse

namespace PlatformGame.Grammar.Phrase

open Parse Source

/-- Every node inside the phrase, and every item of a listing, has at least one token. -/
def solid : Phrase → Bool
  | nothing | token _ _ => true
  | seq p q | alt p q => p.solid && q.solid
  | many p => p.solid
  | afterItem p | afterComma p | node _ p => p.solid && !p.nullable

theorem derives_nil_of_nullable {p : Phrase} (hs : p.solid = true) (hn : p.nullable = true) :
    Derives p [] [] := by
  induction p with
  | nothing => exact .nothing
  | token t keep => cases hn
  | seq p q ihp ihq =>
    simp only [solid, nullable, Bool.and_eq_true] at hs hn
    exact .seq (ihp hs.1 hn.1) (ihq hs.2 hn.2)
  | alt p q ihp ihq =>
    simp only [solid, nullable, Bool.and_eq_true, Bool.or_eq_true] at hs hn
    rcases hn with hn | hn
    · exact .left (ihp hs.1 hn)
    · exact .right (ihq hs.2 hn)
  | many p => exact .manyEnd
  | afterItem item => exact .itemEnd
  | afterComma item => exact .commaEnd
  | node l p =>
    simp only [solid, nullable, Bool.and_eq_true, Bool.not_eq_true'] at hs hn
    simp [hs.2] at hn

end PlatformGame.Grammar.Phrase

namespace PlatformGame.Parse

open Grammar Source

theorem derivesAll_nil_of_nullable {ps : List Phrase} (hs : ∀ p ∈ ps, p.solid = true)
    (hn : allNullable ps = true) : DerivesAll ps [] [] := by
  induction ps with
  | nil => exact .nil
  | cons p ps ih =>
    rw [allNullable_cons, Bool.and_eq_true] at hn
    have hp := Phrase.derives_nil_of_nullable (hs p List.mem_cons_self) hn.1
    exact .cons hp (ih (fun q hq => hs q (List.mem_cons_of_mem _ hq)) hn.2)

theorem Derives.mem_first {p : Phrase} {ts : List Token} {xs : List Tree} (h : Derives p ts xs)
    (hs : p.solid = true) {tok : Token} {us : List Token} (hts : ts = tok :: us) :
    tok.terminal ∈ p.first := by
  induction h generalizing tok us with
  | nothing | manyEnd | itemEnd | commaEnd => cases hts
  | token =>
    cases hts
    exact List.mem_singleton_self _
  | @seq p ts xs q us' ys hp _ ihp ihq =>
    simp only [Phrase.solid, Bool.and_eq_true] at hs
    simp only [Phrase.first, List.mem_append]
    cases ts with
    | nil =>
      rw [if_pos (hp.eq_nil rfl).1]
      exact .inr (ihq hs.2 hts)
    | cons t ts =>
      cases hts
      exact .inl (ihp hs.1 rfl)
  | left _ ih =>
    simp only [Phrase.solid, Bool.and_eq_true] at hs
    exact List.mem_append_left _ (ih hs.1 hts)
  | right _ ih =>
    simp only [Phrase.solid, Bool.and_eq_true] at hs
    exact List.mem_append_right _ (ih hs.2 hts)
  | @more p ts xs us' ys hp _ ihp ihq =>
    cases ts with
    | nil => exact ihq hs hts
    | cons t ts =>
      cases hts
      exact ihp hs rfl
  | comma h =>
    cases hts
    exact List.mem_singleton.2 h
  | @item item ts xs us' ys hp _ ihp ihq =>
    simp only [Phrase.solid, Bool.and_eq_true, Bool.not_eq_true'] at hs
    cases ts with
    | nil => simp [(hp.eq_nil rfl).1] at hs
    | cons t ts =>
      cases hts
      exact ihp hs.1 rfl
  | node l _ ih =>
    simp only [Phrase.solid, Bool.and_eq_true] at hs
    exact ih hs.1 hts

end PlatformGame.Parse
