import PlatformGame.Proofs.Parse.Feed

/-! # Sentences

What terminals a text of a phrase may have, whatever its tokens are spelled like. Every phrase has a
text, and one that starts with any terminal of `Phrase.first` (`exists_derives_cons`), so a reader
can always be completed, and the terminals that it expects are those with which a completion can
start (`Reader.mem_expectedIn_iff`). -/

namespace PlatformGame.Grammar

/-- The terminals of the phrase, at any depth, pass the check. -/
def Phrase.allTerminals (check : Terminal → Bool) : Phrase → Bool
  | nothing => true
  | token t _ => check t
  | seq p q | alt p q => p.allTerminals check && q.allTerminals check
  | many p => p.allTerminals check
  | afterItem p | afterComma p => check (.keyword .comma) && p.allTerminals check
  | node _ p => p.allTerminals check

end PlatformGame.Grammar

namespace PlatformGame.Parse

open Grammar Source

variable {p : Phrase} {t : Terminal} {far : List Terminal} {ps goal : List Phrase}
  {trees : List Tree} {fs : List Frame}

/-- The terminals of a text of the phrase, in order. -/
def Sentence (p : Phrase) (w : List Terminal) : Prop :=
  ∃ toks xs, Derives p toks xs ∧ toks.map Token.terminal = w

/-- The terminals begin a sentence that the end of input closes. -/
def Viable (p : Phrase) (w : List Terminal) : Prop :=
  ∃ us v, Sentence p v ∧ w ++ us = v ++ [.endOfInput]

theorem Derives.forall_terminal {toks : List Token} {xs : List Tree} (h : Derives p toks xs)
    {check : Terminal → Bool} (hp : p.allTerminals check = true) :
    ∀ tok ∈ toks, check tok.terminal = true := by
  induction h with
  | nothing | manyEnd | itemEnd | commaEnd => exact List.forall_mem_nil _
  | token tok keep => exact List.forall_mem_singleton.2 hp
  | seq _ _ ihp ihq =>
    obtain ⟨hp, hq⟩ := Bool.and_eq_true_iff.1 hp
    exact List.forall_mem_append.2 ⟨ihp hp, ihq hq⟩
  | left _ ih => exact ih (Bool.and_eq_true_iff.1 hp).1
  | right _ ih => exact ih (Bool.and_eq_true_iff.1 hp).2
  | more _ _ ihp ihq => exact List.forall_mem_append.2 ⟨ihp hp, ihq hp⟩
  | item _ _ ihp ihq =>
    exact List.forall_mem_append.2 ⟨ihp (Bool.and_eq_true_iff.1 hp).2, ihq hp⟩
  | comma hcomma _ ih =>
    exact List.forall_mem_cons.2 ⟨hcomma ▸ (Bool.and_eq_true_iff.1 hp).1, ih hp⟩
  | node l _ ih => exact ih hp

theorem Derives.terminal_ne_endOfInput {e : String × Phrase} (he : e ∈ entries) {toks : List Token}
    {xs : List Tree} (h : Derives e.2 toks xs) : ∀ tok ∈ toks, tok.terminal ≠ .endOfInput := by
  have hall : entries.all (·.2.allTerminals (· != .endOfInput)) = true := by decide
  intro tok htok
  simpa using h.forall_terminal (List.all_eq_true.1 hall e he) tok htok

/-! ## Tokens may be exchanged -/

/-- Only the terminals of its tokens make a text one of a phrase. -/
theorem Derives.exists_of_terminals {toks : List Token} {xs : List Tree} (h : Derives p toks xs)
    {toks' : List Token} (heq : toks'.map Token.terminal = toks.map Token.terminal) :
    ∃ xs', Derives p toks' xs' := by
  induction h generalizing toks' with
  | nothing =>
    rw [List.map_eq_nil_iff.1 heq]
    exact ⟨_, .nothing⟩
  | token tok keep =>
    obtain ⟨tok', rfl, hterminal⟩ := List.map_eq_singleton_iff.1 heq
    exact ⟨_, derives_token_iff.2 ⟨tok', hterminal, rfl, rfl⟩⟩
  | seq _ _ ihp ihq =>
    rw [List.map_append] at heq
    obtain ⟨ts, us, rfl, hts, hus⟩ := List.map_eq_append_iff.1 heq
    obtain ⟨xs, hp⟩ := ihp hts
    obtain ⟨ys, hq⟩ := ihq hus
    exact ⟨_, .seq hp hq⟩
  | left _ ih =>
    obtain ⟨xs, h⟩ := ih heq
    exact ⟨xs, .left h⟩
  | right _ ih =>
    obtain ⟨xs, h⟩ := ih heq
    exact ⟨xs, .right h⟩
  | manyEnd =>
    rw [List.map_eq_nil_iff.1 heq]
    exact ⟨_, .manyEnd⟩
  | more _ _ ihp ihq =>
    rw [List.map_append] at heq
    obtain ⟨ts, us, rfl, hts, hus⟩ := List.map_eq_append_iff.1 heq
    obtain ⟨xs, hp⟩ := ihp hts
    obtain ⟨ys, hq⟩ := ihq hus
    exact ⟨_, .more hp hq⟩
  | itemEnd =>
    rw [List.map_eq_nil_iff.1 heq]
    exact ⟨_, .itemEnd⟩
  | comma hcomma _ ih =>
    obtain ⟨tok', us, rfl, hterminal, hus⟩ := List.map_eq_cons_iff.1 heq
    obtain ⟨xs, h⟩ := ih hus
    exact ⟨xs, .comma (hterminal.trans hcomma) h⟩
  | commaEnd =>
    rw [List.map_eq_nil_iff.1 heq]
    exact ⟨_, .commaEnd⟩
  | item _ _ ihp ihq =>
    rw [List.map_append] at heq
    obtain ⟨ts, us, rfl, hts, hus⟩ := List.map_eq_append_iff.1 heq
    obtain ⟨xs, hp⟩ := ihp hts
    obtain ⟨ys, hq⟩ := ihq hus
    exact ⟨_, .item hp hq⟩
  | node l _ ih =>
    obtain ⟨tok', us, rfl, -, -⟩ := List.map_eq_cons_iff.1 heq
    obtain ⟨xs, h⟩ := ih heq
    exact ⟨_, .node l h⟩

/-! ## Every phrase has a text -/

/-- A token of a terminal; its text does not matter. -/
def sample (t : Terminal) : Token := ⟨t, "", .first, .first⟩

theorem map_terminal_sample (w : List Terminal) : (w.map sample).map Token.terminal = w := by
  rw [List.map_map]
  exact List.map_id w

theorem exists_derives (hs : p.solid = true) : ∃ toks xs, Derives p toks xs := by
  induction p with
  | nothing => exact ⟨_, _, .nothing⟩
  | token t keep => exact ⟨_, _, .token (sample t) keep⟩
  | seq p q ihp ihq =>
    rw [Phrase.solid, Bool.and_eq_true] at hs
    obtain ⟨ts, xs, hp⟩ := ihp hs.1
    obtain ⟨us, ys, hq⟩ := ihq hs.2
    exact ⟨_, _, .seq hp hq⟩
  | alt p q ihp _ =>
    rw [Phrase.solid, Bool.and_eq_true] at hs
    obtain ⟨ts, xs, hp⟩ := ihp hs.1
    exact ⟨_, _, .left hp⟩
  | many p => exact ⟨_, _, .manyEnd⟩
  | afterItem p => exact ⟨_, _, .itemEnd⟩
  | afterComma p => exact ⟨_, _, .commaEnd⟩
  | node l p ih =>
    rw [Phrase.solid, Bool.and_eq_true, Bool.not_eq_true'] at hs
    obtain ⟨ts, xs, hp⟩ := ih hs.1
    cases ts with
    | nil => simp [(hp.eq_nil rfl).1] at hs
    | cons t ts => exact ⟨_, _, .node l hp⟩

/-- Any terminal that a phrase may start with starts one of its texts. -/
theorem exists_derives_cons (hs : p.solid = true) (ht : t ∈ p.first) :
    ∃ tok us xs, tok.terminal = t ∧ Derives p (tok :: us) xs := by
  induction p with
  | nothing => cases ht
  | token u keep =>
    obtain rfl := List.mem_singleton.1 ht
    exact ⟨_, _, _, rfl, .token (sample t) keep⟩
  | seq p q ihp ihq =>
    rw [Phrase.solid, Bool.and_eq_true] at hs
    rw [Phrase.first, List.mem_append] at ht
    rcases ht with ht | ht
    · obtain ⟨tok, us, xs, hterminal, hp⟩ := ihp hs.1 ht
      obtain ⟨vs, ys, hq⟩ := exists_derives hs.2
      exact ⟨tok, us ++ vs, _, hterminal, .seq hp hq⟩
    · split at ht
      · next hn =>
        obtain ⟨tok, us, xs, hterminal, hq⟩ := ihq hs.2 ht
        exact ⟨tok, us, _, hterminal, .seq (Phrase.derives_nil_of_nullable hs.1 hn) hq⟩
      · cases ht
  | alt p q ihp ihq =>
    rw [Phrase.solid, Bool.and_eq_true] at hs
    rcases List.mem_append.1 ht with ht | ht
    · obtain ⟨tok, us, xs, hterminal, hp⟩ := ihp hs.1 ht
      exact ⟨tok, us, xs, hterminal, .left hp⟩
    · obtain ⟨tok, us, xs, hterminal, hq⟩ := ihq hs.2 ht
      exact ⟨tok, us, xs, hterminal, .right hq⟩
  | many p ih =>
    obtain ⟨tok, us, xs, hterminal, hp⟩ := ih hs ht
    have hmore := Derives.more hp .manyEnd
    rw [List.append_nil] at hmore
    exact ⟨tok, us, _, hterminal, hmore⟩
  | afterItem p =>
    cases List.mem_singleton.1 ht
    exact ⟨sample (.keyword .comma), _, _, rfl, .comma rfl .commaEnd⟩
  | afterComma p ih =>
    rw [Phrase.solid, Bool.and_eq_true] at hs
    obtain ⟨tok, us, xs, hterminal, hp⟩ := ih hs.1 ht
    have hitem := Derives.item hp .itemEnd
    rw [List.append_nil] at hitem
    exact ⟨tok, us, _, hterminal, hitem⟩
  | node l p ih =>
    rw [Phrase.solid, Bool.and_eq_true] at hs
    obtain ⟨tok, us, xs, hterminal, hp⟩ := ih hs.1 ht
    exact ⟨tok, us, _, hterminal, .node l hp⟩

/-- The phrases have a text of tokens that stand nowhere. -/
theorem exists_derivesAll_sample (hs : ∀ p ∈ ps, p.solid = true) :
    ∃ (w : List Terminal) (xs : List Tree), DerivesAll ps (w.map sample) xs := by
  induction ps with
  | nil => exact ⟨[], [], .nil⟩
  | cons p ps ih =>
    rw [List.forall_mem_cons] at hs
    obtain ⟨toks, xs, hp⟩ := exists_derives hs.1
    obtain ⟨w, ys, hps⟩ := ih hs.2
    obtain ⟨xs', hp'⟩ := hp.exists_of_terminals (map_terminal_sample (toks.map Token.terminal))
    refine ⟨toks.map Token.terminal ++ w, xs' ++ ys, ?_⟩
    rw [List.map_append]
    exact .cons hp' hps

theorem exists_derivesAll (hs : ∀ p ∈ ps, p.solid = true) : ∃ toks xs, DerivesAll ps toks xs := by
  obtain ⟨w, xs, h⟩ := exists_derivesAll_sample hs
  exact ⟨_, xs, h⟩

/-- What may come next starts a text of the phrases, or stands after them where they may be
empty. -/
theorem exists_derivesAll_cons (hs : ∀ p ∈ ps, p.solid = true) (ht : t ∈ firstOfAll ps far) :
    (∃ tok us xs, tok.terminal = t ∧ DerivesAll ps (tok :: us) xs) ∨
      t ∈ far ∧ allNullable ps = true := by
  induction ps with
  | nil => exact .inr ⟨ht, rfl⟩
  | cons p ps ih =>
    rw [List.forall_mem_cons] at hs
    rw [firstOfAll, Phrase.firstOr, List.mem_append] at ht
    rcases ht with ht | ht
    · obtain ⟨tok, us, xs, hterminal, hp⟩ := exists_derives_cons hs.1 ht
      obtain ⟨vs, ys, hps⟩ := exists_derivesAll hs.2
      exact .inl ⟨tok, us ++ vs, _, hterminal, .cons hp hps⟩
    · split at ht
      · next hn =>
        obtain ⟨tok, us, xs, hterminal, hps⟩ | ⟨hfar, hns⟩ := ih hs.2 ht
        · have hnil := Phrase.derives_nil_of_nullable hs.1 hn
          exact .inl ⟨tok, us, _, hterminal, .cons hnil hps⟩
        · exact .inr ⟨hfar, by rw [allNullable_cons, hn, hns]; rfl⟩
      · cases ht

/-! ## Every reader can be completed -/

theorem exists_completes_sample (hg : ∀ p ∈ goal, p.solid = true) (hfs : ReadyFrames far fs)
    (pending : List Tree) (e : Position) : ∃ (w : List Terminal) (xs : List Tree),
      Completes trees goal fs pending e (w.map sample) xs := by
  induction fs generalizing pending e with
  | nil =>
    obtain ⟨w, ys, hd⟩ := exists_derivesAll_sample hg
    exact ⟨w, _, ys, hd, rfl⟩
  | cons f fs ih =>
    obtain ⟨w, ys, hd⟩ := exists_derivesAll_sample hfs.1.solid
    obtain ⟨v, xs, hc⟩ := ih hfs.2.2 [.node f.label (some ⟨f.first, endOf e (w.map sample)⟩)
      (f.parts ++ pending ++ ys)] (endOf e (w.map sample))
    exact ⟨w ++ v, xs, w.map sample, v.map sample, ys, List.map_append, hd, hc⟩

theorem exists_completes (hg : ∀ p ∈ goal, p.solid = true) (hfs : ReadyFrames far fs)
    (pending : List Tree) (e : Position) : ∃ us xs, Completes trees goal fs pending e us xs := by
  have hsample : ∃ (w : List Terminal) (xs : List Tree),
      Completes trees goal fs pending e (w.map sample) xs := exists_completes_sample hg hfs _ _
  obtain ⟨w, xs, hc⟩ := hsample
  exact ⟨_, xs, hc⟩

/-- What is expected starts a completion, or it is the end of input and nothing is missing. -/
theorem exists_completes_cons (hg : ∀ p ∈ goal, p.solid = true)
    (hfs : ReadyFrames (firstOfAll goal far) fs) (ht : t ∈ expectedFrom (firstOfAll goal far) fs)
    (pending : List Tree) (e : Position) :
    (∃ tok us xs, tok.terminal = t ∧ Completes trees goal fs pending e (tok :: us) xs) ∨
      t ∈ far ∧ ∃ xs, Completes trees goal fs pending e [] xs := by
  induction fs generalizing pending e with
  | nil =>
    obtain ⟨tok, us, ys, hterminal, hd⟩ | ⟨hfar, hn⟩ := exists_derivesAll_cons hg ht
    · exact .inl ⟨tok, us, _, hterminal, ys, hd, rfl⟩
    · exact .inr ⟨hfar, _, [], derivesAll_nil_of_nullable hg hn, rfl⟩
  | cons f fs ih =>
    obtain ⟨tok, us, ys, hterminal, hd⟩ | ⟨hfar, hn⟩ := exists_derivesAll_cons hfs.1.solid ht
    · have hrest : ∃ vs xs, Completes trees goal fs [.node f.label (some ⟨f.first,
          endOf e (tok :: us)⟩) (f.parts ++ pending ++ ys)] (endOf e (tok :: us)) vs xs :=
        exists_completes hg hfs.2.2 _ _
      obtain ⟨vs, xs, hc⟩ := hrest
      exact .inl ⟨tok, us ++ vs, xs, hterminal, tok :: us, vs, ys, rfl, hd, hc⟩
    · have hnil := derivesAll_nil_of_nullable hfs.1.solid hn
      obtain ⟨tok, us, xs, hterminal, hc⟩ | ⟨hend, xs, hc⟩ := ih hfs.2.2 hfar
        [.node f.label (some ⟨f.first, e⟩) (f.parts ++ pending ++ [])] e
      · exact .inl ⟨tok, us, xs, hterminal, [], tok :: us, [], rfl, hnil, hc⟩
      · exact .inr ⟨hend, xs, [], [], [], rfl, hnil, hc⟩

namespace Reader

/-- The terminals that a reader expects are those that some completion of it starts with, the end of
input standing behind every completion. -/
theorem mem_expectedIn_iff {r : Reader} (hr : r.Ready) : t ∈ expectedIn r.goal r.frames ↔
      (∃ tok us xs, tok.terminal = t ∧ r.Completes (tok :: us) xs) ∨
        t = .endOfInput ∧ ∃ xs, r.Completes [] xs := by
  rw [expectedIn_eq]
  constructor
  · intro ht
    obtain h | ⟨hend, hc⟩ := exists_completes_cons hr.goal.solid hr.frames ht [] r.place
    · exact .inl h
    · exact .inr ⟨List.mem_singleton.1 hend, hc⟩
  · rintro (⟨tok, us, xs, rfl, hc⟩ | ⟨rfl, xs, hc⟩)
    · exact mem_expectedFrom_of_completes hr.goal.solid hr.frames hc
    · exact mem_expectedFrom_of_completes_nil hc

end Reader

end PlatformGame.Parse
