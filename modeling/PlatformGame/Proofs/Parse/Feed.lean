import PlatformGame.Proofs.Parse.Ready

/-! # Feeding tokens to a reader -/

namespace PlatformGame.Parse

open Grammar Source

variable {us : List Token} {n : Nat} {pending : List Tree} {e : Position} {tok : Token}

namespace Reader

/-- Where the tokens taken so far end. -/
def place (r : Reader) : Position := (r.last.map (·.span.last)).getD .first

/-- The tokens that complete a reader, with the trees of the whole text. -/
def Completes (r : Reader) (us : List Token) (xs : List Tree) : Prop :=
  Parse.Completes r.trees r.goal r.frames [] r.place us xs

/-- The phrases of a ready reader are sure, and it has taken a token if a node is open. -/
structure Ready (r : Reader) : Prop where
  goal : SureAll r.goal atEnd [.endOfInput]
  frames : ReadyFrames (firstOfAll r.goal [.endOfInput]) r.frames
  last : r.frames ≠ [] → r.last.isSome = true

/-- A ready reader between two tokens: among what it admits, names are told from keywords, except
from the clashing ones after a string. -/
structure Steady (r : Reader) : Prop where
  ready : r.Ready
  told : .name ∈ r.admitted → ∀ k, .keyword k ∈ r.admitted → namelike k = true →
    (∃ tok ∈ r.last, tok.terminal = .string) ∧ k ∈ clashing
  apart : apart (expectedIn r.goal r.frames) = true

theorem ready_start {p : Phrase} (hp : p.Sure atEnd [.endOfInput]) : (Reader.start p).Ready where
  goal := ⟨hp, trivial⟩
  frames := trivial
  last h := absurd rfl h

theorem completes_start_iff {p : Phrase} {xs : List Tree} :
    (Reader.start p).Completes us xs ↔ Derives p us xs := by
  simp [Completes, Parse.Completes, start, derivesAll_singleton_iff]

/-- Taking a token: in the innermost open node or, when all are closed, outside; or after closing a
complete node that the token may follow. -/
inductive Takes (tok : Token) : Reader → Reader → Prop
  | goal {r : Reader} {o : Opening} : r.frames = [] → takeAll tok r.goal = some o →
    Takes tok r { r with
      frames := o.frames, trees := r.trees ++ o.parts, goal := o.rest, last := some tok }
  | node {r : Reader} {f : Frame} {fs : List Frame} {o : Opening} : r.frames = f :: fs →
    takeAll tok f.rest = some o →
    Takes tok r { r with
      frames := o.frames ++ { f with parts := f.parts ++ o.parts, rest := o.rest } :: fs,
      last := some tok }
  | close : r.frames = f :: fs → allNullable f.rest = true → Takes tok r.close r' → Takes tok r r'

/-- Coming to an end: closing complete nodes until none is open and nothing is left to read. -/
inductive Finishes : Reader → List Tree → Prop
  | goal : r.frames = [] → allNullable r.goal = true → Finishes r r.trees
  | close : r.frames = f :: fs → allNullable f.rest = true → Finishes r.close xs → Finishes r xs

end Reader

theorem mem_firstOfAll_of_nullable {ps : List Phrase} {far : List Terminal}
    (hn : allNullable ps = true) {t : Terminal} (ht : t ∈ far) : t ∈ firstOfAll ps far := by
  induction ps with
  | nil => exact ht
  | cons p ps ih =>
    rw [allNullable_cons, Bool.and_eq_true] at hn
    rw [firstOfAll, Phrase.firstOr, if_pos hn.1]
    exact List.mem_append_right _ (ih hn.2)

/-! ## Closing a node -/

theorem completes_trees_append {trees parts : List Tree} {goal : List Phrase} {fs : List Frame}
    {xs : List Tree} : Completes (trees ++ parts) goal fs pending e us xs ↔
      ∃ ys, xs = trees ++ ys ∧ Completes parts goal fs pending e us ys := by
  induction fs generalizing pending e us with
  | nil =>
    constructor
    · rintro ⟨ys, h, rfl⟩
      exact ⟨parts ++ pending ++ ys, by simp, ys, h, rfl⟩
    · rintro ⟨_, rfl, ys, h, rfl⟩
      exact ⟨ys, h, by simp⟩
  | cons f fs ih =>
    constructor
    · rintro ⟨us₁, us₂, ys, rfl, hf, h⟩
      obtain ⟨zs, rfl, hz⟩ := ih.1 h
      exact ⟨zs, rfl, us₁, us₂, ys, rfl, hf, hz⟩
    · rintro ⟨zs, rfl, us₁, us₂, ys, rfl, hf, h⟩
      exact ⟨us₁, us₂, ys, rfl, hf, ih.2 ⟨zs, rfl, h⟩⟩

namespace Reader

variable {r : Reader} {f : Frame} {fs : List Frame}

theorem close_completes_iff (hr : r.Ready) (hf : r.frames = f :: fs) {xs : List Tree} :
    r.close.Completes us xs ↔
      Parse.Completes r.trees r.goal fs [.node f.label (some ⟨f.first, r.place⟩) f.parts] r.place us
        xs := by
  obtain ⟨t, ht⟩ := Option.isSome_iff_exists.1 (hr.last (by simp [hf]))
  have hspan : r.spanFrom f.first = ⟨f.first, r.place⟩ := by simp [spanFrom, place, ht]
  cases fs with
  | nil => simp [Completes, close, hf, hspan, place, Parse.Completes]
  | cons g gs => simp [Completes, close, hf, hspan, place, Parse.Completes]

theorem close_ready (hr : r.Ready) (hf : r.frames = f :: fs) : r.close.Ready := by
  have hlast := hr.last (by simp [hf])
  have hframes := hr.frames
  rw [hf] at hframes
  cases fs with
  | nil => exact ⟨by simpa [close, hf] using hr.goal, by simp [close, hf, ReadyFrames],
      by simp [close, hf]⟩
  | cons g gs =>
    exact ⟨by simpa [close, hf] using hr.goal, by simpa [close, hf, ReadyFrames] using hframes.2.2,
      by simpa [close, hf] using hlast⟩

theorem length_close (hf : r.frames = f :: fs) : r.close.frames.length = fs.length := by
  cases fs <;> simp [close, hf]

theorem expectedIn_close (hf : r.frames = f :: fs) :
    expectedIn r.close.goal r.close.frames = expectedIn r.goal fs := by
  cases fs <;> simp [close, hf, expectedIn]

/-! ## What a step does -/

theorem takes_of_feedFrom {r r' : Reader} (hn : r.frames.length = n)
    (h : feedFrom tok n r = .taken r') : Takes tok r r' := by
  induction n generalizing r with
  | zero =>
    have hf : r.frames = [] := List.length_eq_zero_iff.1 hn
    simp only [feedFrom] at h
    split at h
    · split at h <;> cases h
    · split at h
      · next o ho =>
        cases h
        exact .goal hf ho
      · cases h
  | succ n ih =>
    obtain ⟨f, fs, hf⟩ := List.exists_cons_of_length_eq_add_one hn
    simp only [feedFrom, hf] at h
    split at h
    · next o ho =>
      cases h
      exact .node hf ho
    · split at h
      · next hnull =>
        rw [Bool.and_eq_true] at hnull
        refine .close hf hnull.1 (ih ?_ h)
        rw [length_close hf]
        simpa [hf] using hn
      · cases h

theorem finishes_of_feedFrom {r : Reader} {trees : List Tree} (hn : r.frames.length = n)
    (h : feedFrom tok n r = .finished trees) : tok.terminal = .endOfInput ∧ Finishes r trees := by
  induction n generalizing r with
  | zero =>
    have hf : r.frames = [] := List.length_eq_zero_iff.1 hn
    simp only [feedFrom] at h
    split at h
    · next ht =>
      split at h
      · next hnull =>
        cases h
        exact ⟨ht, .goal hf hnull⟩
      · cases h
    · split at h <;> cases h
  | succ n ih =>
    obtain ⟨f, fs, hf⟩ := List.exists_cons_of_length_eq_add_one hn
    simp only [feedFrom, hf] at h
    split at h
    · cases h
    · split at h
      · next hnull =>
        rw [Bool.and_eq_true] at hnull
        have hlen : r.close.frames.length = n := by
          rw [length_close hf]
          simpa [hf] using hn
        obtain ⟨ht, hfin⟩ := ih hlen h
        exact ⟨ht, .close hf hnull.1 hfin⟩
      · cases h

/-! ## Soundness of a step -/

/-- Closing a complete node asks for nothing. -/
theorem completes_of_close (hr : r.Ready) (hf : r.frames = f :: fs) (hn : allNullable f.rest = true)
    {xs : List Tree} (h : r.close.Completes us xs) : r.Completes us xs := by
  have hframes := hr.frames
  rw [hf] at hframes
  have hcl := (close_completes_iff hr hf).1 h
  rw [Completes, hf]
  exact ⟨[], us, [], rfl, derivesAll_nil_of_nullable hframes.1.solid hn, by simpa using hcl⟩

/-- A token that is taken starts every completion of what is left. -/
theorem Takes.completes {r r' : Reader} (h : Takes tok r r') (hr : r.Ready) {xs : List Tree}
    (hc : r'.Completes us xs) : r.Completes (tok :: us) xs := by
  induction h with
  | goal hf ho =>
    obtain ⟨ys, rfl, hy⟩ := completes_trees_append.1 hc
    have hd := DerivesAll.of_takeAll hr.goal.solid ho hy
    rw [Completes, hf]
    exact ⟨ys, hd, by simp⟩
  | node hf ho =>
    have hframes := hr.frames
    rw [hf] at hframes
    obtain ⟨us₁, us₂, ys, rfl, h₁, h₂⟩ := completes_append_cons.1 hc
    obtain ⟨zs, rfl, hz⟩ := completes_trees_append.1 h₁
    have hd := DerivesAll.of_takeAll hframes.1.solid ho hz
    rw [Completes, hf]
    exact ⟨tok :: us₁, us₂, zs, rfl, hd, by simpa [place] using h₂⟩
  | close hf hn _ ih => exact completes_of_close hr hf hn (ih (close_ready hr hf) hc)

theorem Finishes.completes {r : Reader} {trees : List Tree} (h : Finishes r trees) (hr : r.Ready) :
    r.Completes [] trees := by
  induction h with
  | goal hf hn =>
    rw [Completes, hf]
    exact ⟨[], derivesAll_nil_of_nullable hr.goal.solid hn, by simp⟩
  | close hf hn _ ih => exact completes_of_close hr hf hn (ih (close_ready hr hf))

/-! ## What a step leaves -/

theorem Takes.last_eq {r r' : Reader} (h : Takes tok r r') : r'.last = some tok := by
  induction h with
  | goal => rfl
  | node => rfl
  | close _ _ _ ih => exact ih

theorem Takes.steady {r r' : Reader} (h : Takes tok r r') (hr : r.Ready) : r'.Steady := by
  -- what is admitted next is known to follow
  have told {admitted : List Terminal} {near : Terminal → Bool} (hlex : lexical tok.terminal near)
      (hnear : ∀ u ∈ admitted, near u = true) : .name ∈ admitted → ∀ k, .keyword k ∈ admitted →
      namelike k = true → (∃ t ∈ some tok, t.terminal = .string) ∧ k ∈ clashing := by
    intro hname k hk hlike
    obtain ⟨ht, hclash⟩ := told_of_lexical hlex hnear hname k hk hlike
    exact ⟨⟨tok, rfl, ht⟩, hclash⟩
  induction h with
  | @goal r o hf ho =>
    have hop := hr.goal.opening ho
    refine ⟨⟨hop.rest, hop.frames, fun _ => rfl⟩, told hop.lexical fun u hu => ?_, ?_⟩
    · cases hof : o.frames with
      | nil =>
        simp only [admitted, hof] at hu
        simp only [Opening.near, hof]
        exact aheadAll_of_mem_firstOfAll (by simp) hu
      | cons g gs =>
        simp only [admitted, hof] at hu
        simp only [Opening.near, hof]
        exact aheadAll_of_mem_firstOfAll (fun _ => mayFollow_of_mem_follow) hu
    · rw [expectedIn_eq]
      exact hop.apart
  | @node r f fs o hf ho =>
    have hframes := hr.frames
    rw [hf] at hframes
    have hop := hframes.1.opening ho
    refine ⟨⟨hr.goal, readyFrames_append.2 ⟨hop.frames, hop.rest, hframes.2⟩, fun _ => rfl⟩,
      told hop.lexical fun u hu => ?_, ?_⟩
    · cases hof : o.frames with
      | nil =>
        simp only [admitted, hof, List.nil_append] at hu
        simp only [Opening.near, hof]
        exact aheadAll_of_mem_firstOfAll (fun _ => mayFollow_of_mem_follow) hu
      | cons g gs =>
        simp only [admitted, hof, List.cons_append] at hu
        simp only [Opening.near, hof]
        exact aheadAll_of_mem_firstOfAll (fun _ => mayFollow_of_mem_follow) hu
    · rw [expectedIn_eq, expectedFrom_append]
      exact hop.apart
  | close hf _ _ ih => exact ih (close_ready hr hf)

/-- A token that is taken was expected. -/
theorem Takes.mem_expectedIn {r r' : Reader} (h : Takes tok r r') :
    tok.terminal ∈ expectedIn r.goal r.frames := by
  induction h with
  | goal hf ho =>
    rw [hf]
    exact mem_firstOfAll_of_takeAll ho _
  | node hf ho =>
    rw [hf]
    exact mem_firstOfAll_of_takeAll ho _
  | close hf hn _ ih =>
    rw [expectedIn_close hf] at ih
    rw [hf]
    exact mem_firstOfAll_of_nullable hn ih

/-! ## Completeness of a step -/

theorem mem_expectedFrom_of_completes {trees : List Tree} {goal : List Phrase} {far : List Terminal}
    (hg : ∀ p ∈ goal, p.solid = true) {fs : List Frame} (hfs : ReadyFrames (firstOfAll goal far) fs)
    {xs : List Tree} (h : Parse.Completes trees goal fs pending e (tok :: us) xs) :
    tok.terminal ∈ expectedFrom (firstOfAll goal far) fs := by
  induction fs generalizing pending e with
  | nil =>
    obtain ⟨ys, hd, -⟩ := h
    exact hd.mem_firstOfAll hg far
  | cons f fs ih =>
    obtain ⟨us₁, us₂, ys, hus, hf, h⟩ := h
    cases us₁ with
    | nil =>
      rw [List.nil_append] at hus
      subst hus
      exact mem_firstOfAll_of_nullable hf.eq_nil.1 (ih hfs.2.2 h)
    | cons u us₁ =>
      cases hus
      exact hf.mem_firstOfAll hfs.1.solid _

theorem mem_expectedFrom_of_completes_nil {trees : List Tree} {goal : List Phrase} {fs : List Frame}
    {xs : List Tree} (h : Parse.Completes trees goal fs pending e [] xs) :
    .endOfInput ∈ expectedFrom (firstOfAll goal [.endOfInput]) fs := by
  induction fs generalizing pending e with
  | nil =>
    obtain ⟨ys, hd, -⟩ := h
    exact mem_firstOfAll_of_nullable hd.eq_nil.1 (List.mem_singleton_self _)
  | cons f fs ih =>
    obtain ⟨us₁, us₂, ys, hus, hf, h⟩ := h
    obtain ⟨rfl, rfl⟩ := List.append_eq_nil_iff.1 hus.symm
    exact mem_firstOfAll_of_nullable hf.eq_nil.1 (ih h)

/-- A ready reader closes a complete node on what is expected after it. -/
theorem feedFrom_of_nullable {r : Reader} (hr : r.Ready) (hf : r.frames = f :: fs)
    (hn : allNullable f.rest = true) (ht : tok.terminal ∈ expectedIn r.goal fs) :
    feedFrom tok (n + 1) r = feedFrom tok n r.close := by
  have hframes := hr.frames
  rw [hf] at hframes
  rw [expectedIn_eq] at ht
  have hfol := hframes.2.1 _ ht
  have hnone := hframes.1.takeAll_eq_none hn (mayFollow_of_mem_follow hfol)
  simp [feedFrom, hf, hnone, hn, hfol]

/-- A token that starts a completion of a ready reader is taken, and the rest of the completion
completes what is left. -/
theorem exists_feedFrom (ht : tok.terminal ≠ .endOfInput) {r : Reader} (hr : r.Ready)
    (hn : r.frames.length = n) {xs : List Tree} (h : r.Completes (tok :: us) xs) :
    ∃ r', feedFrom tok n r = .taken r' ∧ r'.Completes us xs := by
  induction n generalizing r with
  | zero =>
    have hf : r.frames = [] := List.length_eq_zero_iff.1 hn
    rw [Completes, hf] at h
    obtain ⟨ys, hd, rfl⟩ := h
    obtain ⟨o, ho, hc⟩ := hd.exists_takeAll hr.goal
    refine ⟨{ r with
      frames := o.frames, trees := r.trees ++ o.parts, goal := o.rest, last := some tok }, ?_, ?_⟩
    · simp only [feedFrom, if_neg ht, ho]
    · exact completes_trees_append.2 ⟨ys, by simp, hc⟩
  | succ n ih =>
    obtain ⟨f, fs, hf⟩ := List.exists_cons_of_length_eq_add_one hn
    have hframes := hr.frames
    rw [hf] at hframes
    rw [Completes, hf] at h
    obtain ⟨us₁, us₂, ys, hus, hd, h⟩ := h
    cases us₁ with
    | nil =>
      rw [List.nil_append] at hus
      subst hus
      obtain ⟨hnull, rfl⟩ := hd.eq_nil
      have hmem := mem_expectedFrom_of_completes hr.goal.solid hframes.2.2 h
      rw [← expectedIn_eq] at hmem
      rw [feedFrom_of_nullable hr hf hnull hmem]
      refine ih (close_ready hr hf) ?_ ((close_completes_iff hr hf).2 (by simpa using h))
      rw [length_close hf]
      simpa [hf] using hn
    | cons u us₁ =>
      cases hus
      obtain ⟨o, ho, hc⟩ := hd.exists_takeAll hframes.1
      refine ⟨{ r with
        frames := o.frames ++ { f with parts := f.parts ++ o.parts, rest := o.rest } :: fs,
        last := some tok }, ?_, ?_⟩
      · simp only [feedFrom, hf, ho]
      · refine completes_append_cons.2 ⟨us₁, us₂, f.parts ++ ys, rfl,
          completes_trees_append.2 ⟨ys, rfl, hc⟩, ?_⟩
        simpa [place] using h

theorem finishedFrom (ht : tok.terminal = .endOfInput) {r : Reader} (hr : r.Ready)
    (hn : r.frames.length = n) {xs : List Tree} (h : r.Completes [] xs) :
    feedFrom tok n r = .finished xs := by
  induction n generalizing r with
  | zero =>
    have hf : r.frames = [] := List.length_eq_zero_iff.1 hn
    rw [Completes, hf] at h
    obtain ⟨ys, hd, rfl⟩ := h
    obtain ⟨hnull, rfl⟩ := hd.eq_nil
    simp [feedFrom, ht, hnull]
  | succ n ih =>
    obtain ⟨f, fs, hf⟩ := List.exists_cons_of_length_eq_add_one hn
    rw [Completes, hf] at h
    obtain ⟨us₁, us₂, ys, hus, hd, h⟩ := h
    obtain ⟨rfl, rfl⟩ := List.append_eq_nil_iff.1 hus.symm
    obtain ⟨hnull, rfl⟩ := hd.eq_nil
    have hmem := mem_expectedFrom_of_completes_nil h
    rw [← expectedIn_eq, ← ht] at hmem
    rw [feedFrom_of_nullable hr hf hnull hmem]
    refine ih (close_ready hr hf) ?_ ((close_completes_iff hr hf).2 (by simpa using h))
    rw [length_close hf]
    simpa [hf] using hn

end Reader

end PlatformGame.Parse
