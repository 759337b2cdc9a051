import Mathlib.Data.List.Basic
import PlatformGame.Proofs.Parse.Follow
import PlatformGame.Proofs.Parse.Rejection
import PlatformGame.Proofs.Source.Position

/-! # Nodes that the last token ends

A token may be the last one of a node, or of several that stand in each other. Whether the text can
go on so that it is, is seen from the reader that has taken the token: it is just if nothing more
has to be read in the innermost open node (`Reader.Reaches.ends`, `Reader.Reaches.not_ends`). Nodes
are told apart by where they end. The tokens of a text all end at different places, and those that
are made up to complete it end where it starts. -/

namespace PlatformGame.Parse

open Grammar Source

variable {r r' : Reader} {p : Phrase} {tok : Token} {c : Cursor} {us toks : List Token}
  {fs : List Frame} {l : Label} {e : Position} {o : Opening} {source : String}

/-- In some text that goes on from the tokens, the last of them ends a node with the given label. -/
def Ends (p : Phrase) (toks : List Token) (l : Label) : Prop :=
  ∃ before inside after, toks = before ++ inside ∧ NodeAt l p before inside after

/-- A node inside the tree ends at the position. -/
def Tree.EndsAt (t : Tree) (q : Position) : Prop :=
  ∃ l first children, Tree.Within (.node l (some ⟨first, q⟩) children) t

theorem Tree.endsAt_node_iff {span : Span} {children : List Tree} {q : Position} :
    (Tree.node l (some span) children).EndsAt q ↔ span.last = q ∨ ∃ t ∈ children, t.EndsAt q := by
  constructor
  · rintro ⟨m, first, cs, hw⟩
    cases hw with
    | refl => exact .inl rfl
    | child ht hw => exact .inr ⟨_, ht, m, first, cs, hw⟩
  · rintro (rfl | ⟨t, ht, m, first, cs, hw⟩)
    · exact ⟨l, span.first, children, .refl⟩
    · exact ⟨m, first, cs, .child ht hw⟩

theorem Tree.not_endsAt_ofToken (tok : Token) (q : Position) : ¬ (Tree.ofToken tok).EndsAt q := by
  rintro ⟨_, _, _, hw⟩
  cases hw

/-- The tokens behind a node can be replaced by ones that stand nowhere in the text. -/
theorem NodeAt.exists_endsAt {before inside after : List Token}
    (h : NodeAt l p before inside after) :
    ∃ (last : Token) (w : List Terminal) (xs : List Tree), inside.getLast? = some last ∧
      Derives p (before ++ inside ++ w.map sample) xs ∧ ∃ x ∈ xs, x.EndsAt last.span.last := by
  -- what is read behind the node may have any tokens of the same terminals
  have replaced {q : Phrase} {us : List Token} {ys : List Tree} (hq : Derives q us ys) :
      ∃ (v : List Terminal) (zs : List Tree), Derives q (v.map sample) zs :=
    ⟨us.map Token.terminal, hq.exists_of_terminals (map_terminal_sample _)⟩
  induction h with
  | here hd =>
    cases hd with
    | node _ hd =>
      obtain ⟨last, hlast, heq⟩ := exists_getLast?_eq_endOf _ _
      exact ⟨last, [], _, hlast, by simpa using .node _ hd, _, List.mem_singleton_self _,
        Tree.endsAt_node_iff.2 (.inl heq.symm)⟩
  | @child before inside _ m _ _ ih =>
    obtain ⟨last, w, xs, hlast, hd, x, hx, hend⟩ := ih
    have hmem : last ∈ before ++ inside ++ w.map sample := by simp [List.mem_of_getLast? hlast]
    obtain ⟨tok, ts, hts⟩ := List.exists_cons_of_ne_nil (List.ne_nil_of_mem hmem)
    rw [hts] at hd
    have hnode := Derives.node m hd
    rw [← hts] at hnode
    exact ⟨last, w, _, hlast, hnode, _, List.mem_singleton_self _,
      Tree.endsAt_node_iff.2 (.inr ⟨x, hx, hend⟩)⟩
  | first _ hq ih =>
    obtain ⟨last, w, xs, hlast, hd, x, hx, hend⟩ := ih
    obtain ⟨v, ys, hq⟩ := replaced hq
    exact ⟨last, w ++ v, xs ++ ys, hlast, by simpa using hd.seq hq, x,
      List.mem_append_left _ hx, hend⟩
  | second hp _ ih =>
    obtain ⟨last, w, xs, hlast, hd, x, hx, hend⟩ := ih
    exact ⟨last, w, _, hlast, by simpa using hp.seq hd, x, List.mem_append_right _ hx, hend⟩
  | left _ ih =>
    obtain ⟨last, w, xs, hlast, hd, hx⟩ := ih
    exact ⟨last, w, xs, hlast, .left hd, hx⟩
  | right _ ih =>
    obtain ⟨last, w, xs, hlast, hd, hx⟩ := ih
    exact ⟨last, w, xs, hlast, .right hd, hx⟩
  | more _ hq ih =>
    obtain ⟨last, w, xs, hlast, hd, x, hx, hend⟩ := ih
    obtain ⟨v, ys, hq⟩ := replaced hq
    exact ⟨last, w ++ v, xs ++ ys, hlast, by simpa using hd.more hq, x,
      List.mem_append_left _ hx, hend⟩
  | later hp _ ih =>
    obtain ⟨last, w, xs, hlast, hd, x, hx, hend⟩ := ih
    exact ⟨last, w, _, hlast, by simpa using hp.more hd, x, List.mem_append_right _ hx, hend⟩
  | comma hcomma _ ih =>
    obtain ⟨last, w, xs, hlast, hd, hx⟩ := ih
    exact ⟨last, w, xs, hlast, .comma hcomma hd, hx⟩
  | item _ hq ih =>
    obtain ⟨last, w, xs, hlast, hd, x, hx, hend⟩ := ih
    obtain ⟨v, ys, hq⟩ := replaced hq
    exact ⟨last, w ++ v, xs ++ ys, hlast, by simpa using hd.item hq, x,
      List.mem_append_left _ hx, hend⟩
  | laterItem hp _ ih =>
    obtain ⟨last, w, xs, hlast, hd, x, hx, hend⟩ := ih
    exact ⟨last, w, _, hlast, by simpa using hp.item hd, x, List.mem_append_right _ hx, hend⟩

/-! ## Trees without a node that ends at a place -/

/-- No node in the trees ends at the position. -/
def Unended (q : Position) (ts : List Tree) : Prop := ∀ t ∈ ts, ¬ t.EndsAt q

variable {q : Position}

theorem unended_nil : Unended q [] := List.forall_mem_nil _

theorem unended_append {ts us : List Tree} :
    Unended q (ts ++ us) ↔ Unended q ts ∧ Unended q us := List.forall_mem_append

theorem unended_node {span : Span} {children : List Tree} (hspan : span.last ≠ q)
    (h : Unended q children) : Unended q [.node l (some span) children] := by
  refine List.forall_mem_singleton.2 fun hend => ?_
  rcases Tree.endsAt_node_iff.1 hend with hlast | ⟨t, ht, hend⟩
  · exact hspan hlast
  · exact h t ht hend

theorem endOf_ne (he : e ≠ q) (hus : ∀ t ∈ us, t.span.last ≠ q) : endOf e us ≠ q := by
  induction us generalizing e with
  | nil => exact he
  | cons t us ih =>
    obtain ⟨ht, hus⟩ := List.forall_mem_cons.1 hus
    exact ih ht hus

theorem DerivesAll.unended {ps : List Phrase} {ys : List Tree} (h : DerivesAll ps us ys)
    (hus : ∀ t ∈ us, t.span.last ≠ q) : Unended q ys := by
  induction h with
  | nil => exact unended_nil
  | cons hp _ ih =>
    obtain ⟨hts, hus⟩ := List.forall_mem_append.1 hus
    refine unended_append.2 ⟨fun t ht ⟨_, _, _, hw⟩ => ?_, ih hus⟩
    obtain ⟨_, inside, _, last, rfl, -, hlast, hend⟩ := hp.exists_nodeAt ht hw
    exact hts last (by simp [List.mem_of_getLast? hlast]) hend

theorem Completes.unended {trees : List Tree} {goal : List Phrase} {pending : List Tree}
    {xs : List Tree} (h : Completes trees goal fs pending e us xs) (htrees : Unended q trees)
    (hfs : ∀ f ∈ fs, Unended q f.parts) (hpending : Unended q pending) (he : e ≠ q)
    (hus : ∀ t ∈ us, t.span.last ≠ q) : Unended q xs := by
  induction fs generalizing pending e us with
  | nil =>
    obtain ⟨ys, hd, rfl⟩ := h
    exact unended_append.2 ⟨unended_append.2 ⟨htrees, hpending⟩, hd.unended hus⟩
  | cons f fs ih =>
    obtain ⟨us₁, us₂, ys, rfl, hd, hc⟩ := h
    obtain ⟨hf, hfs⟩ := List.forall_mem_cons.1 hfs
    obtain ⟨hus₁, hus₂⟩ := List.forall_mem_append.1 hus
    have hend : endOf e us₁ ≠ q := endOf_ne he hus₁
    have hparts : Unended q (f.parts ++ pending ++ ys) :=
      unended_append.2 ⟨unended_append.2 ⟨hf, hpending⟩, hd.unended hus₁⟩
    exact ih hc hfs (unended_node hend hparts) hend hus₂

/-- No node inside the parts that a token has opened ends at the position. -/
structure Opening.Unended (q : Position) (o : Opening) : Prop where
  parts : Parse.Unended q o.parts
  frames : ∀ f ∈ o.frames, Parse.Unended q f.parts

theorem Opens.unended (h : Opens tok p o) : o.Unended q := by
  induction h with
  | token keep =>
    cases keep with
    | false => exact ⟨unended_nil, List.forall_mem_nil _⟩
    | true => exact ⟨List.forall_mem_singleton.2 (Tree.not_endsAt_ofToken tok q),
        List.forall_mem_nil _⟩
  | first _ ih | more _ ih | item _ ih => exact ⟨ih.parts, ih.frames⟩
  | second _ _ ih | left _ ih | right _ ih => exact ih
  | comma => exact ⟨unended_nil, List.forall_mem_nil _⟩
  | node _ ih => exact ⟨unended_nil, List.forall_mem_append.2
      ⟨ih.frames, List.forall_mem_singleton.2 ih.parts⟩⟩

theorem unended_of_takeAll {ps : List Phrase} (h : takeAll tok ps = some o) : o.Unended q := by
  replace h := OpensAll.of_takeAll h
  induction h with
  | head h => exact ⟨h.unended.parts, h.unended.frames⟩
  | tail _ _ ih => exact ih

namespace Reader

/-- No node that the reader has made ends at the position. -/
structure Unended (q : Position) (r : Reader) : Prop where
  trees : Parse.Unended q r.trees
  frames : ∀ f ∈ r.frames, Parse.Unended q f.parts

theorem place_close (r : Reader) : r.close.place = r.place := by
  obtain ⟨_ | ⟨f, _ | ⟨g, gs⟩⟩, trees, goal, last⟩ := r <;> rfl

theorem Unended.close {f : Frame} (h : r.Unended q) (hr : r.Ready) (hf : r.frames = f :: fs)
    (hplace : r.place ≠ q) : r.close.Unended q := by
  obtain ⟨htrees, hframes⟩ := h
  rw [hf, List.forall_mem_cons] at hframes
  obtain ⟨last, hlast⟩ := Option.isSome_iff_exists.1 (hr.last (by simp [hf]))
  have hspan : (r.spanFrom f.first).last ≠ q := by
    simpa [spanFrom, place, hlast] using hplace
  have hnode : Parse.Unended q [.node f.label (some (r.spanFrom f.first)) f.parts] :=
    unended_node hspan hframes.1
  cases fs with
  | nil => exact ⟨by simpa [Reader.close, hf] using unended_append.2 ⟨htrees, hnode⟩,
      by simp [Reader.close, hf]⟩
  | cons g gs =>
    obtain ⟨hg, hgs⟩ := List.forall_mem_cons.1 hframes.2
    refine ⟨by simpa [Reader.close, hf] using htrees, ?_⟩
    simp only [Reader.close, hf]
    exact List.forall_mem_cons.2 ⟨unended_append.2 ⟨hg, hnode⟩, hgs⟩

/-- Nodes that a token closes end with the token before it. -/
theorem Takes.unended (h : Takes tok r r') (hr : r.Ready) (hu : r.Unended q)
    (hplace : r.place ≠ q) : r'.Unended q := by
  induction h with
  | goal _ ho =>
    have hopened := unended_of_takeAll (q := q) ho
    exact ⟨unended_append.2 ⟨hu.trees, hopened.parts⟩, hopened.frames⟩
  | node hf ho =>
    have hopened := unended_of_takeAll (q := q) ho
    have hframes := hu.frames
    rw [hf, List.forall_mem_cons] at hframes
    exact ⟨hu.trees, List.forall_mem_append.2 ⟨hopened.frames, List.forall_mem_cons.2
      ⟨unended_append.2 ⟨hframes.1, hopened.parts⟩, hframes.2⟩⟩⟩
  | close hf _ _ ih =>
    exact ih (close_ready hr hf) (hu.close hr hf hplace) (by rwa [place_close])

/-- The last token of a run closes only what ended before. -/
theorem Reaches.unended {c' : Cursor} (h : Reaches r c toks r' c') (hr : r.Ready) (hu : r.Unended q)
    (hplace : r.place ≠ q) (htoks : ∀ t ∈ toks.dropLast, t.span.last ≠ q) : r'.Unended q := by
  induction h with
  | refl => exact hu
  | @step r r₁ r' c c₁ c' tok toks _ hfeed hrest ih =>
    have htakes := takes_of_feedFrom rfl hfeed
    have hu₁ := htakes.unended hr hu hplace
    cases toks with
    | nil =>
      cases hrest
      exact hu₁
    | cons t ts =>
      obtain ⟨htok, hts⟩ := List.forall_mem_cons.1 htoks
      have hplace₁ : r₁.place ≠ q := by
        rw [place, htakes.last_eq]
        exact htok
      exact ih (htakes.steady hr).ready hu₁ hplace₁ hts

end Reader

/-! ## The last token -/

theorem Completes.exists_within {trees : List Tree} {goal : List Phrase} {pending : List Tree}
    {xs : List Tree} (h : Completes trees goal fs pending e us xs) {t : Tree} (ht : t ∈ pending) :
    ∃ x ∈ xs, t.Within x := by
  induction fs generalizing pending e us t with
  | nil =>
    obtain ⟨ys, -, rfl⟩ := h
    exact ⟨t, List.mem_append_left _ (List.mem_append_right _ ht), .refl⟩
  | cons f fs ih =>
    obtain ⟨us₁, us₂, ys, -, -, hrest⟩ := h
    obtain ⟨x, hx, hw⟩ := ih hrest (List.mem_singleton_self _)
    have hchild : t ∈ f.parts ++ pending ++ ys :=
      List.mem_append_left _ (List.mem_append_right _ ht)
    exact ⟨x, hx, (Tree.Within.child hchild .refl).trans hw⟩

namespace Reader

/-- The last token of a text ends where no other does, and not where the text starts. -/
theorem Reaches.last_ne {ts : List Token} {last : Token}
    (h : Reaches r (.ofString source) (ts ++ [last]) r' c) :
    Position.first ≠ last.span.last ∧ ∀ t ∈ ts, t.span.last ≠ last.span.last := by
  obtain ⟨cs, -, -, hspelled⟩ := h.exists_spelled
  have ne_of_before {p : Position} (hp : p.Before last.span.last) : p ≠ last.span.last := by
    rintro rfl
    exact Position.not_before_self _ hp
  refine ⟨ne_of_before (hspelled.before_last last (by simp)), fun t ht => ne_of_before ?_⟩
  exact (List.pairwise_append.1 hspelled.pairwise_last).2.2 t ht last (List.mem_singleton_self _)

/-- Where the innermost node may be complete, the last token ends it. -/
theorem Reaches.ends {e : String × Phrase} (h : Reaches (start e.2) (.ofString source) toks r c)
    (he : e ∈ entries) {f : Frame} (hf : r.frames = f :: fs) (hnull : allNullable f.rest = true) :
    Ends e.2 toks f.label := by
  have hr := h.ready (ready_start (entries_sure he))
  have hframes := hr.frames
  rw [hf] at hframes
  have hlast := hr.last (by simp [hf])
  rw [h.last_eq, start, Option.or_none] at hlast
  obtain ⟨last, hlast⟩ := Option.isSome_iff_exists.1 hlast
  have hplace : r.place = last.span.last := by
    rw [place, h.last_eq, start, Option.or_none, hlast]
    rfl
  -- what is left is completed by tokens that stand nowhere in the text
  have hcompletes : ∃ (w : List Terminal) (xs : List Tree), Parse.Completes r.trees r.goal fs
      [.node f.label (some ⟨f.first, last.span.last⟩) (f.parts ++ [] ++ [])] last.span.last
      (w.map sample) xs := exists_completes_sample hr.goal.solid hframes.2.2 _ _
  obtain ⟨w, xs, hc⟩ := hcompletes
  obtain ⟨x, hx, hw⟩ := hc.exists_within (List.mem_singleton_self _)
  have hwhole : r.Completes (w.map sample) xs := by
    rw [Completes, hf, hplace]
    exact ⟨[], w.map sample, [], rfl, derivesAll_nil_of_nullable hframes.1.solid hnull, hc⟩
  have hd := (h.derives_iff he).1 hwhole
  obtain ⟨before, inside, after, last', heq, hnode, hlast', hend⟩ := hd.exists_nodeAt hx hw
  -- so the node ends with the token that is known to end there
  obtain ⟨ts, rfl⟩ := List.getLast?_eq_some_iff.1 hlast
  obtain ⟨is, rfl⟩ := List.getLast?_eq_some_iff.1 hlast'
  obtain ⟨hfirst, hothers⟩ := h.last_ne
  have hts : last' ∉ ts := fun hmem => hothers last' hmem hend
  have hus : last' ∉ w.map sample := by
    intro hmem
    obtain ⟨t, -, rfl⟩ := List.mem_map.1 hmem
    exact hfirst hend
  have hsplit : ts ++ last :: w.map sample = (before ++ is) ++ last' :: after := by
    simpa using heq
  obtain ⟨rfl, rfl, -⟩ := (List.append_cons_inj_of_notMem hts hus).1 hsplit
  exact ⟨before, is ++ [last], after, by simp, hnode⟩

theorem opens_of_single (h : Opens tok p o) (hp : p.single = true) :
    o.rest = [] ∧ o.frames ≠ [] := by
  induction h with
  | left _ ih =>
    rw [Phrase.single, Bool.and_eq_true] at hp
    exact ih hp.1
  | right _ ih =>
    rw [Phrase.single, Bool.and_eq_true] at hp
    exact ih hp.2
  | node => exact ⟨rfl, List.append_ne_nil_of_right_ne_nil _ (List.cons_ne_nil _ _)⟩
  | _ => cases hp

theorem Takes.exists_outermost_start (hp : p.single = true) (h : Takes tok (start p) r) :
    ∃ l, r.Outermost l := by
  cases h with
  | goal _ ho =>
    cases OpensAll.of_takeAll ho with
    | @head _ o' _ h =>
      obtain ⟨hrest, hframes⟩ := opens_of_single h hp
      exact ⟨(o'.frames.getLast hframes).label, by simp [hrest],
        by simp [List.getLast?_eq_some_getLast hframes]⟩
    | tail _ h => cases h
  | node hf _ => cases hf
  | close hf _ _ => cases hf

/-- Only before the first token is no node open. -/
theorem Reaches.frames_eq_nil {c' : Cursor} (h : Reaches (start p) c toks r c')
    (hp : p.single = true) (hf : r.frames = []) : r = start p := by
  cases h with
  | refl => rfl
  | step _ hfeed h =>
    obtain ⟨l, hout⟩ := (takes_of_feedFrom rfl hfeed).exists_outermost_start hp
    have hframes := (h.keeps Takes.outermost hout).frames
    simp [hf] at hframes

/-- Where more has to be read in the innermost node, the last token ends no node. -/
theorem Reaches.not_ends {e : String × Phrase} (h : Reaches (start e.2) (.ofString source) toks r c)
    (he : e ∈ entries) (hopen : ∀ f ∈ r.frames.head?, allNullable f.rest = false) (l : Label) :
    ¬ Ends e.2 toks l := by
  rintro ⟨before, inside, after, rfl, hnode⟩
  obtain ⟨last, w, xs, hlast, hd, x, hx, hend⟩ := hnode.exists_endsAt
  have hc := (h.derives_iff he).2 hd
  obtain ⟨is, rfl⟩ := List.getLast?_eq_some_iff.1 hlast
  rw [← List.append_assoc] at h
  have hr := ready_start (entries_sure he)
  obtain ⟨hfirst, hothers⟩ := h.last_ne
  have hsample : ∀ t ∈ w.map sample, t.span.last ≠ last.span.last :=
    List.forall_mem_map.2 fun _ _ => hfirst
  have hu : r.Unended last.span.last := h.unended hr ⟨unended_nil, List.forall_mem_nil _⟩ hfirst
    (by rwa [List.dropLast_concat])
  cases hf : r.frames with
  | nil =>
    have hstart := h.last_eq
    rw [h.frames_eq_nil (entries_single e he) hf] at hstart
    simp [start] at hstart
  | cons f fs =>
    rw [Completes, hf] at hc
    obtain ⟨us₁, us₂, ys, heq, hrest, hc⟩ := hc
    rw [heq, List.forall_mem_append] at hsample
    -- the innermost node ends later, so that all that is added does
    have hlater : endOf r.place us₁ ≠ last.span.last := by
      cases us₁ with
      | nil =>
        have hnull := hrest.eq_nil.1
        rw [hopen f (by simp [hf])] at hnull
        cases hnull
      | cons t us =>
        obtain ⟨ht, hus⟩ := List.forall_mem_cons.1 hsample.1
        rw [endOf_cons]
        exact endOf_ne ht hus
    have hframes := hu.frames
    rw [hf, List.forall_mem_cons] at hframes
    have hparts : Parse.Unended last.span.last (f.parts ++ [] ++ ys) :=
      unended_append.2 ⟨by simpa using hframes.1, hrest.unended hsample.1⟩
    exact hc.unended hu.trees hframes.2 (unended_node hlater hparts) hlater hsample.2 x hx hend

end Reader

end PlatformGame.Parse
