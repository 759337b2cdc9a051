import PlatformGame.Proofs.Parse.Feed
import PlatformGame.Proofs.Parse.Layout

/-! # Reading a node inside another

A node that is read on its own is read in the same way inside an open node: the reader looks at what
lies further out only when the node is complete. For nodes that end with a token of their own, such
as a closing brace, this is the case when the text of the node is (`Reader.InNode`), so a run over
the text is found again in the run over any larger text that goes on with a newline
(`Reader.exists_read_inside`). -/

namespace PlatformGame.Grammar

open Phrase

/-- The phrase ends with a token outside all its nodes. -/
def Phrase.capped : Phrase → Bool
  | token _ _ => true
  | seq p q => q.capped || (p.capped && q == nothing)
  | _ => false

theorem Phrase.nullable_of_capped {p : Phrase} (h : p.capped = true) : p.nullable = false := by
  induction p with
  | token t keep => rfl
  | seq p q ihp ihq =>
    simp only [capped, Bool.or_eq_true, Bool.and_eq_true] at h
    rcases h with h | ⟨h, -⟩
    · simp [nullable, ihq h]
    · simp [nullable, ihp h]
  | _ => cases h

end PlatformGame.Grammar

namespace PlatformGame.Parse

open Grammar Source

variable {tok : Token} {o : Opening} {f : Frame}

/-! ## What is left of a node -/

/-- Nothing is left. -/
def Spent (ps : List Phrase) : Prop := ∀ p ∈ ps, p = .nothing

/-- The last that is left is a capped phrase. -/
def Capped (ps : List Phrase) : Prop :=
  ∃ qs q ns, ps = qs ++ q :: ns ∧ q.capped = true ∧ Spent ns

theorem Spent.append {ps qs : List Phrase} (hp : Spent ps) (hq : Spent qs) : Spent (ps ++ qs) :=
  List.forall_mem_append.2 ⟨hp, hq⟩

theorem Spent.allNullable {ps : List Phrase} (h : Spent ps) : allNullable ps = true :=
  List.all_eq_true.2 fun p hp => by rw [h p hp]; rfl

theorem Spent.takeAll {ps : List Phrase} (h : Spent ps) (tok : Token) : takeAll tok ps = none := by
  induction ps with
  | nil => rfl
  | cons p ps ih =>
    obtain ⟨rfl, hps⟩ := List.forall_mem_cons.1 h
    rw [Parse.takeAll, ih hps]
    rfl

theorem Spent.firstOfAll {ps : List Phrase} (h : Spent ps) (after : List Terminal) :
    firstOfAll ps after = after := by
  induction ps with
  | nil => rfl
  | cons p ps ih =>
    obtain ⟨rfl, hps⟩ := List.forall_mem_cons.1 h
    rw [Parse.firstOfAll, ih hps]
    rfl

namespace Capped

variable {ps : List Phrase}

theorem append_left (h : Capped ps) (qs : List Phrase) : Capped (qs ++ ps) := by
  obtain ⟨qs', q, ns, rfl, hq, hns⟩ := h
  exact ⟨qs ++ qs', q, ns, by simp, hq, hns⟩

theorem append_spent (h : Capped ps) {ns : List Phrase} (hns : Spent ns) : Capped (ps ++ ns) := by
  obtain ⟨qs, q, ns', rfl, hq, hns'⟩ := h
  exact ⟨qs, q, ns' ++ ns, by simp, hq, hns'.append hns⟩

theorem singleton {q : Phrase} (h : q.capped = true) : Capped [q] :=
  ⟨[], q, [], rfl, h, fun _ hp => absurd hp List.not_mem_nil⟩

theorem not_allNullable (h : Capped ps) : allNullable ps ≠ true := by
  obtain ⟨qs, q, ns, rfl, hq, -⟩ := h
  intro hall
  have hnull := List.all_eq_true.1 hall q (by simp)
  rw [Phrase.nullable_of_capped hq] at hnull
  cases hnull

end Capped

/-- What is left after a token: nothing, or still a capped phrase. -/
def Opening.Caps (o : Opening) : Prop := (o.frames = [] ∧ Spent o.rest) ∨ Capped o.rest

theorem Opening.Caps.append_spent (h : o.Caps) {ns : List Phrase} (hns : Spent ns) :
    Opening.Caps { o with rest := o.rest ++ ns } :=
  h.imp (fun h => ⟨h.1, h.2.append hns⟩) fun h => h.append_spent hns

theorem spent_nothing : Spent [.nothing] := fun _ hp => List.mem_singleton.1 hp

theorem Opens.caps {p : Phrase} (h : Opens tok p o) (hp : p.capped = true) : o.Caps := by
  induction h with
  | token keep => exact .inl ⟨rfl, fun _ hq => absurd hq List.not_mem_nil⟩
  | @first _ o _ _ ih =>
    simp only [Phrase.capped, Bool.or_eq_true, Bool.and_eq_true, beq_iff_eq] at hp
    rcases hp with hq | ⟨hp, rfl⟩
    · exact .inr ((Capped.singleton hq).append_left o.rest)
    · exact (ih hp).append_spent spent_nothing
  | second _ hq ih =>
    simp only [Phrase.capped, Bool.or_eq_true, Bool.and_eq_true, beq_iff_eq] at hp
    rcases hp with hp | ⟨-, rfl⟩
    · exact ih hp
    · cases hq
  | _ => cases hp

theorem caps_of_takeAll {ps : List Phrase} (hps : Capped ps) (h : takeAll tok ps = some o) :
    o.Caps := by
  replace h := OpensAll.of_takeAll h
  induction h with
  | @head p o ps h =>
    obtain ⟨_ | ⟨q', qs⟩, q, ns, heq, hq, hns⟩ := hps
    · obtain ⟨rfl, rfl⟩ := List.cons.inj heq
      exact (h.caps hq).append_spent hns
    · obtain ⟨rfl, rfl⟩ := List.cons.inj heq
      exact .inr (Capped.append_left ⟨qs, q, ns, rfl, hq, hns⟩ o.rest)
  | tail hn _ ih =>
    obtain ⟨_ | ⟨q', qs⟩, q, ns, heq, hq, hns⟩ := hps
    · obtain ⟨rfl, rfl⟩ := List.cons.inj heq
      rw [Phrase.nullable_of_capped hq] at hn
      cases hn
    · obtain ⟨rfl, rfl⟩ := List.cons.inj heq
      exact ih ⟨qs, q, ns, rfl, hq, hns⟩

/-- The outermost node is labelled `l`, and a capped phrase is left of it. -/
def Rooted (l : Label) : List Frame → Prop
  | [] => False
  | [f] => f.label = l ∧ Capped f.rest
  | _ :: f :: fs => Rooted l (f :: fs)

theorem rooted_append {l : Label} (fs : List Frame) {gs : List Frame} :
    Rooted l (fs ++ f :: gs) ↔ Rooted l (f :: gs) := by
  induction fs with
  | nil => rfl
  | cons g fs ih =>
    cases fs with
    | nil => rfl
    | cons g' fs => exact ih

theorem rooted_parts {l : Label} {fs : List Frame} (parts : List Tree) :
    Rooted l ({ f with parts := parts } :: fs) ↔ Rooted l (f :: fs) := by
  cases fs <;> rfl

namespace Reader

/-! ## A node on its own -/

/-- All that is left of the reader's only open node is to close it. -/
structure Ended (l : Label) (r : Reader) : Prop where
  frames : ∃ f, r.frames = [f] ∧ f.label = l ∧ Spent f.rest
  trees : r.trees = []
  goal : r.goal = []

/-- The reader is in a node labelled `l` and in no node around it, and the last token of the node is
still to come. -/
structure InNode (l : Label) (r : Reader) : Prop where
  frames : Rooted l r.frames
  trees : r.trees = []
  goal : r.goal = []

variable {trees : List Tree} {l : Label} {r r' : Reader}

theorem frames_ne_nil (h : r.InNode l ∨ r.Ended l) : r.frames ≠ [] := by
  rcases h with h | h
  · intro hf
    have hframes := h.frames
    rw [hf] at hframes
    exact hframes
  · obtain ⟨f, hf, -⟩ := h.frames
    simp [hf]

theorem InNode.close {g : Frame} {gs : List Frame} (h : r.InNode l) (hf : r.frames = f :: g :: gs) :
    r.close.InNode l := by
  have hframes := h.frames
  rw [hf] at hframes
  have hrooted : Rooted l (g :: gs) := hframes
  exact ⟨by simpa [Reader.close, hf] using (rooted_parts _).2 hrooted,
    by simp [Reader.close, hf, h.trees], by simp [Reader.close, hf, h.goal]⟩

theorem Takes.inNode_or_ended (h : Takes tok r r') (hr : r.InNode l) :
    r'.InNode l ∨ r'.Ended l := by
  induction h with
  | goal hf _ =>
    have hframes := hr.frames
    rw [hf] at hframes
    exact hframes.elim
  | @node r f fs o hf ho =>
    have hframes := hr.frames
    rw [hf] at hframes
    cases fs with
    | cons g gs => exact .inl ⟨(rooted_append _).2 hframes, hr.trees, hr.goal⟩
    | nil =>
      rcases caps_of_takeAll hframes.2 ho with ⟨hnone, hspent⟩ | hcapped
      · refine .inr ⟨⟨{ f with parts := f.parts ++ o.parts, rest := o.rest }, ?_, hframes.1,
          hspent⟩, hr.trees, hr.goal⟩
        rw [hnone, List.nil_append]
      · exact .inl ⟨(rooted_append _).2 ⟨hframes.1, hcapped⟩, hr.trees, hr.goal⟩
  | @close f fs r r' hf hn _ ih =>
    have hframes := hr.frames
    rw [hf] at hframes
    cases fs with
    | nil => exact absurd hn hframes.2.not_allNullable
    | cons g gs => exact ih (hr.close hf)

theorem Ended.not_takes (hr : r.Ended l) : ¬ Takes tok r r' := by
  obtain ⟨f, hf, -, hspent⟩ := hr.frames
  intro h
  cases h with
  | goal hnil _ => simp [hf] at hnil
  | node hf' ho =>
    rw [hf] at hf'
    cases hf'
    rw [hspent.takeAll] at ho
    cases ho
  | close hf' _ h =>
    rw [hf] at hf'
    cases hf'
    cases h with
    | goal _ ho =>
      simp [Reader.close, hf, hr.goal, takeAll] at ho
    | node hf' _ => simp [Reader.close, hf] at hf'
    | close hf' _ _ => simp [Reader.close, hf] at hf'

theorem InNode.not_finishes (hr : r.InNode l) : ¬ Finishes r trees := by
  intro h
  induction h with
  | goal hf _ =>
    have hframes := hr.frames
    rw [hf] at hframes
    exact hframes
  | @close f fs r xs hf hn _ ih =>
    have hframes := hr.frames
    rw [hf] at hframes
    cases fs with
    | nil => exact hframes.2.not_allNullable hn
    | cons g gs => exact ih (hr.close hf)

theorem Ended.trees_of_finishes (hr : r.Ended l) (h : Finishes r trees) :
    trees = r.close.trees := by
  obtain ⟨f, hf, -⟩ := hr.frames
  cases h with
  | goal hnil _ => simp [hf] at hnil
  | close _ _ h =>
    cases h with
    | goal _ _ => rfl
    | close hf' _ _ => simp [Reader.close, hf] at hf'

/-! ## The same node inside another -/

/-- The reader with the node `g` around all that it has read, and the nodes `gs` around that. -/
def inside (r : Reader) (g : Frame) (gs : List Frame) : Reader :=
  ⟨r.frames ++ { g with parts := g.parts ++ r.trees } :: gs, [], [], r.last⟩

variable {g : Frame} {gs : List Frame}

theorem close_inside (h : r.frames ≠ []) : (r.inside g gs).close = r.close.inside g gs := by
  obtain ⟨frames, trees, goal, last⟩ := r
  rcases frames with _ | ⟨f, _ | ⟨f', fs⟩⟩
  · exact absurd rfl h
  · simp [Reader.close, inside, spanFrom]
  · simp [Reader.close, inside, spanFrom]

theorem admitted_inside (h : r.frames ≠ []) : (r.inside g gs).admitted = r.admitted := by
  obtain ⟨_ | ⟨f, fs⟩, trees, goal, last⟩ := r
  · exact absurd rfl h
  · rfl

theorem goal_close : r.close.goal = r.goal := by
  obtain ⟨_ | ⟨f, _ | ⟨f', fs⟩⟩, trees, goal, last⟩ := r <;> rfl

theorem length_frames_close : r.close.frames.length = r.frames.length - 1 := by
  obtain ⟨_ | ⟨f, _ | ⟨f', fs⟩⟩, trees, goal, last⟩ := r <;> rfl

theorem feedFrom_inside {n k : Nat} (hn : n = r.frames.length) (hgoal : r.goal = [])
    (hend : tok.terminal ≠ .endOfInput) (h : feedFrom tok n r = .taken r') :
    feedFrom tok (n + k) (r.inside g gs) = .taken (r'.inside g gs) := by
  induction n generalizing r with
  | zero => simp [feedFrom, hend, hgoal, takeAll] at h
  | succ n ih =>
    obtain ⟨f, fs, hf⟩ := List.exists_cons_of_length_eq_add_one hn.symm
    have hinside : (r.inside g gs).frames =
        f :: (fs ++ { g with parts := g.parts ++ r.trees } :: gs) := by simp [inside, hf]
    rw [Nat.succ_add]
    simp only [feedFrom, hf] at h
    simp only [feedFrom, hinside]
    cases ho : takeAll tok f.rest with
    | some o =>
      rw [ho] at h
      cases h
      simp [inside]
    | none =>
      rw [ho] at h
      dsimp only at h ⊢
      split at h
      · next hclose =>
        rw [if_pos hclose, close_inside (by simp [hf])]
        refine ih ?_ (goal_close.trans hgoal) h
        rw [length_frames_close, ← hn]
        rfl
      · cases h

/-- A token that is taken in a node on its own is taken there inside another node, too. -/
theorem feed_inside (hgoal : r.goal = []) (hend : tok.terminal ≠ .endOfInput)
    (h : r.feed tok = .taken r') : (r.inside g gs).feed tok = .taken (r'.inside g gs) := by
  have hfeed : feedFrom tok (r.frames.length + (gs.length + 1)) (r.inside g gs) = _ :=
    feedFrom_inside rfl hgoal hend h
  rw [feed]
  simpa [inside, Nat.add_assoc] using hfeed

theorem finishes_of_finish (h : r.finish = .ok trees) : Finishes r trees := by
  unfold finish at h
  split at h
  · next hfeed =>
    cases h
    exact (finishes_of_feedFrom rfl hfeed).2
  · cases h
  · cases h

/-- The next token of a text is recognised as well when more stands behind the text. -/
theorem exists_token?_append {cs rest : List Char} (hrest : Parted rest) {p : Position}
    {admitted : List Terminal} {c : Cursor}
    (h : (Cursor.nextStart ⟨cs, p⟩).token? admitted = some (tok, c)) (q : Position) :
    ∃ tok' q', tok'.shape = tok.shape ∧
      (Cursor.nextStart ⟨cs ++ rest, q⟩).token? admitted = some (tok', ⟨c.rest ++ rest, q'⟩) := by
  obtain ⟨gap, hgap, hcs⟩ := Cursor.exists_gap_nextStart (nextStart_ne_nil h)
  obtain ⟨⟨t, split⟩, hscan, heq⟩ := Option.map_eq_some_iff.1 h
  cases heq
  obtain ⟨hm, htext⟩ := matches_of_scan hscan
  have happend : cs ++ rest = gap ++ ((Cursor.nextStart ⟨cs, p⟩).rest ++ rest) := by
    rw [← List.append_assoc, ← hcs]
  have hstart : Cursor.nextStart ⟨cs ++ rest, q⟩ =
      ⟨(Cursor.nextStart ⟨cs, p⟩).rest ++ rest, q.after gap⟩ := by
    rw [happend, Cursor.nextStart_gap_append hgap]
    refine Cursor.nextStart_of_none ?_
    rw [← htext, List.append_assoc]
    exact layout?_append hm _
  have hne : (Cursor.nextStart ⟨cs, p⟩).rest ≠ [] := nextStart_ne_nil h
  have hscan' := scan_append_of_parted admitted hne (isSome_string?_of_scan hscan) hrest
  rw [hscan] at hscan'
  refine ⟨⟨t, String.ofList split.piece, q.after gap, (q.after gap).after split.piece⟩,
    (q.after gap).after split.piece, rfl, ?_⟩
  rw [hstart, Cursor.token?, hscan']
  rfl

/-- The run over the text of a node is found again inside another node, up to the newline that
stands behind the text. -/
theorem exists_read_inside {s : Reader} (hr : r.InNode l ∨ r.Ended l)
    (hs : s.shape = (r.inside g gs).shape) {cs : List Char} {p : Position}
    (h : r.read ⟨cs, p⟩ = .ok trees) (tail : List Char) (q : Position) :
    ∃ (r' s' : Reader) (q' : Position), r'.Ended l ∧ r'.close.trees = trees ∧
      s'.shape = (r'.inside g gs).shape ∧
      s.read ⟨cs ++ '\n' :: tail, q⟩ = s'.read ⟨tail, q'⟩ := by
  induction hn : cs.length using Nat.strongRecOn generalizing r s cs p q with
  | ind n ih =>
  by_cases hnil : (Cursor.nextStart ⟨cs, p⟩).rest = []
  · -- only gaps are left, and inside the other node the newline goes on with them
    have hfinish := finishes_of_finish (read_of_nil hnil ▸ h)
    have hended : r.Ended l := hr.resolve_left fun hin => hin.not_finishes hfinish
    have hgap := Cursor.gap_append_newline hnil
    refine ⟨r, s, q.after (cs ++ ['\n']), hended, (hended.trees_of_finishes hfinish).symm, hs, ?_⟩
    have hstart := Cursor.nextStart_gap_append hgap tail q
    rw [List.append_assoc] at hstart
    exact read_congr hstart
  · cases htok : (Cursor.nextStart ⟨cs, p⟩).token? r.admitted with
    | none =>
      have hnone := toOption_read_of_none hnil htok
      rw [h] at hnone
      cases hnone
    | some x =>
      obtain ⟨tok, c⟩ := x
      have hend : tok.terminal ≠ .endOfInput := fun hend => by
        have hm := (Cursor.of_token? htok).1
        rwa [hend] at hm
      have hparted : Parted ('\n' :: tail) := by simp [Parted, isSpace]
      obtain ⟨tok', q', hshape, htok'⟩ := exists_token?_append hparted htok q
      have hadmitted : s.admitted = r.admitted := by
        rw [← admitted_shape, hs, admitted_shape, admitted_inside (frames_ne_nil hr)]
      rw [← hadmitted] at htok'
      cases hfeed : r.feed tok with
      | refused r₁ =>
        have hnone := toOption_read_of_refused htok hfeed
        rw [h] at hnone
        cases hnone
      | finished trees => exact absurd (finishes_of_feedFrom rfl hfeed).1 hend
      | taken r₁ =>
        have hgoal := hr.elim InNode.goal Ended.goal
        obtain ⟨s₁, hfeed', hs₁⟩ :=
          exists_feed_of_shape_eq hs hshape (feed_inside hgoal hend hfeed)
        have hr₁ := hr.resolve_right fun hended => hended.not_takes (takes_of_feedFrom rfl hfeed)
        have hlen : c.rest.length < n := by
          have hlt := length_rest_lt_of_token? htok
          have hle := Cursor.length_nextStart_le ⟨cs, p⟩
          simp only at hle
          omega
        obtain ⟨r', s', q'', hended, htrees, hs', hread⟩ :=
          ih _ hlen ((takes_of_feedFrom rfl hfeed).inNode_or_ended hr₁) hs₁
            (read_of_taken htok hfeed ▸ h) q' rfl
        exact ⟨r', s', q'', hended, htrees, hs', (read_of_taken htok' hfeed').trans hread⟩

end Reader

end PlatformGame.Parse
