import PlatformGame.Proofs.Parse.Sentence
import PlatformGame.Proofs.Parse.Subtree

/-! # What follows a node

`NodeAt l p before inside after` says that in a text of the phrase `p` the tokens `inside`, between
the two other parts, make a node labelled `l`. The set that the grammar keeps for a label is just
what some text has behind such a node (`mem_follow_iff_follows`), so that it joins together what
follows the node at all of its places. -/

namespace PlatformGame.Parse

open Grammar Source

variable {t : Terminal} {l : Label} {far : List Terminal} {p : Phrase}

/-- In a text of the phrase the tokens in the middle make a node with the given label. -/
inductive NodeAt (l : Label) : Phrase → List Token → List Token → List Token → Prop
  | here {p : Phrase} : Derives (.node l p) inside xs → NodeAt l (.node l p) [] inside []
  | child {m : Label} {p : Phrase} : NodeAt l p before inside after →
    NodeAt l (.node m p) before inside after
  | first {p q : Phrase} : NodeAt l p before inside after → Derives q us ys →
    NodeAt l (.seq p q) before inside (after ++ us)
  | second {p q : Phrase} : Derives p us ys → NodeAt l q before inside after →
    NodeAt l (.seq p q) (us ++ before) inside after
  | left {p q : Phrase} : NodeAt l p before inside after → NodeAt l (.alt p q) before inside after
  | right {p q : Phrase} : NodeAt l q before inside after → NodeAt l (.alt p q) before inside after
  | more {p : Phrase} : NodeAt l p before inside after → Derives (.many p) us ys →
    NodeAt l (.many p) before inside (after ++ us)
  | later {p : Phrase} : Derives p us ys → NodeAt l (.many p) before inside after →
    NodeAt l (.many p) (us ++ before) inside after
  | comma {p : Phrase} {tok : Token} : tok.terminal = .keyword .comma →
    NodeAt l (.afterComma p) before inside after →
    NodeAt l (.afterItem p) (tok :: before) inside after
  | item {p : Phrase} : NodeAt l p before inside after → Derives (.afterItem p) us ys →
    NodeAt l (.afterComma p) before inside (after ++ us)
  | laterItem {p : Phrase} : Derives p us ys → NodeAt l (.afterItem p) before inside after →
    NodeAt l (.afterComma p) (us ++ before) inside after

/-- The terminals that can come next, `far` standing behind the tokens. -/
def upNext (far : List Terminal) : List Token → List Terminal
  | [] => far
  | tok :: _ => [tok.terminal]

/-- What may come next starts a text of the phrase, or stands behind its empty text. -/
theorem mem_upNext_firstOr_iff {q : Phrase} (hs : q.solid = true) {as : List Token} :
    t ∈ upNext (q.firstOr far) as ↔ ∃ us ys, Derives q us ys ∧ t ∈ upNext far (as ++ us) := by
  cases as with
  | cons tok as =>
    obtain ⟨us, ys, hq⟩ := exists_derives hs
    exact ⟨fun ht => ⟨us, ys, hq, ht⟩, fun ⟨_, _, _, ht⟩ => ht⟩
  | nil =>
    constructor
    · intro ht
      rcases List.mem_append.1 ht with ht | ht
      · obtain ⟨tok, us, ys, rfl, hq⟩ := exists_derives_cons hs ht
        exact ⟨tok :: us, ys, hq, List.mem_singleton_self _⟩
      · split at ht
        · next hn => exact ⟨[], [], Phrase.derives_nil_of_nullable hs hn, ht⟩
        · cases ht
    · rintro ⟨us, ys, hq, ht⟩
      cases us with
      | nil =>
        rw [upNext, Phrase.firstOr, if_pos (hq.eq_nil rfl).1]
        exact List.mem_append_right _ ht
      | cons tok us =>
        obtain rfl := List.mem_singleton.1 ht
        exact List.mem_append_left _ (hq.mem_first hs rfl)

theorem exists_nodeAt_of_mem_followers (hs : p.solid = true) {ts : List Terminal}
    (hl : (l, ts) ∈ p.followers far) (ht : t ∈ ts) :
    ∃ before inside after, NodeAt l p before inside after ∧ t ∈ upNext far after := by
  induction p generalizing far with
  | nothing | token => cases hl
  | seq p q ihp ihq =>
    have hs' := hs
    rw [Phrase.solid, Bool.and_eq_true] at hs'
    rcases List.mem_append.1 hl with hl | hl
    · obtain ⟨before, inside, after, hnode, hnext⟩ := ihp hs'.1 hl
      obtain ⟨us, ys, hq, hnext⟩ := (mem_upNext_firstOr_iff hs'.2).1 hnext
      exact ⟨before, inside, after ++ us, .first hnode hq, hnext⟩
    · obtain ⟨before, inside, after, hnode, hnext⟩ := ihq hs'.2 hl
      obtain ⟨us, ys, hp⟩ := exists_derives hs'.1
      exact ⟨us ++ before, inside, after, .second hp hnode, hnext⟩
  | alt p q ihp ihq =>
    rw [Phrase.solid, Bool.and_eq_true] at hs
    rcases List.mem_append.1 hl with hl | hl
    · obtain ⟨before, inside, after, hnode, hnext⟩ := ihp hs.1 hl
      exact ⟨before, inside, after, .left hnode, hnext⟩
    · obtain ⟨before, inside, after, hnode, hnext⟩ := ihq hs.2 hl
      exact ⟨before, inside, after, .right hnode, hnext⟩
  | many p ih =>
    obtain ⟨before, inside, after, hnode, hnext⟩ := ih hs hl
    have hmany : (Phrase.many p).solid = true := hs
    obtain ⟨us, ys, hq, hnext⟩ := (mem_upNext_firstOr_iff hmany).1 hnext
    exact ⟨before, inside, after ++ us, .more hnode hq, hnext⟩
  | afterItem p ih =>
    have hp : p.solid = true := (Bool.and_eq_true_iff.1 hs).1
    obtain ⟨before, inside, after, hnode, hnext⟩ := ih hp hl
    obtain ⟨us, ys, hq, hnext⟩ := (mem_upNext_firstOr_iff hs).1 hnext
    exact ⟨sample (.keyword .comma) :: before, inside, after ++ us,
      .comma rfl (.item hnode hq), hnext⟩
  | afterComma p ih =>
    have hp : p.solid = true := (Bool.and_eq_true_iff.1 hs).1
    have hitem : (Phrase.afterItem p).solid = true := hs
    obtain ⟨before, inside, after, hnode, hnext⟩ := ih hp hl
    obtain ⟨us, ys, hq, hnext⟩ := (mem_upNext_firstOr_iff hitem).1 hnext
    exact ⟨before, inside, after ++ us, .item hnode hq, hnext⟩
  | node m p ih =>
    rcases List.mem_cons.1 hl with hl | hl
    · cases hl
      obtain ⟨us, ys, hp⟩ := exists_derives hs
      exact ⟨[], us, [], .here hp, ht⟩
    · obtain ⟨before, inside, after, hnode, hnext⟩ := ih (Bool.and_eq_true_iff.1 hs).1 hl
      exact ⟨before, inside, after, .child hnode, hnext⟩

theorem NodeAt.exists_mem_followers {before inside after : List Token}
    (h : NodeAt l p before inside after) (hs : p.solid = true) (ht : t ∈ upNext far after) :
    ∃ ts, (l, ts) ∈ p.followers far ∧ t ∈ ts := by
  induction h generalizing far with
  | here hd => exact ⟨far, List.mem_cons_self, ht⟩
  | child _ ih =>
    obtain ⟨ts, hl, ht⟩ := ih (Bool.and_eq_true_iff.1 hs).1 ht
    exact ⟨ts, List.mem_cons_of_mem _ hl, ht⟩
  | first _ hq ih =>
    rw [Phrase.solid, Bool.and_eq_true] at hs
    obtain ⟨ts, hl, ht⟩ := ih hs.1 ((mem_upNext_firstOr_iff hs.2).2 ⟨_, _, hq, ht⟩)
    exact ⟨ts, List.mem_append_left _ hl, ht⟩
  | second _ _ ih =>
    obtain ⟨ts, hl, ht⟩ := ih (Bool.and_eq_true_iff.1 hs).2 ht
    exact ⟨ts, List.mem_append_right _ hl, ht⟩
  | left _ ih =>
    obtain ⟨ts, hl, ht⟩ := ih (Bool.and_eq_true_iff.1 hs).1 ht
    exact ⟨ts, List.mem_append_left _ hl, ht⟩
  | right _ ih =>
    obtain ⟨ts, hl, ht⟩ := ih (Bool.and_eq_true_iff.1 hs).2 ht
    exact ⟨ts, List.mem_append_right _ hl, ht⟩
  | more _ hq ih => exact ih hs ((mem_upNext_firstOr_iff hs).2 ⟨_, _, hq, ht⟩)
  | later _ _ ih | comma _ _ ih | laterItem _ _ ih => exact ih hs ht
  | item _ hq ih =>
    have hnext := (mem_upNext_firstOr_iff (q := .afterItem _) hs).2 ⟨_, _, hq, ht⟩
    exact ih (Bool.and_eq_true_iff.1 hs).1 hnext

/-- The terminal stands right behind a node with the given label in some text, the end of input
standing behind every text. -/
def Follows (l : Label) (t : Terminal) : Prop :=
  ∃ e ∈ entries, ∃ before inside after,
    NodeAt l e.2 before inside after ∧ t ∈ upNext [.endOfInput] after

theorem mem_follow_iff_follows : t ∈ follow l ↔ Follows l t := by
  rw [mem_follow_iff]
  constructor
  · rintro ⟨ts, hl, ht⟩
    obtain ⟨e, he, hl⟩ := List.mem_flatMap.1 hl
    exact ⟨e, he, exists_nodeAt_of_mem_followers (entries_sure he).solid hl ht⟩
  · rintro ⟨e, he, before, inside, after, hnode, ht⟩
    obtain ⟨ts, hl, ht⟩ := hnode.exists_mem_followers (entries_sure he).solid ht
    exact ⟨ts, List.mem_flatMap.2 ⟨e, he, hl⟩, ht⟩

/-! ## Nodes of trees -/

theorem exists_getLast?_eq_endOf (tok : Token) (ts : List Token) :
    ∃ last, (tok :: ts).getLast? = some last ∧ last.span.last = endOf tok.span.last ts := by
  induction ts generalizing tok with
  | nil => exact ⟨tok, rfl, rfl⟩
  | cons u ts ih =>
    obtain ⟨last, hlast, heq⟩ := ih u
    exact ⟨last, by rwa [List.getLast?_cons_cons], heq⟩

/-- A node inside a tree of a text is made of some of its tokens, up to the end of the node. -/
theorem Derives.exists_nodeAt {toks : List Token} {trees : List Tree} (h : Derives p toks trees)
    {t : Tree} (ht : t ∈ trees) {first place : Position} {children : List Tree}
    (hw : Tree.Within (.node l (some ⟨first, place⟩) children) t) :
    ∃ before inside after last, toks = before ++ inside ++ after ∧
      NodeAt l p before inside after ∧ inside.getLast? = some last ∧ last.span.last = place := by
  induction h generalizing t with
  | nothing | manyEnd | itemEnd | commaEnd => exact absurd ht List.not_mem_nil
  | token tok keep =>
    cases keep with
    | false => exact absurd ht List.not_mem_nil
    | true =>
      obtain rfl := List.mem_singleton.1 ht
      cases hw
  | seq hp hq ihp ihq =>
    rcases List.mem_append.1 ht with ht | ht
    · obtain ⟨before, inside, after, last, rfl, hnode, hlast⟩ := ihp ht hw
      exact ⟨before, inside, _, last, by simp, .first hnode hq, hlast⟩
    · obtain ⟨before, inside, after, last, rfl, hnode, hlast⟩ := ihq ht hw
      exact ⟨_, inside, after, last, by simp, .second hp hnode, hlast⟩
  | left _ ih =>
    obtain ⟨before, inside, after, last, heq, hnode, hlast⟩ := ih ht hw
    exact ⟨before, inside, after, last, heq, .left hnode, hlast⟩
  | right _ ih =>
    obtain ⟨before, inside, after, last, heq, hnode, hlast⟩ := ih ht hw
    exact ⟨before, inside, after, last, heq, .right hnode, hlast⟩
  | more hp hq ihp ihq =>
    rcases List.mem_append.1 ht with ht | ht
    · obtain ⟨before, inside, after, last, rfl, hnode, hlast⟩ := ihp ht hw
      exact ⟨before, inside, _, last, by simp, .more hnode hq, hlast⟩
    · obtain ⟨before, inside, after, last, rfl, hnode, hlast⟩ := ihq ht hw
      exact ⟨_, inside, after, last, by simp, .later hp hnode, hlast⟩
  | comma hcomma _ ih =>
    obtain ⟨before, inside, after, last, rfl, hnode, hlast⟩ := ih ht hw
    exact ⟨_ :: before, inside, after, last, by simp, .comma hcomma hnode, hlast⟩
  | item hp hq ihp ihq =>
    rcases List.mem_append.1 ht with ht | ht
    · obtain ⟨before, inside, after, last, rfl, hnode, hlast⟩ := ihp ht hw
      exact ⟨before, inside, _, last, by simp, .item hnode hq, hlast⟩
    · obtain ⟨before, inside, after, last, rfl, hnode, hlast⟩ := ihq ht hw
      exact ⟨_, inside, after, last, by simp, .laterItem hp hnode, hlast⟩
  | node _ hd ih =>
    obtain rfl := List.mem_singleton.1 ht
    cases hw with
    | refl =>
      obtain ⟨last, hlast, heq⟩ := exists_getLast?_eq_endOf _ _
      exact ⟨[], _, [], last, by simp, .here (.node _ hd), hlast, heq⟩
    | child hu hw =>
      obtain ⟨before, inside, after, last, heq, hnode, hlast⟩ := ih hu hw
      exact ⟨before, inside, after, last, heq, .child hnode, hlast⟩

end PlatformGame.Parse
