import PlatformGame.Proofs.Source.Layout

/-! # Layout between words

A `Gap` is layout that ends by itself, whatever stands behind it; a comment to the end of the line
does so only with its newline. `Laid words text` says that a text is the given words in order, with
gaps before, between and after them, of which those between are not empty.

Skipping layout is told by what it leaves: the gap in front of a text makes no difference but to
the position (`nextStart_gap_append`), and what is parted from a text does not change which token it
starts with (`scan_append_of_parted`). -/

namespace PlatformGame.Source

open Grammar

inductive Gap : List Char → Prop
  | nil : Gap []
  | blank : isSpace c = true → Gap cs → Gap (c :: cs)
  | line : (∀ c ∈ body, c ≠ '\n') → Gap cs → Gap ('/' :: '/' :: (body ++ '\n' :: cs))
  | block : ¬ ['*', '/'] <:+: body ++ ['*'] → Gap cs →
    Gap ('/' :: '*' :: (body ++ '*' :: '/' :: cs))

/-- What stands behind a word. -/
inductive Behind : List String → List Char → Prop
  | last : Gap gap → Behind [] gap
  | next : Gap gap → gap ≠ [] → Behind words rest →
    Behind (word :: words) (gap ++ (word.toList ++ rest))

inductive Laid : List String → List Char → Prop
  | empty : Gap gap → Laid [] gap
  | words : Gap gap → Behind words rest → Laid (word :: words) (gap ++ (word.toList ++ rest))

variable {gap rest : List Char}

/-- A text that some token has. -/
def IsTokenText (word : String) : Prop := ∃ t : Terminal, t.Matches word.toList

theorem Gap.parted (h : Gap gap) (hne : gap ≠ []) (rest : List Char) : Parted (gap ++ rest) := by
  cases h with
  | nil => exact absurd rfl hne
  | blank hc _ => simpa [Parted] using .inl hc
  | line _ _ => simp [Parted]
  | block _ _ => simp [Parted]

theorem Behind.parted {words : List String} (h : Behind words rest) : Parted rest := by
  cases h with
  | last hg =>
    by_cases hne : rest = []
    · simp [Parted, hne]
    · simpa using hg.parted hne []
  | next hg hne _ => exact hg.parted hne _

/-! ## Skipping a gap -/

theorem LayoutPiece.ne_nil {cs : List Char} (h : LayoutPiece rest cs) : cs ≠ [] := by
  cases h with
  | blank hne _ => exact hne
  | line _ _ => exact List.cons_ne_nil _ _
  | block _ => exact List.cons_ne_nil _ _

theorem commentTail_append {body : List Char} (h : ¬ ['*', '/'] <:+: body ++ ['*'])
    (rest : List Char) :
    commentTail (body ++ '*' :: '/' :: rest) = some ⟨body ++ ['*', '/'], rest⟩ := by
  induction body with
  | nil => rfl
  | cons c body ih =>
    rw [List.cons_append, List.infix_cons_iff, not_or] at h
    rw [List.cons_append, commentTail, ih h.2]
    · rfl
    · -- the comment would have ended at `c`
      intro cs hc hbody
      cases body with
      | nil => simp at hbody
      | cons d body =>
        obtain ⟨rfl, -⟩ := List.cons.inj hbody
        exact h.1 (by simp [hc])

theorem layout?_cons_of_isSpace {c : Char} (h : isSpace c = true) (cs : List Char) :
    layout? (c :: cs) = some (Split.span isSpace (c :: cs)) := by
  have hslash : c ≠ '/' := by
    rintro rfl
    exact absurd h (by decide)
  simp [layout?, hslash, Split.span, h]

/-- A piece of layout in front of a gap, which is to start with the newline that ends a comment. -/
theorem LayoutPiece.gap_append {piece : List Char} (h : LayoutPiece rest piece) (hgap : Gap gap)
    (hline : ∀ body, piece = '/' :: '/' :: body → gap.head? = some '\n') : Gap (piece ++ gap) := by
  cases h with
  | blank _ hblank =>
    clear hline
    induction piece with
    | nil => exact hgap
    | cons c piece ih =>
      rw [List.forall_mem_cons] at hblank
      by_cases hne : piece = []
      · subst hne
        exact .blank hblank.1 hgap
      · exact .blank hblank.1 (ih hne hblank.2)
  | @line body hbody =>
    obtain ⟨gap, rfl⟩ := List.head?_eq_some_iff.1 (hline body rfl)
    cases hgap with
    | blank _ hgap => exact .line hbody hgap
  | @block body hbody =>
    have hblock := Gap.block hbody hgap
    simpa using hblock

/-- A comment to the end of the line ends at a newline or with the text. -/
theorem LayoutPiece.head_rest {piece body : List Char} (h : LayoutPiece rest piece)
    (hpiece : piece = '/' :: '/' :: body) : ∀ c ∈ rest.head?, c = '\n' := by
  cases h with
  | blank _ hblank => exact absurd (hblank '/' (by simp [hpiece])) (by decide)
  | line _ hrest => exact hrest
  | block _ => cases hpiece

namespace Cursor

/-- Fuel for every character is enough to skip layout. -/
theorem skipLayout_eq {fuel fuel' : Nat} {c : Cursor} (h : c.rest.length ≤ fuel)
    (h' : c.rest.length ≤ fuel') : c.skipLayout fuel = c.skipLayout fuel' := by
  induction fuel generalizing fuel' c with
  | zero =>
    have hnone : layout? c.rest = none := by
      rw [List.eq_nil_of_length_eq_zero (Nat.le_zero.1 h)]
      rfl
    rw [skipLayout_of_none hnone, skipLayout_of_none hnone]
  | succ fuel ih =>
    cases hs : layout? c.rest with
    | none => rw [skipLayout_of_none hs, skipLayout_of_none hs]
    | some s =>
      obtain ⟨hpiece, htext⟩ := of_layout? hs
      have hlt : (c.past s).rest.length < c.rest.length := by
        have hpos := List.length_pos_iff.2 hpiece.ne_nil
        rw [← htext, List.length_append]
        exact Nat.lt_add_of_pos_left hpos
      cases fuel' with
      | zero => omega
      | succ fuel' =>
        simp only [skipLayout, hs]
        exact ih (by omega) (by omega)

theorem nextStart_of_layout? {c : Cursor} {s : Split} (h : layout? c.rest = some s) :
    c.nextStart = (c.past s).nextStart := by
  have hle : c.rest.length ≤ c.rest.length + 1 := Nat.le_succ _
  have hpast : (c.past s).rest.length ≤ c.rest.length := by
    rw [← (of_layout? h).2, List.length_append]
    exact Nat.le_add_left _ _
  rw [nextStart, skipLayout_eq (Nat.le_refl _) hle, skipLayout, h]
  exact skipLayout_eq hpast (Nat.le_refl _)

theorem nextStart_span (c : Cursor) :
    c.nextStart = (c.past (Split.span isSpace c.rest)).nextStart := by
  obtain ⟨cs, p⟩ := c
  cases cs with
  | nil => rfl
  | cons ch cs =>
    by_cases h : isSpace ch = true
    · exact nextStart_of_layout? (layout?_cons_of_isSpace h cs)
    · simp [Split.span, past, h, Position.after]

theorem nextStart_blank {ch : Char} (h : isSpace ch = true) (cs : List Char) (p : Position) :
    nextStart ⟨ch :: cs, p⟩ = nextStart ⟨cs, p.next ch⟩ := by
  rw [nextStart_span ⟨ch :: cs, p⟩, nextStart_span ⟨cs, p.next ch⟩]
  simp [Split.span, past, h, Position.after]

/-- A gap in front of a text is skipped. -/
theorem nextStart_gap_append (h : Gap gap) (rest : List Char) (p : Position) :
    nextStart ⟨gap ++ rest, p⟩ = nextStart ⟨rest, p.after gap⟩ := by
  induction h generalizing p with
  | nil => rfl
  | blank hc _ ih =>
    rw [List.cons_append, nextStart_blank hc, ih]
    rfl
  | @line body cs hbody _ ih =>
    have hspan : Split.span (· != '\n') (body ++ '\n' :: (cs ++ rest)) =
        ⟨body, '\n' :: (cs ++ rest)⟩ :=
      span_append (fun c hc => by simpa using hbody c hc) (by simp)
    have hs : layout? ('/' :: '/' :: (body ++ '\n' :: (cs ++ rest))) =
        some ⟨'/' :: '/' :: body, '\n' :: (cs ++ rest)⟩ := by simp [layout?, hspan, Split.push]
    have hnewline : isSpace '\n' = true := by decide
    have htext : '/' :: '/' :: (body ++ '\n' :: cs) ++ rest =
        '/' :: '/' :: (body ++ '\n' :: (cs ++ rest)) := by simp
    have hgap : '/' :: '/' :: (body ++ '\n' :: cs) = '/' :: '/' :: body ++ '\n' :: cs := rfl
    rw [htext, nextStart_of_layout? hs, past, nextStart_blank hnewline, ih, hgap,
      Position.after_append]
    rfl
  | @block body cs hbody _ ih =>
    have hs : layout? ('/' :: '*' :: (body ++ '*' :: '/' :: (cs ++ rest))) =
        some ⟨'/' :: '*' :: (body ++ ['*', '/']), cs ++ rest⟩ := by
      simp [layout?, commentTail_append hbody, Split.push]
    have htext : '/' :: '*' :: (body ++ '*' :: '/' :: cs) ++ rest =
        '/' :: '*' :: (body ++ '*' :: '/' :: (cs ++ rest)) := by simp
    have hgap : '/' :: '*' :: (body ++ '*' :: '/' :: cs) =
        '/' :: '*' :: (body ++ ['*', '/']) ++ cs := by simp
    rw [htext, nextStart_of_layout? hs, past, ih, hgap, Position.after_append]

/-- Pieces of layout are skipped one by one. -/
theorem layout_induction {motive : Cursor → Prop}
    (none : ∀ c, layout? c.rest = none → motive c)
    (some : ∀ c s, layout? c.rest = some s → motive (c.past s) → motive c) (c : Cursor) :
    motive c := by
  induction hn : c.rest.length using Nat.strongRecOn generalizing c with
  | ind n ih =>
  cases hs : layout? c.rest with
  | none => exact none c hs
  | some s =>
    obtain ⟨hpiece, htext⟩ := of_layout? hs
    have hlt : (c.past s).rest.length < n := by
      have hpos := List.length_pos_iff.2 hpiece.ne_nil
      rw [← hn, ← htext, List.length_append]
      exact Nat.lt_add_of_pos_left hpos
    exact some c s hs (ih _ hlt (c.past s) rfl)

/-- No layout stands where the next token starts. -/
theorem layout?_nextStart (c : Cursor) : layout? c.nextStart.rest = none := by
  induction c using layout_induction with
  | none c hs => rwa [nextStart_of_none hs]
  | some c s hs ih => rwa [nextStart_of_layout? hs]

/-- Layout in front of a token is a gap. -/
theorem exists_gap_nextStart {c : Cursor} (h : c.nextStart.rest ≠ []) :
    ∃ gap, Gap gap ∧ c.rest = gap ++ c.nextStart.rest := by
  induction c using layout_induction with
  | none c hs => exact ⟨[], .nil, by rw [nextStart_of_none hs, List.nil_append]⟩
  | some c s hs ih =>
    obtain ⟨hpiece, htext⟩ := of_layout? hs
    have hnone := (c.past s).layout?_nextStart
    rw [nextStart_of_layout? hs] at h ⊢
    obtain ⟨gap, hgap, hrest⟩ := ih h
    refine ⟨s.piece ++ gap, hpiece.gap_append hgap fun body hbody => ?_, ?_⟩
    · -- the newline at the end of the comment is layout, so it belongs to the gap
      have hnewline := hpiece.head_rest hbody
      rw [show s.rest = _ from hrest] at hnewline
      cases gap with
      | cons ch gap => rw [hnewline ch rfl, List.head?_cons]
      | nil =>
        obtain ⟨ch, cs, hcons⟩ := List.exists_cons_of_ne_nil h
        rw [hcons] at hnewline hnone
        obtain rfl := hnewline ch rfl
        rw [layout?_cons_of_isSpace (by decide)] at hnone
        cases hnone
    · rw [List.append_assoc, ← hrest]
      exact htext.symm

/-- A text that is all layout is a gap if a newline is added, which ends a comment at its end. -/
theorem gap_append_newline {c : Cursor} (h : c.nextStart.rest = []) : Gap (c.rest ++ ['\n']) := by
  induction c using layout_induction with
  | none c hs =>
    rw [nextStart_of_none hs] at h
    rw [h]
    exact .blank (by decide) .nil
  | some c s hs ih =>
    obtain ⟨hpiece, htext⟩ := of_layout? hs
    rw [nextStart_of_layout? hs] at h
    rw [← htext, List.append_assoc]
    refine hpiece.gap_append (ih h) fun body hbody => ?_
    have hnewline := hpiece.head_rest hbody
    cases hrest : s.rest with
    | nil => rfl
    | cons ch cs =>
      rw [hrest] at hnewline
      rw [hnewline ch rfl]
      rfl

/-- There are no more characters behind the layout than in front of it. -/
theorem length_nextStart_le (c : Cursor) : c.nextStart.rest.length ≤ c.rest.length := by
  obtain ⟨gap, -, hrest, -⟩ := c.exists_layout_nextStart
  rw [← hrest, List.length_append]
  exact Nat.le_add_left _ _

end Cursor

/-! ## What stands behind a text -/

/-- The split of a text when more stands behind it. -/
def Split.append (s : Split) (rest : List Char) : Split := ⟨s.piece, s.rest ++ rest⟩

theorem string?_append_of_closed {cs : List Char}
    (h : ∀ c ∈ cs.head?, c = '"' → (string? cs).isSome = true) (hcs : cs ≠ [])
    (rest : List Char) : string? (cs ++ rest) = (string? cs).map (·.append rest) := by
  cases hs : string? cs with
  | some s =>
    obtain ⟨hm, htext⟩ := of_string? hs
    rw [← htext, List.append_assoc]
    exact string?_append hm _
  | none =>
    cases cs with
    | nil => exact absurd rfl hcs
    | cons c cs =>
      have hc : c ≠ '"' := fun hc => by simpa [hs] using h c rfl hc
      exact string?_cons_eq_none hc _

theorem digits?_append_rest (cs : List Char) (hrest : ∀ c ∈ rest.head?, c.isDigit = false) :
    digits? (cs ++ rest) = (digits? cs).map (·.append rest) := by
  simp only [digits?, span_append_rest cs hrest]
  split <;> simp [Split.append]

theorem decimal?_of_ne_point {cs : List Char} {s : Split} (h : digits? cs = some s)
    (hs : ∀ c ∈ s.rest.head?, c ≠ '.') : decimal? cs = some s := by
  unfold decimal?
  rw [h]
  split
  · next heq => cases heq
  · next heq =>
    cases heq
    exact absurd rfl (hs _ rfl)
  · next heq => exact heq.symm

theorem decimal?_append_of_parted (cs : List Char) (hrest : Parted rest) :
    decimal? (cs ++ rest) = (decimal? cs).map (·.append rest) := by
  have happend := digits?_append_rest cs hrest.isDigit
  cases hd : digits? cs with
  | none => simp [decimal?, happend, hd]
  | some s =>
    obtain ⟨whole, tail⟩ := s
    rw [hd] at happend
    by_cases hpoint : ∃ ds, tail = '.' :: ds
    · obtain ⟨ds, rfl⟩ := hpoint
      simp only [decimal?, happend, hd, Option.map_some, Split.append, List.cons_append,
        digits?_append_rest ds hrest.isDigit]
      cases digits? ds <;> simp
    · have hne : ∀ c ∈ tail.head?, c ≠ '.' := by
        rintro c hc rfl
        exact hpoint (List.head?_eq_some_iff.1 hc)
      have hne' : ∀ c ∈ (tail ++ rest).head?, c ≠ '.' := by
        cases tail with
        | nil => exact fun c hc => by simpa using hrest.ne_point c hc
        | cons c tail => exact hne
      rw [decimal?_of_ne_point happend hne', decimal?_of_ne_point hd hne]
      rfl

theorem number?_append_of_parted {cs : List Char} (hcs : cs ≠ []) (hrest : Parted rest) :
    number? (cs ++ rest) = (number? cs).map (·.append rest) := by
  cases cs with
  | nil => exact absurd rfl hcs
  | cons c cs =>
    by_cases hc : c = '-'
    · subst hc
      simp only [List.cons_append, number?, decimal?_append_of_parted cs hrest, Option.map_map]
      rfl
    · have hdecimal := decimal?_append_of_parted (c :: cs) hrest
      rw [List.cons_append] at hdecimal ⊢
      simpa [number?, hc] using hdecimal

theorem color?_append_of_parted {cs : List Char} (hcs : cs ≠ []) (hrest : Parted rest) :
    color? (cs ++ rest) = (color? cs).map (·.append rest) := by
  cases cs with
  | nil => exact absurd rfl hcs
  | cons c ds =>
    by_cases hc : c = '#'
    · subst hc
      rcases Nat.lt_or_ge ds.length 6 with hlt | hge
      · -- what stands behind is no digit that could be missing
        have hnone : color? ('#' :: ds) = none := by
          have : min 6 ds.length ≠ 6 := by omega
          simp [color?, this]
        rw [hnone]
        cases rest with
        | nil => simpa using hnone
        | cons d rest =>
          have hd : isHex d = false := hrest.head_notMem (by decide) d rfl
          have hmem : d ∈ (ds ++ d :: rest).take 6 := by
            obtain ⟨n, hn⟩ : ∃ n, 6 - ds.length = n + 1 := ⟨5 - ds.length, by omega⟩
            simp [List.take_append, hn]
          have hall : ((ds ++ d :: rest).take 6).all isHex = false :=
            List.all_eq_false.2 ⟨d, hmem, by simp [hd]⟩
          simp only [List.cons_append, color?, hall]
          simp
      · have hdrop :
            (ds.drop 6 ++ rest).head?.any isNameChar = (ds.drop 6).head?.any isNameChar := by
          cases hrest' : ds.drop 6 with
          | nil =>
            cases rest with
            | nil => rfl
            | cons d rest => exact hrest.isNameChar d rfl
          | cons d ds' => rfl
        simp only [List.cons_append, color?, List.take_append_of_le_length hge,
          List.drop_append_of_le_length hge, hdrop]
        split <;> rfl
    · simp [color?_cons_eq_none hc]

theorem keyword?_append_of_parted (k : Keyword) (cs : List Char) (hrest : Parted rest) :
    keyword? k (cs ++ rest) = (keyword? k cs).map (·.append rest) := by
  cases hk : keyword? k cs with
  | some s =>
    obtain ⟨hpiece, htext⟩ := of_keyword? hk
    rw [← htext, List.append_assoc, hpiece, keyword?_append]
    simp [Split.append, hpiece]
  | none =>
    cases hk' : keyword? k (cs ++ rest) with
    | none => rfl
    | some s =>
      obtain ⟨hpiece, htext⟩ := of_keyword? hk'
      obtain ⟨tail, rfl⟩ := Keyword.prefix_of_prefix_append hrest ⟨s.rest, by rw [← hpiece, htext]⟩
      rw [keyword?_append] at hk
      cases hk

theorem longestKeyword_append_of_parted (ks : List Keyword) (cs : List Char) (hrest : Parted rest) :
    longestKeyword ks (cs ++ rest) =
      (longestKeyword ks cs).map fun x => (x.1, x.2.append rest) := by
  have step : ∀ (ks : List Keyword) (best : Option (Keyword × Split)),
      ks.foldl (longerKeyword (cs ++ rest)) (best.map fun x => (x.1, x.2.append rest)) =
        (ks.foldl (longerKeyword cs) best).map fun x => (x.1, x.2.append rest) := by
    intro ks
    induction ks with
    | nil => exact fun _ => rfl
    | cons k ks ih =>
      intro best
      rw [List.foldl_cons, List.foldl_cons, ← ih]
      congr 1
      simp only [longerKeyword, keyword?_append_of_parted k cs hrest]
      cases keyword? k cs with
      | none => cases best <;> rfl
      | some s =>
        cases best with
        | none => rfl
        | some b =>
          simp only [Option.map_some, Split.append]
          split <;> rfl
  exact step ks none

/-- What is parted from a text does not change which token the text starts with. -/
theorem scan_append_of_parted (admitted : List Terminal) {cs : List Char} (hcs : cs ≠ [])
    (hclosed : ∀ c ∈ cs.head?, c = '"' → (string? cs).isSome = true) (hrest : Parted rest) :
    scan admitted (cs ++ rest) = (scan admitted cs).map fun x => (x.1, x.2.append rest) := by
  have hname : name? (cs ++ rest) = (name? cs).map (·.append rest) :=
    name?_append_of_parted hcs hrest
  simp only [scan, hname, string?_append_of_closed hclosed hcs, number?_append_of_parted hcs hrest,
    color?_append_of_parted hcs hrest, longestKeyword_append_of_parted _ cs hrest,
    Option.orElse_eq_orElse, Option.orElse_eq_or, Option.map_or, Option.map_map,
    apply_ite (Option.map _), Option.map_none]
  rfl

end PlatformGame.Source
