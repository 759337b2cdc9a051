import PlatformGame.Proofs.Parse.Shape

/-! # Texts that lay out the same words

Two texts that lay out the same words are read alike from every phrase: either both are refused, or
their trees have one shape (`toOption_readAs_of_laid`). A word need not be one token: where no name
is admitted, a keyword is taken from the front of a word and the rest of the word is read next. So
the two runs are compared between any two tokens, with the same rest of a word in front of both
texts (`toOption_read_of_behind`). -/

namespace PlatformGame.Source

open Grammar

/-- Neither a quote nor the start of layout. -/
def isClean (c : Char) : Bool := !isSpace c && c != '/' && c != '"'

/-- What is left of a word when tokens have been taken from its front: a string as a whole, or clean
characters. -/
def Closed (cs : List Char) : Prop := IsString cs ∨ ∀ c ∈ cs, isClean c = true

/-- A class of characters is clean if white space, slashes and quotes are outside. -/
theorem isClean_of_class {f : Char → Bool}
    (hf : f ' ' = false ∧ f '\t' = false ∧ f '\x0c' = false ∧ f '\r' = false ∧ f '\n' = false ∧
      f '/' = false) (hquote : f '"' = false) {c : Char} (hc : f c = true) : isClean c = true := by
  have hne {d : Char} (hd : f d = false) : c ≠ d := by
    rintro rfl
    rw [hd] at hc
    cases hc
  obtain ⟨h₁, h₂, h₃, h₄, h₅, h₆⟩ := hf
  simp [isClean, isSpace, hne h₁, hne h₂, hne h₃, hne h₄, hne h₅, hne h₆, hne hquote]

theorem IsDecimal.isClean {cs : List Char} (h : IsDecimal cs) : ∀ c ∈ cs, isClean c = true := by
  have hdigit {c : Char} (hc : c.isDigit = true) : Source.isClean c = true :=
    isClean_of_class (by decide) (by decide) hc
  intro c hc
  rcases h with h | ⟨whole, fraction, hw, hf, rfl⟩
  · exact hdigit (h.2 c hc)
  · rcases List.mem_append.1 hc with hc | hc
    · exact hdigit (hw.2 c hc)
    · rcases List.mem_cons.1 hc with rfl | hc
      · decide
      · exact hdigit (hf.2 c hc)

end PlatformGame.Source

namespace PlatformGame.Grammar

open Source

theorem Keyword.isClean_of_mem_text {k : Keyword} :
    ∀ c ∈ k.text.toList, isClean c = true := by
  have hall : (Keyword.all.all fun k => k.text.toList.all isClean) = true := by decide +kernel
  exact List.all_eq_true.1 (List.all_eq_true.1 hall k (mem_all k))

namespace Terminal.Matches

variable {t : Terminal} {cs : List Char}

theorem isClean (h : t.Matches cs) (ht : t ≠ .string) : ∀ c ∈ cs, isClean c = true := by
  intro c hc
  cases t with
  | string => exact absurd rfl ht
  | endOfInput => exact h.elim
  | keyword k =>
    obtain rfl : cs = k.text.toList := h
    exact Keyword.isClean_of_mem_text c hc
  | name =>
    obtain ⟨d, ds, rfl, hd, hds, -⟩ := h
    refine isClean_of_class (f := isNameChar) (by decide) (by decide) ?_
    rcases List.mem_cons.1 hc with rfl | hc
    · exact isNameChar_of_isNameStart hd
    · exact hds c hc
  | number =>
    rcases h with h | ⟨ds, h, rfl⟩
    · exact h.isClean c hc
    · rcases List.mem_cons.1 hc with rfl | hc
      · decide
      · exact h.isClean c hc
  | color =>
    obtain ⟨ds, rfl, -, hds⟩ := h
    rcases List.mem_cons.1 hc with rfl | hc
    · decide
    · exact isClean_of_class (f := isHex) (by decide) (by decide) (hds c hc)

theorem head?_append (h : t.Matches cs) (rest : List Char) : (cs ++ rest).head? = cs.head? := by
  obtain ⟨c, ds, rfl, -⟩ := h.exists_cons
  rfl

theorem eq_string (h : t.Matches cs) (hquote : cs.head? = some '"') : t = .string := by
  refine Classical.byContradiction fun ht => ?_
  exact absurd (h.isClean ht _ (List.mem_of_mem_head? hquote)) (by decide)

theorem closed (h : t.Matches cs) : Closed cs := by
  by_cases ht : t = .string
  · subst ht
    exact .inl h
  · exact .inr (h.isClean ht)

end Terminal.Matches

end PlatformGame.Grammar

namespace PlatformGame.Source

open Grammar

theorem IsString.head? {cs : List Char} (h : IsString cs) : cs.head? = some '"' := by
  obtain ⟨body, -, rfl⟩ := h
  rfl

theorem IsString.eq_nil_of_append {cs ds : List Char} (h : IsString cs) (h' : IsString (cs ++ ds)) :
    ds = [] := by
  have hs := string?_append h ds
  have hs' := string?_append h' []
  rw [List.append_nil, hs] at hs'
  injection hs' with hs'
  injection hs'

namespace Closed

variable {cs : List Char}

theorem isSome_string? (h : Closed cs) :
    ∀ c ∈ cs.head?, c = '"' → (string? cs).isSome = true := by
  rintro c hc rfl
  rcases h with h | h
  · have hs := string?_append h []
    rw [List.append_nil] at hs
    rw [hs]
    rfl
  · exact absurd (h _ (List.mem_of_mem_head? hc)) (by decide)

/-- No layout stands in front. -/
theorem layout?_append (h : Closed cs) (hne : cs ≠ []) (rest : List Char) :
    layout? (cs ++ rest) = none := by
  rcases h with h | h
  · exact Source.layout?_append (t := .string) h rest
  · cases cs with
    | nil => exact absurd rfl hne
    | cons c cs =>
      have hc := h c List.mem_cons_self
      simp only [isClean, Bool.and_eq_true, Bool.not_eq_true', bne_iff_ne] at hc
      simp [layout?, hc.1.2, Split.span, hc.1.1]

/-- A string is taken as a whole. -/
theorem of_scan (h : Closed cs) {admitted : List Terminal} {t : Terminal} {s : Split}
    (hs : scan admitted cs = some (t, s)) : Closed s.rest := by
  obtain ⟨hm, htext⟩ := matches_of_scan hs
  rcases h with h | h
  · have hhead := h.head?
    rw [← htext, hm.head?_append] at hhead
    obtain rfl := hm.eq_string hhead
    have hnil : s.rest = [] := IsString.eq_nil_of_append hm (htext ▸ h)
    exact .inr fun c hc => absurd (hnil ▸ hc) List.not_mem_nil
  · exact .inr fun c hc => h c (by rw [← htext]; exact List.mem_append_right _ hc)

end Closed

/-- A text that starts with a quote and with a token starts with a string. -/
theorem isSome_string?_of_scan {admitted : List Terminal} {cs : List Char} {t : Terminal}
    {s : Split} (h : scan admitted cs = some (t, s)) :
    ∀ c ∈ cs.head?, c = '"' → (string? cs).isSome = true := by
  rintro c hc rfl
  obtain ⟨hm, htext⟩ := matches_of_scan h
  rw [← htext, hm.head?_append] at hc
  obtain rfl := hm.eq_string hc
  rw [← htext, string?_append hm]
  rfl

/-- The cursor at what is left of a word takes a token from its front, whatever stands behind. -/
theorem Cursor.token?_append {cs : List Char} (h : Closed cs) (hne : cs ≠ []) {rest : List Char}
    (hrest : Parted rest) (p : Position) (admitted : List Terminal) :
    Cursor.token? ⟨cs ++ rest, p⟩ admitted = (scan admitted cs).map fun x =>
      (⟨x.1, String.ofList x.2.piece, p, p.after x.2.piece⟩,
        ⟨x.2.rest ++ rest, p.after x.2.piece⟩) := by
  rw [Cursor.token?, scan_append_of_parted admitted hne h.isSome_string? hrest, Option.map_map]
  rfl

end PlatformGame.Source

namespace PlatformGame.Parse

open Grammar Source

namespace Reader

/-- Two runs that take the same token, apart from positions, go on alike if they do so from readers
of one shape. -/
theorem toOption_read_of_token {r r' : Reader} (hr : r.shape = r'.shape) {c c' d d' : Cursor}
    {tok tok' : Token} (h : c.nextStart.token? r.admitted = some (tok, d))
    (h' : c'.nextStart.token? r'.admitted = some (tok', d')) (htok : tok.shape = tok'.shape)
    (hnext : ∀ {s s' : Reader}, s.shape = s'.shape →
      (s.read d).toOption.map (List.map Tree.shape) =
        (s'.read d').toOption.map (List.map Tree.shape)) :
    (r.read c).toOption.map (List.map Tree.shape) =
      (r'.read c').toOption.map (List.map Tree.shape) := by
  have hfeed : (r.feed tok).shape = (r'.feed tok').shape := by
    rw [← feed_shape, ← feed_shape, hr, htok]
  cases hf : r.feed tok with
  | taken s =>
    cases hf' : r'.feed tok' with
    | taken s' =>
      rw [hf, hf'] at hfeed
      rw [read_of_taken h hf, read_of_taken h' hf']
      exact hnext (Feed.taken.inj hfeed)
    | finished trees => simp [hf, hf', Feed.shape] at hfeed
    | refused s' => simp [hf, hf', Feed.shape] at hfeed
  | finished trees =>
    cases hf' : r'.feed tok' with
    | taken s' => simp [hf, hf', Feed.shape] at hfeed
    | finished trees' =>
      rw [hf, hf'] at hfeed
      rw [read_of_finished h hf, read_of_finished h' hf']
      exact congrArg some (Feed.finished.inj hfeed)
    | refused s' => simp [hf, hf', Feed.shape] at hfeed
  | refused s =>
    cases hf' : r'.feed tok' with
    | taken s' => simp [hf, hf', Feed.shape] at hfeed
    | finished trees => simp [hf, hf', Feed.shape] at hfeed
    | refused s' => rw [toOption_read_of_refused h hf, toOption_read_of_refused h' hf']

/-- Two runs from readers of one shape, on texts with the same rest of a word in front and the same
words behind it. -/
theorem toOption_read_of_behind {r r' : Reader} (hr : r.shape = r'.shape)
    {cs rest rest' : List Char} (hcs : Closed cs) {words : List String}
    (hwords : ∀ w ∈ words, IsTokenText w) (h : Behind words rest) (h' : Behind words rest')
    (p p' : Position) :
    (r.read ⟨cs ++ rest, p⟩).toOption.map (List.map Tree.shape) =
      (r'.read ⟨cs ++ rest', p'⟩).toOption.map (List.map Tree.shape) := by
  -- every token and every gap between words makes the first text shorter
  induction hn : cs.length + rest.length using Nat.strongRecOn generalizing r r' cs rest rest' words
    p p' with
  | ind n ih =>
  by_cases hne : cs = []
  · subst hne
    cases h with
    | @last gap hg =>
      cases h' with
      | @last gap' hg' =>
        have hnil := Cursor.nextStart_gap_append hg [] p
        have hnil' := Cursor.nextStart_gap_append hg' [] p'
        rw [List.append_nil] at hnil hnil'
        rw [List.nil_append, List.nil_append, read_of_nil (hnil ▸ rfl), read_of_nil (hnil' ▸ rfl)]
        exact finish_toOption_eq hr
    | @next gap words rest word hg hgap hb =>
      cases h' with
      | @next gap' _ rest' _ hg' _ hb' =>
        rw [List.forall_mem_cons] at hwords
        obtain ⟨⟨t, ht⟩, hwords⟩ := hwords
        have hpos := List.length_pos_iff.2 hgap
        rw [List.nil_append, List.nil_append, read_congr (Cursor.nextStart_gap_append hg _ p),
          read_congr (Cursor.nextStart_gap_append hg' _ p')]
        exact ih _ (by simp only [List.length_append] at hn; omega) hr ht.closed hwords hb hb' _ _
          rfl
  · have hstart : Cursor.nextStart ⟨cs ++ rest, p⟩ = ⟨cs ++ rest, p⟩ :=
      Cursor.nextStart_of_none (hcs.layout?_append hne rest)
    have hstart' : Cursor.nextStart ⟨cs ++ rest', p'⟩ = ⟨cs ++ rest', p'⟩ :=
      Cursor.nextStart_of_none (hcs.layout?_append hne rest')
    have hadmitted : r'.admitted = r.admitted := by rw [← admitted_shape, ← hr, admitted_shape]
    have htoken := Cursor.token?_append hcs hne h.parted p r.admitted
    have htoken' := Cursor.token?_append hcs hne h'.parted p' r.admitted
    rw [← hstart] at htoken
    rw [← hstart', ← hadmitted] at htoken'
    cases hs : scan r.admitted cs with
    | none =>
      rw [hs] at htoken
      rw [hadmitted, hs] at htoken'
      rw [toOption_read_of_none (by simp [hstart, hne]) htoken,
        toOption_read_of_none (by simp [hstart', hne]) (hadmitted ▸ htoken')]
    | some x =>
      obtain ⟨t, s⟩ := x
      obtain ⟨hm, htext⟩ := matches_of_scan hs
      have hpos := List.length_pos_iff.2 hm.ne_nil
      rw [hs] at htoken
      rw [hadmitted, hs, ← hadmitted] at htoken'
      refine toOption_read_of_token hr htoken htoken' rfl fun hshape => ?_
      refine ih _ ?_ hshape (hcs.of_scan hs) hwords h h' _ _ rfl
      rw [← hn, ← htext, List.length_append]
      omega

end Reader

/-- Texts that lay out the same words are read alike. -/
theorem toOption_readAs_of_laid {p : Phrase} {words : List String}
    (hwords : ∀ w ∈ words, IsTokenText w) {source source' : String}
    (h : Laid words source.toList) (h' : Laid words source'.toList) :
    (readAs p source).toOption.map (List.map Tree.shape) =
      (readAs p source').toOption.map (List.map Tree.shape) := by
  have hread : ∀ s : String, readAs p s = (Reader.start p).read ⟨s.toList, .first⟩ := fun _ => rfl
  rw [hread, hread]
  generalize source.toList = cs at h
  generalize source'.toList = cs' at h'
  cases h with
  | empty hg =>
    cases h' with
    | empty hg' =>
      have hnil : Closed [] := .inr fun _ hc => absurd hc List.not_mem_nil
      exact Reader.toOption_read_of_behind rfl hnil hwords (.last hg) (.last hg') _ _
  | words hg hb =>
    cases h' with
    | words hg' hb' =>
      rw [List.forall_mem_cons] at hwords
      obtain ⟨⟨t, ht⟩, hwords⟩ := hwords
      rw [Reader.read_congr (Cursor.nextStart_gap_append hg _ _),
        Reader.read_congr (Cursor.nextStart_gap_append hg' _ _)]
      exact Reader.toOption_read_of_behind rfl ht.closed hwords hb hb' _ _

end PlatformGame.Parse
