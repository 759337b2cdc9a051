import PlatformGame.Proofs.Source.Lexeme
import PlatformGame.Source.Token

/-! # Recognising a token

A recognised token has the form of its terminal (`matches_of_scan`) and is not cut short
(`endsAt_of_scan`), and a text of an admitted terminal is recognised as one of it (`scan_append`),
under two conditions on what is admitted beside it: where names are, admitted keywords that start
like a name are whole names, and a name is not recognised where an admitted keyword has the same
spelling. -/

namespace PlatformGame.Grammar

variable {k : Keyword}

namespace Keyword

open Source

/-- A keyword is no string, number or colour, and holds no white space or slash. -/
private def isPlain (k : Keyword) : Bool :=
  (k.text.toList.head?.any fun c => c != '"' && c != '-' && c != '#' && !c.isDigit)
    && k.text.toList.all fun c => !isSpace c && c != '/'

private theorem isPlain_eq (k : Keyword) : k.isPlain = true := by
  have h : all.all isPlain = true := by decide +kernel
  exact List.all_eq_true.1 h k (mem_all k)

theorem exists_text_eq_cons (k : Keyword) :
    ∃ c cs, k.text.toList = c :: cs ∧ c ≠ '"' ∧ c ≠ '-' ∧ c ≠ '#' ∧ c.isDigit = false := by
  have h := k.isPlain_eq
  simp only [isPlain, Bool.and_eq_true] at h
  cases hk : k.text.toList with
  | nil => simp [hk] at h
  | cons c cs =>
    have hc := h.1
    simp only [hk, List.head?_cons, Option.any_some, Bool.and_eq_true, bne_iff_ne, ne_eq,
      Bool.not_eq_true'] at hc
    exact ⟨c, cs, rfl, hc.1.1.1, hc.1.1.2, hc.1.2, hc.2⟩

theorem of_mem_text {c : Char} (hc : c ∈ k.text.toList) : isSpace c = false ∧ c ≠ '/' := by
  have h := k.isPlain_eq
  simp only [isPlain, Bool.and_eq_true, List.all_eq_true] at h
  simpa using h.2 c hc

theorem text_injective {k' : Keyword} (h : k.text = k'.text) : k = k' := by
  have hall : (all.all fun k => all.find? (·.text == k.text) == some k) = true := by
    decide +kernel
  have hfind : ∀ k : Keyword, all.find? (·.text == k.text) = some k := fun k => by
    simpa using List.all_eq_true.1 hall k (mem_all k)
  exact Option.some.inj ((hfind k).symm.trans (h ▸ hfind k'))

/-- A keyword is in front of a token's text and what parts it from the rest only if it is in front
of the text itself. -/
theorem prefix_of_prefix_append {cs rest : List Char} (hrest : Parted rest)
    (h : k.text.toList <+: cs ++ rest) : k.text.toList <+: cs := by
  obtain ⟨tail, htail⟩ := h
  rcases List.append_eq_append_iff.1 htail with ⟨mid, hmid, -⟩ | ⟨mid, hmid, hr⟩
  · exact ⟨mid, hmid.symm⟩
  · cases mid with
    | nil =>
      rw [List.append_nil] at hmid
      exact hmid ▸ List.prefix_rfl
    | cons c mid =>
      have hc : c ∈ k.text.toList := by simp [hmid]
      obtain ⟨hspace, hslash⟩ := of_mem_text hc
      rcases hrest c (by simp [hr]) with h | h
      · simp [h] at hspace
      · exact absurd h hslash

end Keyword

namespace Terminal.Matches

open Source

variable {t : Terminal} {cs : List Char}

/-- A token does not start like layout. -/
theorem exists_cons (h : t.Matches cs) :
    ∃ c ds, cs = c :: ds ∧ isSpace c = false ∧ c ≠ '/' := by
  -- the first character is told from white space and slashes by a class it belongs to
  have told {c : Char} (f : Char → Bool) (hc : f c = true)
      (hf : f ' ' = false ∧ f '\t' = false ∧ f '\x0c' = false ∧ f '\r' = false ∧ f '\n' = false ∧
        f '/' = false) (ds : List Char) :
      ∃ c' ds', c :: ds = c' :: ds' ∧ isSpace c' = false ∧ c' ≠ '/' := by
    refine ⟨c, ds, rfl, ?_⟩
    by_cases hp : Parted [c]
    · simp [hp.head_notMem hf c rfl] at hc
    · simpa [Parted] using hp
  cases t with
  | keyword k =>
    obtain ⟨c, ds, htext, -⟩ := k.exists_text_eq_cons
    obtain rfl : cs = k.text.toList := h
    have hc : c ∈ k.text.toList := by simp [htext]
    exact ⟨c, ds, htext, Keyword.of_mem_text hc⟩
  | name =>
    obtain ⟨c, ds, rfl, hc, -⟩ := h
    exact told isNameStart hc (by decide) ds
  | string =>
    obtain ⟨body, -, rfl⟩ := h
    exact told (· == '"') rfl (by decide) _
  | number =>
    rcases h with h | ⟨ds, -, rfl⟩
    · obtain ⟨c, ds, rfl, hc⟩ := h.exists_cons
      exact told Char.isDigit hc (by decide) ds
    · exact told (· == '-') rfl (by decide) ds
  | color =>
    obtain ⟨ds, rfl, -⟩ := h
    exact told (· == '#') rfl (by decide) ds
  | endOfInput => exact h.elim

theorem ne_nil (h : t.Matches cs) : cs ≠ [] := by
  obtain ⟨c, ds, rfl, -⟩ := h.exists_cons
  exact List.cons_ne_nil c ds

end Terminal.Matches

end PlatformGame.Grammar

namespace PlatformGame.Source

open Grammar

variable {admitted : List Terminal} {cs rest : List Char} {k : Keyword} {s : Split} {t : Terminal}
  {c : Char}

/-! ## The form of a recognised token -/

theorem mem_keywordsOf {ts : List Terminal} : k ∈ keywordsOf ts ↔ .keyword k ∈ ts := by
  simp only [keywordsOf, List.mem_filterMap]
  constructor
  · rintro ⟨t, ht, hk⟩
    cases t <;> simp_all
  · exact fun h => ⟨_, h, rfl⟩

/-- The best keyword changes only to one that the text starts with and that is longer. -/
theorem longerKeyword_cases (cs : List Char) (best : Option (Keyword × Split)) (k : Keyword) :
    (longerKeyword cs best k = best ∧
      ∀ s, keyword? k cs = some s → ∃ b ∈ best, s.piece.length ≤ b.2.piece.length) ∨
    ∃ s, keyword? k cs = some s ∧ longerKeyword cs best k = some (k, s) ∧
      ∀ b ∈ best, b.2.piece.length < s.piece.length := by
  unfold longerKeyword
  cases hk : keyword? k cs with
  | none => exact .inl ⟨rfl, by simp⟩
  | some s =>
    cases best with
    | none => exact .inr ⟨s, rfl, rfl, by simp⟩
    | some b =>
      dsimp only
      split
      · next hlt => exact .inr ⟨s, rfl, rfl, by simpa using hlt⟩
      · next hle => exact .inl ⟨rfl, by simpa using hle⟩

theorem of_longestKeyword {ks : List Keyword} (h : longestKeyword ks cs = some (k, s)) :
    keyword? k cs = some s := by
  have step : ∀ (ks : List Keyword) (best : Option (Keyword × Split)),
      (∀ b ∈ best, keyword? b.1 cs = some b.2) →
      ∀ b ∈ ks.foldl (longerKeyword cs) best, keyword? b.1 cs = some b.2 := by
    intro ks
    induction ks with
    | nil => exact fun best hbest => hbest
    | cons k ks ih =>
      intro best hbest
      refine ih _ ?_
      rcases longerKeyword_cases cs best k with ⟨heq, -⟩ | ⟨s, hs, heq, -⟩
      · rw [heq]
        exact hbest
      · rw [heq]
        simpa using hs
  exact step ks none (by simp) (k, s) h

theorem nameTerminal_matches (h : IsName cs) : (nameTerminal admitted cs).Matches cs := by
  unfold nameTerminal
  split
  · next k hk =>
    have := List.find?_some hk
    simp only [Bool.and_eq_true, beq_iff_eq] at this
    simp [Terminal.Matches, this.2]
  · exact h

/-- One class of tokens among those admitted. -/
private theorem of_class {c : Terminal} {found : Option Split}
    (h : (if admitted.contains c then found.map (c, ·) else none) = some (t, s)) :
    t = c ∧ found = some s := by
  split at h
  · obtain ⟨s', hs, heq⟩ := Option.map_eq_some_iff.1 h
    cases heq
    exact ⟨rfl, hs⟩
  · cases h

/-- A recognised token is in one of the classes, and a name may be a keyword. -/
theorem scan_cases (h : scan admitted cs = some (t, s)) :
    (t = nameTerminal admitted s.piece ∧ name? cs = some s) ∨ (t = .string ∧ string? cs = some s) ∨
      (t = .number ∧ number? cs = some s) ∨ (t = .color ∧ color? cs = some s) ∨
      ∃ k, t = .keyword k ∧ keyword? k cs = some s := by
  simp only [scan, Option.orElse_eq_orElse, Option.orElse_eq_or, Option.or_eq_some_iff] at h
  rcases h with h | ⟨-, h | ⟨-, h | ⟨-, h | ⟨-, h⟩⟩⟩⟩
  · obtain ⟨⟨t', s'⟩, hs, heq⟩ := Option.map_eq_some_iff.1 h
    cases heq
    exact .inl ⟨rfl, (of_class hs).2⟩
  · exact .inr (.inl (of_class h))
  · exact .inr (.inr (.inl (of_class h)))
  · exact .inr (.inr (.inr (.inl (of_class h))))
  · obtain ⟨⟨k, s'⟩, hs, heq⟩ := Option.map_eq_some_iff.1 h
    cases heq
    exact .inr (.inr (.inr (.inr ⟨k, rfl, of_longestKeyword hs⟩)))

/-- A recognised token has the form of its terminal, and no character is lost. -/
theorem matches_of_scan (h : scan admitted cs = some (t, s)) :
    t.Matches s.piece ∧ s.piece ++ s.rest = cs := by
  rcases scan_cases h with ⟨rfl, hs⟩ | ⟨rfl, hs⟩ | ⟨rfl, hs⟩ | ⟨rfl, hs⟩ | ⟨k, rfl, hs⟩
  · obtain ⟨hm, ht⟩ := of_name? hs
    exact ⟨nameTerminal_matches hm, ht⟩
  · exact of_string? hs
  · exact of_number? hs
  · exact of_color? hs
  · exact of_keyword? hs

/-- A recognised token is not cut short. -/
theorem endsAt_of_scan (h : scan admitted cs = some (t, s)) : t.EndsAt s.piece s.rest := by
  rcases scan_cases h with ⟨rfl, hs⟩ | ⟨rfl, -⟩ | ⟨rfl, hs⟩ | ⟨rfl, hs⟩ | ⟨k, rfl, -⟩
  · unfold nameTerminal
    split
    · trivial
    · exact head_rest_of_name? hs
  · trivial
  · exact endsAt_of_number? hs
  · exact head_rest_of_color? hs
  · trivial

/-! ## Recognising a text of a terminal -/

/-- What stands behind a token does not change which name its text starts with. -/
theorem name?_append_of_parted (hcs : cs ≠ []) (hrest : Parted rest) :
    name? (cs ++ rest) = (name? cs).map fun s => ⟨s.piece, s.rest ++ rest⟩ := by
  have hspan := span_append_rest cs hrest.isNameChar
  cases cs with
  | nil => exact absurd rfl hcs
  | cons c cs =>
    rw [List.cons_append] at hspan ⊢
    simp only [name?, hspan]
    split
    · split <;> simp_all
    · rfl

theorem name?_cons_eq_none (h : isNameStart c = false) (cs : List Char) :
    name? (c :: cs) = none := by
  simp [name?, h]

theorem string?_cons_eq_none (h : c ≠ '"') (cs : List Char) : string? (c :: cs) = none := by
  simp [string?, h]

theorem number?_cons_eq_none (h : c ≠ '-') (hd : c.isDigit = false) (cs : List Char) :
    number? (c :: cs) = none := by
  simp [number?, h, decimal?, digits?, Split.span, hd]

theorem color?_cons_eq_none (h : c ≠ '#') (cs : List Char) : color? (c :: cs) = none := by
  simp [color?, h]

theorem isName_of_isWord (h : isWord k = true) : IsName k.text.toList := by
  unfold isWord at h
  split at h
  · next s hs =>
    obtain ⟨hm, ht⟩ := of_name? hs
    rw [List.isEmpty_iff] at h
    rw [h, List.append_nil] at ht
    exact ht ▸ hm
  · cases h

theorem nameTerminal_of_isWord (hk : isWord k = true) (hmem : .keyword k ∈ admitted) :
    nameTerminal admitted k.text.toList = .keyword k := by
  unfold nameTerminal
  cases hfind : (keywordsOf admitted).find? fun k' =>
      isWord k' && k'.text == String.ofList k.text.toList with
  | none =>
    have := List.find?_eq_none.1 hfind k (mem_keywordsOf.2 hmem)
    simp [hk] at this
  | some k' =>
    have := List.find?_some hfind
    simp only [Bool.and_eq_true, beq_iff_eq, String.ofList_toList] at this
    rw [Keyword.text_injective this.2]

theorem nameTerminal_of_forall
    (h : ∀ k, .keyword k ∈ admitted → isWord k = true → k.text.toList ≠ cs) :
    nameTerminal admitted cs = .name := by
  unfold nameTerminal
  split
  · next k hfind =>
    have hk := List.find?_some hfind
    simp only [Bool.and_eq_true, beq_iff_eq] at hk
    have hmem := mem_keywordsOf.1 (List.mem_of_find?_eq_some hfind)
    exact absurd (by simp [hk.2]) (h k hmem hk.1)
  · rfl

/-- Of the keywords that a keyword's own text starts with, it is the longest. -/
theorem longestKeyword_append {ks : List Keyword} (hk : k ∈ ks) (hrest : Parted rest) :
    longestKeyword ks (k.text.toList ++ rest) = some (k, ⟨k.text.toList, rest⟩) := by
  have hself := keyword?_append k rest
  -- another keyword in front of the text is a proper part of `k`
  have hother : ∀ k' s, keyword? k' (k.text.toList ++ rest) = some s →
      (k', s) = (k, ⟨k.text.toList, rest⟩) ∨ s.piece.length < k.text.toList.length := by
    intro k' s hs
    obtain ⟨hpiece, htext⟩ := of_keyword? hs
    have hpre : k'.text.toList <+: k.text.toList :=
      Keyword.prefix_of_prefix_append hrest ⟨s.rest, by rw [← hpiece, htext]⟩
    rcases Nat.lt_or_ge s.piece.length k.text.toList.length with hlt | hge
    · exact .inr hlt
    · rw [hpiece] at hge
      have hk' := Keyword.text_injective (String.toList_injective (hpre.eq_of_length_le hge))
      subst hk'
      rw [hself] at hs
      exact .inl (by rw [Option.some.inj hs])
  -- the best so far is `k` as soon as `k` has been seen
  have step : ∀ (ks : List Keyword) (best : Option (Keyword × Split)),
      (∀ b ∈ best, b = (k, ⟨k.text.toList, rest⟩) ∨ b.2.piece.length < k.text.toList.length) →
      (k ∈ ks ∨ best = some (k, ⟨k.text.toList, rest⟩)) →
      ks.foldl (longerKeyword (k.text.toList ++ rest)) best =
        some (k, ⟨k.text.toList, rest⟩) := by
    intro ks
    induction ks with
    | nil =>
      intro best _ h
      simpa using h
    | cons k' ks ih =>
      intro best hbest h
      rw [List.foldl_cons]
      rcases longerKeyword_cases (k.text.toList ++ rest) best k' with
        ⟨heq, hold⟩ | ⟨s, hs, heq, hnew⟩
      · rw [heq]
        refine ih _ hbest ?_
        rcases h with h | h
        · rcases List.mem_cons.1 h with rfl | h
          · obtain ⟨b, hb, hle⟩ := hold _ hself
            rcases hbest b hb with rfl | hlt
            · exact .inr hb
            · exact absurd hlt (Nat.not_lt.2 hle)
          · exact .inl h
        · exact .inr h
      · rw [heq]
        rcases hother k' s hs with h' | hlt
        · exact ih _ (by simp [h']) (.inr (by rw [h']))
        · refine ih _ (by simpa using .inr hlt) ?_
          rcases h with h | h
          · rcases List.mem_cons.1 h with rfl | h
            · rw [hself] at hs
              cases hs
              exact absurd hlt (Nat.lt_irrefl _)
            · exact .inl h
          · have := hnew _ h
            exact absurd (Nat.lt_trans this hlt) (Nat.lt_irrefl _)
  exact step ks none (by simp) (.inl hk)

/-- A text of an admitted terminal is recognised as one of it. -/
theorem scan_append {text : List Char} (ht : t ∈ admitted) (hm : t.Matches text)
    (hrest : Parted rest)
    (hword : .name ∈ admitted → ∀ k, .keyword k ∈ admitted → namelike k = true → isWord k = true)
    (hname : t = .name → ∀ k, .keyword k ∈ admitted → isWord k = true → k.text.toList ≠ text) :
    scan admitted (text ++ rest) = some (t, ⟨text, rest⟩) := by
  cases t with
  | endOfInput => exact absurd hm id
  | name =>
    simp [scan, ht, name?_append hm hrest.isNameChar, nameTerminal_of_forall (hname rfl)]
  | string =>
    have hn : name? (text ++ rest) = none := by
      obtain ⟨body, -, rfl⟩ := hm
      exact name?_cons_eq_none (by decide) _
    simp [scan, ht, hn, string?_append hm]
  | number =>
    obtain ⟨c, cs, hcs, hc⟩ : ∃ c cs, text = c :: cs ∧ (c = '-' ∨ c.isDigit = true) := by
      rcases hm with h | ⟨ds, -, rfl⟩
      · obtain ⟨c, cs, rfl, hc⟩ := h.exists_cons
        exact ⟨c, cs, rfl, .inr hc⟩
      · exact ⟨_, _, rfl, .inl rfl⟩
    have hn : name? (text ++ rest) = none := by
      rw [hcs]
      refine name?_cons_eq_none ?_ _
      rcases hc with rfl | hc
      · decide
      · exact isNameStart_of_isDigit hc
    have hs : string? (text ++ rest) = none := by
      rw [hcs]
      refine string?_cons_eq_none ?_ _
      rintro rfl
      simp at hc
    simp [scan, ht, hn, hs, number?_append hm hrest]
  | color =>
    have hother : name? (text ++ rest) = none ∧ string? (text ++ rest) = none ∧
        number? (text ++ rest) = none := by
      obtain ⟨ds, rfl, -⟩ := hm
      exact ⟨name?_cons_eq_none (by decide) _, string?_cons_eq_none (by decide) _,
        number?_cons_eq_none (by decide) (by decide) _⟩
    simp [scan, ht, hother, color?_append hm hrest]
  | keyword k =>
    obtain rfl : text = k.text.toList := hm
    have hother : string? (k.text.toList ++ rest) = none ∧ number? (k.text.toList ++ rest) = none ∧
        color? (k.text.toList ++ rest) = none := by
      obtain ⟨c, cs, htext, hquote, hminus, hhash, hdigit⟩ := k.exists_text_eq_cons
      rw [htext]
      exact ⟨string?_cons_eq_none hquote _, number?_cons_eq_none hminus hdigit _,
        color?_cons_eq_none hhash _⟩
    by_cases hembedded : isEmbedded admitted k = true
    · -- a whole name, recognised among the names
      simp only [isEmbedded, Bool.and_eq_true, List.contains_iff_mem] at hembedded
      simp [scan, hembedded.1, name?_append (isName_of_isWord hembedded.2) hrest.isNameChar,
        nameTerminal_of_isWord hembedded.2 ht]
    · have hscanned : k ∈ keywordsOf (scanned admitted) := by
        simp [mem_keywordsOf, scanned, ht, hembedded]
      have hnone : .name ∈ admitted → name? (k.text.toList ++ rest) = none := by
        intro hn
        have hne : k.text.toList ≠ [] := Terminal.Matches.ne_nil (t := .keyword k) rfl
        rw [name?_append_of_parted hne hrest]
        cases hk : name? k.text.toList with
        | none => rfl
        | some s =>
          have := hword hn k ht (by simp [namelike, hk])
          simp [isEmbedded, hn, this] at hembedded
      by_cases hn : .name ∈ admitted
      · simp [scan, hn, hnone hn, hother, longestKeyword_append hscanned hrest]
      · simp [scan, hn, hother, longestKeyword_append hscanned hrest]

end PlatformGame.Source
