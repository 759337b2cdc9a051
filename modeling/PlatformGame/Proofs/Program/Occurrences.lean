import PlatformGame.Program.Page
import PlatformGame.Proofs.Program.Outline

/-! # Texts in the text of a listing

A text without blanks stands in the text of a listing, minified or not, exactly if it stands in one
of the rows (`Solid.infix_render_iff`). -/

namespace PlatformGame.Program

open Script Text

/-! ## Texts in parts of a text -/

theorem prefix_of_prefix_append_cons {m t u : List α} {c : α} (hc : c ∉ m)
    (h : m <+: t ++ c :: u) : m <+: t := by
  rcases List.prefix_or_prefix_of_prefix h (List.prefix_append t (c :: u)) with hm | ⟨q, rfl⟩
  · exact hm
  · obtain ⟨v, hv⟩ := h
    rw [List.append_assoc, List.append_cancel_left_eq] at hv
    cases q with
    | nil => simp
    | cons d q =>
      cases hv
      exact absurd (List.mem_append_right t List.mem_cons_self) hc

/-- What does not contain a character stands on one side of it. -/
theorem infix_append_cons_iff {m t u : List α} {c : α} (hm : m ≠ []) (hc : c ∉ m) :
    m <:+: t ++ c :: u ↔ m <:+: t ∨ m <:+: u := by
  constructor
  · intro h
    induction t with
    | nil =>
      rcases List.infix_cons_iff.1 h with hprefix | h
      · exact absurd (List.prefix_nil.1 (prefix_of_prefix_append_cons hc hprefix)) hm
      · exact .inr h
    | cons a t ih =>
      rcases List.infix_cons_iff.1 h with hprefix | h
      · exact .inl (prefix_of_prefix_append_cons (t := a :: t) hc hprefix).isInfix
      · exact (ih h).imp_left fun h => h.trans (List.suffix_cons a t).isInfix
  · rintro (h | h)
    · exact h.trans (List.prefix_append _ _).isInfix
    · exact h.trans ((List.suffix_cons c u).trans (List.suffix_append t _)).isInfix

/-- A text without blanks. -/
structure Solid (m : List Char) : Prop where
  ne_nil : m ≠ []
  isBlank_eq_false : ∀ c ∈ m, isBlank c = false

theorem Solid.of_all (hne : m ≠ []) (h : (m.all fun c => !isBlank c) = true) : Solid m :=
  ⟨hne, fun c hc => by simpa using List.all_eq_true.1 h c hc⟩

namespace Solid

variable {m cs bs : List Char} (hm : Solid m)

include hm

theorem blank_notMem (hc : isBlank c = true) : c ∉ m := fun hmem => by
  rw [hm.isBlank_eq_false c hmem] at hc
  cases hc

theorem not_infix_nil : ¬ m <:+: [] := fun h => hm.ne_nil (List.infix_nil.1 h)

theorem infix_blanks_append_iff (hbs : ∀ c ∈ bs, isBlank c = true) :
    m <:+: bs ++ cs ↔ m <:+: cs := by
  induction bs with
  | nil => exact .rfl
  | cons b bs ih =>
    rw [List.forall_mem_cons] at hbs
    refine (infix_append_cons_iff (t := []) hm.ne_nil (hm.blank_notMem hbs.1)).trans ?_
    rw [or_iff_right hm.not_infix_nil]
    exact ih hbs.2

theorem infix_append_blanks_iff (hbs : ∀ c ∈ bs, isBlank c = true) :
    m <:+: cs ++ bs ↔ m <:+: cs := by
  cases bs with
  | nil => rw [List.append_nil]
  | cons b bs =>
    rw [List.forall_mem_cons] at hbs
    have hblanks : ¬ m <:+: bs := by
      rw [← List.append_nil bs, hm.infix_blanks_append_iff hbs.2]
      exact hm.not_infix_nil
    rw [infix_append_cons_iff hm.ne_nil (hm.blank_notMem hbs.1), or_iff_left hblanks]

/-! ## Lines and rows -/

theorem infix_indented_iff (n : Nat) (s : String) :
    m <:+: (Sheet.indented "  " n s).toList ↔ m <:+: s.toList := by
  unfold Sheet.indented
  split
  · next hempty => rw [String.isEmpty_iff.1 hempty]
  · rw [String.toList_append]
    exact hm.infix_blanks_append_iff fun c hc => spaces_repeated n c hc ▸ rfl

theorem infix_strip_iff (s : String) : m <:+: (strip s).toList ↔ m <:+: s.toList := by
  obtain ⟨bs, bs', hbs, hbs', hs⟩ := exists_strip s
  rw [hs, hm.infix_blanks_append_iff hbs, hm.infix_append_blanks_iff hbs']

theorem infix_intercalate_iff (ls : List String) :
    m <:+: ("\n".intercalate ls).toList ↔ ∃ l ∈ ls, m <:+: l.toList := by
  induction ls with
  | nil => exact iff_of_false hm.not_infix_nil (by simp)
  | cons l ls ih =>
    cases ls with
    | nil => simp
    | cons l' ls =>
      rw [String.intercalate_cons_cons, String.toList_append, String.toList_append,
        String.toList_ofList, List.append_assoc, List.singleton_append,
        infix_append_cons_iff hm.ne_nil (hm.blank_notMem rfl), ih]
      simp only [List.exists_mem_cons_iff]

theorem infix_shown_iff (minify : Bool) (ls : List String) :
    (∃ l ∈ shown minify ls, m <:+: l.toList) ↔ ∃ l ∈ ls, m <:+: l.toList := by
  cases minify with
  | false => exact .rfl
  | true =>
    constructor
    · rintro ⟨l, hl, hin⟩
      obtain ⟨l', hl', rfl⟩ := List.mem_map.1 (List.mem_of_mem_filter hl)
      exact ⟨l', hl', (hm.infix_strip_iff l').1 hin⟩
    · rintro ⟨l, hl, hin⟩
      rw [← hm.infix_strip_iff] at hin
      refine ⟨strip l, List.mem_filter.2 ⟨List.mem_map_of_mem hl, ?_⟩, hin⟩
      rw [Bool.not_eq_true', Bool.eq_false_iff, Ne, String.isEmpty_iff]
      intro hempty
      rw [hempty] at hin
      exact hm.not_infix_nil hin

theorem infix_lines_iff (hls : Written n n' rows ls) : (∃ l ∈ ls, m <:+: l.toList) ↔
      ∃ r ∈ rows, ∃ s, writeAll r.pieces = .ok s ∧ m <:+: s.toList := by
  induction rows generalizing n ls with
  | nil =>
    cases hls
    simp
  | cons r rows ih =>
    obtain ⟨s, _, us, hs, hus, rfl | ⟨rfl, rfl⟩⟩ := hls.cons
    · rw [List.exists_mem_cons_iff, List.exists_mem_cons_iff, hm.infix_indented_iff, ih hus, hs]
      simp
    · rw [List.exists_mem_cons_iff, ih hus, hs]
      simpa using fun hnil => absurd hnil hm.ne_nil

/-- A text without blanks is in the text of a listing exactly if it is in one of the rows. -/
theorem infix_render_iff {rows : Listing} {b : Sheet} (hb : rows.sheet = .ok b) (minify : Bool) :
    m <:+: (b.render minify).toList ↔
      ∃ r ∈ rows, ∃ s, writeAll r.pieces = .ok s ∧ m <:+: s.toList := by
  rw [Sheet.render_eq, hm.infix_intercalate_iff, hm.infix_shown_iff,
    hm.infix_lines_iff (written_of_sheet hb)]

end Solid

/-! ## Rows in a listing -/

/-- A row with some property stands in a listing, at any depth. -/
def HasRow (P : List Piece → Prop) (rows : Listing) : Prop := ∃ r ∈ rows, P r.pieces

namespace HasRow

variable {P : List Piece → Prop}

theorem append (rows rows' : Listing) :
    HasRow P (rows ++ rows') ↔ HasRow P rows ∨ HasRow P rows' := by
  simp only [HasRow, List.mem_append, or_and_right, exists_or]

theorem block (header : List Piece) (h : HasRow P body) : HasRow P (block header body) := by
  obtain ⟨r, hr, hP⟩ := h
  exact ⟨r, by simp [Program.block, blockTo, indent, hr], hP⟩

theorem flatMap {f : α → Listing} {xs : List α} {x : α} (hx : x ∈ xs) (h : HasRow P (f x)) :
    HasRow P (xs.flatMap f) := by
  obtain ⟨r, hr, hP⟩ := h
  exact ⟨r, List.mem_flatMap.2 ⟨x, hx, hr⟩, hP⟩

theorem programListing (hl : l ∈ g.levels) (h : ∀ index, HasRow P (levelListing g l index)) :
    HasRow P (programListing g) := by
  obtain ⟨i, hi, rfl⟩ := List.getElem_of_mem hl
  have hlevel : (g.levels[i], i) ∈ g.levels.zipIdx := List.mk_mem_zipIdx_iff_getElem?.2 (by simp)
  rw [Program.programListing]
  simp only [append]
  exact .inl (.inl (.inr (flatMap hlevel ((append ..).2 (.inl (h i))))))

end HasRow

end PlatformGame.Program
