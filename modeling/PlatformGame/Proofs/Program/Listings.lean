import PlatformGame.Proofs.Program.Rows
import PlatformGame.Proofs.Program.Sheet

/-! # What listings do

`Performs` says what the rows of a listing do, one after the other. It does not depend on how the
rows are indented, and the text of the listing, minified or not, does the same
(`Performs.actionsOf?_render`). A listing of mostly fixed text is read as it stands
(`Performs.of_spells`); listings are put together as the program's parts are. -/

namespace PlatformGame.Script

open Program Text

/-- A row does the given things, and has no closing tag in it if the payloads are plain. -/
def RowActs (plain : Prop) (r : Row) (as : List Action) : Prop :=
  ∀ s, writeAll r.pieces = .ok s →
    (∃ ts, tokens? s.toList = some ts ∧ Acts ts as) ∧ (plain → closingTags s.toList = [])

inductive Performs (plain : Prop) : Listing → List Action → Prop
  | nil : Performs plain [] []
  | cons : RowActs plain r as → Performs plain rows bs → Performs plain (r :: rows) (as ++ bs)

namespace Performs

theorem single (h : RowActs plain r as) : Performs plain [r] as := List.append_nil as ▸ cons h nil

theorem append (h : Performs plain rows as) (h' : Performs plain rows' bs) :
    Performs plain (rows ++ rows') (as ++ bs) := by
  induction h with
  | nil => exact h'
  | cons hr _ ih =>
    rw [List.append_assoc]
    exact cons hr ih

theorem flatMap {f : α → Listing} {acts : α → List Action} {xs : List α}
    (h : ∀ x ∈ xs, Performs plain (f x) (acts x)) :
    Performs plain (xs.flatMap f) (xs.flatMap acts) := by
  induction xs with
  | nil => exact nil
  | cons x xs ih =>
    rw [List.forall_mem_cons] at h
    exact h.1.append (ih h.2)

theorem map {f : α → Row} {acts : α → List Action} {xs : List α}
    (h : ∀ x ∈ xs, Performs plain [f x] (acts x)) :
    Performs plain (xs.map f) (xs.flatMap acts) := by
  rw [List.map_eq_flatMap]
  exact flatMap h

theorem step (h : Performs plain rows as) (hr : r.pieces = []) : Performs plain (r :: rows) as := by
  have hacts : RowActs plain r [] := by
    intro s hs
    rw [hr] at hs
    cases hs
    exact ⟨⟨[], rfl, .nil⟩, fun _ => rfl⟩
  exact cons hacts h

theorem indent (h : Performs plain rows as) : Performs plain (Program.indent rows) as := by
  have hdedent : Performs plain [Row.dedent] [] := nil.step rfl
  exact List.append_nil as ▸ (h.append hdedent).step rfl

theorem blockTo (header : List Piece)
    (hopen : Performs plain
      [line (if header.isEmpty then [r"{"] else header ++ [.code r" {"])] as)
    (hbody : Performs plain body bs) (hclose : Performs plain [line [.code close]] []) :
    Performs plain (blockTo close header body) (as ++ bs) := by
  have := (hopen.append hbody.indent).append hclose
  rwa [List.append_nil] at this

end Performs

/-! ## Listings of mostly fixed text -/

inductive SpellsAll (plain : Prop) : Listing → List (List (Part Item)) → Prop
  | nil : SpellsAll plain [] []
  | line : Spells plain ps qs → SpellsAll plain rows qss →
      SpellsAll plain (.line ps :: rows) (qs :: qss)
  | indent : SpellsAll plain rows qss → SpellsAll plain (.indent :: rows) qss
  | dedent : SpellsAll plain rows qss → SpellsAll plain (.dedent :: rows) qss

/-- What rows do, provided that no closing tag begins in them. -/
def actsAll? : List (List (Part Item)) → Option (List Action)
  | [] => some []
  | qs :: qss =>
    if qs.all Part.unclosed then do
      pure ((← (items .token .code qs).bind acts?) ++ (← actsAll? qss))
    else none

/-- The rows determine how they are spelled, and what is spelled is read by evaluation. -/
theorem Performs.of_spells (hspells : SpellsAll plain rows qss) (hacts : actsAll? qss = some as) :
    Performs plain rows as := by
  induction hspells generalizing as with
  | nil =>
    cases hacts
    exact nil
  | indent _ ih | dedent _ ih => exact (ih hacts).step rfl
  | line hps _ ih =>
    rw [actsAll?] at hacts
    split at hacts
    · next hqs =>
      obtain ⟨as, has, hacts⟩ := Option.bind_eq_some_iff.1 hacts
      obtain ⟨bs, hbs, hacts⟩ := Option.bind_eq_some_iff.1 hacts
      obtain ⟨is, his, has⟩ := Option.bind_eq_some_iff.1 has
      cases hacts
      refine cons (fun s hs =>
        ⟨?_, fun hplain => ((hps.composes hs).unclosed hplain hqs).tags⟩) (ih hbs)
      obtain ⟨ts, hts, hfit⟩ := hps.exists_tokens his hs
      exact ⟨ts, hts, .of_acts? has hfit⟩
    · cases hacts

/-! ## The text of a listing -/

inductive LinesAct : List String → List Action → Prop
  | nil : LinesAct [] []
  | cons {l : String} {ts : List Token} : tokens? l.toList = some ts → Acts ts as → LinesAct ls bs →
      LinesAct (l :: ls) (as ++ bs)

theorem tokens?_append_blanks (h : ∀ c ∈ bs, isBlank c = true) (cs : List Char) :
    tokens? (bs ++ cs) = tokens? cs := by
  induction bs with
  | nil => rfl
  | cons b bs ih =>
    rw [List.forall_mem_cons] at h
    rw [List.cons_append, tokens?_cons_blank h.1, ih h.2]

theorem spaces_repeated (n : Nat) : ∀ c ∈ (Sheet.repeated "  " n).toList, c = ' ' := by
  intro c hc
  rw [Sheet.repeated, String.toList_join] at hc
  obtain ⟨unit, hunit, hc⟩ := List.mem_flatMap.1 hc
  rw [List.eq_of_mem_replicate hunit, String.toList_ofList] at hc
  simpa using hc

theorem tokens?_indented (n : Nat) (s : String) :
    tokens? (Sheet.indented "  " n s).toList = tokens? s.toList := by
  have hblank : ∀ c ∈ (Sheet.repeated "  " n).toList, isBlank c = true :=
    fun c hc => spaces_repeated n c hc ▸ rfl
  unfold Sheet.indented
  split
  · next hempty => rw [String.isEmpty_iff.1 hempty]
  · rw [String.toList_append, tokens?_append_blanks hblank]

theorem Performs.linesAct (h : Performs plain rows as) (hls : Written n n' rows ls) :
    LinesAct ls as := by
  induction h generalizing n ls with
  | nil =>
    cases hls
    exact .nil
  | cons hr _ ih =>
    obtain ⟨s, m, ls', hs, hrest, hls⟩ := hls.cons
    obtain ⟨⟨ts, hts, hacts⟩, _⟩ := hr s hs
    obtain rfl | ⟨rfl, rfl⟩ := hls
    · exact .cons (by rw [tokens?_indented, hts]) hacts (ih hrest)
    · cases hts
      exact hacts.actions_eq ▸ ih hrest

namespace LinesAct

theorem minified (h : LinesAct ls as) : LinesAct ((ls.map strip).filter (!·.isEmpty)) as := by
  induction h with
  | nil => exact nil
  | @cons as ls bs l ts hts hacts _ ih =>
    have hstrip : tokens? (strip l).toList = some ts := by
      rw [strip, String.toList_ofList, tokens?_stripChars, hts]
    rw [List.map_cons, List.filter_cons]
    split
    · exact cons hstrip hacts ih
    · next hempty =>
      -- An empty line has no tokens.
      have : strip l = "" := by simpa using hempty
      rw [this] at hstrip
      cases hstrip
      rwa [hacts.actions_eq.symm]

theorem shown (h : LinesAct ls as) (minify : Bool) : LinesAct (shown minify ls) as := by
  cases minify
  · exact h
  · exact h.minified

theorem exists_tokens (h : LinesAct ls as) :
    ∃ ts, tokens? ("\n".intercalate ls).toList = some ts ∧ Acts ts as := by
  induction h with
  | nil => exact ⟨[], rfl, .nil⟩
  | @cons as ls bs l ts hts hacts hls ih =>
    obtain ⟨us, hus, hacts'⟩ := ih
    cases ls with
    | nil =>
      cases hls
      exact ⟨ts, hts, by rwa [List.append_nil]⟩
    | cons l' ls =>
      refine ⟨ts ++ us, ?_, hacts.append hacts'⟩
      rw [String.intercalate_cons_cons, String.toList_append, String.toList_append,
        String.toList_ofList, List.append_assoc]
      exact tokens?_append_newline hts hus

end LinesAct

theorem Performs.actionsOf?_render {b : Sheet} (h : Performs plain rows as)
    (hb : Listing.sheet rows = .ok b) (minify : Bool) : actionsOf? (b.render minify) = some as := by
  obtain ⟨ts, hts, hacts⟩ := ((h.linesAct (written_of_sheet hb)).shown minify).exists_tokens
  rw [actionsOf?, Sheet.render_eq, hts, Option.map_some, hacts.actions_eq]

/-! ## Closing tags -/

theorem closingTags_indented (h : closingTags s.toList = []) (n : Nat) :
    closingTags (Sheet.indented "  " n s).toList = [] := by
  unfold Sheet.indented
  split
  · rw [String.toList_empty, closingTags]
  · rw [String.toList_append, closingTags_of_lt_notMem_append _ s.toList, h]
    intro hlt
    exact absurd (spaces_repeated n '<' hlt) (by decide)

theorem closingTags_strip (h : closingTags s.toList = []) : closingTags (strip s).toList = [] := by
  have hsuffix := List.dropWhile_suffix (l := s.toList) isBlank
  have hprefix : stripChars s.toList <+: s.toList.dropWhile isBlank := by
    rw [stripChars, ← List.reverse_suffix, List.reverse_reverse]
    exact List.dropWhile_suffix isBlank
  obtain ⟨as, has⟩ := hsuffix
  obtain ⟨bs, hbs⟩ := hprefix
  rw [← has, ← hbs] at h
  rw [strip, String.toList_ofList]
  exact (closingTags_of_append (closingTags_of_append h).2).1

theorem Performs.closingTags_lines (h : Performs plain rows as) (hplain : plain)
    (hls : Written n n' rows ls) : ∀ l ∈ ls, closingTags l.toList = [] := by
  induction h generalizing n ls with
  | nil =>
    cases hls
    exact List.forall_mem_nil _
  | cons hr _ ih =>
    obtain ⟨s, m, ls', hs, hrest, rfl | ⟨-, rfl⟩⟩ := hls.cons
    · exact List.forall_mem_cons.2 ⟨closingTags_indented ((hr s hs).2 hplain) _, ih hrest⟩
    · exact ih hrest

theorem closingTags_shown (h : ∀ l ∈ ls, closingTags l.toList = []) (minify : Bool) :
    ∀ l ∈ shown minify ls, closingTags l.toList = [] := by
  cases minify
  · exact h
  · intro l hl
    obtain ⟨l', hl', rfl⟩ := List.mem_map.1 (List.mem_of_mem_filter hl)
    exact closingTags_strip (h l' hl')

theorem closingTags_intercalate (h : ∀ l ∈ ls, closingTags l.toList = []) :
    closingTags ("\n".intercalate ls).toList = [] := by
  induction ls with
  | nil => rfl
  | cons l ls ih =>
    rw [List.forall_mem_cons] at h
    cases ls with
    | nil => exact h.1
    | cons l' ls =>
      rw [String.intercalate_cons_cons, String.toList_append, String.toList_append,
        String.toList_ofList, List.append_assoc, closingTags_append h.1 (by simp),
        List.singleton_append, closingTags_cons (by simp), ih h.2]

theorem Performs.closingTags_render {b : Sheet} (h : Performs plain rows as) (hplain : plain)
    (hb : Listing.sheet rows = .ok b) (minify : Bool) :
    closingTags (b.render minify).toList = [] := by
  have hlines := h.closingTags_lines hplain (written_of_sheet hb)
  rw [Sheet.render_eq]
  exact closingTags_intercalate (closingTags_shown hlines minify)

end PlatformGame.Script
