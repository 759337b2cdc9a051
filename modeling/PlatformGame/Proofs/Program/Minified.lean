import PlatformGame.Proofs.Program.Success

/-! # Minified pages

From the line on that opens the program, a minified page has the lines of the page that is not
minified, without the blanks around them and without those of which nothing is left. None of these
blanks stands in a literal of the program (`scriptLines_minified`). -/

namespace PlatformGame

open Program Script Text

/-! ## Lines -/

namespace Text

def linesOf (s : String) : List String := (s.toList.splitOn '\n').map String.ofList

theorem linesOf_append (cs ds : List Char) :
    linesOf (String.ofList (cs ++ '\n' :: ds)) =
      linesOf (String.ofList cs) ++ linesOf (String.ofList ds) := by
  simp only [linesOf, String.toList_ofList, List.splitOn_append_cons_self, List.map_append]

theorem linesOf_intercalate (hne : ls ≠ []) (h : ∀ l ∈ ls, '\n' ∉ l.toList) :
    linesOf ("\n".intercalate ls) = ls := by
  have hnewline : "\n".toList = ['\n'] := String.toList_ofList
  rw [linesOf, String.toList_intercalate, hnewline,
    List.splitOn_intercalate _ (List.forall_mem_map.2 h) (by simpa using hne), List.map_map]
  simp [Function.comp_def]

theorem textAfter_ne_none (hmark : mark ≠ []) (h : mark <:+: cs) : textAfter mark cs ≠ none := by
  obtain ⟨as, bs, rfl⟩ := h
  induction as with
  | nil =>
    cases mark with
    | nil => exact absurd rfl hmark
    | cons m ms => simp [textAfter]
  | cons a as ih =>
    rw [List.cons_append, List.cons_append, textAfter]
    split
    · simp
    · exact ih

/-- A mark that does not occur in a text is none of its lines. -/
theorem notMem_linesOf (hmark : mark ≠ []) (h : textAfter mark cs = none) :
    String.ofList mark ∉ linesOf (String.ofList cs) := by
  intro hmem
  rw [linesOf, String.toList_ofList,
    List.mem_map_of_injective fun _ _ => String.ofList_injective] at hmem
  obtain ⟨i, hi⟩ := List.mem_iff_getElem?.1 hmem
  have hinfix : mark <:+: ['\n'].intercalate (cs.splitOn '\n') := List.infix_of_mem_flatten
    (List.mem_iff_getElem?.2 ⟨2 * i, List.getElem?_intersperse_two_mul.trans hi⟩)
  rw [List.intercalate_splitOn] at hinfix
  exact textAfter_ne_none hmark hinfix h

end Text

/-- The lines of a page from the first on that only opens an element for a program. -/
def scriptLines (page : String) : List String := (linesOf page).dropWhile (· != "<script>")

theorem Program.Frame.scriptLines_fill {f : Frame} {title url script : List Char}
    (ht : '<' ∉ title) (hu : '<' ∉ url) :
    scriptLines (String.ofList (f.fill title url script)) =
      "<script>" :: (linesOf (String.ofList script) ++ ["</script>", "</body>", "</html>"]) := by
  -- the mark occurs nowhere in front, so that no line there consists of it
  have hmark : textAfter scriptMark (f.lead title url headEnd) = none := textAfter_lead ht hu _
  have hfill : f.fill title url script = f.lead title url headEnd ++
      '\n' :: (scriptMark ++ '\n' :: (script ++ closing)) := by
    simp [fill, lead, opening]
  have hend : linesOf (String.ofList (scriptEnd ++ '\n' :: pageEnd)) =
      ["</script>", "</body>", "</html>"] := by
    rw [linesOf, String.toList_ofList]
    rfl
  have hscript : linesOf (String.ofList scriptMark) = ["<script>"] := by
    rw [linesOf, String.toList_ofList]
    rfl
  rw [scriptLines, hfill, linesOf_append, linesOf_append, closing, linesOf_append, hend, hscript,
    List.dropWhile_append_of_pos]
  · rfl
  · intro l hl
    refine bne_iff_ne.2 ?_
    rintro rfl
    exact notMem_linesOf (by decide) hmark hl

/-! ## Lines of a program -/

namespace Program

theorem newline_notMem_of_settled (h : ∀ r ∈ rows, ∀ p ∈ r.pieces, Settled p)
    (hls : Written n n' rows ls) : ∀ l ∈ ls, '\n' ∉ l.toList := by
  induction rows generalizing n ls with
  | nil =>
    cases hls
    exact List.forall_mem_nil _
  | cons r rows ih =>
    rw [List.forall_mem_cons] at h
    obtain ⟨s, _, ls, hs, hrest, rfl | ⟨-, rfl⟩⟩ := hls.cons
    case inr => exact ih h.2 hrest
    refine List.forall_mem_cons.2 ⟨?_, ih h.2 hrest⟩
    unfold Sheet.indented
    split
    · decide
    · rw [String.toList_append]
      refine List.not_mem_append (fun hc => ?_) (newline_notMem_writeAll h.1 hs)
      exact absurd (spaces_repeated _ _ hc) (by decide)

theorem newline_notMem_shown (h : ∀ l ∈ ls, '\n' ∉ l.toList) (minify : Bool) :
    ∀ l ∈ shown minify ls, '\n' ∉ l.toList := by
  cases minify with
  | false => exact h
  | true =>
    intro l hl hc
    obtain ⟨l', hl', rfl⟩ := List.mem_map.1 (List.mem_filter.1 hl).1
    obtain ⟨bs, bs', -, -, heq⟩ := exists_strip l'
    exact h l' hl' (heq ▸ List.mem_append_right _ (List.mem_append_left _ hc))

end Program

theorem linesOf_script (h : g.script minify = .ok script) :
    ∃ b, (programListing g).sheet = .ok b ∧ linesOf script = shown minify b.lines := by
  obtain ⟨b, hb, h⟩ := bind_eq_ok.1 h
  cases h
  have hls := written_of_sheet hb
  have hnewline := newline_notMem_of_settled (balanced_programListing g False.elim).settled hls
  refine ⟨b, hb, ?_⟩
  rw [Sheet.render_eq, linesOf_intercalate (shown_programListing_ne_nil hls minify)
    (newline_notMem_shown hnewline minify)]

theorem scriptLines_page {g : Game} {url : String} {minify : Bool} {page : String}
    (h : g.page url minify = .ok page) :
    ∃ script, g.script minify = .ok script ∧ scriptLines page =
      "<script>" :: (linesOf script ++ ["</script>", "</body>", "</html>"]) := by
  obtain ⟨f, script, hscript, hfill⟩ := exists_frame h
  have hlt (s : String) : '<' ∉ (escapeHtml s).toList :=
    fun hc => (conveys_escapeHtml .basic s).inert _ hc (by simp)
  refine ⟨script, hscript, ?_⟩
  rw [← String.ofList_toList (s := page), hfill, Frame.scriptLines_fill (hlt g.title) (hlt url),
    String.ofList_toList]

/-! ## Blanks outside of literals -/

namespace Script

/-- What follows the text does not begin inside of a literal. -/
def Outside (cs : List Char) : Prop := ∃ xs, sift .code cs = some (.code, xs)

/-- A blank that is taken away from a line, with what stands before and after it. -/
def Stripped (us : List Char) (c : Char) (vs : List Char) : Prop :=
  (∀ d ∈ us ++ [c], isBlank d = true) ∨ ∀ d ∈ c :: vs, isBlank d = true

theorem Stripped.outside (h : Stripped us c vs) (hl : Outside (us ++ c :: vs)) : Outside us := by
  obtain ⟨zs, hzs⟩ := hl
  obtain ⟨m, xs, ys, hxs, hys, -⟩ := sift_append_iff.1 hzs
  rcases h with h | h
  · exact ⟨us, sift_of_notMem_special fun d hd =>
      isBlank_notMem_special (h d (List.mem_append_left _ hd))⟩
  · obtain rfl := eq_code_of_sift_blanks h hys
    exact ⟨xs, hxs⟩

theorem Outside.append (h : Outside cs) (h' : Outside ds) : Outside (cs ++ ds) := by
  obtain ⟨xs, hxs⟩ := h
  obtain ⟨ys, hys⟩ := h'
  exact ⟨xs ++ ys, sift_append hxs hys⟩

/-- Every line of a program begins and ends outside of literals. -/
theorem TidyLines.outside (h : TidyLines bare st st' (ls ++ l :: ls')) :
    Outside (ls.flatMap fun l => l.toList ++ ['\n']) ∧ Outside l.toList := by
  induction ls generalizing st with
  | nil =>
    cases h with
    | cons hl _ =>
      obtain ⟨xs, hxs, -⟩ := hl
      exact ⟨⟨[], rfl⟩, xs, hxs⟩
  | cons l' ls ih =>
    cases h with
    | cons hl' hrest =>
      obtain ⟨xs, hxs, -⟩ := hl'
      have hline : Outside (l'.toList ++ ['\n']) := .append ⟨xs, hxs⟩ ⟨['\n'], rfl⟩
      obtain ⟨hls, hl⟩ := ih hrest
      exact ⟨hline.append hls, hl⟩

end Script

/-- What compiles does so whatever is asked about minifying, and the page is made of the same game
for the same address. -/
theorem exists_pages_of_compile (h : (compile source (.ok o)).outcome = .ok a) :
    ∃ g url, (readGame source).outcome = .ok g ∧ ∀ minify : Json, ∃ a',
      (compile source (.ok { o with minify })).outcome = .ok a' ∧
        g.page url minify.isTrue = .ok a'.page := by
  obtain ⟨g, _, url, hg, ho, hurl, hpage⟩ := exists_page_of_compile h
  cases ho
  obtain ⟨b, hb, -⟩ := bind_eq_ok.1 hpage
  refine ⟨g, url, hg, fun minify => ?_⟩
  obtain ⟨page, hout⟩ := exists_artifact hg (o := { o with minify }) hurl (writes_programListing hb)
  obtain ⟨g', o', url', hg', ho', hurl', hpage'⟩ := exists_page_of_compile hout
  cases hg.symm.trans hg'
  cases ho'
  cases hurl.symm.trans hurl'
  exact ⟨_, hout, hpage'⟩

/-- From the line on that opens the program, a minified page consists of the same lines as the page
that is not minified, without blanks around them and without those that are blank. A blank that is
taken away is in no literal of the program: what stands before it in the program leaves none
open. -/
theorem scriptLines_minified {source : String} {o : Options} {a : Artifact}
    (h : (compile source (.ok o)).outcome = .ok a) {plain short : Json}
    (hplain : plain.isTrue = false) (hshort : short.isTrue = true) :
    ∃ g script a₀ a₁, (readGame source).outcome = .ok g ∧ g.script false = .ok script ∧
      (compile source (.ok { o with minify := plain })).outcome = .ok a₀ ∧
      (compile source (.ok { o with minify := short })).outcome = .ok a₁ ∧
      scriptLines a₀.page =
        "<script>" :: (linesOf script ++ ["</script>", "</body>", "</html>"]) ∧
      scriptLines a₁.page = ((scriptLines a₀.page).map strip).filter (!·.isEmpty) ∧
      ∀ ls l ls' us c vs, linesOf script = ls ++ l :: ls' → l.toList = us ++ c :: vs →
        Stripped us c vs → Outside ((ls.flatMap fun l => l.toList ++ ['\n']) ++ us) := by
  obtain ⟨g, url, hg, hpages⟩ := exists_pages_of_compile h
  obtain ⟨a₀, ha₀, hpage₀⟩ := hpages plain
  obtain ⟨a₁, ha₁, hpage₁⟩ := hpages short
  rw [hplain] at hpage₀
  rw [hshort] at hpage₁
  obtain ⟨script, hscript, hlines₀⟩ := scriptLines_page hpage₀
  obtain ⟨script₁, hscript₁, hlines₁⟩ := scriptLines_page hpage₁
  -- both pages show the lines of the same rows
  obtain ⟨b, hb, hshown⟩ := linesOf_script hscript
  obtain ⟨b₁, hb₁, hshown₁⟩ := linesOf_script hscript₁
  cases hb.symm.trans hb₁
  refine ⟨g, script, a₀, a₁, hg, hscript, ha₀, ha₁, hlines₀, ?_, ?_⟩
  · rw [hlines₀, hlines₁, hshown, hshown₁]
    change _ = shown true (["<script>"] ++ (b.lines ++ ["</script>", "</body>", "</html>"]))
    rw [shown_append, shown_append]
    rfl
  · intro front l back us c vs hfront hl hstripped
    have htidy := (balanced_programListing g False.elim).lines (written_of_sheet hb)
    rw [← show linesOf script = b.lines from hshown, hfront] at htidy
    obtain ⟨hbefore, hline⟩ := htidy.outside
    rw [hl] at hline
    exact hbefore.append (hstripped.outside hline)

/-- The title and the address of the engine hold the line that opens the program, and literals begin
and end with blanks. -/
theorem scriptLines_minified_spaced :
    let source := r#"game "<script>" { assets { image hero ""# ++ "\u3000" ++
      r#"" } level " " { } }"#
    let o : Options := { runtimeUrl := .text "\n<script>\n" }
    ∃ a a₀ a₁, (compile source (.ok o)).outcome = .ok a ∧
      (compile source (.ok { o with minify := .null })).outcome = .ok a₀ ∧
      (compile source (.ok { o with minify := .text "false" })).outcome = .ok a₁ ∧
      scriptLines a₁.page = ((scriptLines a₀.page).map strip).filter (!·.isEmpty) := by
  intro source o
  obtain ⟨a, ha⟩ : ∃ a, (compile source (.ok o)).outcome = .ok a :=
    exists_of_isOk (by decide +kernel)
  have hplain : Json.null.isTrue = false := rfl
  have hshort : (Json.text "false").isTrue = true := by decide
  obtain ⟨_, _, a₀, a₁, _, _, ha₀, ha₁, _, hlines, _⟩ := scriptLines_minified ha hplain hshort
  exact ⟨a, a₀, a₁, ha, ha₀, ha₁, hlines⟩

end PlatformGame
