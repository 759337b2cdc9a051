import PlatformGame.Proofs.Program.Emitters
import PlatformGame.Proofs.Program.Occurrences
import PlatformGame.Proofs.Text.ScriptData

/-! # Comment marks in a program

Fixed text of a program never opens a comment of the page, and a name or a number cannot. So the
program holds `<!--` exactly if the path of an asset or the name of a layer in a tilemap does, since
only these may be texts of any kind (`commentMark_infix_script_iff`). Literals are no protection:
only the start of a closing tag is changed in them. -/

namespace PlatformGame

variable {cs : List Char} {g : Game} {c : Char} {texts : List String} {computes : Quantity → Prop}

namespace Text

/-! ## The mark in parts of a text -/

theorem commentMark_infix_append_cons_iff (hc : c ∉ commentMark) :
    commentMark <:+: cs ++ c :: ds ↔ commentMark <:+: cs ∨ commentMark <:+: ds :=
  Program.infix_append_cons_iff (List.cons_ne_nil _ _) hc

theorem commentMark_infix_cons_iff (hc : c ≠ '<') :
    commentMark <:+: c :: cs ↔ commentMark <:+: cs := by
  rw [List.infix_cons_iff, or_iff_right]
  rintro ⟨_, h⟩
  cases h
  exact hc rfl

theorem unmarked_of_notMem (h : '<' ∉ cs) : ¬ commentMark <:+: cs :=
  fun hmark => h (hmark.subset List.mem_cons_self)

/-- A mark that is in the text or after it does not begin in the text and end after it. -/
def Sealed (cs : List Char) : Prop :=
  ∀ ds, commentMark <:+: cs ++ ds ↔ commentMark <:+: cs ∨ commentMark <:+: ds

theorem Sealed.of_last (h : c ∉ commentMark) : Sealed (cs ++ [c]) := by
  intro ds
  rw [List.append_assoc, List.singleton_append, commentMark_infix_append_cons_iff h,
    commentMark_infix_append_cons_iff h, or_assoc,
    or_iff_right (unmarked_of_notMem List.not_mem_nil)]

/-- Text in which no `<` is followed by `!`, and none is last, neither holds the mark nor begins
one. -/
theorem commentMark_infix_append_iff (h : Script.unopened cs = true) (ds : List Char) :
    commentMark <:+: cs ++ ds ↔ commentMark <:+: ds := by
  induction cs with
  | nil => exact .rfl
  | cons c cs ih =>
    rw [Script.unopened, Bool.and_eq_true] at h
    rw [List.cons_append, List.infix_cons_iff, ih h.2, or_iff_right]
    rintro ⟨es, hes⟩
    cases cs with
    | nil =>
      cases hes
      cases h.1
    | cons d cs =>
      injection hes with hc hes
      injection hes with hd hes
      subst hc hd
      cases h.1

theorem unmarked_of_unopened (h : Script.unopened cs = true) : ¬ commentMark <:+: cs := by
  rw [← List.append_nil cs, commentMark_infix_append_iff h]
  exact unmarked_of_notMem List.not_mem_nil

theorem Sealed.of_unopened (h : Script.unopened cs = true) : Sealed cs := by
  intro ds
  rw [commentMark_infix_append_iff h, or_iff_right (unmarked_of_unopened h)]

theorem unopened_of_notMem (h : '<' ∉ cs) : Script.unopened cs = true := by
  induction cs with
  | nil => rfl
  | cons c cs ih =>
    rw [List.mem_cons, not_or] at h
    rw [Script.unopened, ih h.2, bne_iff_ne.2 (Ne.symm h.1)]
    rfl

theorem Plain.lt_notMem (h : Plain cs) : '<' ∉ cs := fun hlt => (h _ hlt).1 rfl

/-! ## Literals -/

/-- A character stands for itself in a literal, or has a backslash in front. -/
theorem escapeScriptChar_cases (c : Char) : escapeScriptChar c = [c] ∧ c ≠ '\\' ∨
    c ≠ '<' ∧ ∃ d, escapeScriptChar c = ['\\', d] ∧ d ≠ '<' := by
  unfold escapeScriptChar
  split_ifs with h h h h h
  · exact .inr ⟨by simp [h], _, rfl, by decide⟩
  · exact .inr ⟨by simp [h], _, rfl, by decide⟩
  · exact .inr ⟨by simp [h], _, rfl, by decide⟩
  · exact .inr ⟨by simp [h], _, rfl, by decide⟩
  · exact .inr ⟨by simp [h], _, rfl, by decide⟩
  · exact .inl ⟨rfl, by assumption⟩

/-- A text of characters that stand for themselves begins a literal where it begins its text. -/
theorem prefix_literalBody_iff (hp : ∀ c ∈ p, escapeScriptChar c = [c] ∧ c ≠ '\\' ∧ c ≠ '<')
    (cs : List Char) : p <+: literalBody cs ↔ p <+: cs := by
  induction p generalizing cs with
  | nil => simp
  | cons c p ih =>
    rw [List.forall_mem_cons] at hp
    fun_cases literalBody cs with
    | case1 => exact .rfl
    | case2 cs => simp [List.cons_prefix_cons, hp.1.2.2]
    | case3 d cs =>
      rcases escapeScriptChar_cases d with ⟨hd, -⟩ | ⟨-, e, hd, -⟩
      · rw [hd, List.singleton_append, List.cons_prefix_cons, List.cons_prefix_cons, ih hp.2]
      · have hne : c ≠ d := by
          rintro rfl
          rw [hp.1.1] at hd
          cases hd
        simp [hd, List.cons_prefix_cons, hne, hp.1.2.1]

/-- A literal holds the mark of a comment exactly if its text does. -/
theorem commentMark_infix_literalBody_iff (cs : List Char) :
    commentMark <:+: literalBody cs ↔ commentMark <:+: cs := by
  fun_induction literalBody cs with
  | case1 => exact .rfl
  | case2 cs ih =>
    have hescaped : Script.unopened ['<', '\\', '/'] = true := rfl
    have hgiven : Script.unopened ['<', '/'] = true := rfl
    exact (commentMark_infix_append_iff hescaped _).trans
      (ih.trans (commentMark_infix_append_iff hgiven cs).symm)
  | case3 c cs hne ih =>
    rcases escapeScriptChar_cases c with ⟨hc, -⟩ | ⟨hc, d, hd, hlt⟩
    · have hrest : ∀ c ∈ ['!', '-', '-'], escapeScriptChar c = [c] ∧ c ≠ '\\' ∧ c ≠ '<' := by
        rw [List.forall_mem_cons, List.forall_mem_cons, List.forall_mem_singleton]
        decide
      rw [hc, List.singleton_append, List.infix_cons_iff, List.infix_cons_iff, ih, commentMark,
        List.cons_prefix_cons, List.cons_prefix_cons, prefix_literalBody_iff hrest]
    · rw [hd, List.cons_append, List.singleton_append, commentMark_infix_cons_iff (by decide),
        commentMark_infix_cons_iff hlt, commentMark_infix_cons_iff hc, ih]

theorem commentMark_infix_scriptLiteral_iff (s : String) :
    commentMark <:+: (scriptLiteral s).toList ↔ commentMark <:+: s.toList := by
  rw [toList_scriptLiteral, commentMark_infix_cons_iff (by decide),
    commentMark_infix_append_cons_iff (by decide),
    or_iff_left (unmarked_of_notMem List.not_mem_nil), commentMark_infix_literalBody_iff]

theorem sealed_scriptLiteral (s : String) : Sealed (scriptLiteral s).toList := by
  rw [toList_scriptLiteral, ← List.cons_append]
  exact .of_last (by decide)

end Text

namespace Program

open Script Text

/-- The text of a piece neither begins nor ends a mark with what stands around it, and holds one
only if the piece is a literal whose text does. -/
theorem commentMark_infix_write_iff (h : p.Holds texts computes) (hcode : Settled p)
    (hs : p.write = .ok s) : Sealed s.toList ∧
      (commentMark <:+: s.toList ↔ ∃ t, p = .literal t ∧ commentMark <:+: t.toList) := by
  have hplain (hlt : '<' ∉ s.toList) (hp : ∀ t, p ≠ .literal t) : Sealed s.toList ∧
      (commentMark <:+: s.toList ↔ ∃ t, p = .literal t ∧ commentMark <:+: t.toList) :=
    ⟨.of_unopened (unopened_of_notMem hlt), iff_of_false (unmarked_of_notMem hlt)
      fun ⟨t, ht, _⟩ => hp t ht⟩
  cases p with
  | code t =>
    cases hs
    have hcode := (Bool.and_eq_true_iff.1 hcode).1
    exact ⟨.of_unopened hcode, iff_of_false (unmarked_of_unopened hcode) nofun⟩
  | literal t =>
    cases hs
    refine ⟨sealed_scriptLiteral t, (commentMark_infix_scriptLiteral_iff t).trans ?_⟩
    simp
  | number q => exact hplain (Json.plain_of_numerals (numerals_number hs)).lt_notMem nofun
  | labelled before n after =>
    obtain ⟨v, hv, hs⟩ := bind_eq_ok.1 hs
    cases hs
    have htext : Plain (before ++ v ++ after).toList := by
      rw [String.toList_append, String.toList_append]
      exact (h.1.append (Json.plain_of_numerals (Number.numerals_literal hv))).append h.2.2
    refine ⟨sealed_scriptLiteral _, iff_of_false ?_ nofun⟩
    rw [commentMark_infix_scriptLiteral_iff]
    exact unmarked_of_notMem htext.lt_notMem
  | name t =>
    cases hs
    exact hplain (Plain.lt_notMem h) nofun
  | payload j => exact hplain (Json.plain_compact h.1 hs).lt_notMem nofun
  | html t => exact h.elim

theorem commentMark_infix_writeAll_iff (h : ∀ p ∈ ps, p.Holds texts computes)
    (hcode : ∀ p ∈ ps, Settled p) (hs : writeAll ps = .ok s) :
    commentMark <:+: s.toList ↔ ∃ t, .literal t ∈ ps ∧ commentMark <:+: t.toList := by
  induction ps generalizing s with
  | nil =>
    cases hs
    exact iff_of_false (unmarked_of_notMem List.not_mem_nil) fun ⟨_, ht, _⟩ => nomatch ht
  | cons p ps ih =>
    rw [List.forall_mem_cons] at h hcode
    obtain ⟨t, u, ht, hu, htu⟩ := writeAll_cons hs
    obtain ⟨hsealed, hp⟩ := commentMark_infix_write_iff h.1 hcode.1 ht
    rw [htu, hsealed, hp, ih h.2 hcode.2 hu]
    simp only [List.mem_cons, or_and_right, exists_or, eq_comm]

theorem solid_commentMark : Solid commentMark := .of_all (List.cons_ne_nil _ _) rfl

/-- The text of a listing holds the mark of a comment exactly if the text of a literal in it
does. -/
theorem commentMark_infix_render_iff (h : HoldsAll texts computes rows)
    (hcode : ∀ r ∈ rows, ∀ p ∈ r.pieces, Settled p) (hb : rows.sheet = .ok b) (minify : Bool) :
    commentMark <:+: (b.render minify).toList ↔
      ∃ r ∈ rows, ∃ t, .literal t ∈ r.pieces ∧ commentMark <:+: t.toList := by
  rw [solid_commentMark.infix_render_iff hb]
  refine exists_congr fun r => and_congr_right fun hr => ?_
  obtain ⟨s, hs⟩ := writeAll_eq_ok_iff.2 ((written_of_sheet hb).writes r hr)
  rw [hs, ← commentMark_infix_writeAll_iff (h r hr) (hcode r hr) hs]
  simp

/-! ## Literals of a program -/

/-- A text stands in a listing as a literal. -/
def Mentions (t : String) (rows : Listing) : Prop := HasRow (.literal t ∈ ·) rows

theorem mentions_bootListing (ha : a ∈ g.assets) : Mentions a.path (bootListing g) := by
  have hload : .literal a.path ∈ (assetLoad a).pieces := by
    unfold assetLoad
    cases a.kind <;> simp [line]
  have hloads : Mentions a.path (g.assets.map assetLoad) := ⟨_, List.mem_map_of_mem ha, hload⟩
  refine HasRow.block _ ?_
  simp only [HasRow.append]
  exact .inl (.inl (.inr (HasRow.block _ hloads)))

theorem mentions_tilemapCreate (hp : p ∈ tiledLayers l) (assets : List Asset) :
    Mentions p.2 (tilemapCreate l assets) := by
  have hlayer : Mentions p.2 (layerCreate p.1 p.2) :=
    (HasRow.append ..).2 (.inl ⟨_, List.mem_singleton_self _, by simp [line]⟩)
  unfold tilemapCreate
  cases hps : tiledLayers l with
  | nil =>
    rw [hps] at hp
    cases hp
  | cons q qs =>
    rw [hps] at hp
    exact (HasRow.append ..).2 (.inr (HasRow.flatMap hp hlayer))

theorem mentions_levelListing (g : Game) (hp : p ∈ tiledLayers l) (index : Nat) :
    Mentions p.2 (levelListing g l index) := by
  have htilemap := mentions_tilemapCreate hp g.assets
  have hblank : Mentions p.2 (withBlank (tilemapCreate l g.assets)) := by
    unfold withBlank
    split
    · next hempty =>
      rw [List.isEmpty_iff.1 hempty] at htilemap
      obtain ⟨_, hr, _⟩ := htilemap
      cases hr
    · exact (HasRow.append ..).2 (.inl htilemap)
  have hcreate : Mentions p.2 (levelCreate g l) := by
    rw [Mentions] at hblank
    refine HasRow.block _ ?_
    simp only [HasRow.append, hblank, or_true, true_or]
  rw [Mentions] at hcreate
  refine HasRow.block _ ?_
  simp only [HasRow.append, hcreate, or_true, true_or]

/-- A text that is not plain stands in a program exactly if the game has it as the path of an asset
or as the name of a layer in a tilemap. -/
theorem mentions_programListing_iff (h : g.Proper) (ht : ¬ Plain t.toList) :
    Mentions t (programListing g) ↔ t ∈ foreignTexts g := by
  constructor
  · rintro ⟨r, hr, hmem⟩
    exact (holdsAll_programListing h r hr _ hmem).resolve_left ht
  · intro hforeign
    rcases List.mem_append.1 hforeign with hpath | htiled
    · obtain ⟨a, ha, rfl⟩ := List.mem_map.1 hpath
      rw [Mentions, programListing]
      simp only [HasRow.append]
      exact .inl (.inl (.inl (.inl (mentions_bootListing ha))))
    · obtain ⟨l, hl, htiled⟩ := List.mem_flatMap.1 htiled
      obtain ⟨p, hp, rfl⟩ := List.mem_map.1 htiled
      exact .programListing hl fun index => mentions_levelListing g hp index

/-- The program of a game holds the mark of a comment exactly if the path of an asset or the name of
a layer in a tilemap does. -/
theorem commentMark_infix_script_iff (h : g.Proper) (hs : g.script minify = .ok script) :
    commentMark <:+: script.toList ↔
      ∃ t ∈ foreignTexts g, commentMark <:+: t.toList := by
  obtain ⟨b, hb, hs⟩ := bind_eq_ok.1 hs
  cases hs
  have hbalanced : Balanced False (programListing g) := balanced_programListing g False.elim
  rw [commentMark_infix_render_iff (holdsAll_programListing h) hbalanced.settled hb]
  constructor
  · rintro ⟨r, hr, t, ht, hmark⟩
    have hplain : ¬ Plain t.toList := fun hplain => unmarked_of_notMem hplain.lt_notMem hmark
    exact ⟨t, (mentions_programListing_iff h hplain).1 ⟨r, hr, ht⟩, hmark⟩
  · rintro ⟨t, ht, hmark⟩
    have hplain : ¬ Plain t.toList := fun hplain => unmarked_of_notMem hplain.lt_notMem hmark
    obtain ⟨r, hr, hmem⟩ := (mentions_programListing_iff h hplain).2 ht
    exact ⟨r, hr, t, hmem, hmark⟩

end Program

open Program Script Text

/-- What stands in the script element of a page: the program, in lines of its own. -/
def elementText (script : String) : List Char := '\n' :: script.toList ++ ['\n']

theorem commentMark_infix_elementText_iff (script : String) :
    commentMark <:+: elementText script ↔ commentMark <:+: script.toList := by
  rw [elementText, commentMark_infix_append_cons_iff (by decide),
    or_iff_left (unmarked_of_notMem List.not_mem_nil), commentMark_infix_cons_iff (by decide)]

theorem closingTags_elementText (h : closingTags script.toList = []) :
    closingTags (elementText script) = [] := by
  have hnewline : closingTags ('\n' :: script.toList) = [] := (closingTags_cons (by simp)).trans h
  rw [elementText, closingTags_append hnewline (by simp)]
  rfl

/-- The program of a page is followed by the closing tag of its element. -/
theorem exists_textAfter_script (h : g.page url minify = .ok page) :
    ∃ script rest, g.script minify = .ok script ∧
      textAfter "<script>".toList page.toList =
        some (elementText script ++ (scriptClose ++ rest)) := by
  obtain ⟨f, script, hscript, hfill⟩ := exists_frame h
  have hlt (s : String) : '<' ∉ (escapeHtml s).toList :=
    fun hc => (conveys_escapeHtml .basic s).inert _ hc (by simp)
  refine ⟨script, '\n' :: pageEnd, hscript, ?_⟩
  rw [hfill, String.toList_ofList, elementText, List.append_assoc]
  exact Frame.textAfter_script (hlt g.title) (hlt url)

/-- Where a text compiles, the program stands in a script element of the page. It holds `<!--`, so
that a browser takes some of it as escaped, exactly if the path of an asset or the name of a layer
in a tilemap holds it. If none does, the element ends at the closing tag after the program. -/
theorem isEscaped_program_iff {source : String} {options : Except OptionError Options}
    {a : Artifact} (h : (compile source options).outcome = .ok a) :
    ∃ g o script rest, (readGame source).outcome = .ok g ∧ options = .ok o ∧
      g.script o.minify.isTrue = .ok script ∧
      textAfter "<script>".toList a.page.toList =
        some (elementText script ++ (scriptClose ++ rest)) ∧
      (commentMark <:+: elementText script ↔ ∃ t ∈ foreignTexts g, commentMark <:+: t.toList) ∧
      ((∃ front, front <+: elementText script ∧
          (ScriptState.start.read front).isEscaped = true) ↔
        ∃ t ∈ foreignTexts g, commentMark <:+: t.toList) ∧
      ((∀ t ∈ foreignTexts g, ¬ commentMark <:+: t.toList) →
        scriptContent (elementText script ++ (scriptClose ++ rest)) =
          some (elementText script)) := by
  obtain ⟨g, o, url, hg, ho, -, hpage⟩ := exists_page_of_compile h
  obtain ⟨script, rest, hscript, hafter⟩ := exists_textAfter_script hpage
  have htags := closingTags_script (plainNames_of_readGame hg) hscript
  have hmark := commentMark_infix_script_iff (proper_of_readGame hg) hscript
  refine ⟨g, o, script, rest, hg, ho, hscript, hafter, ?_, ?_, fun hnone => ?_⟩
  · rw [commentMark_infix_elementText_iff, hmark]
  · rw [exists_isEscaped_iff (closingTags_elementText htags), commentMark_infix_elementText_iff,
      hmark]
  · have hnewline : closingTags ('\n' :: script.toList) = [] :=
      (closingTags_cons (by simp)).trans htags
    refine scriptContent_append hnewline ?_ rest
    rw [commentMark_infix_cons_iff (by decide), hmark]
    exact fun ⟨t, ht, hin⟩ => hnone t ht hin

/-- The path of an asset is almost a comment. -/
theorem isEscaped_program_iff_dash :
    let source := r#"game "t" { assets { image a "<!-<script>" } }"#
    ∃ a, (compile source (.ok {})).outcome = .ok a ∧
      ∃ cs text, textAfter "<script>".toList a.page.toList = some cs ∧
        scriptContent cs = some text ∧ ¬ commentMark <:+: text := by
  intro source
  obtain ⟨a, ha⟩ : ∃ a, (compile source (.ok {})).outcome = .ok a :=
    exists_of_isOk (by decide +kernel)
  obtain ⟨g, o, script, rest, hg, -, -, hafter, hmark, -, hcontent⟩ := isEscaped_program_iff ha
  have htexts : (readGame source).outcome.toOption.map foreignTexts = some ["<!-<script>"] := by
    decide +kernel
  rw [hg] at htexts
  have hnone : ∀ t ∈ foreignTexts g, ¬ commentMark <:+: t.toList := by
    rw [Option.some.inj htexts]
    decide
  refine ⟨a, ha, _, _, hafter, hcontent hnone, ?_⟩
  rw [hmark]
  exact fun ⟨t, ht, hin⟩ => hnone t ht hin

/-- The path of an asset opens a comment and a script in it. -/
theorem exists_isEscaped_program :
    let source := r#"game "t" { assets { image a "<!--<script>" } }"#
    ∃ a script rest, (compile source (.ok {})).outcome = .ok a ∧
      textAfter "<script>".toList a.page.toList =
        some (elementText script ++ (scriptClose ++ rest)) ∧
      commentMark <:+: elementText script ∧
      ∃ front, front <+: elementText script ∧
        (ScriptState.start.read front).isEscaped = true := by
  intro source
  obtain ⟨a, ha⟩ : ∃ a, (compile source (.ok {})).outcome = .ok a :=
    exists_of_isOk (by decide +kernel)
  obtain ⟨g, o, url, hg, -, -, hpage⟩ := exists_page_of_compile ha
  obtain ⟨script, rest, hscript, hafter⟩ := exists_textAfter_script hpage
  have htexts : (readGame source).outcome.toOption.map foreignTexts = some ["<!--<script>"] := by
    decide +kernel
  rw [hg] at htexts
  have hmark : commentMark <:+: elementText script := by
    rw [commentMark_infix_elementText_iff,
      commentMark_infix_script_iff (proper_of_readGame hg) hscript, Option.some.inj htexts]
    exact ⟨_, List.mem_singleton_self _, by decide⟩
  have htags := closingTags_script (plainNames_of_readGame hg) hscript
  exact ⟨a, script, rest, ha, hafter, hmark,
    (exists_isEscaped_iff (closingTags_elementText htags)).2 hmark⟩

end PlatformGame
