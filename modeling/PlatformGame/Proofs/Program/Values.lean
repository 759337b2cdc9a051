import PlatformGame.Program.Enemies
import PlatformGame.Proofs.Data.Json
import PlatformGame.Proofs.Number.Numerals
import PlatformGame.Proofs.Program.Actions

/-! # Values in a program

Numbers, payloads and names stand in a program as they are, without quotes. Their texts can be read
on their own, and nothing that a program is read for begins inside them. -/

namespace PlatformGame.Script

/-! ## Numbers -/

inductive Token.Numeral : Token → Prop
  | word : (∀ c ∈ w, isNumeral c = true) → Numeral (.word w)
  | mark : isNumeral c = true → Numeral (.mark c)

theorem Token.Numeral.quiet (h : Token.Numeral t) : t.Quiet := by
  intro hhead
  -- Every head has a letter that numbers do not have.
  have hletters : ∀ u ∈ heads, ∃ w, u = .word w ∧ ∃ c ∈ w, isNumeral c = false := by
    simp only [heads, classWord, List.forall_mem_cons]
    exact ⟨⟨_, rfl, 'c', by decide, by decide⟩, ⟨_, rfl, 's', by decide, by decide⟩,
      ⟨_, rfl, 'h', by decide, by decide⟩, ⟨_, rfl, 's', by decide, by decide⟩,
      ⟨_, rfl, 'm', by decide, by decide⟩, fun _ hmem => absurd hmem (List.not_mem_nil)⟩
  obtain ⟨w, rfl, c, hc, hletter⟩ := hletters t hhead
  cases h with
  | word hw => exact absurd (hw c hc) (by simp [hletter])

/-- What has been read of a number. -/
def State.Numeral : State → Prop
  | .code => True
  | .word w => ∀ c ∈ w, isNumeral c = true
  | _ => False

theorem isNumeral_ne_quote (h : isNumeral c = true) : c ≠ '\'' ∧ c ≠ '"' := by
  constructor
  · rintro rfl
    exact absurd h (by decide)
  · rintro rfl
    exact absurd h (by decide)

theorem opened_numeral (h : isNumeral c = true) (hopened : opened c = (st, ts)) :
    st.Numeral ∧ ∀ t ∈ ts, t.Numeral := by
  obtain ⟨hsingle, hdouble⟩ := isNumeral_ne_quote h
  simp only [opened, hsingle, hdouble, if_false] at hopened
  split at hopened
  · cases hopened
    exact ⟨by simpa [State.Numeral] using h, by simp⟩
  · split at hopened
    · cases hopened
      exact ⟨trivial, by simp⟩
    · cases hopened
      exact ⟨trivial, by simpa using .mark h⟩

theorem step_numeral (hst : State.Numeral st) (h : isNumeral c = true)
    (hstep : step st c = (st', ts)) : st'.Numeral ∧ ∀ t ∈ ts, t.Numeral := by
  cases st with
  | code => exact opened_numeral h hstep
  | word w =>
    rw [step] at hstep
    split at hstep
    · cases hstep
      exact ⟨List.forall_mem_cons.2 ⟨h, hst⟩, by simp⟩
    · cases hstep
      obtain ⟨hst', hts⟩ := opened_numeral h rfl
      refine ⟨hst', List.forall_mem_cons.2 ⟨.word fun c hc => ?_, hts⟩⟩
      exact hst c (List.mem_reverse.1 hc)
  | quoted | escaped => exact hst.elim

theorem scan_numeral (hst : State.Numeral st) (h : ∀ c ∈ cs, isNumeral c = true)
    (hscan : scan st cs = (st', ts)) : st'.Numeral ∧ ∀ t ∈ ts, t.Numeral := by
  induction cs generalizing st ts with
  | nil =>
    cases hscan
    exact ⟨hst, by simp⟩
  | cons c cs ih =>
    rw [List.forall_mem_cons] at h
    rw [scan] at hscan
    cases hscan
    obtain ⟨hmid, hts⟩ := step_numeral hst h.1 rfl
    obtain ⟨hend, hus⟩ := ih hmid h.2 rfl
    exact ⟨hend, List.forall_mem_append.2 ⟨hts, hus⟩⟩

theorem exists_tokens?_numeral (h : ∀ c ∈ cs, isNumeral c = true) :
    ∃ ts, tokens? cs = some ts ∧ ∀ t ∈ ts, t.Numeral := by
  rcases hscan : scan .code cs with ⟨st, ts⟩
  have hcode : State.code.Numeral := trivial
  obtain ⟨hst, hts⟩ := scan_numeral hcode h hscan
  rw [tokens?, tokensFrom?, hscan]
  cases st with
  | code => exact ⟨ts, rfl, hts⟩
  | word w =>
    refine ⟨_, rfl, List.forall_mem_append.2 ⟨hts, ?_⟩⟩
    simpa using .word fun c hc => hst c (List.mem_reverse.1 hc)
  | quoted | escaped => exact hst.elim

/-! ## Payloads -/

/-- The words that stand in payloads. -/
def constants : List (List Char) :=
  [['n', 'u', 'l', 'l'], ['t', 'r', 'u', 'e'], ['f', 'a', 'l', 's', 'e']]

/-- A token of a payload. -/
inductive Token.Inert : Token → Prop
  | literal (s : String) : Inert (.literal s)
  | mark (c : Char) : Inert (.mark c)
  | numeral : Numeral t → Inert t
  | constant : w ∈ constants → Inert (.word w)

theorem Token.Inert.quiet (h : Token.Inert t) : t.Quiet := by
  have hconstants : ∀ w ∈ constants, (Token.word w).Quiet := by
    simp only [constants, List.forall_mem_cons]
    exact ⟨by decide, by decide, by decide, List.forall_mem_nil _⟩
  cases h with
  | literal | mark => simp [Token.Quiet, heads, classWord]
  | numeral hnumeral => exact hnumeral.quiet
  | constant hw => exact hconstants _ hw

theorem inert_marks (cs : List Char) : ∀ t ∈ cs.map Token.mark, t.Inert := by
  intro t ht
  obtain ⟨c, _, rfl⟩ := List.mem_map.1 ht
  exact .mark c

/-- A text with nothing in it that a program is read for. -/
def QuietText (cs : List Char) : Prop := ∃ ts, tokens? cs = some ts ∧ ∀ t ∈ ts, t.Quiet

/-- A text like that of a payload. -/
def InertText (cs : List Char) : Prop := ∃ ts, tokens? cs = some ts ∧ ∀ t ∈ ts, t.Inert

namespace InertText

theorem quietText (h : InertText cs) : QuietText cs := by
  obtain ⟨ts, hts, hinert⟩ := h
  exact ⟨ts, hts, fun t ht => (hinert t ht).quiet⟩

theorem nil : InertText [] := ⟨[], rfl, by simp⟩

theorem of_numerals (h : ∀ c ∈ cs, isNumeral c = true) : InertText cs := by
  obtain ⟨ts, hts, hnumeral⟩ := exists_tokens?_numeral h
  exact ⟨ts, hts, fun t ht => .numeral (hnumeral t ht)⟩

theorem of_mem_constants (h : cs ∈ constants) : InertText cs := by
  have hwords : constants.all (fun w => !w.isEmpty && w.all isWordChar) = true := rfl
  have hcs := List.all_eq_true.1 hwords cs h
  rw [Bool.and_eq_true, Bool.not_eq_true', List.isEmpty_eq_false_iff] at hcs
  exact ⟨_, tokens?_word hcs.1 (List.all_eq_true.1 hcs.2), by simpa using .constant h⟩

/-- A part of a text that leaves no word open. -/
theorem append_scan (h : scan .code cs = (.code, ts)) (hts : ∀ t ∈ ts, t.Inert)
    (h' : InertText ds) : InertText (cs ++ ds) := by
  obtain ⟨us, hus, hinert⟩ := h'
  exact ⟨_, tokensFrom?_append h hus, List.forall_mem_append.2 ⟨hts, hinert⟩⟩

theorem append_cons (h : InertText cs) (hd : isWordChar d = false) (h' : InertText (d :: ds)) :
    InertText (cs ++ d :: ds) := by
  obtain ⟨ts, hts, hinert⟩ := h
  obtain ⟨us, hus, hinert'⟩ := h'
  exact ⟨_, tokensFrom?_append_cons hts hd hus, List.forall_mem_append.2 ⟨hinert, hinert'⟩⟩

end InertText

end PlatformGame.Script

namespace PlatformGame.Json

open Script Text

theorem ne_of_mem_hexDigits (h : c ∈ hexDigits k n) : c ≠ '"' ∧ c ≠ '\\' := by
  have hall : ∀ m < 16, hexDigit m ≠ '"' ∧ hexDigit m ≠ '\\' := by decide
  obtain ⟨m, hm, rfl⟩ := exists_hexDigit_of_mem h
  exact hall m hm

/-- `cs` stands inside a text and leaves it open. -/
def Inside (cs : List Char) : Prop :=
  ∀ s, ∃ s', scan (.quoted .double s) cs = (.quoted .double s', [])

theorem Inside.nil : Inside [] := fun s => ⟨s, rfl⟩

theorem Inside.append (h : Inside cs) (h' : Inside ds) : Inside (cs ++ ds) := by
  intro s
  obtain ⟨s', hs'⟩ := h s
  obtain ⟨s'', hs''⟩ := h' s'
  exact ⟨s'', scan_append hs' hs''⟩

theorem inside_unit (n : Nat) : Inside (unit n) := by
  intro s
  have hopen : scan (.quoted .double s) ['\\', 'u'] = (.quoted .double ('u' :: s), []) := rfl
  have hdigits := scan_quoted (q := .double) (s := 'u' :: s)
    (fun h => (ne_of_mem_hexDigits h).1 rfl)
    (fun h => (ne_of_mem_hexDigits (k := 4) (n := n) h).2 rfl)
  exact ⟨_, scan_append hopen hdigits⟩

theorem inside_escapeChar (c : Char) : Inside (escapeChar c) := by
  by_cases hquote : c = '"'
  · subst hquote
    exact fun s => ⟨_, rfl⟩
  by_cases hslash : c = '\\'
  · subst hslash
    exact fun s => ⟨_, rfl⟩
  rw [escapeChar, if_neg hquote, if_neg hslash]
  dsimp only
  split_ifs
  -- The control characters with a letter of their own.
  iterate 5 exact fun s => ⟨_, rfl⟩
  · exact fun s => ⟨_, scan_quoted (by simpa [Quote.char] using Ne.symm hquote)
      (by simpa using Ne.symm hslash)⟩
  · exact inside_unit _
  · exact (inside_unit _).append (inside_unit _)

theorem scan_textLiteral (t : String) :
    ∃ u, scan .code (textLiteral t).toList = (.code, [.literal u]) := by
  have hbody (cs : List Char) : Inside (cs.flatMap escapeChar) := by
    induction cs with
    | nil => exact .nil
    | cons c cs ih => exact (inside_escapeChar c).append ih
  obtain ⟨u, hu⟩ := hbody t.toList []
  have hopen : step .code '"' = (.quoted .double [], []) := rfl
  have hclose : scan (.quoted .double u) ['"'] =
    (.code, [.literal (String.ofList u.reverse)]) := rfl
  rw [textLiteral, String.toList_ofList]
  exact ⟨_, scan_cons hopen (scan_append hu hclose)⟩

/-- Texts with commas in between, in front of what ends the last one. -/
theorem inertText_intercalate {ts : List String} (h : ∀ t ∈ ts, InertText t.toList)
    (hd : isWordChar d = false) (h' : InertText (d :: ds)) :
    InertText ((", ".intercalate ts).toList ++ d :: ds) := by
  induction ts with
  | nil => exact h'
  | cons t ts ih =>
    rw [List.forall_mem_cons] at h
    cases ts with
    | nil => exact h.1.append_cons hd h'
    | cons u us =>
      have hcomma : scan .code [',', ' '] = (.code, [.mark ',']) := rfl
      rw [String.intercalate_cons_cons, String.toList_append, String.toList_append,
        String.toList_ofList, List.append_assoc, List.append_assoc]
      exact h.1.append_cons (by decide) (.append_scan hcomma (inert_marks [',']) (ih h.2))

theorem inertText_textLiteral_append (k : String) (h : InertText cs) :
    InertText ((textLiteral k).toList ++ cs) := by
  obtain ⟨u, hu⟩ := scan_textLiteral k
  exact .append_scan hu (by simpa using .literal u) h

theorem inertText_compact (h : compact j = .ok s) : InertText s.toList := by
  have hinert : Carried (fun _ => True) InertText := by
    refine ⟨.of_mem_constants (by decide),
      ⟨.of_mem_constants (by decide), .of_mem_constants (by decide)⟩,
      fun h => .of_numerals (numerals_numberLiteral h), fun {t} _ => ?_, fun {k _} _ ht => ?_,
      fun {o c ts} hoc hts => ?_⟩
    · rw [← List.append_nil (textLiteral t).toList]
      exact inertText_textLiteral_append t .nil
    · have hcolon : scan .code [':', ' '] = (.code, [.mark ':']) := rfl
      exact inertText_textLiteral_append k (.append_scan hcolon (inert_marks [':']) ht)
    · have hmarks : scan .code [o] = (.code, [.mark o]) ∧ scan .code [c] = (.code, [.mark c]) ∧
          isWordChar c = false := by
        rcases hoc with ⟨rfl, rfl⟩ | ⟨rfl, rfl⟩ <;> exact ⟨rfl, rfl, rfl⟩
      have hclose : InertText [c] := .append_scan hmarks.2.1 (inert_marks [c]) .nil
      exact .append_scan hmarks.1 (inert_marks [o]) (inertText_intercalate hts hmarks.2.2 hclose)
  exact hinert.compact (fun _ _ => trivial) h

theorem quietText_compact (h : compact j = .ok s) : QuietText s.toList :=
  (inertText_compact h).quietText

end PlatformGame.Json

/-! ## Names -/

namespace PlatformGame.Script

open Program

/-- The tokens of everything that a program is read for. -/
def watched : List Token :=
  classWord :: listOpening ++ Callee.all.flatMap fun c => Callee.path c.names

def Token.letters : Token → List Char
  | .word w => w
  | _ => []

/-- A word that is no part of what a program is read for. -/
structure IsName (s : String) : Prop where
  ne_nil : s.toList ≠ []
  chars : ∀ c ∈ s.toList, isWordChar c = true
  fresh : Token.word s.toList ∉ watched

namespace IsName

theorem tokens? (h : IsName s) : tokens? s.toList = some [.word s.toList] :=
  tokens?_word h.ne_nil h.chars

theorem quiet (h : IsName s) : (Token.word s.toList).Quiet := by
  have hwatched : heads ⊆ watched := by decide
  exact fun hhead => h.fresh (hwatched hhead)

theorem of_toList (hs : s.toList = cs) (hne : cs ≠ []) (hchars : cs.all isWordChar = true)
    (hfresh : Token.word cs ∉ watched) : IsName s := by
  subst hs
  exact ⟨hne, List.all_eq_true.1 hchars, hfresh⟩

/-- Names with a capital letter L: those of levels and layers. -/
theorem of_mem (h : ∀ c ∈ s.toList, isWordChar c = true) (hL : 'L' ∈ s.toList) : IsName s := by
  have hwatched : watched.all (fun t => !t.letters.contains 'L') = true := by decide +kernel
  refine ⟨List.ne_nil_of_mem hL, h, fun hmem => ?_⟩
  have := List.all_eq_true.1 hwatched _ hmem
  simp [Token.letters, hL] at this

end IsName

theorem toList_bootScene : bootScene.toList = ['B', 'o', 'o', 't', 'S', 'c', 'e', 'n', 'e'] := by
  rw [bootScene, String.toList_ofList]

theorem toList_hudScene : hudScene.toList = ['H', 'u', 'd', 'S', 'c', 'e', 'n', 'e'] := by
  rw [hudScene, String.toList_ofList]

theorem toList_sceneKey (level : String) :
    (sceneKey level).toList = ['L', 'e', 'v', 'e', 'l', '_'] ++
      level.toList.map fun c => if c.isAlphanum then c else '_' := by
  rw [sceneKey, String.toList_append, String.toList_ofList, String.toList_ofList]

theorem isName_bootScene : IsName bootScene :=
  .of_toList toList_bootScene (by decide) rfl (by decide)

theorem isName_hudScene : IsName hudScene :=
  .of_toList toList_hudScene (by decide) rfl (by decide)

theorem isName_sceneKey (level : String) : IsName (sceneKey level) := by
  refine .of_mem ?_ (by simp [toList_sceneKey])
  rw [toList_sceneKey, List.forall_mem_append]
  refine ⟨List.all_eq_true.1 rfl, fun c hc => ?_⟩
  obtain ⟨d, _, rfl⟩ := List.mem_map.1 hc
  split
  · next h => simp [isWordChar, h]
  · decide

theorem isWordChar_of_mem_identifier (h : c ∈ (identifier s).toList) : isWordChar c = true := by
  have hchars : ∀ d ∈ s.toList.map (fun c => if c.isAlphanum || c == '_' then c else '_'),
      isWordChar d = true := by
    intro d hd
    obtain ⟨e, _, rfl⟩ := List.mem_map.1 hd
    split
    · next he => simp [isWordChar, he]
    · decide
  dsimp only [identifier] at h
  rw [String.toList_ofList] at h
  generalize s.toList.map _ = cs at h hchars
  split at h
  · split at h
    · rcases List.mem_cons.1 h with rfl | h
      · decide
      · exact hchars c h
    · exact hchars c h
  · cases h

theorem isName_layer (name : String) : IsName (identifier name ++ "Layer") := by
  have hchars : (identifier name ++ "Layer").toList =
      (identifier name).toList ++ ['L', 'a', 'y', 'e', 'r'] := by
    rw [String.toList_append, String.toList_ofList]
  refine .of_mem ?_ (by simp [hchars])
  rw [hchars, List.forall_mem_append]
  exact ⟨fun c hc => isWordChar_of_mem_identifier hc, List.all_eq_true.1 rfl⟩

theorem toList_layerField (name : String) :
    (layerField name).toList =
      ['t', 'h', 'i', 's', '.'] ++ (identifier name ++ "Layer").toList := by
  rw [layerField, String.append_assoc, String.toList_append, String.toList_ofList]

end PlatformGame.Script
