import PlatformGame.Proofs.Number.Form
import PlatformGame.Proofs.Program.Values

/-! # Programs without their literals

What is left of a program when the insides of its quoted literals are left out is its skeleton
(`sift`). There is none if a literal is not closed, or has the end of a line in it. The brackets of
a program are those of its skeleton (`nest`).

What stands for a number, name or payload in a program is calm: it stays in its line, closes the
brackets that it opens, and has no minus sign next to another one or at its end. -/

namespace PlatformGame.Script

open Text

/-! ## Leaving out literals -/

inductive Mode
  | code
  | quoted (q : Quote)
  | escaped (q : Quote)

variable {cs ds st xs ys st' : List Char} {c : Char} {m m' m'' : Mode}

def isLineEnd (c : Char) : Bool := c == '\n' || c == '\r'

/-- Where the reading stands after a character. Lines may not end inside a literal. -/
def Mode.next : Mode → Char → Option Mode
  | .code, c =>
    if c = '\'' then some (.quoted .single) else if c = '"' then some (.quoted .double)
    else some .code
  | .quoted q, c =>
    if isLineEnd c then none else if c = q.char then some .code
    else if c = '\\' then some (.escaped q) else some (.quoted q)
  | .escaped q, c => if isLineEnd c then none else some (.quoted q)

/-- Whether a character is kept; the quotes of a literal are. -/
def Mode.keeps : Mode → Char → Bool
  | .code, _ => true
  | .quoted q, c => c == q.char
  | .escaped _, _ => false

/-- The characters of a text that stand outside of literals. -/
def sift : Mode → List Char → Option (Mode × List Char)
  | m, [] => some (m, [])
  | m, c :: cs => (m.next c).bind fun m' =>
    (sift m' cs).map fun r => (r.1, if m.keeps c then c :: r.2 else r.2)

theorem sift_cons (hc : m.next c = some m') (hcs : sift m' cs = some (m'', xs)) :
    sift m (c :: cs) = some (m'', if m.keeps c then c :: xs else xs) := by
  rw [sift, hc, Option.bind_some, hcs, Option.map_some]

theorem sift_cons_iff : sift m (c :: cs) = some (m'', ys) ↔ ∃ m' xs, m.next c = some m' ∧
      sift m' cs = some (m'', xs) ∧ ys = if m.keeps c then c :: xs else xs := by
  constructor
  · intro h
    rw [sift] at h
    obtain ⟨m', hm', h⟩ := Option.bind_eq_some_iff.1 h
    obtain ⟨r, hr, h⟩ := Option.map_eq_some_iff.1 h
    cases h
    exact ⟨m', r.2, hm', hr, rfl⟩
  · rintro ⟨m', xs, hm', hxs, rfl⟩
    exact sift_cons hm' hxs

theorem sift_append (hc : sift m cs = some (m', xs)) (hd : sift m' ds = some (m'', ys)) :
    sift m (cs ++ ds) = some (m'', xs ++ ys) := by
  induction cs generalizing m xs with
  | nil =>
    cases hc
    exact hd
  | cons c cs ih =>
    obtain ⟨m₁, zs, hm₁, hzs, rfl⟩ := sift_cons_iff.1 hc
    rw [List.cons_append, sift_cons hm₁ (ih hzs)]
    split <;> rfl

theorem sift_append_iff :
    sift m (cs ++ ds) = some (m'', zs) ↔ ∃ m' xs ys, sift m cs = some (m', xs) ∧
      sift m' ds = some (m'', ys) ∧ zs = xs ++ ys := by
  constructor
  · intro h
    induction cs generalizing m zs with
    | nil => exact ⟨m, [], zs, rfl, h, rfl⟩
    | cons c cs ih =>
      obtain ⟨m₁, us, hm₁, hus, rfl⟩ := sift_cons_iff.1 h
      obtain ⟨m', xs, ys, hxs, hys, rfl⟩ := ih hus
      refine ⟨m', _, ys, sift_cons hm₁ hxs, hys, ?_⟩
      split <;> rfl
  · rintro ⟨m', xs, ys, hxs, hys, rfl⟩
    exact sift_append hxs hys

/-- Text without quotes is kept as it is. -/
theorem sift_code (h : ∀ c ∈ cs, c ≠ '\'' ∧ c ≠ '"') : sift .code cs = some (.code, cs) := by
  induction cs with
  | nil => rfl
  | cons c cs ih =>
    rw [List.forall_mem_cons] at h
    have hnext : Mode.code.next c = some .code := by simp [Mode.next, h.1]
    exact sift_cons hnext (ih h.2)

/-- A newline is never left out. -/
theorem newline_notMem_of_sift (h : sift m cs = some (m', xs)) (hxs : '\n' ∉ xs) : '\n' ∉ cs := by
  induction cs generalizing m xs with
  | nil => exact List.not_mem_nil
  | cons c cs ih =>
    obtain ⟨m₁, ys, hm₁, hys, rfl⟩ := sift_cons_iff.1 h
    have hcs : '\n' ∉ cs := ih hys fun hmem => hxs (by split <;> simp [hmem])
    refine List.not_mem_cons_of_ne_of_not_mem ?_ hcs
    rintro rfl
    cases m with
    | code => exact hxs List.mem_cons_self
    | quoted | escaped => cases hm₁

/-! ## Brackets -/

def isOpening (c : Char) : Bool := c == '(' || c == '[' || c == '{'

/-- The bracket that a closing one ends. -/
def opening? (c : Char) : Option Char :=
  if c = ')' then some '('
  else if c = ']' then some '['
  else if c = '}' then some '{' else none

/-- The open brackets after a character, the innermost first. -/
def bracket (st : List Char) (c : Char) : Option (List Char) :=
  if isOpening c then some (c :: st)
  else match opening? c with
    | none => some st
    | some o => if st.head? = some o then some st.tail else none

def nest (st : List Char) : List Char → Option (List Char)
  | [] => some st
  | c :: cs => (bracket st c).bind fun st' => nest st' cs

theorem nest_append (h : nest st xs = some st') (ys : List Char) :
    nest st (xs ++ ys) = nest st' ys := by
  induction xs generalizing st with
  | nil =>
    cases h
    rfl
  | cons c xs ih =>
    obtain ⟨st₁, hst₁, h⟩ := Option.bind_eq_some_iff.1 h
    rw [List.cons_append, nest, hst₁, Option.bind_some, ih h]

theorem nest_append_iff :
    nest st (xs ++ ys) = some st' ↔ ∃ st₁, nest st xs = some st₁ ∧ nest st₁ ys = some st' := by
  constructor
  · intro h
    induction xs generalizing st with
    | nil => exact ⟨st, rfl, h⟩
    | cons c xs ih =>
      obtain ⟨st₂, hst₂, h⟩ := Option.bind_eq_some_iff.1 h
      obtain ⟨st₁, hst₁, h⟩ := ih h
      exact ⟨st₁, Option.bind_eq_some_iff.2 ⟨st₂, hst₂, hst₁⟩, h⟩
  · rintro ⟨st₁, hst₁, h⟩
    rw [nest_append hst₁, h]

/-- Brackets further out are not touched. -/
theorem bracket_frame (h : bracket st c = some st') (outer : List Char) :
    bracket (st ++ outer) c = some (st' ++ outer) := by
  unfold bracket at h ⊢
  split
  · next hopen =>
    rw [if_pos hopen] at h
    cases h
    rfl
  · next hopen =>
    rw [if_neg hopen] at h
    split
    · next hnone =>
      rw [hnone] at h
      cases h
      rfl
    · next o ho =>
      simp only [ho] at h
      split at h
      · next hhead =>
        cases h
        obtain ⟨st, rfl⟩ := List.head?_eq_some_iff.1 hhead
        exact if_pos rfl
      · cases h

theorem nest_frame (h : nest st xs = some st') (outer : List Char) :
    nest (st ++ outer) xs = some (st' ++ outer) := by
  induction xs generalizing st with
  | nil =>
    cases h
    rfl
  | cons c xs ih =>
    obtain ⟨st₁, hst₁, h⟩ := Option.bind_eq_some_iff.1 h
    rw [nest, bracket_frame hst₁ outer, Option.bind_some, ih h]

/-! ## Calm text -/

/-- All brackets are closed, no minus sign is doubled or last, and no line ends. -/
structure Calm (xs : List Char) : Prop where
  nest_nil : nest [] xs = some []
  undoubled : Undoubled xs
  last : xs.getLast? ≠ some '-'
  newline_notMem : '\n' ∉ xs

namespace Calm

theorem nest_eq (h : Calm xs) (st : List Char) : nest st xs = some st :=
  nest_frame h.nest_nil st

theorem append (hx : Calm xs) (hy : Calm ys) : Calm (xs ++ ys) where
  nest_nil := by rw [nest_append hx.nest_nil, hy.nest_nil]
  undoubled := hx.undoubled.append hy.undoubled (.inl hx.last)
  last := by
    cases ys with
    | nil =>
      rw [List.append_nil]
      exact hx.last
    | cons y ys =>
      rw [List.getLast?_append_of_ne_nil _ (List.cons_ne_nil y ys)]
      exact hy.last
  newline_notMem := List.not_mem_append hx.newline_notMem hy.newline_notMem

/-- Brackets around calm text. -/
theorem enclose (h : Calm xs) (hoc : o = '[' ∧ c = ']' ∨ o = '{' ∧ c = '}') :
    Calm (o :: (xs ++ [c])) := by
  have hminus : o ≠ '-' ∧ c ≠ '-' := by
    rcases hoc with ⟨rfl, rfl⟩ | ⟨rfl, rfl⟩ <;> decide
  have hnewline : '\n' ≠ o ∧ '\n' ≠ c := by
    rcases hoc with ⟨rfl, rfl⟩ | ⟨rfl, rfl⟩ <;> decide
  have hlast : Undoubled (xs ++ [c]) := h.undoubled.append (List.isChain_singleton c) (.inl h.last)
  refine ⟨?_, List.isChain_cons.2 ⟨fun _ _ hd => hminus.1 hd.1, hlast⟩, ?_,
    by simp [h.newline_notMem, hnewline]⟩
  · rcases hoc with ⟨rfl, rfl⟩ | ⟨rfl, rfl⟩ <;>
    · change nest [_] (xs ++ [_]) = _
      rw [nest_append (h.nest_eq _)]
      rfl
  · rw [← List.cons_append, List.getLast?_append_of_ne_nil _ (List.cons_ne_nil c [])]
    simpa using hminus.2

end Calm

/-- The quotes and brackets. -/
def special : List Char := ['\'', '"', '(', '[', '{', ')', ']', '}']

/-- The characters of a class of which none is listed. -/
theorem notMem_of_all {f : Char → Bool} (hf : (cs.all fun c => !f c) = true) (hc : f c = true) :
    c ∉ cs := by
  intro hmem
  have := List.all_eq_true.1 hf c hmem
  simp [hc] at this

theorem sift_of_notMem_special (h : ∀ c ∈ cs, c ∉ special) : sift .code cs = some (.code, cs) := by
  refine sift_code fun c hc => ⟨?_, ?_⟩
  · rintro rfl
    exact h _ hc (by decide)
  · rintro rfl
    exact h _ hc (by decide)

theorem nest_of_notMem_special (h : ∀ c ∈ xs, c ∉ special) (st : List Char) :
    nest st xs = some st := by
  induction xs with
  | nil => rfl
  | cons c xs ih =>
    rw [List.forall_mem_cons] at h
    have hc : bracket st c = some st := by
      have hne := h.1
      simp only [special, List.mem_cons, List.not_mem_nil, or_false, not_or] at hne
      simp [bracket, isOpening, opening?, hne]
    rw [nest, hc, Option.bind_some, ih h.2]

/-- A text whose skeleton is calm. -/
def CalmText (cs : List Char) : Prop := ∃ xs, sift .code cs = some (.code, xs) ∧ Calm xs

namespace CalmText

theorem append (hc : CalmText cs) (hd : CalmText ds) : CalmText (cs ++ ds) := by
  obtain ⟨xs, hxs, hx⟩ := hc
  obtain ⟨ys, hys, hy⟩ := hd
  exact ⟨xs ++ ys, sift_append hxs hys, hx.append hy⟩

/-- Text without quotes, brackets and newlines. -/
theorem of_undoubled (h : ∀ c ∈ cs, c ∉ '\n' :: special) (hu : Undoubled cs)
    (hlast : cs.getLast? ≠ some '-') : CalmText cs := by
  have hspecial : ∀ c ∈ cs, c ∉ special := fun c hc => List.not_mem_of_not_mem_cons (h c hc)
  exact ⟨cs, sift_of_notMem_special hspecial, nest_of_notMem_special hspecial [], hu, hlast,
    fun hmem => h _ hmem List.mem_cons_self⟩

/-- Text without quotes, brackets, newlines and minus signs. -/
theorem of_notMem (h : ∀ c ∈ cs, c ∉ '\n' :: special) (hminus : '-' ∉ cs) : CalmText cs :=
  .of_undoubled h (.of_notMem hminus) fun hlast => hminus (List.mem_of_getLast? hlast)

theorem of_all (h : (cs.all fun c => c ∉ '\n' :: special ∧ c ≠ '-') = true) : CalmText cs := by
  have hcs : ∀ c ∈ cs, c ∉ '\n' :: special ∧ c ≠ '-' := fun c hc =>
    of_decide_eq_true (List.all_eq_true.1 h c hc)
  exact .of_notMem (fun c hc => (hcs c hc).1) fun hmem => (hcs _ hmem).2 rfl

theorem intercalate (h : ∀ t ∈ ts, CalmText t.toList) : CalmText (", ".intercalate ts).toList := by
  have hcomma : CalmText [',', ' '] := .of_all rfl
  induction ts with
  | nil => exact .of_all rfl
  | cons t ts ih =>
    rw [List.forall_mem_cons] at h
    cases ts with
    | nil => exact h.1
    | cons u us =>
      rw [String.intercalate_cons_cons, String.toList_append, String.toList_append,
        String.toList_ofList]
      exact (h.1.append hcomma).append (ih h.2)

theorem enclose (h : CalmText cs) (hoc : o = '[' ∧ c = ']' ∨ o = '{' ∧ c = '}') :
    CalmText (o :: (cs ++ [c])) := by
  obtain ⟨xs, hxs, hx⟩ := h
  have hplain : (o ≠ '\'' ∧ o ≠ '"') ∧ c ≠ '\'' ∧ c ≠ '"' := by
    rcases hoc with ⟨rfl, rfl⟩ | ⟨rfl, rfl⟩ <;> decide
  have hopen : sift .code [o] = some (.code, [o]) :=
    sift_code (List.forall_mem_singleton.2 hplain.1)
  have hclose : sift .code [c] = some (.code, [c]) :=
    sift_code (List.forall_mem_singleton.2 hplain.2)
  exact ⟨_, sift_append hopen (sift_append hxs hclose), hx.enclose hoc⟩

end CalmText

/-! ## Literals -/

/-- Inside a literal nothing is kept. -/
theorem sift_quoted (h : ∀ c ∈ cs, isLineEnd c = false ∧ c ≠ q.char ∧ c ≠ '\\') :
    sift (.quoted q) cs = some (.quoted q, []) := by
  induction cs with
  | nil => rfl
  | cons c cs ih =>
    rw [List.forall_mem_cons] at h
    obtain ⟨⟨hline, hquote, hslash⟩, hcs⟩ := h
    have hnext : (Mode.quoted q).next c = some (.quoted q) := by
      simp [Mode.next, hline, hquote, hslash]
    rw [sift_cons hnext (ih hcs), Mode.keeps, beq_eq_false_iff_ne.2 hquote]
    rfl

theorem sift_escapeScriptChar (c : Char) :
    sift (.quoted .single) (escapeScriptChar c) = some (.quoted .single, []) := by
  by_cases hslash : c = '\\'
  · subst hslash
    rfl
  by_cases hquote : c = '\''
  · subst hquote
    rfl
  by_cases hline : c = '\n'
  · subst hline
    rfl
  by_cases hreturn : c = '\r'
  · subst hreturn
    rfl
  rw [escapeScriptChar, if_neg hslash, if_neg hquote, if_neg hline, if_neg hreturn]
  split
  · rfl
  · refine sift_quoted (List.forall_mem_singleton.2 ⟨?_, hquote, hslash⟩)
    simp [isLineEnd, hline, hreturn]

theorem sift_literalBody (cs : List Char) :
    sift (.quoted .single) (literalBody cs) = some (.quoted .single, []) := by
  fun_induction literalBody cs with
  | case1 => rfl
  | case2 cs ih =>
    have htag : sift (.quoted .single) ['<', '\\', '/'] = some (.quoted .single, []) := rfl
    exact sift_append htag ih
  | case3 c cs _ ih => exact sift_append (sift_escapeScriptChar c) ih

/-- Of a literal only the quotes are left. -/
theorem sift_scriptLiteral (s : String) :
    sift .code (scriptLiteral s).toList = some (.code, ['\'', '\'']) := by
  have hopen : sift .code ['\''] = some (.quoted .single, ['\'']) := rfl
  have hclose : sift (.quoted .single) ['\''] = some (.code, ['\'']) := rfl
  rw [toList_scriptLiteral]
  exact sift_append hopen (sift_append (sift_literalBody s.toList) hclose)

/-! ## Numbers, names and payloads -/

theorem calmText_of_magnitude (h : ∀ c ∈ cs, isNumeral c = true)
    (hcs : cs = signText negative ++ ds) (hm : Magnitude ds) : CalmText cs := by
  refine .of_undoubled (fun c hc => notMem_of_all rfl (h c hc)) ?_ ?_
  · rw [hcs]
    refine Undoubled.append ?_ hm.undoubled (.inr hm.head)
    cases negative
    · exact .nil
    · exact List.isChain_singleton _
  · rw [hcs, List.getLast?_append_of_ne_nil _ hm.ne_nil]
    exact hm.last

theorem calmText_literal {n : Number} {s : String} (h : n.literal = .ok s) : CalmText s.toList := by
  obtain ⟨cs, hcs, hm⟩ := Number.exists_magnitude h
  exact calmText_of_magnitude (Number.numerals_literal h) hcs hm

theorem IsName.calmText (h : IsName s) : CalmText s.toList := by
  refine .of_notMem (fun c hc => notMem_of_all rfl (h.chars c hc)) fun hmem => ?_
  exact absurd (h.chars _ hmem) (by decide)

end PlatformGame.Script

namespace PlatformGame.Json

open Script

theorem sift_unit (n : Nat) : sift (.quoted .double) (unit n) = some (.quoted .double, []) := by
  have hopen : sift (.quoted .double) ['\\', 'u'] = some (.quoted .double, []) := rfl
  refine sift_append hopen (sift_quoted fun c hc => ?_)
  have hall : ∀ m < 16, isLineEnd (Text.hexDigit m) = false ∧ Text.hexDigit m ≠ '"' ∧
      Text.hexDigit m ≠ '\\' := by decide
  obtain ⟨m, hm, rfl⟩ := exists_hexDigit_of_mem (k := 4) (n := n) hc
  exact hall m hm

theorem sift_escapeChar (c : Char) :
    sift (.quoted .double) (escapeChar c) = some (.quoted .double, []) := by
  by_cases hquote : c = '"'
  · subst hquote
    rfl
  by_cases hslash : c = '\\'
  · subst hslash
    rfl
  by_cases hline : c = '\n'
  · subst hline
    rfl
  by_cases hreturn : c = '\r'
  · subst hreturn
    rfl
  rw [escapeChar, if_neg hquote, if_neg hslash, if_neg hline, if_neg hreturn]
  dsimp only
  split_ifs
  -- the control characters with a letter of their own
  iterate 3 rfl
  · refine sift_quoted (List.forall_mem_singleton.2 ⟨?_, hquote, hslash⟩)
    simp [isLineEnd, hline, hreturn]
  · exact sift_unit _
  · exact sift_append (sift_unit _) (sift_unit _)

theorem calmText_textLiteral (s : String) : CalmText (textLiteral s).toList := by
  have hbody (cs : List Char) :
      sift (.quoted .double) (cs.flatMap escapeChar) = some (.quoted .double, []) := by
    induction cs with
    | nil => rfl
    | cons c cs ih => exact sift_append (sift_escapeChar c) ih
  have hopen : sift .code ['"'] = some (.quoted .double, ['"']) := rfl
  have hclose : sift (.quoted .double) ['"'] = some (.code, ['"']) := rfl
  rw [textLiteral, String.toList_ofList]
  refine ⟨['"', '"'], sift_append hopen (sift_append (hbody s.toList) hclose), rfl, ?_, by decide,
    by decide⟩
  exact .of_notMem (by decide)

theorem calmText_compact (h : compact j = .ok s) : CalmText s.toList := by
  have hcalm : Carried (fun _ => True) CalmText := by
    refine ⟨.of_all rfl, ⟨.of_all rfl, .of_all rfl⟩, fun {_ _} h => ?_,
      fun _ => calmText_textLiteral _, fun _ ht => ?_,
      fun hoc hts => (CalmText.intercalate hts).enclose hoc⟩
    · obtain ⟨negative, cs, hcs, hm⟩ := exists_magnitude h
      exact calmText_of_magnitude (numerals_numberLiteral h) hcs hm
    · exact (calmText_textLiteral _).append (.append (.of_all rfl) ht)
  exact hcalm.compact (fun _ _ => trivial) h

end PlatformGame.Json
