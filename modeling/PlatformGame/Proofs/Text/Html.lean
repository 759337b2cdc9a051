import PlatformGame.Proofs.Text.Script
import PlatformGame.Source.Lexeme

/-! # Pages as texts

What a page is read for without knowing how it was made: its closing tags (`closingTags`), the text
between two marks (`textBetween`), and the text that is meant where characters are given by
references (`unescapeHtml`). Literals of a program hold no closing tag (`unclosed_scriptLiteral`),
and what is escaped is meant (`unescapeHtml_escapeHtml`). -/

namespace PlatformGame.Text

variable {as bs cs ms name text : List Char}

/-! ## Closing tags -/

/-- What stands at each `</` of a text, up to the next `>`. -/
def closingTags : List Char → List String
  | [] => []
  | c :: cs =>
    if c = '<' ∧ cs.head? = some '/' then
      String.ofList (c :: (cs.takeWhile (· ≠ '>') ++ (cs.dropWhile (· ≠ '>')).take 1)) ::
        closingTags cs
    else closingTags cs

theorem closingTags_cons {c : Char} (h : c = '<' → cs.head? ≠ some '/') :
    closingTags (c :: cs) = closingTags cs := by
  rw [closingTags, if_neg fun hc => h hc.1 hc.2]

theorem head?_of_closingTags_cons {c : Char} (h : closingTags (c :: cs) = []) :
    (c = '<' → cs.head? ≠ some '/') ∧ closingTags cs = [] := by
  rw [closingTags] at h
  split at h
  · cases h
  · next hc => exact ⟨fun hlt hslash => hc ⟨hlt, hslash⟩, h⟩

theorem closingTags_append (h : closingTags as = []) (hbs : bs.head? ≠ some '/') :
    closingTags (as ++ bs) = closingTags bs := by
  induction as with
  | nil => rfl
  | cons c as ih =>
    obtain ⟨hc, has⟩ := head?_of_closingTags_cons h
    rw [List.cons_append, closingTags_cons, ih has]
    intro hlt
    cases as with
    | nil => exact hbs
    | cons d as => exact hc hlt

theorem closingTags_of_append (h : closingTags (as ++ bs) = []) :
    closingTags as = [] ∧ closingTags bs = [] := by
  induction as with
  | nil => exact ⟨rfl, h⟩
  | cons c as ih =>
    obtain ⟨hc, h⟩ := head?_of_closingTags_cons h
    obtain ⟨has, hbs⟩ := ih h
    refine ⟨?_, hbs⟩
    rw [closingTags_cons, has]
    intro hlt hslash
    cases as with
    | nil => cases hslash
    | cons d as => exact hc hlt hslash

theorem closingTags_of_lt_notMem_append (h : '<' ∉ as) (bs : List Char) :
    closingTags (as ++ bs) = closingTags bs := by
  induction as with
  | nil => rfl
  | cons c as ih =>
    obtain ⟨hc, has⟩ := not_or.1 (mt List.mem_cons.2 h)
    rw [List.cons_append, closingTags_cons fun heq => absurd heq.symm hc, ih has]

/-- In no way a closing tag begins in the text, whatever stands in front of it. -/
structure Unclosed (cs : List Char) : Prop where
  tags : closingTags cs = []
  head : cs.head? ≠ some '/'

namespace Unclosed

theorem nil : Unclosed [] := ⟨rfl, by simp⟩

theorem append (ha : Unclosed as) (hb : Unclosed bs) : Unclosed (as ++ bs) where
  tags := (closingTags_append ha.tags hb.head).trans hb.tags
  head := by
    cases as with
    | nil => exact hb.head
    | cons a as => exact ha.head

end Unclosed

theorem forall_mem_intercalate {P : Char → Prop} {sep : String} {ts : List String}
    (hsep : ∀ c ∈ sep.toList, P c) (h : ∀ t ∈ ts, ∀ c ∈ t.toList, P c) :
    ∀ c ∈ (sep.intercalate ts).toList, P c := by
  induction ts with
  | nil => exact List.forall_mem_nil _
  | cons t ts ih =>
    rw [List.forall_mem_cons] at h
    cases ts with
    | nil => exact h.1
    | cons u us =>
      rw [String.intercalate_cons_cons, String.toList_append, String.toList_append,
        List.forall_mem_append, List.forall_mem_append]
      exact ⟨⟨h.1, hsep⟩, ih h.2⟩

/-- Text without the characters of which closing tags are made. -/
def Plain (cs : List Char) : Prop := ∀ c ∈ cs, c ≠ '<' ∧ c ≠ '/'

instance (cs : List Char) : Decidable (Plain cs) :=
  decidable_of_iff (cs.all fun c => c != '<' && c != '/') (by simp [Plain])

namespace Plain

theorem append (ha : Plain as) (hb : Plain bs) : Plain (as ++ bs) :=
  List.forall_mem_append.2 ⟨ha, hb⟩

theorem flatMap {f : α → List Char} {as : List α} (h : ∀ a ∈ as, Plain (f a)) :
    Plain (as.flatMap f) := by
  intro c hc
  obtain ⟨a, ha, hc⟩ := List.mem_flatMap.1 hc
  exact h a ha c hc

/-- Text of characters of some class, to which those of closing tags do not belong. -/
theorem of_forall {p : Char → Bool} (hlt : p '<' = false) (hslash : p '/' = false)
    (h : ∀ c ∈ cs, p c = true) : Plain cs := by
  intro c hc
  constructor
  · rintro rfl
    exact Bool.false_ne_true (hlt.symm.trans (h _ hc))
  · rintro rfl
    exact Bool.false_ne_true (hslash.symm.trans (h _ hc))

theorem toList_ofList (h : Plain cs) : Plain (String.ofList cs).toList := by
  rwa [String.toList_ofList]

theorem intercalate {ts : List String} (h : ∀ t ∈ ts, Plain t.toList) :
    Plain (", ".intercalate ts).toList := by
  have hcomma : Plain ", ".toList := toList_ofList (by decide)
  exact forall_mem_intercalate hcomma h

theorem unclosed (h : Plain cs) : Unclosed cs where
  tags := List.append_nil cs ▸ closingTags_of_lt_notMem_append (fun hlt => (h _ hlt).1 rfl) []
  head := fun hhead => (h _ (List.mem_of_mem_head? hhead)).2 rfl

end Plain

theorem eq_of_head?_literalBody {ds : List Char}
    (h : (literalBody cs ++ '\'' :: ds).head? = some '/') : ∃ cs', cs = '/' :: cs' := by
  revert h
  fun_cases literalBody cs with
  | case1 => simp
  | case2 => simp
  | case3 c cs =>
    rw [List.append_assoc, List.head?_append_of_ne_nil _ (escapeScriptChar_ne_nil c)]
    exact fun h => ⟨cs, by rw [eq_of_head?_escapeScriptChar h]⟩

theorem closingTags_literalBody (cs ds : List Char) :
    closingTags (literalBody cs ++ '\'' :: ds) = closingTags ds := by
  fun_induction literalBody cs with
  | case1 => exact closingTags_cons (by simp)
  | case2 cs ih =>
    rw [List.cons_append, closingTags_cons (by simp)]
    have hslash : '<' ∉ ['\\', '/'] := by decide
    exact (closingTags_of_lt_notMem_append hslash _).trans ih
  | case3 c cs hne ih =>
    rw [List.append_assoc]
    by_cases hc : c = '<'
    · subst hc
      refine (closingTags_cons fun _ hslash => ?_).trans ih
      obtain ⟨cs', hcs⟩ := eq_of_head?_literalBody hslash
      exact hne cs' rfl hcs
    · rw [closingTags_of_lt_notMem_append (lt_notMem_escapeScriptChar hc), ih]

theorem unclosed_scriptLiteral (s : String) : Unclosed (scriptLiteral s).toList := by
  rw [toList_scriptLiteral]
  refine ⟨?_, by simp⟩
  rw [closingTags_cons (by simp)]
  exact closingTags_literalBody s.toList []

/-! ## Text between marks -/

/-- What stands after the first occurrence of a mark. -/
def textAfter (mark : List Char) : List Char → Option (List Char)
  | [] => none
  | c :: cs =>
    if mark.isPrefixOf (c :: cs) then some ((c :: cs).drop mark.length) else textAfter mark cs

/-- What stands before the first occurrence of a mark. -/
def textBefore (mark : List Char) : List Char → List Char
  | [] => []
  | c :: cs => if mark.isPrefixOf (c :: cs) then [] else c :: textBefore mark cs

/-- What stands between the first occurrence of a mark and the next one of another. -/
def textBetween (opening closing : List Char) (cs : List Char) : Option (List Char) :=
  (textAfter opening cs).map (textBefore closing)

theorem textAfter_append {m : Char} (h : m ∉ as) (bs : List Char) :
    textAfter (m :: ms) (as ++ bs) = textAfter (m :: ms) bs := by
  induction as with
  | nil => rfl
  | cons a as ih =>
    obtain ⟨ha, has⟩ := not_or.1 (mt List.mem_cons.2 h)
    rw [List.cons_append, textAfter, if_neg (by simp [ha]), ih has]

theorem textBefore_append {m : Char} (h : m ∉ as) (bs : List Char) :
    textBefore (m :: ms) (as ++ bs) = as ++ textBefore (m :: ms) bs := by
  induction as with
  | nil => rfl
  | cons a as ih =>
    obtain ⟨ha, has⟩ := not_or.1 (mt List.mem_cons.2 h)
    rw [List.cons_append, textBefore, if_neg (by simp [ha]), ih has, List.cons_append]

/-- The mark of a closing tag does not begin in a text without one. -/
theorem textBefore_closing {rest : List Char} (h : closingTags cs = [])
    (hrest : rest.head? ≠ some '/') :
    textBefore ('<' :: '/' :: ms) (cs ++ rest) = cs ++ textBefore ('<' :: '/' :: ms) rest := by
  induction cs with
  | nil => rfl
  | cons c cs ih =>
    obtain ⟨hc, hcs⟩ := head?_of_closingTags_cons h
    have hnext : c = '<' → (cs ++ rest).head? ≠ some '/' := by
      intro hlt
      cases cs with
      | nil => exact hrest
      | cons d cs => exact hc hlt
    rw [List.cons_append, textBefore, if_neg, ih hcs, List.cons_append]
    intro hmark
    cases htail : cs ++ rest with
    | nil => simp [htail] at hmark
    | cons d ds =>
      simp only [htail, List.isPrefixOf_cons_cons, Bool.and_eq_true, beq_iff_eq] at hmark
      exact hnext hmark.1.symm (by rw [htail, List.head?_cons, hmark.2.1])

/-! ## Character references -/

/-- What references stand for, by name (with the semicolon, where there is one) and by number. There
are many; these are the ones in which pages are written here. -/
structure References where
  named : List Char → Option (List Char)
  numbered : Nat → List Char
  named_amp : named ['a', 'm', 'p', ';'] = some ['&']
  named_lt : named ['l', 't', ';'] = some ['<']
  named_gt : named ['g', 't', ';'] = some ['>']
  named_quot : named ['q', 'u', 'o', 't', ';'] = some ['"']
  numbered_apostrophe : numbered 0x27 = ['\'']

/-- A table of just these. -/
def References.basic : References where
  named
    | ['a', 'm', 'p', ';'] => some ['&']
    | ['l', 't', ';'] => some ['<']
    | ['g', 't', ';'] => some ['>']
    | ['q', 'u', 'o', 't', ';'] => some ['"']
    | _ => none
  numbered n := [Char.ofNat n]
  named_amp := rfl
  named_lt := rfl
  named_gt := rfl
  named_quot := rfl
  numbered_apostrophe := rfl

/-- The part in front, with a semicolon that follows it. -/
def withSemicolon (part cs : List Char) : List Char :=
  if (cs.drop part.length).head? = some ';' then part ++ [';'] else part

def hexValue (c : Char) : Nat :=
  if c.isDigit then c.toNat - 48 else if c.isLower then c.toNat - 87 else c.toNat - 55

def isReferenceChar (c : Char) : Bool := !(['\t', '\n', '\x0c', ' ', '<', '&', '#', ';'].contains c)

namespace References

variable (R : References)

/-- What a name stands for; a name that is not in the table begins with the longest one that is. -/
def meaning (name : List Char) : List Char :=
  let shorter := ((List.range name.length).filter (2 ≤ ·)).reverse.findSome? fun n =>
    (R.named (name.take n)).map (· ++ name.drop n)
  ((R.named name).or shorter).getD ('&' :: name)

/-- The length of the number at the front of a text, and what it stands for. -/
def readNumber? (base : Nat) (isDigit : Char → Bool) (cs : List Char) : Option (Nat × List Char) :=
  let ds := cs.takeWhile isDigit
  if ds.isEmpty then none
  else
    let n := ds.foldl (fun n d => n * base + hexValue d) 0
    some ((withSemicolon ds cs).length, R.numbered n)

/-- The length of a reference that stands after an ampersand, and what it stands for. -/
def read? : List Char → Option (Nat × List Char)
  | '#' :: 'x' :: cs | '#' :: 'X' :: cs =>
    (R.readNumber? 16 Source.isHex cs).map fun (n, text) => (n + 2, text)
  | '#' :: cs => (R.readNumber? 10 Char.isDigit cs).map fun (n, text) => (n + 1, text)
  | cs =>
    let name := withSemicolon ((cs.takeWhile isReferenceChar).take 32) cs
    if name.isEmpty then none else some (name.length, R.meaning name)

end References

def unescapeHtml (R : References) : List Char → List Char
  | [] => []
  | c :: cs =>
    if c = '&' then
      match R.read? cs with
      | some (n, text) => text ++ unescapeHtml R (cs.drop n)
      | none => '&' :: unescapeHtml R cs
    else c :: unescapeHtml R cs
termination_by cs => cs.length
decreasing_by all_goals simp; try omega

variable (R : References)

theorem References.meaning_of_named (h : R.named name = some text) : R.meaning name = text := by
  rw [meaning, h]
  rfl

theorem unescapeHtml_reference (h : R.read? (name ++ cs) = some (name.length, text)) :
    unescapeHtml R ('&' :: (name ++ cs)) = text ++ unescapeHtml R cs := by
  rw [unescapeHtml, if_pos rfl, h]
  dsimp only
  rw [List.drop_left]

theorem unescapeHtml_named (h : R.named name = some text)
    (hread : R.read? (name ++ cs) = some (name.length, R.meaning name)) :
    unescapeHtml R ('&' :: (name ++ cs)) = text ++ unescapeHtml R cs := by
  rw [R.meaning_of_named h] at hread
  exact unescapeHtml_reference R hread

theorem unescapeHtml_escapeHtmlChar (c : Char) (cs : List Char) :
    unescapeHtml R (escapeHtmlChar c ++ cs) = c :: unescapeHtml R cs := by
  unfold escapeHtmlChar
  split_ifs with hamp hlt hgt hquot hapostrophe
  · rw [hamp, String.toList_ofList]
    exact unescapeHtml_named R R.named_amp rfl
  · rw [hlt, String.toList_ofList]
    exact unescapeHtml_named R R.named_lt rfl
  · rw [hgt, String.toList_ofList]
    exact unescapeHtml_named R R.named_gt rfl
  · rw [hquot, String.toList_ofList]
    exact unescapeHtml_named R R.named_quot rfl
  · rw [hapostrophe, String.toList_ofList]
    have hread : R.read? (['#', 'x', '2', '7', ';'] ++ cs) = some (5, R.numbered 0x27) := rfl
    rw [R.numbered_apostrophe] at hread
    exact unescapeHtml_reference R hread
  · rw [List.singleton_append, unescapeHtml, if_neg hamp]

theorem notMem_escapeHtml {c : Char} (h : c ∈ (escapeHtml s).toList) :
    c ∉ ['<', '>', '"', '\''] := by
  rw [escapeHtml, String.toList_ofList] at h
  obtain ⟨d, _, hc⟩ := List.mem_flatMap.1 h
  unfold escapeHtmlChar at hc
  split_ifs at hc
  case neg =>
    rw [List.mem_singleton.1 hc]
    simp [*]
  all_goals
    rw [String.toList_ofList] at hc
    grind

theorem unescapeHtml_escapeHtml (s : String) :
    unescapeHtml R (escapeHtml s).toList = s.toList := by
  rw [escapeHtml, String.toList_ofList]
  induction s.toList with
  | nil => rw [List.flatMap_nil, unescapeHtml]
  | cons c cs ih => rw [List.flatMap_cons, unescapeHtml_escapeHtmlChar, ih]

/-- A part of a page that ends neither a tag nor an attribute, and what it is meant to say. -/
structure Conveys (t : List Char) (s : String) : Prop where
  inert : ∀ c ∈ t, c ∉ ['<', '>', '"', '\'']
  meant : unescapeHtml R t = s.toList

theorem conveys_escapeHtml (s : String) : Conveys R (escapeHtml s).toList s :=
  ⟨fun _ => notMem_escapeHtml, unescapeHtml_escapeHtml R s⟩

end PlatformGame.Text
