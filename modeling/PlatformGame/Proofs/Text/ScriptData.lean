import PlatformGame.Proofs.Text.Html
import Mathlib.Data.List.Infix

/-! # Script elements as a browser reads them

A browser reads the text of a script element character by character until the closing tag of the
element. The text is plain at first; `<!--` makes it escaped, and a tag `<script>` in escaped text
makes it doubly escaped, where the closing tag of the element does not count. `ScriptState.step` is
one step of that reading.

Text is escaped exactly if `<!--` stands in it (`exists_isEscaped_iff`). Without it, the element
ends at its first closing tag (`scriptContent_append`). -/

namespace PlatformGame.Text

/-- How deep the text of a script element is escaped. -/
inductive Depth
  | plain | escaped | doubled
  deriving DecidableEq

/-- Where the reading of a script element is. -/
inductive ScriptState
  /-- In text, after as many dashes; in plain text, and beyond two, they are not counted. -/
  | text (depth : Depth) (dashes : Nat)
  /-- After `<`. -/
  | lessThan (depth : Depth)
  /-- After `</` and some letters. -/
  | endTag (depth : Depth) (name : List Char)
  /-- After `<!` in plain text, and perhaps a dash. -/
  | opening (dash : Bool)
  /-- After `<` and some letters in escaped text. -/
  | startTag (name : List Char)
  /-- After the closing tag of the element. -/
  | closed
  deriving DecidableEq

variable {st : ScriptState} {cs : List Char}

namespace ScriptState

def textStep (d : Depth) (dashes : Nat) (c : Char) : ScriptState :=
  if c = '<' then lessThan d
  else match d with
    | .plain => text .plain 0
    | d =>
      if c = '-' then text d (min (dashes + 1) 2)
      else if c = '>' ∧ dashes = 2 then text .plain 0
      else text d 0

/-- What ends the name of a tag. -/
def endsName (c : Char) : Bool := c ∈ ['\t', '\n', '\x0c', '\r', ' ', '/', '>']

def scriptName : List Char := ['s', 'c', 'r', 'i', 'p', 't']

def step : ScriptState → Char → ScriptState
  | text d dashes, c => textStep d dashes c
  | lessThan d, c =>
    if c = '/' then endTag d []
    else if d = .plain ∧ c = '!' then opening false
    else if d = .escaped ∧ c.isAlpha then startTag [c.toLower]
    else textStep d 0 c
  | endTag d name, c =>
    if c.isAlpha then endTag d (name ++ [c.toLower])
    else if name = scriptName ∧ endsName c then (if d = .doubled then text .escaped 0 else closed)
    else textStep d 0 c
  | opening dash, c =>
    if c = '-' then (if dash then text .escaped 2 else opening true) else textStep .plain 0 c
  | startTag name, c =>
    if c.isAlpha then startTag (name ++ [c.toLower])
    else if name = scriptName ∧ endsName c then text .doubled 0
    else textStep .escaped 0 c
  | closed, _ => closed

/-- Where the reading of an element starts. -/
def start : ScriptState := text .plain 0

def read (st : ScriptState) (cs : List Char) : ScriptState := cs.foldl step st

def isEscaped : ScriptState → Bool
  | text d _ | lessThan d | endTag d _ => d ≠ .plain
  | startTag _ => true
  | opening _ | closed => false

/-- Whether no closing tag has begun. -/
def isOpen : ScriptState → Bool
  | endTag _ _ | closed => false
  | _ => true

theorem read_append (st : ScriptState) (cs ds : List Char) :
    st.read (cs ++ ds) = (st.read cs).read ds :=
  List.foldl_append

end ScriptState

/-- What opens a comment. -/
def commentMark : List Char := ['<', '!', '-', '-']

open ScriptState

/-! ## Escaped text -/

/-- The part of the mark of a comment that has been read. -/
def ScriptState.pending : ScriptState → List Char
  | lessThan .plain => ['<']
  | opening dash => if dash then ['<', '!', '-'] else ['<', '!']
  | _ => []

theorem pending_textStep (d : Depth) (dashes : Nat) (c : Char) (cs : List Char) :
    (textStep d dashes c).pending <:+ cs ++ [c] := by
  unfold textStep
  split
  · next hc =>
    subst hc
    cases d with
    | plain => exact List.suffix_append cs _
    | escaped | doubled => exact List.nil_suffix
  · cases d with
    | plain => exact List.nil_suffix
    | escaped | doubled =>
      dsimp only
      split_ifs <;> exact List.nil_suffix

theorem isEscaped_textStep_plain (dashes : Nat) (c : Char) :
    (textStep .plain dashes c).isEscaped = false := by
  unfold textStep
  split <;> rfl

/-- One step out of plain text keeps track of the mark, and escapes at its end only. -/
theorem pending_step (h : st.isEscaped = false) (c : Char) :
    (st.step c).pending <:+ st.pending ++ [c] ∧
      ((st.step c).isEscaped = true → st.pending ++ [c] = commentMark) := by
  have htext (dashes : Nat) (cs : List Char) : (textStep .plain dashes c).pending <:+ cs ++ [c] ∧
      ((textStep .plain dashes c).isEscaped = true → cs ++ [c] = commentMark) :=
    ⟨pending_textStep .plain dashes c cs, by simp [isEscaped_textStep_plain]⟩
  cases st with
  | text d dashes =>
    obtain rfl : d = .plain := by simpa [isEscaped] using h
    exact htext dashes []
  | lessThan d =>
    obtain rfl : d = .plain := by simpa [isEscaped] using h
    rw [step]
    split_ifs with hslash hmark hletter
    · exact ⟨List.nil_suffix, nofun⟩
    · rw [hmark.2]
      exact ⟨List.suffix_refl _, nofun⟩
    · exact absurd hletter.1 (by decide)
    · exact htext 0 _
  | endTag d name =>
    obtain rfl : d = .plain := by simpa [isEscaped] using h
    rw [step]
    split_ifs with hletter hname hdepth
    · exact ⟨List.nil_suffix, nofun⟩
    · exact absurd hdepth (by decide)
    · exact ⟨List.nil_suffix, nofun⟩
    · exact htext 0 _
  | opening dash =>
    rw [step]
    split_ifs with hc hdash
    · subst hc hdash
      exact ⟨List.nil_suffix, fun _ => rfl⟩
    · rw [hc, Bool.eq_false_iff.2 hdash]
      exact ⟨List.suffix_refl _, nofun⟩
    · exact htext 0 _
  | startTag => cases h
  | closed => exact ⟨List.nil_suffix, nofun⟩

/-- Text is escaped only after the mark of a comment. -/
theorem commentMark_infix_of_isEscaped (h : st.isEscaped = false)
    (hread : (st.read cs).isEscaped = true) : commentMark <:+: st.pending ++ cs := by
  induction cs generalizing st with
  | nil => exact absurd (h.symm.trans hread) (by decide)
  | cons c cs ih =>
    obtain ⟨hsuffix, hmark⟩ := pending_step h c
    have happend : st.pending ++ c :: cs = st.pending ++ [c] ++ cs := by simp
    rw [happend]
    cases hstep : (st.step c).isEscaped with
    | true => exact ⟨[], cs, by rw [hmark hstep, List.nil_append]⟩
    | false =>
      obtain ⟨front, hfront⟩ := hsuffix
      refine (ih hstep hread).trans ⟨front, [], ?_⟩
      rw [← hfront, List.append_nil, List.append_assoc]

/-! ## Text without closing tags -/

/-- Only a less-than sign is followed by the name of a tag. -/
theorem textStep_eq_lessThan {d d' : Depth} {dashes : Nat} {c : Char}
    (h : textStep d dashes c = lessThan d') : c = '<' := by
  unfold textStep at h
  split at h
  · next hc => exact hc
  · split at h
    · cases h
    · split_ifs at h

theorem isOpen_textStep (d : Depth) (dashes : Nat) (c : Char) :
    (textStep d dashes c).isOpen = true := by
  unfold textStep
  split
  · rfl
  · split
    · rfl
    · split_ifs <;> rfl

/-- A step keeps clear of closing tags, unless it reads a slash after a less-than sign. -/
theorem isOpen_step (h : st.isOpen = true) {c : Char} (hc : ∀ d, st = lessThan d → c ≠ '/') :
    (st.step c).isOpen = true ∧ ∀ d, st.step c = lessThan d → c = '<' := by
  have htext (d : Depth) (dashes : Nat) : (textStep d dashes c).isOpen = true ∧
      ∀ d', textStep d dashes c = lessThan d' → c = '<' :=
    ⟨isOpen_textStep d dashes c, fun _ => textStep_eq_lessThan⟩
  cases st with
  | text d dashes => exact htext d dashes
  | lessThan d =>
    rw [step, if_neg (hc d rfl)]
    split_ifs
    · exact ⟨rfl, nofun⟩
    · exact ⟨rfl, nofun⟩
    · exact htext d 0
  | opening dash =>
    rw [step]
    split_ifs
    · exact ⟨rfl, nofun⟩
    · exact ⟨rfl, nofun⟩
    · exact htext .plain 0
  | startTag name =>
    rw [step]
    split_ifs
    · exact ⟨rfl, nofun⟩
    · exact ⟨rfl, nofun⟩
    · exact htext .escaped 0
  | endTag | closed => cases h

theorem isOpen_read (h : st.isOpen = true) (hhead : ∀ d, st = lessThan d → cs.head? ≠ some '/')
    (hcs : closingTags cs = []) : (st.read cs).isOpen = true := by
  induction cs generalizing st with
  | nil => exact h
  | cons c cs ih =>
    obtain ⟨hnext, hcs⟩ := head?_of_closingTags_cons hcs
    obtain ⟨hopen, hlt⟩ := isOpen_step h fun d hd hc => hhead d hd (congrArg some hc)
    exact ih hopen (fun d hd => hnext (hlt d hd)) hcs

/-- In plain text, whatever has been read of it, the mark of a comment escapes. -/
theorem isEscaped_read_commentMark (h : st.isEscaped = false) (hopen : st.isOpen = true) :
    (st.read commentMark).isEscaped = true := by
  have hlt : st.step '<' = lessThan .plain := by
    cases st with
    | text d dashes | lessThan d =>
      obtain rfl : d = .plain := by simpa [isEscaped] using h
      rfl
    | opening dash => rfl
    | startTag => cases h
    | endTag | closed => cases hopen
  change ((st.step '<').read ['!', '-', '-']).isEscaped = true
  rw [hlt]
  rfl

/-- Text without a closing tag is escaped somewhere exactly if the mark of a comment is in it. -/
theorem exists_isEscaped_iff (h : closingTags cs = []) :
    (∃ front, front <+: cs ∧ (start.read front).isEscaped = true) ↔ commentMark <:+: cs := by
  constructor
  · rintro ⟨front, hfront, hread⟩
    exact (commentMark_infix_of_isEscaped rfl hread).trans hfront.isInfix
  · rintro ⟨front, rest, rfl⟩
    have hclosing := (closingTags_of_append (closingTags_of_append h).1).1
    have hopen : (start.read front).isOpen = true := isOpen_read rfl nofun hclosing
    cases hread : (start.read front).isEscaped with
    | true => exact ⟨front, ⟨commentMark ++ rest, by simp⟩, hread⟩
    | false =>
      refine ⟨front ++ commentMark, List.prefix_append _ _, ?_⟩
      rw [read_append]
      exact isEscaped_read_commentMark hread hopen

/-! ## The end of an element -/

/-- How many characters are read until the element is closed. -/
def closedAfter (st : ScriptState) : List Char → Option Nat
  | [] => none
  | c :: cs => if st.step c = closed then some 1 else (closedAfter (st.step c) cs).map (· + 1)

/-- The closing tag of a script element. -/
def scriptClose : List Char := ['<', '/', 's', 'c', 'r', 'i', 'p', 't', '>']

/-- What stands in a script element, in front of the closing tag that ends it. -/
def scriptContent (cs : List Char) : Option (List Char) :=
  (closedAfter start cs).map fun n => cs.take (n - scriptClose.length)

theorem read_closed (cs : List Char) : closed.read cs = closed := by
  induction cs with
  | nil => rfl
  | cons c cs ih => exact ih

theorem closedAfter_append (h : st.read cs ≠ closed) (ds : List Char) :
    closedAfter st (cs ++ ds) = (closedAfter (st.read cs) ds).map (· + cs.length) := by
  induction cs generalizing st with
  | nil => simp [ScriptState.read]
  | cons c cs ih =>
    have hstep : st.step c ≠ closed := by
      intro hclosed
      refine h ?_
      change (st.step c).read cs = closed
      rw [hclosed, read_closed]
    rw [List.cons_append, closedAfter, if_neg hstep, ih h, Option.map_map]
    rfl

/-- Without the mark of a comment, plain text goes on in the next line. -/
theorem read_newline (h : closingTags cs = []) (hmark : ¬ commentMark <:+: cs) :
    start.read (cs ++ ['\n']) = start := by
  have hopen : (start.read cs).isOpen = true := isOpen_read rfl nofun h
  have hplain : (start.read cs).isEscaped = false := by
    rw [Bool.eq_false_iff]
    exact fun hread => hmark ((exists_isEscaped_iff h).1 ⟨cs, List.prefix_refl cs, hread⟩)
  rw [read_append]
  change (start.read cs).step '\n' = start
  generalize start.read cs = st at hopen hplain
  cases st with
  | text d dashes | lessThan d =>
    obtain rfl : d = .plain := by simpa [isEscaped] using hplain
    rfl
  | opening => rfl
  | startTag => cases hplain
  | endTag | closed => cases hopen

/-- Without the mark of a comment, the element ends at the first closing tag. -/
theorem scriptContent_append (h : closingTags cs = []) (hmark : ¬ commentMark <:+: cs)
    (rest : List Char) :
    scriptContent (cs ++ ['\n'] ++ (scriptClose ++ rest)) = some (cs ++ ['\n']) := by
  have hread := read_newline h hmark
  have hclose : closedAfter start (scriptClose ++ rest) = some scriptClose.length := rfl
  rw [scriptContent, closedAfter_append (by rw [hread]; decide), hread, hclose,
    Option.map_some, Option.map_some, Nat.add_sub_cancel_left, List.take_left]

end PlatformGame.Text
