import PlatformGame.Proofs.Source.Position
import PlatformGame.Proofs.Text.Lines
import PlatformGame.Source.Location

/-! # The line that a message quotes

A place in a text stands in a line of it (`StandsIn`), lines ending at newlines. A message about the
place quotes the displayed line of the same number. Where line breaks of another kind stand before
the line, that is a displayed line further up; where none does, it is the line up to its first line
break, which is as good as the line if only white space comes behind (`quotes_locate`). -/

namespace PlatformGame.Source

open Text

/-- The position stands in `line`, which has the text `above` before it and `below` behind it. -/
structure StandsIn (text : List Char) (p : Position) (above line below : List Char) : Prop where
  text_eq : text = above ++ line ++ below
  whole : WholeLines above
  unbroken : '\n' ∉ line
  ended : ∀ c ∈ below.head?, c = '\n'
  row : p.line = above.count '\n' + 1
  column : ∃ before after, line = before ++ after ∧ p.column = before.length + 1

/-- A text is made of whole lines and a piece of a line. -/
theorem exists_wholeLines_append (cs : List Char) :
    ∃ above line, cs = above ++ line ∧ WholeLines above ∧ '\n' ∉ line := by
  induction cs with
  | nil => exact ⟨[], [], rfl, wholeLines_nil, List.not_mem_nil⟩
  | cons c cs ih =>
    obtain ⟨above, line, rfl, habove, hline⟩ := ih
    cases above with
    | cons d above =>
      refine ⟨c :: d :: above, line, rfl, fun e he => habove e ?_, hline⟩
      rwa [List.getLast?_cons_cons] at he
    | nil =>
      by_cases hc : c = '\n'
      · subst hc
        exact ⟨['\n'], line, rfl, wholeLines_append_newline [], hline⟩
      · exact ⟨[], c :: line, rfl, wholeLines_nil, by simp [Ne.symm hc, hline]⟩

theorem exists_line_append (cs : List Char) :
    ∃ line below, cs = line ++ below ∧ '\n' ∉ line ∧ ∀ c ∈ below.head?, c = '\n' := by
  refine ⟨cs.takeWhile (· != '\n'), cs.dropWhile (· != '\n'),
    List.takeWhile_append_dropWhile.symm, fun hmem => ?_, fun c hc => ?_⟩
  · simpa using List.mem_takeWhile_imp hmem
  · have hhead := List.head?_dropWhile_not (fun c => c != '\n') cs
    rw [Option.mem_def.1 hc] at hhead
    simpa using hhead

theorem after_first_of_wholeLines {above : List Char} (h : WholeLines above) :
    Position.first.after above = ⟨above.count '\n' + 1, 1⟩ := by
  rcases List.eq_nil_or_concat above with rfl | ⟨cs, c, rfl⟩
  · rfl
  · obtain rfl : c = '\n' := h c (by simp)
    rw [List.concat_eq_append, Position.after_append_newline, Nat.add_comm]
    rfl

/-- Every place in a text stands in a line of it. -/
theorem exists_standsIn (before after : List Char) :
    ∃ above line below,
      StandsIn (before ++ after) (Position.first.after before) above line below := by
  obtain ⟨above, left, rfl, habove, hleft⟩ := exists_wholeLines_append before
  obtain ⟨right, below, rfl, hright, hbelow⟩ := exists_line_append after
  have hplace : Position.first.after (above ++ left) =
      ⟨above.count '\n' + 1, 1 + left.length⟩ := by
    rw [Position.after_append, after_first_of_wholeLines habove, Position.after_of_notMem hleft]
  refine ⟨above, left ++ right, below, by simp, habove, by simp [hleft, hright], hbelow, ?_,
    left, right, rfl, ?_⟩
  · rw [hplace]
  · rw [hplace]
    exact Nat.add_comm _ _

/-! ## Messages -/

/-- A message with its place, and with a piece of the text unless that is empty. -/
def report (summary : String) (p : Position) (code : List Char) : String :=
  summary ++ "\nLocation: line " ++ toString p.line ++ ", column " ++ toString p.column ++
    if code = [] then "" else "\nCode: " ++ String.ofList code

theorem report_inj {summary : String} {p : Position} {code code' : List Char} :
    report summary p code = report summary p code' ↔ code = code' := by
  refine ⟨fun h => ?_, fun h => by rw [h]⟩
  have hcode : (if code = [] then "" else "\nCode: " ++ String.ofList code) =
      if code' = [] then "" else "\nCode: " ++ String.ofList code' :=
    (String.append_right_inj _).1 h
  have hlists := congrArg String.toList hcode
  split at hlists
  · next hnil =>
    split at hlists
    · next hnil' => rw [hnil, hnil']
    · simp at hlists
  · split at hlists
    · simp at hlists
    · simpa using hlists

theorem locate_eq_report (summary source : String) {p : Position} (hline : p.line ≠ 0)
    (hcolumn : p.column ≠ 0) :
    locate summary (some p.line) (some p.column) (some source) =
      report summary p (stripChars (((linesFrom [] source.toList)[p.line - 1]?).getD [])) := by
  have hquoted : quotedLine source p.line =
      ((linesFrom [] source.toList)[p.line - 1]?).map fun cs => String.ofList (stripChars cs) := by
    rw [quotedLine, if_neg (by omega), splitLines, List.getElem?_map, Option.map_map]
    simp [Function.comp_def, strip]
  have hcolumn' : (p.column : Int) ≠ 0 := by omega
  have htext (n : Nat) : toString (n : Int) = toString n := rfl
  simp only [locate, Option.bind_some, hquoted, if_neg hcolumn', report, htext]
  cases (linesFrom [] source.toList)[p.line - 1]? with
  | none => simp [stripChars]
  | some cs =>
    have hempty : (String.ofList (stripChars cs)).isEmpty = true ↔ stripChars cs = [] := by
      rw [String.isEmpty_iff, ← String.toList_inj, String.toList_ofList]
      rfl
    simp only [Option.map_some, Option.getD_some, hempty]
    split
    · simp
    · simp only [String.append_assoc]

/-! ## The line that is shown -/

namespace StandsIn

variable {text above line below : List Char} {p : Position}

theorem linesFrom_eq (h : StandsIn text p above line below) :
    linesFrom [] text = linesFrom [] above ++ linesFrom [] (line ++ below) := by
  rw [h.text_eq, List.append_assoc, linesFrom_append h.whole (.inr rfl)]

theorem length_above (h : StandsIn text p above line below) :
    (linesFrom [] above).length = p.line - 1 + strayBreaks above := by
  rw [length_linesFrom h.whole (.inr rfl), h.row, Nat.add_sub_cancel]

theorem shown_of_strayBreaks_eq_zero (h : StandsIn text p above line below)
    (hstray : strayBreaks above = 0) :
    ((linesFrom [] text)[p.line - 1]?).getD [] = line.takeWhile fun c => !isLineBreak c := by
  have hlength : (linesFrom [] above).length = p.line - 1 := by
    rw [h.length_above, hstray, Nat.add_zero]
  rw [h.linesFrom_eq, List.getElem?_append_right hlength.le, hlength, Nat.sub_self,
    ← List.head?_eq_getElem?]
  by_cases hnil : line ++ below = []
  · rw [hnil, (List.append_eq_nil_iff.1 hnil).1]
    rfl
  · have hends : ∀ c ∈ below.head?, (!isLineBreak c) = false := fun c hc => by
      rw [h.ended c hc]
      rfl
    rw [head?_linesFrom (.inr hnil)]
    exact congrArg Split.piece (span_append_rest line hends)

theorem shown_of_strayBreaks_ne_zero (h : StandsIn text p above line below)
    (hstray : strayBreaks above ≠ 0) :
    (linesFrom [] above)[p.line - 1]? = some (((linesFrom [] text)[p.line - 1]?).getD []) := by
  have hlt : p.line - 1 < (linesFrom [] above).length := by
    rw [h.length_above]
    omega
  rw [h.linesFrom_eq, List.getElem?_append_left hlt, List.getElem?_eq_getElem hlt]
  rfl

end StandsIn

/-- How a message about a position, which stands in `line`, quotes the text: with what is `shown`
of it. -/
structure Quotes (source summary : String) (p : Position) (message : String)
    (above line below shown : List Char) : Prop where
  stands : StandsIn source.toList p above line below
  told : message = report summary p (stripChars shown)
  straight : strayBreaks above = 0 → shown = line.takeWhile fun c => !isLineBreak c
  drifted : strayBreaks above ≠ 0 → (linesFrom [] above)[p.line - 1]? = some shown
  right_iff : strayBreaks above = 0 → (message = report summary p (stripChars line) ↔
    ∀ c ∈ line.dropWhile (fun c => !isLineBreak c), isBlank c = true)
  right_of_ordinary : strayBreaks source.toList = 0 →
    message = report summary p (stripChars line)

/-- A message about a place in the text quotes the displayed line of the same number. -/
theorem exists_quotes_locate {source : String} {before after : List Char}
    (h : source.toList = before ++ after) {p : Position} (hp : p = Position.first.after before)
    (summary : String) :
    ∃ above line below shown, Quotes source summary p
      (locate summary (some p.line) (some p.column) (some source)) above line below shown := by
  obtain ⟨above, line, below, hstands⟩ := exists_standsIn before after
  rw [← h, ← hp] at hstands
  obtain ⟨left, right, -, hcolumn⟩ := hstands.column
  have hrow := hstands.row
  rw [locate_eq_report summary source (by omega) (by omega)]
  have hright (hstray : strayBreaks above = 0) :=
    hstands.shown_of_strayBreaks_eq_zero hstray ▸ stripChars_takeWhile_iff (!isLineBreak ·) line
  refine ⟨above, line, below, _, hstands, rfl, hstands.shown_of_strayBreaks_eq_zero,
    hstands.shown_of_strayBreaks_ne_zero, fun hstray => ?_, fun hordinary => ?_⟩
  · rw [report_inj]
    exact hright hstray
  · rw [hstands.text_eq, List.append_assoc, strayBreaks_append hstands.whole,
      Nat.add_eq_zero_iff] at hordinary
    rw [report_inj]
    exact (hright hordinary.1).2 (isBlank_of_strayBreaks_eq_zero hordinary.2 hstands.unbroken)

end PlatformGame.Source
