import Mathlib.Data.List.TakeWhile
import PlatformGame.Text.Blank

/-! # Lines and displayed lines

A displayed line ends at every character that a viewer breaks lines at, a line of the text only at
newlines. The two are counted alike up to some place exactly if no other line break stands before
it, carriage returns directly before newlines excepted: `strayBreaks` counts these others. -/

namespace PlatformGame.Text

/-- The line breaks that are no newlines. A carriage return directly before a newline ends the
displayed line together with it. -/
def strayBreaks : List Char → Nat
  | [] => 0
  | '\r' :: '\n' :: cs => strayBreaks cs
  | c :: cs => (if isLineBreak c && c != '\n' then 1 else 0) + strayBreaks cs

/-- The text is empty or ends with a newline. -/
def WholeLines (cs : List Char) : Prop := ∀ c ∈ cs.getLast?, c = '\n'

variable {c : Char} {cs rest line : List Char}

theorem wholeLines_nil : WholeLines [] := fun _ h => by cases h

theorem wholeLines_append_newline (cs : List Char) : WholeLines (cs ++ ['\n']) := fun c hc => by
  simpa using hc.symm

theorem WholeLines.of_cons (h : WholeLines (c :: cs)) : WholeLines cs := by
  cases cs with
  | nil => exact wholeLines_nil
  | cons d ds => exact fun e he => h e (by rwa [List.getLast?_cons_cons])

theorem WholeLines.eq_newline (h : WholeLines [c]) : c = '\n' := h c rfl

/-! ## Breaking lines one after the other -/

theorem linesFrom_crlf (line cs : List Char) :
    linesFrom line ('\r' :: '\n' :: cs) = line.reverse :: linesFrom [] cs := by
  rw [linesFrom]

theorem linesFrom_cons (h : ∀ ds, c = '\r' → cs = '\n' :: ds → False) (line : List Char) :
    linesFrom line (c :: cs) =
      if isLineBreak c then line.reverse :: linesFrom [] cs else linesFrom (c :: line) cs := by
  rw [linesFrom]
  exact h

theorem strayBreaks_cons (h : ∀ ds, c = '\r' → cs = '\n' :: ds → False) :
    strayBreaks (c :: cs) = (if isLineBreak c && c != '\n' then 1 else 0) + strayBreaks cs := by
  rw [strayBreaks]
  exact h

theorem isLineBreak_newline : isLineBreak '\n' = true := rfl

theorem not_crlf_append (h : ∀ ds, c = '\r' → cs = '\n' :: ds → False) (hcs : cs ≠ [])
    (rest : List Char) : ∀ ds, c = '\r' → cs ++ rest = '\n' :: ds → False := by
  intro ds hc heq
  cases cs with
  | nil => exact hcs rfl
  | cons d cs =>
    cases heq
    exact h _ hc rfl

/-- Displayed lines end where whole lines do. -/
theorem linesFrom_append (h : WholeLines cs) (hline : cs ≠ [] ∨ line = []) (rest : List Char) :
    linesFrom line (cs ++ rest) = linesFrom line cs ++ linesFrom [] rest := by
  fun_induction strayBreaks cs generalizing line with
  | case1 =>
    obtain rfl : line = [] := hline.resolve_left (absurd rfl)
    rfl
  | case2 cs ih =>
    rw [List.cons_append, List.cons_append, linesFrom_crlf, linesFrom_crlf,
      ih h.of_cons.of_cons (.inr rfl), List.cons_append]
  | case3 c cs hcrlf ih =>
    by_cases hcs : cs = []
    · subst hcs
      obtain rfl := h.eq_newline
      rw [List.singleton_append, linesFrom_cons (by simp), linesFrom_cons (by simp),
        if_pos isLineBreak_newline, if_pos isLineBreak_newline]
      rfl
    · rw [List.cons_append, linesFrom_cons (not_crlf_append hcrlf hcs rest), linesFrom_cons hcrlf]
      split
      · rw [ih h.of_cons (.inr rfl), List.cons_append]
      · rw [ih h.of_cons (.inl hcs)]

theorem length_linesFrom (h : WholeLines cs) (hline : cs ≠ [] ∨ line = []) :
    (linesFrom line cs).length = cs.count '\n' + strayBreaks cs := by
  fun_induction strayBreaks cs generalizing line with
  | case1 =>
    obtain rfl : line = [] := hline.resolve_left (absurd rfl)
    rfl
  | case2 cs ih =>
    rw [linesFrom_crlf, List.length_cons, ih h.of_cons.of_cons (.inr rfl), List.count_cons_of_ne,
      List.count_cons_self]
    · omega
    · decide
  | case3 c cs hcrlf ih =>
    rw [linesFrom_cons hcrlf, List.count_cons]
    by_cases hnewline : c = '\n'
    · subst hnewline
      rw [if_pos isLineBreak_newline, List.length_cons, ih h.of_cons (.inr rfl)]
      simp only [BEq.rfl, ↓reduceIte, bne_self_eq_false, Bool.and_false, Bool.false_eq_true,
        Nat.zero_add]
      omega
    · have hcs : cs ≠ [] := by
        rintro rfl
        exact hnewline h.eq_newline
      by_cases hbreak : isLineBreak c = true
      · rw [if_pos hbreak, List.length_cons, ih h.of_cons (.inr rfl)]
        simp only [beq_iff_eq, hnewline, ↓reduceIte, Nat.add_zero, hbreak, Bool.true_and,
          bne_iff_ne, ne_eq, not_false_eq_true]
        omega
      · rw [if_neg hbreak, ih h.of_cons (.inl hcs)]
        simp [hbreak, hnewline]

theorem strayBreaks_append (h : WholeLines cs) (rest : List Char) :
    strayBreaks (cs ++ rest) = strayBreaks cs + strayBreaks rest := by
  fun_induction strayBreaks cs with
  | case1 => simp
  | case2 cs ih =>
    rw [List.cons_append, List.cons_append, strayBreaks, ih h.of_cons.of_cons]
  | case3 c cs hcrlf ih =>
    by_cases hcs : cs = []
    · subst hcs
      obtain rfl := h.eq_newline
      rw [List.singleton_append, strayBreaks_cons (by simp)]
      rfl
    · rw [List.cons_append, strayBreaks_cons (not_crlf_append hcrlf hcs rest), ih h.of_cons,
        Nat.add_assoc]

/-- The first displayed line goes up to the first line break. -/
theorem head?_linesFrom (h : line ≠ [] ∨ cs ≠ []) :
    (linesFrom line cs).head? = some (line.reverse ++ cs.takeWhile fun c => !isLineBreak c) := by
  fun_induction linesFrom line cs with
  | case1 => simp_all
  | case2 => simp_all
  | case3 line cs => simp [isLineBreak]
  | case4 line c cs hcrlf hbreak => simp [hbreak]
  | case5 line c cs hcrlf hbreak ih =>
    rw [ih (.inl (List.cons_ne_nil _ _))]
    simp [hbreak]

/-- In a line of a text without stray breaks at most a carriage return stands at the end. -/
theorem isBlank_of_strayBreaks_eq_zero (h : strayBreaks (line ++ rest) = 0) (hline : '\n' ∉ line) :
    ∀ c ∈ line.dropWhile (fun c => !isLineBreak c), isBlank c = true := by
  induction line with
  | nil => exact List.forall_mem_nil _
  | cons d line ih =>
    rw [List.mem_cons, not_or] at hline
    by_cases hbreak : isLineBreak d = true
    · by_cases hcrlf : ∃ ds, d = '\r' ∧ line ++ rest = '\n' :: ds
      · obtain ⟨ds, rfl, hds⟩ := hcrlf
        cases line with
        | nil => simp [isLineBreak, isBlank]
        | cons e line =>
          cases hds
          exact absurd List.mem_cons_self hline.2
      · have hne : d ≠ '\n' := Ne.symm hline.1
        rw [List.cons_append, strayBreaks_cons fun ds hd heq => hcrlf ⟨ds, hd, heq⟩] at h
        simp [hbreak, hne] at h
    · have hne : d ≠ '\r' := by
        rintro rfl
        exact hbreak rfl
      rw [List.cons_append, strayBreaks_cons fun _ hd _ => hne hd] at h
      have hrest : strayBreaks (line ++ rest) = 0 := by omega
      simpa [hbreak] using ih hrest hline.2

/-! ## White space around a line -/

theorem filter_dropWhile_not {f : Char → Bool} (cs : List Char) :
    (cs.dropWhile f).filter (fun c => !f c) = cs.filter fun c => !f c := by
  induction cs with
  | nil => rfl
  | cons c cs ih => by_cases h : f c = true <;> simp [h, ih]

theorem filter_stripChars (cs : List Char) :
    (stripChars cs).filter (fun c => !isBlank c) = cs.filter fun c => !isBlank c := by
  rw [stripChars, List.filter_reverse, filter_dropWhile_not, List.filter_reverse,
    List.reverse_reverse, filter_dropWhile_not]

theorem stripChars_append_blank (cs : List Char) (h : ∀ c ∈ rest, isBlank c = true) :
    stripChars (cs ++ rest) = stripChars cs := by
  have hnil {ds : List Char} (hds : ∀ c ∈ ds, isBlank c = true) : ds.dropWhile isBlank = [] :=
    List.dropWhile_eq_nil_iff.2 hds
  unfold stripChars
  rw [List.dropWhile_append]
  split
  · next hempty => rw [hnil h, List.isEmpty_iff.1 hempty]
  · have hreverse : rest.reverse.dropWhile isBlank = [] :=
      hnil fun c hc => h c (List.mem_reverse.1 hc)
    rw [List.reverse_append, List.dropWhile_append, hreverse]
    simp

/-- Up to its first line break a line shows the same text if only white space stands behind it. -/
theorem stripChars_takeWhile_iff (f : Char → Bool) (line : List Char) :
    stripChars (line.takeWhile f) = stripChars line ↔
      ∀ c ∈ line.dropWhile f, isBlank c = true := by
  constructor
  · intro h c hc
    have hfilter := congrArg (List.filter fun c => !isBlank c) h
    rw [filter_stripChars, filter_stripChars] at hfilter
    have hparts : line.filter (fun c => !isBlank c) =
        (line.takeWhile f).filter (fun c => !isBlank c) ++
          (line.dropWhile f).filter fun c => !isBlank c := by
      rw [← List.filter_append, List.takeWhile_append_dropWhile]
    rw [hparts, List.self_eq_append_right, List.filter_eq_nil_iff] at hfilter
    simpa using hfilter c hc
  · intro h
    have heq := stripChars_append_blank (line.takeWhile f) h
    rw [List.takeWhile_append_dropWhile] at heq
    exact heq.symm

end PlatformGame.Text
