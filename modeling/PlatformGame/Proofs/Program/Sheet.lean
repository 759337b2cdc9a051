import PlatformGame.Program.Sheet
import PlatformGame.Proofs.Data.Except

/-! # Lines of a sheet

The rows of a listing become the lines of its sheet, each at the level that the steps before it lead
to, and the text of the sheet consists of the lines that are shown. -/

namespace PlatformGame.Program

open Text

/-- The lines that rows become, and the levels at which they begin and end. -/
inductive Written : Nat → Nat → Listing → List String → Prop
  | nil : Written n n [] []
  | line : writeAll ps = .ok s → Written n n' rows ls →
      Written n n' (.line ps :: rows) (Sheet.indented "  " n s :: ls)
  | indent : Written (n + 1) n' rows ls → Written n n' (.indent :: rows) ls
  | dedent : Written (n - 1) n' rows ls → Written n n' (.dedent :: rows) ls

namespace Written

/-- A row becomes a line, or has nothing in it. -/
theorem cons (h : Written n n' (r :: rows) ls) :
    ∃ s m ls', writeAll r.pieces = .ok s ∧ Written m n' rows ls' ∧
      (ls = Sheet.indented "  " n s :: ls' ∨ s = "" ∧ ls = ls') := by
  cases h with
  | line hs h => exact ⟨_, _, _, hs, h, .inl rfl⟩
  | indent h | dedent h => exact ⟨"", _, _, rfl, h, .inr ⟨rfl, rfl⟩⟩

theorem append (h : Written n n' (rows ++ rows') ls) :
    ∃ m ls₁ ls₂, Written n m rows ls₁ ∧ Written m n' rows' ls₂ ∧ ls = ls₁ ++ ls₂ := by
  induction rows generalizing n ls with
  | nil => exact ⟨n, [], ls, .nil, h, rfl⟩
  | cons r rows ih =>
    cases h with
    | line hs h =>
      obtain ⟨m, ls₁, ls₂, h₁, h₂, rfl⟩ := ih h
      exact ⟨m, _, ls₂, .line hs h₁, h₂, rfl⟩
    | indent h =>
      obtain ⟨m, ls₁, ls₂, h₁, h₂, rfl⟩ := ih h
      exact ⟨m, ls₁, ls₂, .indent h₁, h₂, rfl⟩
    | dedent h =>
      obtain ⟨m, ls₁, ls₂, h₁, h₂, rfl⟩ := ih h
      exact ⟨m, ls₁, ls₂, .dedent h₁, h₂, rfl⟩

theorem exists_commands (h : Written n n' rows ls) :
    ∃ cs, rows.mapM Row.command = .ok cs ∧
      ∀ ls₀, Command.runAll cs { level := n, lines := ls₀ } =
        { level := n', lines := ls₀ ++ ls } := by
  induction h with
  | nil => exact ⟨[], rfl, fun ls₀ => by simp [Command.runAll]⟩
  | @line ps s n n' rows ls hs _ ih =>
    obtain ⟨cs, hcs, hrun⟩ := ih
    refine ⟨.line s :: cs, ?_, fun ls₀ => ?_⟩
    · rw [List.mapM_cons, hcs, Row.command, hs]
      rfl
    · rw [Command.runAll, Command.run, Sheet.line, hrun, List.append_assoc]
      rfl
  | indent _ ih =>
    obtain ⟨cs, hcs, hrun⟩ := ih
    refine ⟨.indent :: cs, ?_, fun ls₀ => ?_⟩
    · rw [List.mapM_cons, hcs]
      rfl
    · rw [Command.runAll, Command.run]
      exact hrun ls₀
  | dedent _ ih =>
    obtain ⟨cs, hcs, hrun⟩ := ih
    refine ⟨.dedent :: cs, ?_, fun ls₀ => ?_⟩
    · rw [List.mapM_cons, hcs]
      rfl
    · rw [Command.runAll, Command.run]
      exact hrun ls₀

theorem sheet (h : Written 0 n rows ls) :
    Listing.sheet rows = .ok { level := n, lines := ls } := by
  obtain ⟨cs, hcs, hrun⟩ := h.exists_commands
  rw [Listing.sheet, hcs]
  exact congrArg Except.ok (hrun [])

end Written

theorem exists_written {cs : List Command} (h : rows.mapM Row.command = .ok cs) (n : Nat) :
    ∃ n' ls, Written n n' rows ls := by
  induction rows generalizing n cs with
  | nil => exact ⟨n, [], .nil⟩
  | cons r rows ih =>
    rw [List.mapM_cons] at h
    obtain ⟨c, hc, h⟩ := bind_eq_ok.1 h
    obtain ⟨cs, hcs, -⟩ := bind_eq_ok.1 h
    cases r with
    | line ps =>
      obtain ⟨s, hs, -⟩ := bind_eq_ok.1 hc
      obtain ⟨n', ls, hrest⟩ := ih hcs n
      exact ⟨n', _, .line hs hrest⟩
    | indent =>
      obtain ⟨n', ls, hrest⟩ := ih hcs (n + 1)
      exact ⟨n', ls, .indent hrest⟩
    | dedent =>
      obtain ⟨n', ls, hrest⟩ := ih hcs (n - 1)
      exact ⟨n', ls, .dedent hrest⟩

theorem written_of_sheet {rows : Listing} {b : Sheet} (hb : rows.sheet = .ok b) :
    Written 0 b.level rows b.lines := by
  obtain ⟨cs, hcs, -⟩ := bind_eq_ok.1 hb
  obtain ⟨n, ls, h⟩ := exists_written hcs 0
  cases h.sheet.symm.trans hb
  exact h

/-- The lines of a text, without blanks around them and without empty ones if it is minified. -/
def shown (minify : Bool) (ls : List String) : List String :=
  if minify then (ls.map strip).filter (!·.isEmpty) else ls

theorem Sheet.render_eq (b : Sheet) (minify : Bool) :
    b.render minify = "\n".intercalate (shown minify b.lines) := by
  unfold render shown
  split <;> rfl

theorem shown_append (minify : Bool) (ls ls' : List String) :
    shown minify (ls ++ ls') = shown minify ls ++ shown minify ls' := by
  unfold shown
  split
  · rw [List.map_append, List.filter_append]
  · rfl

/-- Lines in front of others each end with a newline. -/
theorem toList_intercalate_append {ls ls' : List String} (h : ls' ≠ []) :
    ("\n".intercalate (ls ++ ls')).toList =
      ls.flatMap (fun l => l.toList ++ ['\n']) ++ ("\n".intercalate ls').toList := by
  induction ls with
  | nil => rfl
  | cons l ls ih =>
    rw [List.cons_append, String.intercalate_cons_of_ne_nil (by simp [h]), String.toList_append,
      String.toList_append, String.toList_ofList, ih, List.flatMap_cons, List.append_assoc,
      List.append_assoc, List.append_assoc]

end PlatformGame.Program
