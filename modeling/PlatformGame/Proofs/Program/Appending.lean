import PlatformGame.Program.Sheet
import Mathlib.Data.Nat.PSub

/-! # Sheets on other sheets

Commands that never step out further than where they began, and end there (`Command.depthAll?`),
write the same in place as on a sheet of their own that is appended later (`append_runAll`).

The two are compared while the commands run. `Sheet.joined` is the sheet on which they run in place,
told from the one that they have to themselves, and each command keeps the two together
(`Command.inPlace`). -/

namespace PlatformGame.Program

namespace Command

mutual

/-- The level after a command, counted from where the commands began; none if the command steps out
of that level. -/
def depth? : Command → Nat → Option Nat
  | line _, n => some n
  | indent, n => some (n + 1)
  | dedent, n => n.ppred
  | block _ _ body, n => (depthAll? body (n + 1)).bind Nat.ppred
  | append _, n => some n

def depthAll? : List Command → Nat → Option Nat
  | [], n => some n
  | c :: cs, n => (c.depth? n).bind (depthAll? cs)

end

end Command

namespace Sheet

/-! ## Indentation in two steps -/

theorem repeated_add (unit : String) (m n : Nat) :
    repeated unit (m + n) = repeated unit m ++ repeated unit n := by
  rw [← String.toList_inj, String.toList_append, repeated, repeated, repeated, String.toList_join,
    String.toList_join, String.toList_join, ← List.replicate_append_replicate, List.flatMap_append]

/-- Only lines with something in them are indented, and indentation leaves it there. -/
theorem indented_indented (unit : String) (m n : Nat) (s : String) :
    indented unit m (indented unit n s) = indented unit (m + n) s := by
  unfold indented
  by_cases hs : s.isEmpty = true
  · simp [hs]
  · have hne : (repeated unit n ++ s).isEmpty = false := by simp_all
    simp [hs, hne, repeated_add, String.append_assoc]

/-! ## A sheet joined to another -/

/-- The sheet `b` with the lines of `f` after its own, at the level that was reached in `f`. -/
def joined (b f : Sheet) : Sheet := { b.append f with level := b.level + f.level }

variable {b f : Sheet}

theorem joined_line (h : f.unit = b.unit) (s : String) :
    (b.joined f).line s = b.joined (f.line s) := by
  simp [joined, line, append, h, indented_indented]

theorem joined_indent : (b.joined f).indent = b.joined f.indent := by
  simp [joined, indent, append, Nat.add_assoc]

theorem joined_dedent (h : 0 < f.level) : (b.joined f).dedent = b.joined f.dedent := by
  simp [joined, dedent, append, Nat.add_sub_assoc h]

theorem joined_append (h : f.unit = b.unit) (other : Sheet) :
    (b.joined f).append other = b.joined (f.append other) := by
  simp [joined, append, h, indented_indented]

theorem joined_openBlock (h : f.unit = b.unit) (header : String) :
    (b.joined f).openBlock header = b.joined (f.openBlock header) := by
  rw [openBlock, joined_line h, joined_indent, ← openBlock]

theorem joined_fresh (b : Sheet) : b.joined { unit := b.unit } = b := by
  simp [joined, append]

theorem joined_of_level_eq_zero (h : f.level = 0) : b.joined f = b.append f := by
  simp [joined, append, h]

end Sheet

/-! ## Commands in place -/

/-- What is done to `f` can be done in place on `b`, and leads to the given level. -/
structure InPlace (b f : Sheet) (n : Nat) (act : Sheet → Sheet) : Prop where
  joined : act (b.joined f) = b.joined (act f)
  level : (act f).level = n
  unit : (act f).unit = b.unit

namespace InPlace

variable {b f : Sheet} {m n : Nat} {act act' : Sheet → Sheet}

theorem comp (h : InPlace b f m act) (h' : InPlace b (act f) n act') :
    InPlace b f n (act' ∘ act) where
  joined := by rw [Function.comp_apply, h.joined, h'.joined, Function.comp_apply]
  level := h'.level
  unit := h'.unit

/-- A step out that stays within `f` is not cut short at level zero. -/
theorem dedent (hunit : f.unit = b.unit) (h : f.level.ppred = some n) :
    InPlace b f n Sheet.dedent := by
  have hlevel : n.succ = f.level := Nat.ppred_eq_some.1 h
  exact ⟨Sheet.joined_dedent (hlevel ▸ n.succ_pos), by simp [Sheet.dedent, ← hlevel], hunit⟩

theorem openBlock (hunit : f.unit = b.unit) (header : String) :
    InPlace b f (f.level + 1) (·.openBlock header) :=
  ⟨Sheet.joined_openBlock hunit header, rfl, hunit⟩

theorem closeBlock (hunit : f.unit = b.unit) (h : f.level.ppred = some n) (close : String) :
    InPlace b f n (·.closeBlock close) := by
  have hdedent := dedent hunit h
  have hline : InPlace b f.dedent f.dedent.level (·.line close) :=
    ⟨Sheet.joined_line hdedent.unit close, rfl, hdedent.unit⟩
  exact hdedent.level ▸ hdedent.comp hline

end InPlace

namespace Command

variable (b : Sheet)

mutual

theorem inPlace : ∀ (c : Command) {f : Sheet} {n : Nat}, f.unit = b.unit →
    c.depth? f.level = some n → InPlace b f n c.run
  | line s, _, _, hunit, h => ⟨Sheet.joined_line hunit s, Option.some.inj h, hunit⟩
  | indent, _, _, hunit, h => ⟨Sheet.joined_indent, Option.some.inj h, hunit⟩
  | dedent, _, _, hunit, h => .dedent hunit h
  | append other, _, _, hunit, h => ⟨Sheet.joined_append hunit other, Option.some.inj h, hunit⟩
  | block header close body, f, n, hunit, h => by
    obtain ⟨m, hm, hn⟩ := Option.bind_eq_some_iff.1 h
    have hopen := InPlace.openBlock hunit header
    have hbody := inPlaceAll body hopen.unit hm
    -- the body may end at another level than it began at, as long as the block can step out of it
    have hclose := InPlace.closeBlock hbody.unit (hbody.level.symm ▸ hn) close
    exact (hopen.comp hbody).comp hclose

theorem inPlaceAll : ∀ (cs : List Command) {f : Sheet} {n : Nat}, f.unit = b.unit →
    depthAll? cs f.level = some n → InPlace b f n (runAll cs)
  | [], _, _, hunit, h => ⟨rfl, Option.some.inj h, hunit⟩
  | c :: cs, f, n, hunit, h => by
    obtain ⟨m, hm, hn⟩ := Option.bind_eq_some_iff.1 h
    have hc := inPlace c hunit hm
    exact hc.comp (inPlaceAll cs hc.unit (hc.level.symm ▸ hn))

end

end Command

/-- Commands that do not step out of the level at which they begin, and end at it, write the same
on a sheet at any level as on a fresh one with the same unit that is then appended. The level of the
sheet is as before. -/
theorem append_runAll {cs : List Command} (h : Command.depthAll? cs 0 = some 0) (b : Sheet) :
    b.append (Command.runAll cs { unit := b.unit }) = Command.runAll cs b ∧
      (Command.runAll cs b).level = b.level := by
  have hall : InPlace b { unit := b.unit } 0 (Command.runAll cs) := Command.inPlaceAll b cs rfl h
  have hrun : b.append (Command.runAll cs { unit := b.unit }) = Command.runAll cs b := by
    rw [← Sheet.joined_of_level_eq_zero hall.level, ← hall.joined, Sheet.joined_fresh]
  exact ⟨hrun, by rw [← hrun]; rfl⟩

/-- Blank lines, a sheet with another unit, and a block that is left one level further in than it
was entered. -/
def tangledCommands : List Command :=
  [.line "a", .block "f()" r"};" [.line "", .indent,
    .append { unit := " ", level := 3, lines := ["p", "", " q"] }, .block "" r"}" []],
    .line "z", .dedent, .line ""]

theorem append_runAll_tangled :
    let b : Sheet := { unit := "\t", level := 2, lines := ["x"] }
    Command.depthAll? tangledCommands 0 = some 0 ∧
      b.append (Command.runAll tangledCommands { unit := "\t" }) =
        Command.runAll tangledCommands b ∧
      (Command.runAll tangledCommands b).level = 2 ∧
      (Command.runAll tangledCommands b).lines = ["x", "\t\ta", "\t\tf() " ++ r"{", "",
        "\t\t\t\tp", "", "\t\t\t\t q", "\t\t\t\t" ++ r"{", "\t\t\t\t" ++ r"}",
        "\t\t\t" ++ r"};", "\t\t\tz", ""] := by
  intro b
  have hdepth : Command.depthAll? tangledCommands 0 = some 0 := rfl
  obtain ⟨hrun, hlevel⟩ := append_runAll hdepth b
  exact ⟨hdepth, hrun, hlevel, by decide +kernel⟩

end PlatformGame.Program
