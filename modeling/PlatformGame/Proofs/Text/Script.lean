import PlatformGame.Text.Script
import Mathlib.Data.List.Basic

/-! # Literals of a program

A literal is written in two passes: every character is escaped, then the tags are split. The two
passes do not interfere, so that the inside of a literal is written in one (`literalBody`), which is
what proofs about literals follow. -/

namespace PlatformGame.Text

/-- The inside of a literal, in one pass. -/
def literalBody : List Char → List Char
  | [] => []
  | '<' :: '/' :: cs => '<' :: '\\' :: '/' :: literalBody cs
  | c :: cs => escapeScriptChar c ++ literalBody cs

theorem splitTags_cons {c : Char} {cs : List Char} (h : c = '<' → cs.head? ≠ some '/') :
    splitTags (c :: cs) = c :: splitTags cs := by
  rw [splitTags]
  rintro ds rfl rfl
  exact h rfl rfl

theorem splitTags_append {cs : List Char} (h : '<' ∉ cs) (ds : List Char) :
    splitTags (cs ++ ds) = cs ++ splitTags ds := by
  induction cs with
  | nil => rfl
  | cons c cs ih =>
    obtain ⟨hc, hcs⟩ := not_or.1 (mt List.mem_cons.2 h)
    rw [List.cons_append, splitTags_cons (fun heq => absurd heq.symm hc), ih hcs, List.cons_append]

theorem escapeScriptChar_ne_nil (c : Char) : escapeScriptChar c ≠ [] := by
  unfold escapeScriptChar
  split_ifs <;> simp

/-- A slash at the front of what is escaped was there before. -/
theorem eq_of_head?_escapeScriptChar {c : Char} (h : (escapeScriptChar c).head? = some '/') :
    c = '/' := by
  unfold escapeScriptChar at h
  split_ifs at h <;> simp_all

theorem lt_notMem_escapeScriptChar {c : Char} (h : c ≠ '<') : '<' ∉ escapeScriptChar c := by
  unfold escapeScriptChar
  split_ifs <;> simp [Ne.symm h]

theorem splitTags_flatMap (cs : List Char) :
    splitTags (cs.flatMap escapeScriptChar) = literalBody cs := by
  fun_induction literalBody cs with
  | case1 => rfl
  | case2 cs ih => simp [escapeScriptChar, splitTags, ih]
  | case3 c cs hne ih =>
    rw [List.flatMap_cons, ← ih]
    by_cases hc : c = '<'
    · subst hc
      change splitTags ('<' :: cs.flatMap escapeScriptChar) = '<' :: _
      refine splitTags_cons fun _ hhead => ?_
      cases cs with
      | nil => cases hhead
      | cons d ds =>
        rw [List.flatMap_cons, List.head?_append_of_ne_nil _ (escapeScriptChar_ne_nil d)] at hhead
        exact hne ds rfl (by rw [eq_of_head?_escapeScriptChar hhead])
    · exact splitTags_append (lt_notMem_escapeScriptChar hc) _

theorem toList_scriptLiteral (s : String) :
    (scriptLiteral s).toList = '\'' :: (literalBody s.toList ++ ['\'']) := by
  rw [scriptLiteral, String.toList_ofList, splitTags_flatMap, List.cons_append]

end PlatformGame.Text
