import PlatformGame.Proofs.Source.Layout

/-! # The order of positions

Going on in a text leads to a later position, so that no two tokens of a text end at one place. The
line of a position is the number of newlines before it, and its column is the number of characters
since the last of them. -/

namespace PlatformGame.Source

open Grammar

namespace Position

/-- The position is on an earlier line, or further left on the same one. -/
def Before (p q : Position) : Prop := p.line < q.line ∨ p.line = q.line ∧ p.column < q.column

theorem Before.trans {p q r : Position} (h : p.Before q) (h' : q.Before r) : p.Before r := by
  unfold Before at *
  omega

theorem not_before_self (p : Position) : ¬ p.Before p := by
  unfold Before
  omega

theorem before_next (p : Position) (c : Char) : p.Before (p.next c) := by
  unfold next
  split
  · exact .inl (Nat.lt_succ_self _)
  · exact .inr ⟨rfl, Nat.lt_succ_self _⟩

theorem before_after {cs : List Char} (h : cs ≠ []) (p : Position) : p.Before (p.after cs) := by
  induction cs generalizing p with
  | nil => exact absurd rfl h
  | cons c cs ih =>
    cases cs with
    | nil => exact p.before_next c
    | cons d ds => exact (p.before_next c).trans (ih (List.cons_ne_nil _ _) (p.next c))

theorem line_after (p : Position) (cs : List Char) :
    (p.after cs).line = p.line + cs.count '\n' := by
  induction cs generalizing p with
  | nil => rfl
  | cons c cs ih =>
    change ((p.next c).after cs).line = _
    rw [ih, List.count_cons, next]
    by_cases hc : c = '\n'
    · simp only [hc, if_true, beq_self_eq_true]
      omega
    · simp [hc]

theorem after_append_newline (p : Position) (cs : List Char) :
    p.after (cs ++ ['\n']) = ⟨p.line + (cs ++ ['\n']).count '\n', 1⟩ := by
  rw [← line_after, after_append]
  rfl

theorem after_of_notMem {cs : List Char} (h : '\n' ∉ cs) (p : Position) :
    p.after cs = ⟨p.line, p.column + cs.length⟩ := by
  induction cs generalizing p with
  | nil => rfl
  | cons c cs ih =>
    rw [List.mem_cons, not_or] at h
    have hnext : p.next c = ⟨p.line, p.column + 1⟩ := if_neg (Ne.symm h.1)
    change (p.next c).after cs = _
    rw [ih h.2, hnext, List.length_cons, Nat.add_assoc, Nat.add_comm 1]

end Position

namespace SpelledBefore

variable {behind cs : List Char} {p : Position} {toks : List Token}

/-- Each token stands where it is said to. -/
theorem exists_after (h : SpelledBefore behind p cs toks) :
    ∀ tok ∈ toks, ∃ before after, cs = before ++ after ∧ tok.span.first = p.after before := by
  induction h with
  | done _ => exact List.forall_mem_nil _
  | @token rest gap toks p tok _ _ _ hspan _ ih =>
    refine List.forall_mem_cons.2 ⟨⟨gap, tok.text.toList ++ rest, by simp, by rw [hspan]⟩, ?_⟩
    intro tok' htok'
    obtain ⟨before, after, rfl, hfirst⟩ := ih tok' htok'
    refine ⟨gap ++ tok.text.toList ++ before, after, by simp, ?_⟩
    rw [hfirst, hspan, ← Position.after_append, ← Position.after_append, List.append_assoc]

theorem before_last (h : SpelledBefore behind p cs toks) :
    ∀ tok ∈ toks, p.Before tok.span.last := by
  induction h with
  | done _ => exact List.forall_mem_nil _
  | @token _ gap _ p tok _ hm _ hspan _ ih =>
    have hne : gap ++ tok.text.toList ≠ [] := List.append_ne_nil_of_right_ne_nil _ hm.ne_nil
    have hbefore : p.Before tok.span.last := by
      rw [hspan, ← Position.after_append]
      exact Position.before_after hne p
    exact List.forall_mem_cons.2 ⟨hbefore, fun t ht => hbefore.trans (ih t ht)⟩

theorem pairwise_last (h : SpelledBefore behind p cs toks) :
    toks.Pairwise fun t u => t.span.last.Before u.span.last := by
  induction h with
  | done _ => exact .nil
  | token _ _ _ _ hrest ih => exact .cons hrest.before_last ih

end SpelledBefore

end PlatformGame.Source
