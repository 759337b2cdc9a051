import PlatformGame.Text.Order

/-! # Texts in order

Sorting keeps the texts there are and puts each of them once, in strictly ascending order. -/

namespace PlatformGame.Text

theorem mem_insertText {s t : String} {ts : List String} :
    t ∈ insertText s ts ↔ t = s ∨ t ∈ ts := by
  induction ts with
  | nil => simp [insertText]
  | cons u ts ih =>
    rw [insertText]
    split
    · exact List.mem_cons
    · split
      · next heq =>
        subst heq
        simp
      · rw [List.mem_cons, ih, List.mem_cons, or_left_comm]

theorem mem_sortTexts {t : String} {ss : List String} : t ∈ sortTexts ss ↔ t ∈ ss := by
  induction ss with
  | nil => exact Iff.rfl
  | cons s ss ih =>
    rw [sortTexts, List.foldr_cons, mem_insertText, List.mem_cons]
    exact or_congr_right ih

theorem pairwise_insertText {s : String} {ts : List String} (h : ts.Pairwise (· < ·)) :
    (insertText s ts).Pairwise (· < ·) := by
  induction ts with
  | nil => exact List.pairwise_singleton _ s
  | cons u ts ih =>
    obtain ⟨hu, hts⟩ := List.pairwise_cons.1 h
    rw [insertText]
    split
    · next hlt =>
      refine List.pairwise_cons.2 ⟨List.forall_mem_cons.2 ⟨hlt, fun t ht => ?_⟩, h⟩
      exact String.lt_trans hlt (hu t ht)
    · next hnlt =>
      split
      · exact h
      · next hne =>
        have hus : u < s := by
          refine Decidable.byContradiction fun hns => hne ?_
          exact String.le_antisymm (String.not_lt.1 hns) (String.not_lt.1 hnlt)
        refine List.pairwise_cons.2 ⟨fun t ht => ?_, ih hts⟩
        rcases mem_insertText.1 ht with rfl | ht
        · exact hus
        · exact hu t ht

theorem pairwise_sortTexts (ss : List String) : (sortTexts ss).Pairwise (· < ·) := by
  induction ss with
  | nil => exact .nil
  | cons s ss ih => exact pairwise_insertText ih

end PlatformGame.Text
