import PlatformGame.Proofs.Draft.Meaning
import PlatformGame.Proofs.Draft.Silence

/-! # Where warnings point

A warning is about a movement pattern or about a block of a game, and it has the place of that node,
whether building goes on after it or fails. So what is built of some tokens points at the starts of
tokens only (`points_of_derives`). -/

namespace PlatformGame.Draft

open Grammar Parse Source

namespace Build

theorem mem_warnings_bind {x : Build α} {f : α → Build β} {w : Warning} :
    w ∈ (x >>= f).warnings ↔
      w ∈ x.warnings ∨ ∃ a, x.outcome = .ok a ∧ w ∈ (f a).warnings := by
  change w ∈ (x.andThen f).warnings ↔ _
  unfold andThen
  cases hx : x.outcome <;> simp

end Build

namespace Node

variable {n : Node}

/-! ## Warnings of a node -/

theorem place_of_movement {kind : RecordKind} {w : Warning}
    (h : w ∈ (n.movement kind).warnings) : w.place = n.place := by
  obtain h | ⟨bag, -, h⟩ := Build.mem_warnings_bind.1 h
  · rw [(silently_addParts _ _).silent] at h
    cases h
  · obtain h | ⟨-, -, h⟩ := Build.mem_warnings_bind.1 h
    · rw [Build.warnAll_eq] at h
      obtain ⟨e, -, rfl⟩ := List.mem_map.1 h
      rfl
    · rw [(silently_construct _ _ _).silent] at h
      cases h

/-- A warning about a block has the place of the block. -/
theorem exists_block_of_mem_warnings {blocks : List (BlockKind × Sketch)} {xs : List Sketch}
    {w : Warning} (h : w ∈ (addBlocks blocks xs).warnings) :
    ∃ kind value, .block kind value w.place ∈ xs ∧ isSingle kind = true := by
  induction xs generalizing blocks with
  | nil => cases h
  | cons x xs ih =>
    obtain h | ⟨blocks', -, h⟩ := Build.mem_warnings_bind.1 h
    · cases x with
      | block kind value place =>
        simp only [addBlock] at h
        split at h
        · next hs =>
          obtain rfl := List.mem_singleton.1 h
          exact ⟨kind, value, List.mem_cons_self, (Bool.and_eq_true_iff.1 hs).1⟩
        · cases h
      | _ => cases h
    · obtain ⟨kind, value, hmem, hs⟩ := ih h
      exact ⟨kind, value, List.mem_cons_of_mem _ hmem, hs⟩

theorem exists_block_of_game {w : Warning} (h : w ∈ n.game.warnings) :
    ∃ kind value, .block kind value w.place ∈ n.parts ∧ isSingle kind = true := by
  obtain hnamed | ⟨⟨title, xs⟩, hnamed, hrest⟩ := Build.mem_warnings_bind.1 h
  · rw [silently_named.silent] at hnamed
    cases hnamed
  · obtain hblocks | ⟨_, _, hpure⟩ := Build.mem_warnings_bind.1 hrest
    · obtain ⟨kind, value, hmem, hs⟩ := exists_block_of_mem_warnings hblocks
      unfold named at hnamed
      split at hnamed
      · next hparts =>
        cases hnamed
        rw [hparts]
        exact ⟨kind, value, List.mem_cons_of_mem _ hmem, hs⟩
      · cases hnamed
    · cases hpure

theorem place_of_mem_warnings {w : Warning} (h : w ∈ n.assemble.warnings) :
    w.place = n.place ∨
      ∃ kind value, .block kind value w.place ∈ n.parts ∧ isSingle kind = true := by
  by_cases hl : n.label ∈ warned
  · obtain ⟨label, place, parts, missing⟩ := n
    simp only [warned, List.mem_cons, List.not_mem_nil, or_false] at hl
    rcases hl with rfl | rfl | rfl | rfl
    · exact .inr (exists_block_of_game h)
    all_goals exact .inl (place_of_movement h)
  · rw [(silently_assemble hl).silent] at h
    cases h

/-! ## Blocks that are built -/

theorem rooted_assemble {x : Sketch} (h : n.assemble.outcome = .ok x) : n.Rooted x := by
  by_cases hl : n.label ∈ warned
  · obtain ⟨label, place, parts, missing⟩ := n
    simp only [warned, List.mem_cons, List.not_mem_nil, or_false] at hl
    rcases hl with rfl | hl
    · obtain ⟨_, -, h⟩ := Build.exists_of_outcome_bind h
      obtain ⟨_, -, h⟩ := Build.exists_of_outcome_bind h
      cases h
      exact rooted_of_ne_block (by simp [gameOf])
    · rcases hl with rfl | rfl | rfl
      all_goals
        obtain ⟨_, -, h⟩ := Build.exists_of_outcome_bind h
        obtain ⟨_, -, h⟩ := Build.exists_of_outcome_bind h
        exact (silently_construct _ _ _).yields x h
  · exact (silently_assemble hl).yields x h

end Node

/-! ## What is built of tokens -/

/-- Warnings, and blocks that a later warning can be about, have the starts of tokens for places. -/
structure Points (toks : List Token) (x : Build (List Sketch)) : Prop where
  warnings : ∀ w ∈ x.warnings, ∃ tok ∈ toks, w.place = some tok.span.first
  blocks : ∀ xs, x.outcome = .ok xs → ∀ kind value place, .block kind value place ∈ xs →
    Node.isSingle kind = true → ∃ tok ∈ toks, place = some tok.span.first

namespace Points

variable {toks toks' : List Token} {ts us : List Tree}

theorem nil : Points [] (meanings []) where
  warnings := List.forall_mem_nil _
  blocks xs h := by
    cases h
    simp

theorem mono {x : Build (List Sketch)} (h : Points toks x) (hsub : toks ⊆ toks') :
    Points toks' x where
  warnings w hw := by
    obtain ⟨tok, htok, hplace⟩ := h.warnings w hw
    exact ⟨tok, hsub htok, hplace⟩
  blocks xs hxs kind value place hmem hs := by
    obtain ⟨tok, htok, hplace⟩ := h.blocks xs hxs kind value place hmem hs
    exact ⟨tok, hsub htok, hplace⟩

theorem append (h : Points toks (meanings ts)) (h' : Points toks' (meanings us)) :
    Points (toks ++ toks') (meanings (ts ++ us)) := by
  have h := h.mono (List.subset_append_left toks toks')
  have h' := h'.mono (List.subset_append_right toks toks')
  rw [meanings_append]
  constructor
  · intro w hw
    obtain hw | ⟨xs, -, hw⟩ := Build.mem_warnings_bind.1 hw
    · exact h.warnings w hw
    · obtain hw | ⟨ys, -, hw⟩ := Build.mem_warnings_bind.1 hw
      · exact h'.warnings w hw
      · cases hw
  · intro zs hzs kind value place hmem hs
    obtain ⟨xs, hxs, hzs⟩ := Build.exists_of_outcome_bind hzs
    obtain ⟨ys, hys, hzs⟩ := Build.exists_of_outcome_bind hzs
    cases hzs
    rcases List.mem_append.1 hmem with hmem | hmem
    · exact h.blocks xs hxs kind value place hmem hs
    · exact h'.blocks ys hys kind value place hmem hs

theorem node {l : Label} {tok : Token} {last : Position} (h : Points toks (meanings ts))
    (htok : tok ∈ toks) :
    Points toks (meanings [.node l (some ⟨tok.span.first, last⟩) ts]) := by
  rw [meanings_singleton, meaning]
  constructor
  · intro w hw
    obtain hw | ⟨x, -, hw⟩ := Build.mem_warnings_bind.1 hw
    · obtain hw | ⟨parts, hparts, hw⟩ := Build.mem_warnings_bind.1 hw
      · exact h.warnings w hw
      · obtain hplace | ⟨kind, value, hmem, hs⟩ := Node.place_of_mem_warnings hw
        · exact ⟨tok, htok, hplace⟩
        · exact h.blocks parts hparts kind value w.place hmem hs
    · cases hw
  · intro xs hxs kind value place hmem hs
    obtain ⟨x, hx, hxs⟩ := Build.exists_of_outcome_bind hxs
    obtain ⟨parts, hparts, hx⟩ := Build.exists_of_outcome_bind hx
    cases hxs
    obtain rfl := List.mem_singleton.1 hmem
    obtain hplace | hpart := Node.rooted_assemble hx kind value place rfl hs
    · exact ⟨tok, htok, hplace⟩
    · exact h.blocks parts hparts kind value place hpart hs

end Points

theorem points_of_derives {p : Phrase} {toks : List Token} {trees : List Tree}
    (h : Derives p toks trees) : Points toks (meanings trees) := by
  induction h with
  | nothing | manyEnd | itemEnd | commaEnd => exact .nil
  | token tok keep =>
    cases keep with
    | false => exact Points.nil.mono (List.nil_subset _)
    | true =>
      rw [if_pos rfl, meanings_singleton, meaning_ofToken]
      constructor
      · exact List.forall_mem_nil _
      · intro xs hxs
        cases hxs
        simp
  | seq _ _ ihp ihq | more _ _ ihp ihq | item _ _ ihp ihq => exact ihp.append ihq
  | left _ ih | right _ ih => exact ih
  | comma _ _ ih => exact ih.mono (List.subset_cons_self _ _)
  | node l _ ih => exact ih.node List.mem_cons_self

end PlatformGame.Draft
