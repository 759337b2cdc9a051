import PlatformGame.Proofs.Check.Levels
import Mathlib.Data.Finset.Card

/-! # Clashes of levels

Levels clash if they have the same scene, because of their names or because their names have the
same key. Every level after the first with a scene is reported once, whatever else is violated, so
that there are as many reports as levels too many (`Draft.countP_violations`). -/

namespace PlatformGame

open Program

/-- A report that a level has the scene of an earlier one. -/
def Violation.isClash : Violation → Bool
  | duplicateLevel _ => true
  | sceneClash .. => true
  | _ => false

/-- The keys of the levels' scenes. -/
def sceneKeys (ls : List Level) : List String := ls.map fun l => sceneKey l.name

/-! ## Reports that are no clashes -/

def Clashless (vs : List Violation) : Prop := vs.countP Violation.isClash = 0

namespace Clashless

theorem nil : Clashless [] := rfl

theorem reportIf (h : v.isClash = false) (b : Bool) : Clashless (reportIf b v) := by
  cases b <;> simp [Clashless, PlatformGame.reportIf, h]

theorem append (h : Clashless vs) (h' : Clashless ws) : Clashless (vs ++ ws) := by
  rw [Clashless, List.countP_append, h, h']

theorem countP_append (h : Clashless ws) :
    (vs ++ ws).countP Violation.isClash = vs.countP Violation.isClash := by
  rw [List.countP_append, h, Nat.add_zero]

theorem flatMap {f : α → List Violation} {xs : List α} (h : ∀ x, Clashless (f x)) :
    Clashless (xs.flatMap f) := by
  induction xs with
  | nil => exact nil
  | cons x xs ih => exact append (h x) ih

theorem ite {c : Prop} [Decidable c] (h : Clashless vs) : Clashless (if c then vs else []) := by
  split
  · exact h
  · exact nil

end Clashless

/-! ## Levels -/

namespace Level

theorem countP_clash (l : Level) (earlier : List Level) :
    (l.clash earlier).countP Violation.isClash =
      if sceneKey l.name ∈ sceneKeys earlier then 1 else 0 := by
  have hmem : sceneKey l.name ∈ sceneKeys earlier ↔
      ∃ other ∈ earlier, sceneKey other.name = sceneKey l.name := List.mem_map
  unfold clash
  split
  · next hname =>
    -- The same name has the same key.
    obtain ⟨other, hother, heq⟩ : ∃ other ∈ earlier, other.name = l.name := by simpa using hname
    rw [if_pos (hmem.2 ⟨other, hother, by rw [heq]⟩)]
    rfl
  · split
    · next other hfind =>
      have hother : sceneKey other.name = sceneKey l.name := by simpa using List.find?_some hfind
      rw [if_pos (hmem.2 ⟨other, List.mem_of_find?_eq_some hfind, hother⟩)]
      rfl
    · next hfind =>
      rw [if_neg]
      · rfl
      · rw [hmem]
        simpa using hfind

theorem countP_violations {seen : SeenLevels} {earlier : List Level} (h : seen.Tracks earlier)
    (l : Level) (symbols : Symbols ε κ) (checkAssets : Bool) :
    (l.violations seen symbols checkAssets).countP Violation.isClash =
      if sceneKey l.name ∈ sceneKeys earlier then 1 else 0 := by
  have hclash := countP_clash l earlier
  rw [← h.clash_eq] at hclash
  refine (Clashless.countP_append ?_).trans ((Clashless.countP_append ?_).trans
    ((Clashless.countP_append ?_).trans ((Clashless.countP_append ?_).trans
      ((Clashless.countP_append ?_).trans hclash))))
  · exact .reportIf rfl _
  · exact .flatMap fun p => .reportIf rfl _
  · exact .flatMap fun p => .reportIf rfl _
  · split
    · exact .reportIf rfl _
    · exact .nil
  · exact .reportIf rfl _

/-- A key that is new counts once more. -/
theorem card_toFinset_append_singleton (keys : List String) (key : String) :
    (keys ++ [key]).toFinset.card + (if key ∈ keys then 1 else 0) = keys.toFinset.card + 1 := by
  have hinsert : (keys ++ [key]).toFinset = insert key keys.toFinset := by
    ext
    simp
  rw [hinsert]
  split
  · next h => rw [Finset.insert_eq_of_mem (List.mem_toFinset.2 h)]
  · next h => rw [Finset.card_insert_of_notMem (mt List.mem_toFinset.1 h)]

theorem countP_allViolations {seen : SeenLevels} {earlier : List Level} (h : seen.Tracks earlier)
    (symbols : Symbols ε κ) (checkAssets : Bool) (later : List Level) :
    (allViolations symbols checkAssets seen later).countP Violation.isClash +
        (sceneKeys (earlier ++ later)).toFinset.card =
      later.length + (sceneKeys earlier).toFinset.card := by
  induction later generalizing seen earlier with
  | nil => simp [allViolations]
  | cons l later ih =>
    have hrest := ih (h.add l)
    have hnew := card_toFinset_append_singleton (sceneKeys earlier) (sceneKey l.name)
    have hkeys : sceneKeys (earlier ++ [l]) = sceneKeys earlier ++ [sceneKey l.name] := by
      simp [sceneKeys]
    rw [List.append_assoc, List.singleton_append, hkeys] at hrest
    rw [allViolations, List.countP_append, countP_violations h, List.length_cons]
    omega

end Level

/-! ## Drafts -/

namespace Draft

theorem clashless_spriteViolations (d : Draft) : Clashless d.spriteViolations := by
  refine .append (.append ?_ (.flatMap fun e => .reportIf rfl _))
    (.flatMap fun c => .reportIf rfl _)
  split
  · exact .reportIf rfl _
  · exact .nil

theorem clashless_ruleViolations (d : Draft) : Clashless d.ruleViolations := by
  unfold ruleViolations
  split
  · exact .nil
  · refine .append ?_ ?_
    · split
      · exact .reportIf rfl _
      · exact .nil
    · split
      · exact .reportIf rfl _
      · exact .nil

theorem clashless_soundViolations (d : Draft) : Clashless d.soundViolations := by
  unfold soundViolations
  split
  · exact .nil
  · refine .flatMap fun p => ?_
    split
    split
    · exact .reportIf rfl _
    · exact .nil

theorem countP_violations (d : Draft) (strict : Bool) :
    (d.violations strict).countP Violation.isClash + (sceneKeys d.levels).toFinset.card =
      d.levels.length := by
  have hhead : Clashless (reportIf (filled d.title).isNone .noTitle ++
      reportIf d.levels.isEmpty .noLevels ++ reportIf d.player.isNone .noPlayer ++
      if strict || d.symbols.hasAssets then d.spriteViolations else []) :=
    .append (.append (.append (.reportIf rfl _) (.reportIf rfl _)) (.reportIf rfl _))
      (.ite d.clashless_spriteViolations)
  have hlevels := Level.countP_allViolations SeenLevels.tracks_nil d.symbols
    (strict || d.symbols.hasAssets) d.levels
  dsimp only [violations]
  rw [Clashless.countP_append (.ite d.clashless_soundViolations),
    Clashless.countP_append d.clashless_ruleViolations, List.countP_append, hhead, Nat.zero_add]
  simpa [sceneKeys] using hlevels

end Draft

end PlatformGame
