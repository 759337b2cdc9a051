import PlatformGame.Check.Violation
import PlatformGame.Proofs.Data.Pairs

/-! # Levels that have been checked

While levels are checked one after the other, what is kept of them is enough to find the first level
that a later one clashes with. -/

namespace PlatformGame

open Program

/-- A clash with the first earlier level that has the same name or, failing that, the same scene. -/
def Level.clash (l : Level) (earlier : List Level) : List Violation :=
  if earlier.any (·.name == l.name) then [.duplicateLevel l.name]
  else
    match earlier.find? fun other => sceneKey other.name == sceneKey l.name with
    | some other => [.sceneClash l.name other.name (sceneKey l.name)]
    | none => []

namespace SeenLevels

/-- What is kept of the given levels. -/
structure Tracks (seen : SeenLevels) (earlier : List Level) : Prop where
  names : ∀ name, name ∈ seen.names ↔ name ∈ earlier.map Level.name
  scenes : ∀ key, seen.scenes.lookup key =
    (earlier.find? fun l => sceneKey l.name == key).map Level.name

theorem tracks_nil : Tracks {} [] := ⟨by simp, by simp⟩

variable {seen : SeenLevels} {earlier : List Level}

theorem Tracks.contains_eq (h : seen.Tracks earlier) (name : String) :
    seen.names.contains name = earlier.any (·.name == name) := by
  rw [Bool.eq_iff_iff, List.contains_iff_mem, h.names]
  simp

/-- A scene has an owner as soon as a level with that scene was checked, also if that level had the
name of another. -/
theorem Tracks.known_eq (h : seen.Tracks earlier) (l : Level) :
    (seen.names.contains l.name || (seen.scenes.lookup (sceneKey l.name)).isSome) =
      (earlier.find? fun o => sceneKey o.name == sceneKey l.name).isSome := by
  rw [h.contains_eq, h.scenes, Option.isSome_map, Bool.or_eq_right_iff_imp, List.any_eq_true,
    List.find?_isSome]
  rintro ⟨o, ho, hname⟩
  exact ⟨o, ho, by rw [beq_iff_eq.1 hname, beq_self_eq_true]⟩

theorem Tracks.add (h : seen.Tracks earlier) (l : Level) :
    (seen.add l).Tracks (earlier ++ [l]) := by
  constructor
  · intro name
    rw [List.map_append, List.mem_append, ← h.names, List.map_singleton, List.mem_singleton,
      or_comm]
    exact List.mem_cons
  · intro key
    rw [SeenLevels.add, h.known_eq, List.find?_append]
    by_cases hkey : key = sceneKey l.name
    · subst hkey
      cases hfind : earlier.find? fun o => sceneKey o.name == sceneKey l.name with
      | some o => simp [h.scenes, hfind]
      | none => simp [lookup_putPair]
    · -- The scenes of other levels are as they were.
      have hlast : [l].find? (fun o => sceneKey o.name == key) = none := by simp [Ne.symm hkey]
      rw [hlast, Option.or_none, ← h.scenes]
      split
      · rfl
      · rw [lookup_putPair, if_neg hkey]

theorem tracks_foldl (h : seen.Tracks earlier) (later : List Level) :
    (later.foldl SeenLevels.add seen).Tracks (earlier ++ later) := by
  induction later generalizing seen earlier with
  | nil => simpa using h
  | cons l later ih => simpa using ih (h.add l)

theorem Tracks.clash_eq (h : seen.Tracks earlier) (l : Level) : seen.clash l = l.clash earlier := by
  rw [clash, Level.clash, h.contains_eq, h.scenes]
  split
  · rfl
  · next hnames =>
    cases hfind : earlier.find? fun o => sceneKey o.name == sceneKey l.name with
    | none => rfl
    | some o =>
      have hne : (o.name != l.name) = true := by
        rw [bne_iff_ne]
        intro hname
        exact hnames (List.any_eq_true.2 ⟨o, List.mem_of_find?_eq_some hfind, by simp [hname]⟩)
      simp [reportIf, hne]

end SeenLevels

end PlatformGame
