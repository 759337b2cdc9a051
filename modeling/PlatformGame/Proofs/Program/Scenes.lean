import PlatformGame.Compile.Artifact
import PlatformGame.Proofs.Check.Clashes
import PlatformGame.Proofs.Check.Violations
import PlatformGame.Proofs.Program.Performance

/-! # Scenes of a program

A program declares one class for every scene of its game and lists the same scenes in its
configuration (`declaredClasses_eq_sceneList`); the classes have different names exactly if checking
the game reports no clash of levels. Every scene that a program starts or launches is one that it
declares, unless the rules name a next level that does not exist (`started_mem_declaredKeys`). -/

namespace PlatformGame

open Program

namespace Script

/-! ## Classes -/

def Action.declared? : Action → Option String
  | .declares name => some name
  | _ => none

def Action.listed? : Action → Option (List String)
  | .lists names => some names
  | _ => none

/-- The key that a class gives to its scene. -/
def Action.registered? : Action → Option String
  | .calls .registerScene (key :: _) => some key
  | _ => none

def declaredClasses (as : List Action) : List String := as.filterMap Action.declared?

def listedScenes (as : List Action) : List (List String) := as.filterMap Action.listed?

/-- The classes of a program, each with what is done in it. -/
def classes : List Action → List (String × List Action)
  | [] => []
  | a :: as =>
    match a.declared? with
    | some name => (name, as.takeWhile (·.declared?.isNone)) :: classes as
    | none => classes as

/-- The keys of the scenes that a program declares. -/
def declaredKeys (as : List Action) : List String :=
  (classes as).filterMap fun c => c.2.findSome? Action.registered?

/-! ## Scene after scene -/

/-- Actions that neither declare a class nor list scenes. -/
def Calls (as : List Action) : Prop := ∀ a ∈ as, ∃ c ls, a = .calls c ls

namespace Calls

theorem append (h : Calls as) (h' : Calls bs) : Calls (as ++ bs) := List.forall_mem_append.2 ⟨h, h'⟩

theorem nil : Calls [] := List.forall_mem_nil _

theorem single : Calls [.calls c ls] := by
  intro a ha
  exact ⟨c, ls, List.mem_singleton.1 ha⟩

theorem map {c : α → Callee} {ls : α → List String} {xs : List α} :
    Calls (xs.map fun x => .calls (c x) (ls x)) := by
  intro a ha
  obtain ⟨x, _, rfl⟩ := List.mem_map.1 ha
  exact ⟨_, _, rfl⟩

theorem toList {c : α → Callee} {ls : α → List String} {o : Option α} :
    Calls (o.map fun x => Action.calls (c x) (ls x)).toList := by
  cases o with
  | none => exact nil
  | some x => exact single

variable (h : Calls cs)

include h

theorem declared?_eq_none (ha : a ∈ cs) : a.declared? = none := by
  obtain ⟨c, ls, rfl⟩ := h a ha
  rfl

theorem filterMap_declared? : cs.filterMap Action.declared? = [] :=
  List.filterMap_eq_nil_iff.2 fun _ ha => h.declared?_eq_none ha

theorem filterMap_listed? : cs.filterMap Action.listed? = [] := by
  refine List.filterMap_eq_nil_iff.2 fun a ha => ?_
  obtain ⟨c, ls, rfl⟩ := h a ha
  rfl

theorem classes_append (rest : List Action) : classes (cs ++ rest) = classes rest := by
  induction cs with
  | nil => rfl
  | cons a cs ih =>
    rw [List.cons_append, classes, h.declared?_eq_none List.mem_cons_self]
    exact ih fun b hb => h b (List.mem_cons_of_mem a hb)

theorem takeWhile_append (rest : List Action) :
    (cs ++ rest).takeWhile (·.declared?.isNone) = cs ++ rest.takeWhile (·.declared?.isNone) := by
  refine List.takeWhile_append_of_pos fun a ha => ?_
  rw [h.declared?_eq_none ha]
  rfl

end Calls

variable {scenes : List Scene}

theorem classes_actions {s : Scene} (h : Calls s.body) (rest : List Action) :
    classes (s.actions ++ rest) =
      (s.key, .calls .registerScene [s.key] :: s.body ++ rest.takeWhile (·.declared?.isNone)) ::
        classes rest := by
  have hbody : Calls (.calls .registerScene [s.key] :: s.body) := Calls.single.append h
  have hclass : classes (s.actions ++ rest) =
      (s.key, (.calls .registerScene [s.key] :: s.body ++ rest).takeWhile (·.declared?.isNone)) ::
        classes (.calls .registerScene [s.key] :: s.body ++ rest) := rfl
  rw [hclass, hbody.takeWhile_append, hbody.classes_append]

theorem filterMap_declared?_scenes (h : ∀ s ∈ scenes, Calls s.body) :
    (scenes.flatMap Scene.actions).filterMap Action.declared? = scenes.map Scene.key := by
  induction scenes with
  | nil => rfl
  | cons s scenes ih =>
    rw [List.forall_mem_cons] at h
    have hs : s.actions.filterMap Action.declared? = [s.key] :=
      congrArg (s.key :: ·) h.1.filterMap_declared?
    rw [List.flatMap_cons, List.filterMap_append, hs, ih h.2]
    rfl

theorem filterMap_listed?_scenes (h : ∀ s ∈ scenes, Calls s.body) :
    (scenes.flatMap Scene.actions).filterMap Action.listed? = [] := by
  induction scenes with
  | nil => rfl
  | cons s scenes ih =>
    rw [List.forall_mem_cons] at h
    have hs : s.actions.filterMap Action.listed? = [] := h.1.filterMap_listed?
    rw [List.flatMap_cons, List.filterMap_append, hs, ih h.2]
    rfl

theorem declaredKeys_scenes (h : ∀ s ∈ scenes, Calls s.body) (rest : List Action) :
    declaredKeys (scenes.flatMap Scene.actions ++ rest) =
      scenes.map Scene.key ++ declaredKeys rest := by
  induction scenes with
  | nil => rfl
  | cons s scenes ih =>
    rw [List.forall_mem_cons] at h
    rw [List.flatMap_cons, List.append_assoc, declaredKeys, classes_actions h.1]
    exact congrArg (s.key :: ·) (ih h.2)

/-! ## The scenes of a game -/

theorem calls_createActions (g : Game) (l : Level) : Calls (createActions g l) := by
  refine .append (.append (.append (.append (.append (.append .single ?_) .map) .map) .map) .map) ?_
  · unfold tilemapActions
    split
    · exact .nil
    · exact Calls.single.append .single
  · split
    · exact .single
    · exact .nil

theorem calls_body (h : s ∈ gameScenes g) : Calls s.body := by
  rw [gameScenes, List.mem_append, List.mem_cons, List.mem_map] at h
  rcases h with (rfl | ⟨p, _, rfl⟩) | h
  · exact .append .map .toList
  · exact .append (.append (calls_createActions g p.1) .toList) .single
  · split at h
    · rw [List.mem_singleton.1 h]
      exact .nil
    · cases h

theorem map_key_gameScenes (g : Game) : (gameScenes g).map Scene.key = sceneList g := by
  have hlevels : (g.levels.zipIdx.map fun p => levelOf g p.1 p.2).map Scene.key =
      g.levels.map fun l => sceneKey l.name := by
    rw [List.map_map, ← List.zipIdx_map_fst 0 g.levels, List.map_map, List.zipIdx_map_fst]
    rfl
  rw [gameScenes, sceneList, List.map_append, List.map_cons, hlevels]
  cases g.hud <;> rfl

theorem declaredClasses_gameActions (g : Game) : declaredClasses (gameActions g) = sceneList g := by
  rw [declaredClasses, gameActions, List.filterMap_append,
    filterMap_declared?_scenes fun _ hs => calls_body hs, map_key_gameScenes]
  exact List.append_nil _

theorem listedScenes_gameActions (g : Game) : listedScenes (gameActions g) = [sceneList g] := by
  rw [listedScenes, gameActions, List.filterMap_append,
    filterMap_listed?_scenes fun _ hs => calls_body hs]
  rfl

theorem declaredKeys_gameActions (g : Game) : declaredKeys (gameActions g) = sceneList g := by
  rw [gameActions, declaredKeys_scenes fun _ hs => calls_body hs, map_key_gameScenes]
  exact List.append_nil _

/-! ## Scenes with the same name -/

theorem sceneKey_ne_bootScene (level : String) : sceneKey level ≠ bootScene := by
  intro h
  have := congrArg String.toList h
  simp [toList_sceneKey, toList_bootScene] at this

theorem sceneKey_ne_hudScene (level : String) : sceneKey level ≠ hudScene := by
  intro h
  have := congrArg String.toList h
  simp [toList_sceneKey, toList_hudScene] at this

theorem bootScene_ne_hudScene : bootScene ≠ hudScene := by
  intro h
  have := congrArg String.toList h
  simp [toList_bootScene, toList_hudScene] at this

theorem nodup_sceneList (g : Game) : (sceneList g).Nodup ↔ (sceneKeys g.levels).Nodup := by
  have hboot : bootScene ∉ sceneKeys g.levels := by
    simp [sceneKeys, sceneKey_ne_bootScene]
  have hhud : hudScene ∉ sceneKeys g.levels := by
    simp [sceneKeys, sceneKey_ne_hudScene]
  have hlist : sceneList g = bootScene :: sceneKeys g.levels ++
      if g.hud.isSome then [hudScene] else [] := rfl
  rw [hlist]
  split
  · have hdisjoint : ∀ key ∈ bootScene :: sceneKeys g.levels, ∀ key' ∈ [hudScene], key ≠ key' := by
      simp only [List.forall_mem_singleton, List.forall_mem_cons]
      exact ⟨bootScene_ne_hudScene, fun key hkey heq => hhud (heq ▸ hkey)⟩
    rw [List.nodup_append, List.nodup_cons, and_iff_right hboot,
      and_iff_left ⟨List.nodup_singleton _, hdisjoint⟩]
  · rw [List.append_nil, List.nodup_cons, and_iff_right hboot]

theorem nodup_sceneKeys_iff (g : Game) (strict : Bool) :
    (sceneKeys g.levels).Nodup ↔ ∀ v ∈ g.violations strict, v.isClash = false := by
  have hcount : _ + _ = g.levels.length := Draft.countP_violations g.toDraft strict
  have hlength : (sceneKeys g.levels).length = g.levels.length := List.length_map _
  have hnodup : (sceneKeys g.levels).toFinset.card = (sceneKeys g.levels).length ↔
      (sceneKeys g.levels).Nodup := Multiset.toFinset_card_eq_card_iff_nodup
  have hzero : (g.violations strict).countP Violation.isClash = 0 ↔
      ∀ v ∈ g.violations strict, v.isClash = false := by simp [List.countP_eq_zero]
  rw [← hnodup, ← hzero, hlength, ← hcount]
  change _ ↔ (g.toDraft.violations strict).countP Violation.isClash = 0
  have hkeys : sceneKeys g.toDraft.levels = sceneKeys g.levels := rfl
  rw [hkeys]
  omega

/-- The classes of a program are the scenes of its game, in order, and its configuration lists the
same. Checking the game reports a clash for every level that is not the first with its scene, so the
classes have different names exactly if no clash is reported. -/
theorem declaredClasses_eq_sceneList (g : Game) (strict minify : Bool) :
    (g.violations strict).countP Violation.isClash + (sceneKeys g.levels).toFinset.card =
      g.levels.length ∧
    ∀ text, g.script minify = .ok text → ∃ as, actionsOf? text = some as ∧
      declaredClasses as = sceneList g ∧ listedScenes as = [sceneList g] ∧
      ((declaredClasses as).Nodup ↔ ∀ v ∈ g.violations strict, v.isClash = false) := by
  refine ⟨Draft.countP_violations g.toDraft strict, fun text htext => ?_⟩
  refine ⟨_, actionsOf?_script htext, ?_⟩
  rw [declaredClasses_gameActions]
  exact ⟨rfl, listedScenes_gameActions g,
    (nodup_sceneList g).trans (nodup_sceneKeys_iff g strict)⟩

/-- Three levels with one scene: the second takes the scene of the first, the third its name. -/
theorem declaredClasses_eq_sceneList_twins :
    let g := Draft.complete
      { title := some "Peaks", player := some {}, hud := some [],
        levels := [{ name := "A 1" }, { name := "A-1" }, { name := "A 1" }] }
    ∃ text as, g.script true = .ok text ∧ actionsOf? text = some as ∧
      declaredClasses as = ["BootScene", "Level_A_1", "Level_A_1", "Level_A_1", "HudScene"] ∧
      (g.violations true).countP Violation.isClash = 2 ∧ ¬ (declaredClasses as).Nodup := by
  intro g
  obtain ⟨text, htext⟩ : ∃ text, g.script true = .ok text := exists_of_isOk (by decide +kernel)
  have hscenes : sceneList g =
      ["BootScene", "Level_A_1", "Level_A_1", "Level_A_1", "HudScene"] := by decide +kernel
  have hclash : (g.violations true).countP Violation.isClash = 2 := by decide +kernel
  obtain ⟨as, has, hclasses, _⟩ := (declaredClasses_eq_sceneList g true true).2 text htext
  rw [hscenes] at hclasses
  exact ⟨text, as, htext, has, hclasses, hclash, hclasses ▸ by decide⟩

/-! ## Scenes that are started -/

theorem sceneKey_mem_sceneList (h : l ∈ g.levels) : sceneKey l.name ∈ sceneList g := by
  have hkey : sceneKey l.name ∈ sceneKeys g.levels := List.mem_map_of_mem h
  exact List.mem_append_left _ (List.mem_append_right _ hkey)

theorem hudScene_mem_sceneList (h : g.hud.isSome = true) : hudScene ∈ sceneList g := by
  rw [sceneList, if_pos h]
  exact List.mem_append_right _ List.mem_cons_self

theorem nextScene_mem_sceneList
    (hnext : ∀ name, Violation.undefinedNextLevel name ∉ g.violations strict)
    (h : nextScene g index = some key) : key ∈ sceneList g := by
  have hafter (h : nextScene.after g index = some key) : key ∈ sceneList g := by
    obtain ⟨l, hl, rfl⟩ := Option.map_eq_some_iff.1 h
    exact sceneKey_mem_sceneList (List.mem_of_getElem? hl)
  unfold nextScene at h
  split at h
  · next name hname =>
    split at h
    · exact hafter h
    · next hne =>
      -- The named level is declared, for otherwise the name would be reported.
      have hlevel : g.toDraft.DeclaresLevel name := by
        by_contra hundeclared
        have hne : name ≠ "" := by simpa using hne
        exact hnext name (Draft.mem_violations_iff.2 ⟨_, .nextLevel rfl hname hne hundeclared⟩)
      obtain ⟨l, hl, rfl⟩ := hlevel
      exact Option.some.inj h ▸ sceneKey_mem_sceneList hl
  · exact hafter h

/-- Every scene that a program starts or launches is declared by the same program, unless checking
the game reports a next level that does not exist. -/
theorem started_mem_declaredKeys {g : Game} {strict minify : Bool} {text : String}
    (hnext : ∀ name, Violation.undefinedNextLevel name ∉ g.violations strict)
    (htext : g.script minify = .ok text) :
    ∃ as, actionsOf? text = some as ∧ ∀ c ls, .calls c ls ∈ as →
      c = .startScene ∨ c = .launchScene → ∃ key, ls = [key] ∧ key ∈ declaredKeys as := by
  refine ⟨_, actionsOf?_script htext, fun c ls hcall hc => ?_⟩
  rw [declaredKeys_gameActions]
  cases gameCall_of_mem hcall with
  | startFirst hl => exact ⟨_, rfl, sceneKey_mem_sceneList hl⟩
  | startNext hkey => exact ⟨_, rfl, nextScene_mem_sceneList hnext hkey⟩
  | launch hhud => exact ⟨_, rfl, hudScene_mem_sceneList hhud⟩
  | @load a ha => cases hkind : a.kind <;> simp [loader, hkind] at hc
  | _ => simp at hc

/-- The rules send a player who wins back to the first level, whose name is no identifier. -/
theorem started_mem_declaredKeys_loop :
    let g := Draft.complete
      { title := some "Peaks", player := some {}, hud := some [],
        levels := [{ name := "A 1" }, { name := "B" }], rules := some { nextLevel := some "A 1" } }
    ∃ text as, g.script true = .ok text ∧ actionsOf? text = some as ∧
      ∀ c ls, .calls c ls ∈ as → c = .startScene ∨ c = .launchScene →
        ∃ key, ls = [key] ∧ key ∈ declaredKeys as := by
  intro g
  obtain ⟨text, htext⟩ : ∃ text, g.script true = .ok text := exists_of_isOk (by decide +kernel)
  have hviolations : g.violations false = [.noSpawn "A 1", .noSpawn "B"] := by decide +kernel
  have hnext : ∀ name, Violation.undefinedNextLevel name ∉ g.violations false := by
    simp [hviolations]
  obtain ⟨as, has, hstarted⟩ := started_mem_declaredKeys hnext htext
  exact ⟨text, as, htext, has, hstarted⟩

end Script

end PlatformGame
