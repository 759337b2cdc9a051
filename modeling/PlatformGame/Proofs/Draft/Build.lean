import PlatformGame.Draft.Build

/-! # What building gives

`x.Gives quiet V` says that building succeeds with a result in `V`, where `quiet` may be put to use
as the assumption that there are no warnings. -/

namespace PlatformGame.Draft.Build

variable {α β γ : Type} {quiet : Prop}

protected theorem id_map (x : Build α) : id <$> x = x := by
  obtain ⟨ws, _ | a⟩ := x
  · rfl
  · change (⟨ws ++ [], _⟩ : Build α) = _
    rw [List.append_nil]
    rfl

protected theorem bind_assoc (x : Build α) (f : α → Build β) (g : β → Build γ) :
    x >>= f >>= g = x >>= fun a => f a >>= g := by
  obtain ⟨ws, _ | a⟩ := x
  · rfl
  · change andThen (andThen _ f) g = andThen _ fun a => andThen (f a) g
    unfold andThen
    cases hf : (f a).outcome <;> simp [hf]

instance : LawfulMonad Build := .mk' Build Build.id_map (fun _ _ => rfl) Build.bind_assoc

theorem warnings_of_bind {x : Build α} {f : α → Build β} (h : (x >>= f).warnings = []) :
    x.warnings = [] ∧ ∀ a, x.outcome = .ok a → (f a).warnings = [] := by
  change (x.andThen f).warnings = [] at h
  unfold andThen at h
  split at h
  · next a ha =>
    obtain ⟨hx, hf⟩ := List.append_eq_nil_iff.1 h
    refine ⟨hx, fun b hb => ?_⟩
    rw [ha] at hb
    cases hb
    exact hf
  · next e he =>
    refine ⟨h, fun b hb => ?_⟩
    rw [he] at hb
    cases hb

theorem outcome_bind {x : Build α} {a : α} (hx : x.outcome = .ok a) (f : α → Build β) :
    (x >>= f).outcome = (f a).outcome := by
  change (x.andThen f).outcome = _
  simp [andThen, hx]

theorem warnings_bind {x : Build α} {a : α} (hx : x.outcome = .ok a) (f : α → Build β) :
    (x >>= f).warnings = x.warnings ++ (f a).warnings := by
  change (x.andThen f).warnings = _
  simp [andThen, hx]

theorem exists_of_outcome_bind {x : Build α} {f : α → Build β} {b : β}
    (h : (x >>= f).outcome = .ok b) : ∃ a, x.outcome = .ok a ∧ (f a).outcome = .ok b := by
  cases hx : x.outcome with
  | ok a => exact ⟨a, rfl, outcome_bind hx f ▸ h⟩
  | error e =>
    change (x.andThen f).outcome = _ at h
    simp [andThen, hx] at h

theorem warnAll_eq (ws : List Warning) : warnAll ws = ⟨ws, .ok ()⟩ := by
  induction ws with
  | nil => rfl
  | cons w ws ih =>
    rw [warnAll, ih]
    rfl

theorem warnAll_bind_pure (ws : List Warning) (a : α) :
    (do Build.warnAll ws; pure a) = (⟨ws, .ok a⟩ : Build α) := by
  rw [warnAll_eq]
  change (⟨ws ++ [], .ok a⟩ : Build α) = _
  rw [List.append_nil]

def Gives (quiet : Prop) (x : Build α) (V : α → Prop) : Prop :=
  (quiet → x.warnings = []) → ∃ a, x.outcome = .ok a ∧ V a

theorem Gives.pure {V : α → Prop} {a : α} (h : V a) : Gives quiet (pure a) V :=
  fun _ => ⟨a, rfl, h⟩

theorem Gives.mono {x : Build α} {V W : α → Prop} (h : x.Gives quiet V) (hVW : ∀ a, V a → W a) :
    x.Gives quiet W := by
  intro hq
  obtain ⟨a, ha, hV⟩ := h hq
  exact ⟨a, ha, hVW a hV⟩

theorem Gives.bind {x : Build α} {f : α → Build β} {V : α → Prop} {W : β → Prop}
    (hx : x.Gives quiet V) (hf : ∀ a, V a → (f a).Gives quiet W) : (x >>= f).Gives quiet W := by
  intro hq
  obtain ⟨a, ha, hV⟩ := hx fun h => (warnings_of_bind (hq h)).1
  obtain ⟨b, hb, hW⟩ := hf a hV fun h => (warnings_of_bind (hq h)).2 a ha
  exact ⟨b, (outcome_bind ha f).trans hb, hW⟩

end PlatformGame.Draft.Build
