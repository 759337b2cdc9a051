import PlatformGame.Data.Pairs

/-! # Looking up keyed pairs -/

namespace PlatformGame

variable {κ α : Type} [DecidableEq κ]

theorem lookup_putPair [BEq κ] [LawfulBEq κ] (key k : κ) (value : α) (ps : List (κ × α)) :
    (putPair key value ps).lookup k = if k = key then some value else ps.lookup k := by
  induction ps with
  | nil =>
    by_cases h : k = key <;> simp [putPair, h]
  | cons p ps ih =>
    obtain ⟨a, v⟩ := p
    by_cases ha : a = key
    · by_cases h : k = key
      · simp [putPair, ha, h]
      · simp [putPair, ha, h, List.lookup_cons, beq_false_of_ne h]
    · by_cases h : k = a
      · simp [putPair, ha, h]
      · simp [putPair, ha, ih, List.lookup_cons, beq_false_of_ne h]

/-- A key keeps its place, and a new key comes last. -/
theorem keys_putPair (key : κ) (value : α) (ps : List (κ × α)) :
    (putPair key value ps).map (·.1) =
      if key ∈ ps.map (·.1) then ps.map (·.1) else ps.map (·.1) ++ [key] := by
  induction ps with
  | nil => simp [putPair]
  | cons p ps ih =>
    obtain ⟨a, v⟩ := p
    by_cases ha : a = key
    · simp [putPair, ha]
    · have ha' : key ≠ a := Ne.symm ha
      simp only [putPair, if_neg ha, List.map_cons, ih, List.mem_cons, ha', false_or]
      split <;> rfl

theorem nodup_putPair {key : κ} {value : α} {ps : List (κ × α)} (h : (ps.map (·.1)).Nodup) :
    ((putPair key value ps).map (·.1)).Nodup := by
  rw [keys_putPair]
  split
  · exact h
  · next hk =>
    refine List.nodup_append.2 ⟨h, by simp, fun a ha b hb hab => hk ?_⟩
    rw [← List.mem_singleton.1 hb, ← hab]
    exact ha

theorem mem_keys_putPair {key k : κ} {value : α} {ps : List (κ × α)} :
    k ∈ (putPair key value ps).map (·.1) ↔ k = key ∨ k ∈ ps.map (·.1) := by
  rw [keys_putPair]
  split
  · next h =>
    constructor
    · exact .inr
    · rintro (rfl | hk)
      · exact h
      · exact hk
  · rw [List.mem_append, List.mem_singleton, or_comm]

theorem mem_putPair {key : κ} {value : α} {ps : List (κ × α)} {p : κ × α}
    (h : p ∈ putPair key value ps) : p = (key, value) ∨ p ∈ ps := by
  induction ps with
  | nil => exact .inl (List.mem_singleton.1 h)
  | cons q ps ih =>
    rw [putPair] at h
    split at h
    · rcases List.mem_cons.1 h with rfl | h
      · exact .inl rfl
      · exact .inr (.tail _ h)
    · rcases List.mem_cons.1 h with rfl | h
      · exact .inr List.mem_cons_self
      · exact (ih h).imp_right (.tail _)

theorem putPair_map {β : Type} (f : α → β) (key : κ) (value : α) (ps : List (κ × α)) :
    putPair key (f value) (ps.map fun p => (p.1, f p.2)) =
      (putPair key value ps).map fun p => (p.1, f p.2) := by
  induction ps with
  | nil => rfl
  | cons p ps ih =>
    simp only [List.map_cons, putPair, ih]
    split <;> rfl

/-- A new key comes last. -/
theorem putPair_of_notMem {key : κ} {value : α} {ps : List (κ × α)} (h : key ∉ ps.map (·.1)) :
    putPair key value ps = ps ++ [(key, value)] := by
  induction ps with
  | nil => rfl
  | cons p ps ih =>
    rw [List.map_cons, List.mem_cons, not_or] at h
    rw [putPair, if_neg (Ne.symm h.1), ih h.2, List.cons_append]

/-! ## Several pairs -/

theorem mem_putPairs {pairs : List (κ × α)} {p : κ × α} (h : p ∈ putPairs pairs) : p ∈ pairs := by
  have fold : ∀ (pairs acc : List (κ × α)),
      p ∈ pairs.foldl (fun acc (k, v) => putPair k v acc) acc → p ∈ acc ∨ p ∈ pairs := by
    intro pairs
    induction pairs with
    | nil => exact fun acc h => .inl h
    | cons q pairs ih =>
      intro acc h
      rcases ih _ h with h | h
      · exact (mem_putPair h).elim (fun h => .inr (h ▸ List.mem_cons_self)) .inl
      · exact .inr (.tail _ h)
  exact (fold pairs [] h).resolve_left List.not_mem_nil

theorem nodup_putPairs (pairs : List (κ × α)) : ((putPairs pairs).map (·.1)).Nodup := by
  have fold : ∀ (pairs acc : List (κ × α)), (acc.map (·.1)).Nodup →
      ((pairs.foldl (fun acc (k, v) => putPair k v acc) acc).map (·.1)).Nodup := by
    intro pairs
    induction pairs with
    | nil => exact fun _ h => h
    | cons q pairs ih => exact fun acc h => ih _ (nodup_putPair h)
  exact fold pairs [] List.nodup_nil

theorem putPairs_ne_nil {pairs : List (κ × α)} (h : pairs ≠ []) : putPairs pairs ≠ [] := by
  have put_ne_nil : ∀ (q : κ × α) (acc : List (κ × α)), putPair q.1 q.2 acc ≠ [] := by
    intro q acc hnil
    have hmem : q.1 ∈ (putPair q.1 q.2 acc).map (·.1) := mem_keys_putPair.2 (.inl rfl)
    rw [hnil] at hmem
    exact nomatch hmem
  have fold : ∀ (pairs acc : List (κ × α)), acc ≠ [] →
      pairs.foldl (fun acc (k, v) => putPair k v acc) acc ≠ [] := by
    intro pairs
    induction pairs with
    | nil => exact fun _ h => h
    | cons q pairs ih => exact fun acc _ => ih _ (put_ne_nil q acc)
  cases pairs with
  | nil => exact absurd rfl h
  | cons q pairs => exact fold pairs _ (put_ne_nil q [])

/-- Pairs with different keys stay as they are. -/
theorem putPairs_of_nodup {pairs : List (κ × α)} (h : (pairs.map (·.1)).Nodup) :
    putPairs pairs = pairs := by
  have fold : ∀ (pairs acc : List (κ × α)), ((acc ++ pairs).map (·.1)).Nodup →
      pairs.foldl (fun acc (k, v) => putPair k v acc) acc = acc ++ pairs := by
    intro pairs
    induction pairs with
    | nil => exact fun acc _ => (List.append_nil acc).symm
    | cons q pairs ih =>
      obtain ⟨k, v⟩ := q
      intro acc h
      have hk : k ∉ acc.map (·.1) := by
        rw [List.map_append, List.nodup_append] at h
        exact fun hmem => h.2.2 k hmem k List.mem_cons_self rfl
      simp only [List.foldl_cons, putPair_of_notMem hk]
      rw [ih _ (by simpa using h), List.append_assoc]
      rfl
  exact fold pairs [] h

end PlatformGame
