import PlatformGame.Game.Symbols

/-! # Looking names up

Of several declarations of one name the first is found, whatever else is declared around it. -/

namespace PlatformGame

namespace Registry

theorem any_eq_isSome_lookup (r : Registry α) (name : String) :
    r.any (·.1 == name) = (r.lookup name).isSome := by
  induction r with
  | nil => rfl
  | cons p r ih =>
    rw [List.any_cons, List.lookup_cons, ih, BEq.comm (a := p.1)]
    cases name == p.1 <;> simp

theorem lookup_add (r : Registry α) (name : String) (a : α) :
    (r.add name a).lookup n = (r.lookup n).or (if name = n then some a else none) := by
  rw [add, any_eq_isSome_lookup]
  by_cases h : name = n
  · subst h
    cases hr : r.lookup name <;> simp [hr, List.lookup_append]
  · have hn : (n == name) = false := beq_false_of_ne (Ne.symm h)
    cases r.lookup name <;> simp [List.lookup_append, List.lookup_cons, h, hn]

theorem lookup_foldl_add (name : α → String) (as : List α) (r : Registry α) :
    (as.foldl (fun r a => r.add (name a) a) r).lookup n =
      (r.lookup n).or (as.find? (name · == n)) := by
  induction as generalizing r with
  | nil => simp
  | cons a as ih =>
    rw [List.foldl_cons, ih, lookup_add, Option.or_assoc, List.find?_cons]
    cases h : name a == n <;> simp_all

theorem lookup_ofList (name : α → String) (as : List α) :
    (ofList name as).lookup n = as.find? (name · == n) := by
  simp [ofList, lookup_foldl_add]

end Registry

/-! ## The names of a draft -/

namespace Draft

theorem mem_foldl_keys (assets : List Asset) (keys : List String) :
    key ∈ assets.foldl (fun keys a => if keys.contains a.key then keys else keys ++ [a.key]) keys ↔
      key ∈ keys ∨ ∃ a ∈ assets, a.key = key := by
  induction assets generalizing keys with
  | nil => simp
  | cons a assets ih =>
    rw [List.foldl_cons, ih]
    by_cases h : a.key ∈ keys <;> grind

theorem mem_assets_symbols (d : Draft) :
    key ∈ d.symbols.assets ↔ ∃ a ∈ d.assets, a.key = key := by
  rw [symbols, mem_foldl_keys]
  simp

@[simp] theorem hasAsset_symbols (d : Draft) :
    d.symbols.hasAsset key = true ↔ ∃ a ∈ d.assets, a.key = key := by
  rw [Symbols.hasAsset, List.contains_iff_mem, mem_assets_symbols]

@[simp] theorem hasAssets_symbols (d : Draft) : d.symbols.hasAssets = true ↔ d.assets ≠ [] := by
  cases hd : d.assets with
  | nil => simp [Symbols.hasAssets, symbols, hd]
  | cons a assets =>
    have ha : a.key ∈ d.symbols.assets := (mem_assets_symbols d).2 ⟨a, by simp [hd], rfl⟩
    simp [Symbols.hasAssets, List.ne_nil_of_mem ha]

@[simp] theorem enemy?_symbols (d : Draft) :
    d.symbols.enemy? name = d.enemies.find? (·.name == name) := Registry.lookup_ofList ..

@[simp] theorem collectible?_symbols (d : Draft) :
    d.symbols.collectible? name = d.collectibles.find? (·.name == name) := Registry.lookup_ofList ..

@[simp] theorem hasLevel_symbols (d : Draft) :
    d.symbols.hasLevel name = true ↔ ∃ l ∈ d.levels, l.name = name := by
  simp [Symbols.hasLevel, symbols, Registry.lookup_ofList]

end Draft

/-! ## The names of a game -/

namespace Game

theorem mem_of_enemy? {g : Game} (h : g.symbols.enemy? name = some e) : e ∈ g.enemies := by
  have hfind : g.enemies.find? (·.name == name) = some e := Registry.lookup_ofList .. ▸ h
  exact List.mem_of_find?_eq_some hfind

theorem mem_of_collectible? {g : Game} (h : g.symbols.collectible? name = some c) :
    c ∈ g.collectibles := by
  have hfind : g.collectibles.find? (·.name == name) = some c := Registry.lookup_ofList .. ▸ h
  exact List.mem_of_find?_eq_some hfind

end Game

end PlatformGame
