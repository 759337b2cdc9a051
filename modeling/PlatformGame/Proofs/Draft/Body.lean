import PlatformGame.Draft.Assemble
import PlatformGame.Proofs.Data.Pairs
import PlatformGame.Proofs.Draft.Build

/-! # Bodies of blocks

What the parts of a body come to, key by key (`valueOf`): the last single value, or all items that
are appended, in order. A thing that is described by a body whose parts fit its fields has these
values (`addParts_construct`); nothing is warned about, and order matters only within a key. -/

namespace PlatformGame.Draft

variable {ps : List (String × Sketch)} {kind : RecordKind} {key : String} {earlier : Option Sketch}

/-! ## Bags with texts for keys -/

namespace Bag

def ofPairs (ps : List (String × Sketch)) : Bag := ps.map fun e => (.text e.1, e.2)

theorem sameKey_text (s t : String) : (Sketch.text s).sameKey (.text t) = (s == t) := by
  simp [Sketch.sameKey, Sketch.sameLeaf, Sketch.text?, Sketch.sameTokenKind]

theorem get?_ofPairs (ps : List (String × Sketch)) (k : String) :
    (ofPairs ps).get? (.text k) = ps.lookup k := by
  induction ps with
  | nil => rfl
  | cons p ps ih =>
    simp only [get?, ofPairs, List.map_cons, List.find?_cons, sameKey_text] at ih ⊢
    rw [List.lookup_cons, Bool.beq_comm]
    split
    · simp
    · exact ih

theorem put_ofPairs (k : String) (v : Sketch) (ps : List (String × Sketch)) :
    put (.text k) v (ofPairs ps) = ofPairs (putPair k v ps) := by
  induction ps with
  | nil => rfl
  | cons p ps ih =>
    simp only [put, ofPairs, List.map_cons, sameKey_text, beq_iff_eq, putPair] at ih ⊢
    split
    · next h => simp [h]
    · simp [ih]

theorem mapM_ofPairs (ps : List (String × Sketch)) :
    (ofPairs ps).mapM (fun e => e.1.text?) = some (ps.map (·.1)) := by
  induction ps with
  | nil => rfl
  | cons p ps ih =>
    simp only [ofPairs, List.map_cons, List.mapM_cons] at ih ⊢
    rw [ih]
    rfl

end Bag

/-! ## What the parts of a body come to -/

/-- The items of a list that may not be there. -/
def itemsOf : Option Sketch → List Sketch
  | some (.tuple items) => items
  | _ => []

/-- The value under a key after one more part. -/
def valueStep (key : String) (earlier : Option Sketch) : Sketch → Option Sketch
  | .record .clip values =>
    if key = "animations" then some (.tuple (itemsOf earlier ++ [.record .clip values]))
    else earlier
  | .property (.text k) value appends =>
    if key = k then
      some (if appends then .tuple (itemsOf earlier ++ value.items?.getD []) else value)
    else earlier
  | _ => earlier

/-- The value under a key, if any part sets it. -/
def valueOf (key : String) (parts : List Sketch) : Option Sketch :=
  parts.foldl (valueStep key) none

/-- A part that sets a single value under one of the first keys, or appends to a list under one of
the others. -/
inductive Fits (singles lists : List String) : Sketch → Prop
  | clip : "animations" ∈ lists → Fits singles lists (.record .clip values)
  | single : k ∈ singles → Fits singles lists (.property (.text k) value false)
  | more : k ∈ lists → Fits singles lists (.property (.text k) (.tuple items) true)

/-- The pairs of a bag after one more part. -/
def addPair (ps : List (String × Sketch)) : Sketch → List (String × Sketch)
  | .record .clip values =>
    putPair "animations" (.tuple (itemsOf (ps.lookup "animations") ++ [.record .clip values])) ps
  | .property (.text k) value appends =>
    putPair k
      (if appends then .tuple (itemsOf (ps.lookup k) ++ value.items?.getD []) else value) ps
  | _ => ps

theorem lookup_addPair (ps : List (String × Sketch)) (x : Sketch) (key : String) :
    (addPair ps x).lookup key = valueStep key (ps.lookup key) x := by
  unfold addPair valueStep
  split
  · rw [lookup_putPair]
    split
    · next h => rw [h]
    · rfl
  · rw [lookup_putPair]
    split
    · next h => rw [h]
    · rfl
  · rfl

theorem lookup_foldl_addPair (ps : List (String × Sketch)) (parts : List Sketch) (key : String) :
    (parts.foldl addPair ps).lookup key = parts.foldl (valueStep key) (ps.lookup key) := by
  induction parts generalizing ps with
  | nil => rfl
  | cons x parts ih => rw [List.foldl_cons, List.foldl_cons, ih, lookup_addPair]

/-- The keys of a bag are all different and among the given ones, and lists stand under the keys
that are appended to. -/
structure Proper (singles lists : List String) (ps : List (String × Sketch)) : Prop where
  nodup : (ps.map (·.1)).Nodup
  subset : ∀ k ∈ ps.map (·.1), k ∈ singles ∨ k ∈ lists
  lists : ∀ k ∈ lists, ∀ v, ps.lookup k = some v → ∃ items, v = .tuple items

theorem Proper.nil (singles lists : List String) : Proper singles lists [] where
  nodup := by simp
  subset := by simp
  lists := by simp

theorem Proper.putPair {singles lists : List String} (h : Proper singles lists ps) {k : String}
    {v : Sketch} (hk : k ∈ singles ∨ k ∈ lists) (hv : k ∈ lists → ∃ items, v = .tuple items) :
    Proper singles lists (putPair k v ps) where
  nodup := nodup_putPair h.nodup
  subset k' hk' := by
    rcases mem_keys_putPair.1 hk' with rfl | hk'
    · exact hk
    · exact h.subset k' hk'
  lists k' hk' v' hv' := by
    rw [lookup_putPair] at hv'
    split at hv'
    · next heq =>
      cases hv'
      exact hv (heq ▸ hk')
    · exact h.lists k' hk' v' hv'

theorem Proper.addPair {singles lists : List String} (h : Proper singles lists ps)
    (hdis : ∀ k ∈ singles, k ∉ lists) {x : Sketch} (hx : Fits singles lists x) :
    Proper singles lists (addPair ps x) := by
  cases hx with
  | clip hk => exact h.putPair (.inr hk) fun _ => ⟨_, rfl⟩
  | single hk => exact h.putPair (.inl hk) fun hl => absurd hl (hdis _ hk)
  | more hk => exact h.putPair (.inr hk) fun _ => ⟨_, rfl⟩

theorem Proper.filter {singles lists : List String} (h : Proper singles lists ps)
    (keys : List String) : Proper keys [] (ps.filter fun e => keys.contains e.1) where
  nodup := (List.filter_sublist.map _).nodup h.nodup
  subset k hk := by
    obtain ⟨e, he, rfl⟩ := List.mem_map.1 hk
    exact .inl (by simpa using (List.mem_filter.1 he).2)
  lists := by simp

namespace Node

theorem put_text (n : Node) (ps : List (String × Sketch)) (k : String) (v : Sketch) :
    n.put (.ofPairs ps) (.text k) v = pure (.ofPairs (putPair k v ps)) := by
  rw [← Bag.put_ofPairs]
  rfl

theorem append_text (n : Node) {singles lists : List String} (h : Proper singles lists ps)
    {k : String} (hk : k ∈ lists) (items : List Sketch) : n.append (.ofPairs ps) (.text k) items =
      pure (.ofPairs (putPair k (.tuple (itemsOf (ps.lookup k) ++ items)) ps)) := by
  unfold append
  rw [Bag.get?_ofPairs]
  cases hv : ps.lookup k with
  | none => exact n.put_text ps k _
  | some v =>
    obtain ⟨earlier, rfl⟩ := h.lists k hk v hv
    exact n.put_text ps k _

theorem addPart_ofPairs (n : Node) {singles lists : List String} (h : Proper singles lists ps)
    {x : Sketch} (hx : Fits singles lists x) :
    n.addPart (.ofPairs ps) x = pure (.ofPairs (addPair ps x)) := by
  cases hx with
  | clip hk => exact n.append_text h hk _
  | single hk => exact n.put_text ps _ _
  | more hk => exact n.append_text h hk _

theorem addParts_ofPairs (n : Node) {singles lists : List String} (hdis : ∀ k ∈ singles, k ∉ lists)
    {parts : List Sketch} (hfit : ∀ x ∈ parts, Fits singles lists x) (h : Proper singles lists ps) :
    n.addParts (.ofPairs ps) parts = pure (.ofPairs (parts.foldl addPair ps)) ∧
      Proper singles lists (parts.foldl addPair ps) := by
  induction parts generalizing ps with
  | nil => exact ⟨rfl, h⟩
  | cons x parts ih =>
    rw [List.forall_mem_cons] at hfit
    have hstep := h.addPair hdis hfit.1
    rw [addParts, n.addPart_ofPairs h hfit.1, pure_bind, List.foldl_cons]
    exact ih hfit.2 hstep

theorem keyFault?_eq_none {taken keys : List String} (hnodup : keys.Nodup)
    (htaken : ∀ k ∈ keys, k ∉ taken) (hfields : ∀ k ∈ keys, k ∈ kind.fields) :
    keyFault? kind taken keys = none := by
  induction keys generalizing taken with
  | nil => rfl
  | cons k keys ih =>
    rw [List.nodup_cons] at hnodup
    rw [List.forall_mem_cons] at htaken hfields
    have hk : ∀ k' ∈ keys, k' ∉ k :: taken := by
      intro k' hk'
      rw [List.mem_cons, not_or]
      exact ⟨fun heq => hnodup.1 (heq ▸ hk'), htaken.2 k' hk'⟩
    simp [keyFault?, htaken.1, hfields.1, ih hnodup.2 hk hfields.2]

/-- The value of a field of a thing that is described by a body. -/
def fieldValue (kind : RecordKind) (given : List (String × Sketch)) (parts : List Sketch)
    (field : String) : Sketch :=
  ((given.lookup field).or (valueOf field parts)).getD (unset kind field)

/-- The keys of a body are fields of the thing that are not given otherwise. -/
structure Suits (kind : RecordKind) (given singles lists : List String) : Prop where
  disjoint : ∀ k ∈ singles, k ∉ lists
  fields : ∀ k ∈ singles ++ lists, k ∈ kind.fields
  free : ∀ k ∈ singles ++ lists, k ∉ given
  ownKey : ownKey ∉ kind.fields

theorem construct_ofPairs (n : Node) {given : List (String × Sketch)} {singles lists : List String}
    (hs : Suits kind (given.map (·.1)) singles lists) (h : Proper singles lists ps) :
    n.construct kind given (.ofPairs ps) = pure (.record kind (kind.fields.map fun field =>
      ((given.lookup field).or (ps.lookup field)).getD (unset kind field))) := by
  have hkeys : ∀ k ∈ ps.map (·.1), k ∈ singles ++ lists := fun k hk =>
    List.mem_append.2 (h.subset k hk)
  have hgiven : given.find? (fun g => (ps.lookup g.1).isSome) = none := by
    rw [List.find?_eq_none]
    intro g hg
    rw [List.lookup_isSome_iff]
    rintro ⟨p, hp, heq⟩
    have hmem := hkeys p.1 (List.mem_map_of_mem hp)
    exact hs.free p.1 hmem (beq_iff_eq.1 heq ▸ List.mem_map_of_mem hg)
  have hfault : keyFault? kind [Node.ownKey] (ps.map (·.1)) = none := by
    refine keyFault?_eq_none h.nodup (fun k hk => ?_) fun k hk => hs.fields k (hkeys k hk)
    rw [List.mem_singleton]
    rintro rfl
    exact hs.ownKey (hs.fields _ (hkeys _ hk))
  simp only [construct, hgiven, Bag.mapM_ofPairs, hfault, Bag.get?_ofPairs]

/-- A thing has the values that the parts of its body come to. -/
theorem addParts_construct (n : Node) {given : List (String × Sketch)} {singles lists : List String}
    (hs : Suits kind (given.map (·.1)) singles lists) {parts : List Sketch}
    (hfit : ∀ x ∈ parts, Fits singles lists x) :
    (do n.construct kind given (← n.addParts [] parts)) =
      pure (.record kind (kind.fields.map (fieldValue kind given parts))) := by
  obtain ⟨hparts, hproper⟩ := n.addParts_ofPairs hs.disjoint hfit (Proper.nil singles lists)
  change n.addParts [] parts = _ at hparts
  rw [hparts, pure_bind, n.construct_ofPairs hs hproper]
  simp only [lookup_foldl_addPair, List.lookup_nil]
  rfl

theorem described_eq (n : Node) {singles lists : List String} (hs : Suits kind [] singles lists)
    (hfit : ∀ x ∈ n.parts, Fits singles lists x) :
    n.described kind = pure (.record kind (kind.fields.map (fieldValue kind [] n.parts))) :=
  n.addParts_construct hs hfit

theorem describedAs_eq (n : Node) {field : String} {singles lists : List String}
    (hs : Suits kind [field] singles lists) {name : Sketch} {body : List Sketch}
    (hparts : n.parts = name :: body) (hfit : ∀ x ∈ body, Fits singles lists x) :
    n.describedAs kind field =
      pure (.record kind (kind.fields.map (fieldValue kind [(field, name)] body))) := by
  rw [describedAs, named, hparts]
  exact n.addParts_construct hs hfit

end Node

/-! ## Bodies of known sorts -/

/-- A part that fits, whose value, or the items that it appends, are of the sort of its key. Clips
are the only animations. -/
inductive Entry (singles lists : List String) (T : String → Sketch → Prop) : Sketch → Prop
  | clip : "animations" ∈ lists → T "animations" (.record .clip values) →
    Entry singles lists T (.record .clip values)
  | single : k ∈ singles → T k value → Entry singles lists T (.property (.text k) value false)
  | more : k ∈ lists → k ≠ "animations" → (∀ x ∈ items, T k x) →
    Entry singles lists T (.property (.text k) (.tuple items) true)

section

variable {singles lists : List String} {T : String → Sketch → Prop} {parts : List Sketch}

theorem Entry.fits {x : Sketch} (h : Entry singles lists T x) : Fits singles lists x := by
  cases h with
  | clip hk _ => exact .clip hk
  | single hk _ => exact .single hk
  | more hk _ _ => exact .more hk

/-- What may stand under a key: a value of its sort, or a list of items of its sort. -/
def Sorted (singles : List String) (T : String → Sketch → Prop) (key : String) (v : Sketch) :
    Prop :=
  if key ∈ singles then T key v
  else ∃ items, v = .tuple items ∧ (key = "animations" → items ≠ []) ∧ ∀ x ∈ items, T key x

theorem Sorted.append {items : List Sketch} (hkey : key ∉ singles)
    (h : ∀ v ∈ earlier, Sorted singles T key v) (hne : key = "animations" → items ≠ [])
    (hitems : ∀ x ∈ items, T key x) : Sorted singles T key (.tuple (itemsOf earlier ++ items)) := by
  have hearlier : ∀ x ∈ itemsOf earlier, T key x := by
    cases earlier with
    | none => exact fun x hx => nomatch hx
    | some v =>
      have hv := h v rfl
      rw [Sorted, if_neg hkey] at hv
      obtain ⟨old, rfl, -, hold⟩ := hv
      exact hold
  rw [Sorted, if_neg hkey]
  refine ⟨_, rfl, fun hk hnil => hne hk (List.append_eq_nil_iff.1 hnil).2, fun x hx => ?_⟩
  exact (List.mem_append.1 hx).elim (hearlier x) (hitems x)

theorem Sorted.valueStep (hdis : ∀ k ∈ singles, k ∉ lists)
    (h : ∀ v ∈ earlier, Sorted singles T key v) {x : Sketch} (hx : Entry singles lists T x) :
    ∀ v ∈ valueStep key earlier x, Sorted singles T key v := by
  intro v hv
  cases hx with
  | clip hk hT =>
    simp only [Draft.valueStep] at hv
    split at hv
    · next heq =>
      cases hv
      have hkey : key ∉ singles := fun hs => hdis key hs (heq ▸ hk)
      exact Sorted.append hkey h (fun _ => List.cons_ne_nil _ _) (by simpa [heq] using hT)
    · exact h v hv
  | single hk hT =>
    simp only [Draft.valueStep] at hv
    split at hv
    · next heq =>
      cases hv
      rw [Sorted, if_pos (heq ▸ hk)]
      simpa [heq] using hT
    · exact h v hv
  | more hk hne hT =>
    simp only [Draft.valueStep] at hv
    split at hv
    · next heq =>
      cases hv
      have hkey : key ∉ singles := fun hs => hdis key hs (heq ▸ hk)
      exact Sorted.append hkey h (fun h => absurd (heq ▸ h) hne) (heq ▸ hT)
    · exact h v hv

theorem sorted_valueOf (hdis : ∀ k ∈ singles, k ∉ lists)
    (hparts : ∀ x ∈ parts, Entry singles lists T x) (key : String) :
    ∀ v ∈ valueOf key parts, Sorted singles T key v := by
  have fold : ∀ (parts : List Sketch) (earlier : Option Sketch),
      (∀ x ∈ parts, Entry singles lists T x) → (∀ v ∈ earlier, Sorted singles T key v) →
      ∀ v ∈ parts.foldl (valueStep key) earlier, Sorted singles T key v := by
    intro parts
    induction parts with
    | nil => exact fun _ _ h => h
    | cons x parts ih =>
      intro earlier hparts h
      rw [List.forall_mem_cons] at hparts
      exact ih _ hparts.2 (Sorted.valueStep hdis h hparts.1)
  exact fold parts none hparts (fun v hv => nomatch hv)

/-- What is set stays set. -/
theorem isSome_foldl_valueStep (h : earlier.isSome = true) :
    (parts.foldl (valueStep key) earlier).isSome = true := by
  induction parts generalizing earlier with
  | nil => exact h
  | cons x parts ih =>
    refine ih ?_
    unfold valueStep
    split
    · split
      · rfl
      · exact h
    · split
      · rfl
      · exact h
    · exact h

/-- A body with a part sets something. -/
theorem exists_valueOf (hparts : ∀ x ∈ parts, Fits singles lists x) (hne : parts ≠ []) :
    ∃ k ∈ singles ++ lists, (valueOf k parts).isSome = true := by
  cases parts with
  | nil => exact absurd rfl hne
  | cons x parts =>
    have hfirst : ∃ k ∈ singles ++ lists, (valueStep k none x).isSome = true := by
      cases hparts x List.mem_cons_self with
      | clip hk => exact ⟨_, List.mem_append_right _ hk, by simp [valueStep]⟩
      | single hk => exact ⟨_, List.mem_append_left _ hk, by simp [valueStep]⟩
      | more hk => exact ⟨_, List.mem_append_right _ hk, by simp [valueStep]⟩
    obtain ⟨k, hk, hsome⟩ := hfirst
    refine ⟨k, hk, ?_⟩
    rw [valueOf, List.foldl_cons]
    exact isSome_foldl_valueStep hsome

theorem eq_nil_of_valueOf (hparts : ∀ x ∈ parts, Fits singles lists x)
    (h : ∀ k ∈ singles ++ lists, valueOf k parts = none) : parts = [] := by
  cases parts with
  | nil => rfl
  | cons x parts =>
    obtain ⟨k, hk, hsome⟩ := exists_valueOf hparts (List.cons_ne_nil x parts)
    rw [h k hk] at hsome
    cases hsome

end

namespace Node

/-! ## Movements -/

/-- The keys that the parts of a body set, in order of first mention. -/
def keysOf (parts : List Sketch) : List String := (parts.foldl addPair []).map (·.1)

theorem lookup_filter {keep : String → Bool} {k : String} (hk : keep k = true) :
    (ps.filter fun e => keep e.1).lookup k = ps.lookup k := by
  induction ps with
  | nil => rfl
  | cons p ps ih =>
    obtain ⟨a, v⟩ := p
    by_cases ha : keep a = true
    · simp [ha, List.lookup_cons, ih]
    · have hne : (k == a) = false := beq_false_of_ne fun h => ha (h ▸ hk)
      simp [ha, List.lookup_cons, ih, hne]

theorem filter_ofPairs (ps : List (String × Sketch)) (keep : Sketch → Bool) :
    (Bag.ofPairs ps).filter (fun e => keep e.1) =
      Bag.ofPairs (ps.filter fun e => keep (.text e.1)) := by
  simp only [Bag.ofPairs, List.filter_map]
  rfl

/-- A movement has the values of the parameters that it uses; each other parameter is warned about
once. -/
theorem movement_eq (n : Node) {singles : List String} (hfit : ∀ x ∈ n.parts, Fits singles [] x)
    (hown : ownKey ∉ kind.fields) :
    n.movement kind = ⟨((keysOf n.parts).filter fun k => !kind.fields.contains k).map fun k =>
        .ignoredParameter (kind.tag?.getD "") k n.place,
      .ok (.record kind (kind.fields.map (fieldValue kind [] n.parts)))⟩ := by
  obtain ⟨hparts, hproper⟩ := n.addParts_ofPairs (by simp) hfit (Proper.nil singles [])
  change n.addParts [] n.parts = _ at hparts
  have hused := hproper.filter kind.fields
  have hs : Suits kind ([].map (·.1 : String × Sketch → String)) kind.fields [] :=
    ⟨by simp, by simp, by simp, hown⟩
  have huses : ∀ k, uses kind (.text k) = kind.fields.contains k := fun _ => rfl
  have hvalues : (kind.fields.map fun field => ((([] : List (String × Sketch)).lookup field).or
      (((n.parts.foldl addPair []).filter fun e => kind.fields.contains e.1).lookup field)).getD
        (unset kind field)) = kind.fields.map (fieldValue kind [] n.parts) := by
    refine List.map_congr_left fun field hfield => ?_
    rw [lookup_filter (by simpa using hfield), lookup_foldl_addPair]
    rfl
  rw [movement, hparts, pure_bind, filter_ofPairs _ (uses kind),
    filter_ofPairs _ fun x => !uses kind x]
  simp only [huses]
  rw [n.construct_ofPairs hs hused, hvalues]
  have hkeys : ((Bag.ofPairs ((n.parts.foldl addPair []).filter fun e =>
        !kind.fields.contains e.1)).map fun e =>
          Warning.ignoredParameter (kind.tag?.getD "") e.1.plain n.place) =
      ((keysOf n.parts).filter fun k => !kind.fields.contains k).map fun k =>
        .ignoredParameter (kind.tag?.getD "") k n.place := by
    simp only [keysOf, Bag.ofPairs, List.filter_map, List.map_map]
    rfl
  rw [hkeys, Build.warnAll_bind_pure]

/-- Nothing is warned about if a movement uses all its parameters. -/
theorem movement_eq_pure (n : Node) (hfit : ∀ x ∈ n.parts, Fits kind.fields [] x)
    (hown : ownKey ∉ kind.fields) :
    n.movement kind = pure (.record kind (kind.fields.map (fieldValue kind [] n.parts))) := by
  have hproper := (n.addParts_ofPairs (by simp) hfit (Proper.nil kind.fields [])).2
  have hnone : ((keysOf n.parts).filter fun k => !kind.fields.contains k) = [] := by
    rw [List.filter_eq_nil_iff]
    intro k hk
    simpa using hproper.subset k hk
  rw [n.movement_eq hfit hown, hnone]
  rfl

/-! ## Layers -/

/-- The pair of a layer and its name in the tilemap. -/
def layerSketch (l : String × String) : Sketch := .tuple [.text l.1, .text l.2]

/-- Layers become a mapping; a layer that comes again keeps its place. -/
theorem addLayers_eq (n : Node) (ls : List (String × String)) :
    n.addLayers 0 [] (ls.map layerSketch) =
      pure ((putPairs ls).map fun l => (.text l.1, .text l.2)) := by
  have fold : ∀ (ls acc : List (String × String)) (index : Nat),
      n.addLayers index (.ofPairs (acc.map fun l => (l.1, .text l.2))) (ls.map layerSketch) =
        pure ((ls.foldl (fun acc l => putPair l.1 l.2 acc) acc).map
          fun l => (.text l.1, .text l.2)) := by
    intro ls
    induction ls with
    | nil =>
      intro acc index
      rw [List.map_nil, addLayers, Bag.ofPairs, List.map_map]
      rfl
    | cons l ls ih =>
      intro acc index
      simp only [List.map_cons, layerSketch, addLayers, Sketch.items?, put_text, pure_bind]
      rw [putPair_map Sketch.text l.1 l.2 acc]
      exact ih _ _
  exact fold ls [] 0

end Node

end PlatformGame.Draft
