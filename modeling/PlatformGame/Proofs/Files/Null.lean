import PlatformGame.Proofs.Files.Disk

/-! # Null characters in names

No disk is asked about a path with a null character in it: such a path is found out before anything
is changed (`Disk.furnished_makeFolders`), and any other is never refused for that reason. -/

namespace PlatformGame

variable {p : Path} {d d' : Disk}

/-! ## Paths without null characters -/

namespace Path

theorem mem_of_mem_splitSlashes {part cs : List Char} {n : String} (h : n ∈ splitSlashes part cs)
    {c : Char} (hc : c ∈ n.toList) : c ∈ part ∨ c ∈ cs := by
  induction cs generalizing part with
  | nil =>
    obtain rfl := List.mem_singleton.1 h
    exact .inl (by simpa using hc)
  | cons x cs ih =>
    rw [splitSlashes] at h
    split at h
    · obtain rfl | h := List.mem_cons.1 h
      · exact .inl (by simpa using hc)
      · exact .inr (.tail _ ((ih h).resolve_left List.not_mem_nil))
    · obtain hpart | hcs := ih h
      · obtain rfl | hpart := List.mem_cons.1 hpart
        · exact .inr List.mem_cons_self
        · exact .inl hpart
      · exact .inr (.tail _ hcs)

theorem hasNull_eq_false : p.hasNull = false ↔ ∀ n ∈ p.names, '\x00' ∉ n.toList := by
  simp [hasNull]

theorem hasNull_ofText {s : String} (h : '\x00' ∉ s.toList) : (ofText s).hasNull = false := by
  rw [hasNull_eq_false]
  intro n hn hnull
  obtain hc | hc := mem_of_mem_splitSlashes (List.mem_filter.1 hn).1 hnull
  · exact List.not_mem_nil hc
  · exact h hc

theorem notMem_name (h : p.hasNull = false) : '\x00' ∉ p.name.toList := by
  rw [name]
  cases hlast : p.names.getLast? with
  | none => exact List.not_mem_nil
  | some n => exact hasNull_eq_false.1 h n (List.mem_of_getLast? hlast)

theorem notMem_stem (h : p.hasNull = false) : '\x00' ∉ p.stem.toList := by
  have hname := notMem_name h
  rw [stem, stemOf]
  split
  · exact hname
  · intro hnull
    rw [String.toList_ofList, List.mem_reverse] at hnull
    have hmem := (List.dropWhile_suffix _).subset (List.mem_of_mem_drop hnull)
    exact hname (List.mem_reverse.1 hmem)

theorem hasNull_parent (h : p.hasNull = false) : p.parent.hasNull = false := by
  rw [hasNull_eq_false] at h ⊢
  exact fun n hn => h n (List.dropLast_subset _ hn)

theorem hasNull_follow {place names : List String} (hplace : ∀ n ∈ place, '\x00' ∉ n.toList)
    (hnames : ∀ n ∈ names, '\x00' ∉ n.toList) :
    ∀ n ∈ follow place names, '\x00' ∉ n.toList := by
  induction names generalizing place with
  | nil => exact hplace
  | cons m names ih =>
    rw [List.forall_mem_cons] at hnames
    apply ih _ hnames.2
    split
    · exact fun n hn => hplace n (List.dropLast_subset _ hn)
    · exact List.forall_mem_append.2 ⟨hplace, List.forall_mem_singleton.2 hnames.1⟩

theorem hasNull_child {name : String} (hp : p.hasNull = false)
    (hname : (ofText name).hasNull = false) : (p.child name).hasNull = false := by
  unfold child join
  split
  · rw [hasNull, List.any_append]
    exact Bool.or_eq_false_iff.2 ⟨hp, hname⟩
  · exact hname

theorem hasNull_dropLast {root : Root} {n : String} {above : List String}
    (h : (⟨root, (n :: above).reverse⟩ : Path).hasNull = false) :
    (⟨root, above.reverse⟩ : Path).hasNull = false := by
  have habove := hasNull_parent h
  rwa [parent, List.reverse_cons, List.dropLast_concat] at habove

end Path

namespace Disk

/-! ## Names with a null character -/

theorem walk_ne_null (d : Disk) (place ns : List String) :
    d.walk place ns ≠ .error .nullInName := by
  intro h
  induction ns generalizing place with
  | nil => cases h
  | cons n ns ih =>
    rw [walk] at h
    split at h
    · split at h
      · cases h
      · exact ih _ h
    · cases h
    · cases h

theorem find_eq_null : d.find p = .error .nullInName ↔ p.hasNull = true := by
  rw [find]
  cases p.hasNull with
  | true => simp
  | false =>
    simp only [Bool.false_eq_true, if_false, iff_false]
    intro h
    split at h
    · cases h
    · exact d.walk_ne_null _ _ h

theorem createFolder_eq_null : d.createFolder p = .error .nullInName ↔ p.hasNull = true := by
  apply (bind_eq_error fun place => ?_).trans find_eq_null
  split <;> nofun

theorem write_eq_null {bytes : List UInt8} :
    d.write p bytes = .error .nullInName ↔ p.hasNull = true := by
  apply (bind_eq_error fun place => ?_).trans find_eq_null
  split <;> nofun

/-! ## Making folders -/

/-- The same files at the same places, whatever folders there are. -/
def SameFiles (d d' : Disk) : Prop :=
  ∀ q bytes, d'.node? q = some (.file bytes) ↔ d.node? q = some (.file bytes)

theorem SameFiles.trans {d'' : Disk} (h : SameFiles d d') (h' : SameFiles d' d'') :
    SameFiles d d'' := fun q bytes => (h' q bytes).trans (h q bytes)

theorem sameFiles_createFolder (h : d.createFolder p = .ok d') : SameFiles d d' := by
  intro q bytes
  obtain ⟨place, -, h⟩ := bind_eq_ok.1 h
  split at h
  · next hnone =>
    cases h
    have hplace : place ≠ [] := by
      rintro rfl
      cases hnone
    rw [node?_put hplace]
    split
    · next heq =>
      rw [heq, hnone]
      exact iff_of_false nofun nofun
    · exact .rfl
  · cases h

/-- What making a folder comes to: no file is touched, and a null character is found out before
anything is made. -/
structure Furnished (d : Disk) (p : Path) (r : Except FileError Unit) (d' : Disk) : Prop where
  files : SameFiles d d'
  ok : r = .ok () → p.hasNull = false
  null : ∀ e, r = .error e → e.fault = .nullInName → p.hasNull = true ∧ d' = d

theorem createFolder_cases (d : Disk) (p : Path) :
    (∃ d', storage.createFolder p d = (.ok (), d') ∧ d.createFolder p = .ok d') ∨
      ∃ f, storage.createFolder p d = (.error f, d) ∧ d.createFolder p = .error f := by
  have hrun : storage.createFolder p d = step (·.createFolder p) d := rfl
  rw [hrun, step]
  cases d.createFolder p with
  | ok d' => exact .inl ⟨d', rfl, rfl⟩
  | error f => exact .inr ⟨f, rfl, rfl⟩

theorem kind_eq_ok {k : FileKind} : d.kind p = .ok k ↔ ∃ n, d.nodeAt p = .ok n ∧ n.kind = k := by
  rw [kind]
  cases d.nodeAt p <;> simp [Except.map]

theorem furnished_of_refused {f : Fault} (h : f = .nullInName → p.hasNull = true) :
    Furnished d p (.error ⟨f, p⟩) d := by
  refine ⟨fun _ _ => .rfl, nofun, ?_⟩
  rintro _ ⟨⟩ hnull
  exact ⟨h hnull, rfl⟩

theorem furnished_excuse {f : Fault} (h : d.createFolder p = .error f) :
    Furnished d p (storage.excuse p f d).1 (storage.excuse p f d).2 := by
  have hfolder : storage.isFolder p d = (p.passes (· == .folder) (d.kind p), d) := rfl
  have hrefused : Furnished d p (.error ⟨f, p⟩) d := by
    apply furnished_of_refused
    rintro rfl
    exact createFolder_eq_null.1 h
  rw [Storage.excuse]
  split
  · exact hrefused
  rw [run_bind hfolder]
  cases hkind : d.kind p with
  | ok k =>
    cases k with
    | file => exact hrefused
    | folder =>
      obtain ⟨n, hn, -⟩ := kind_eq_ok.1 hkind
      obtain ⟨place, hplace, -⟩ := nodeAt_eq_ok.1 hn
      refine ⟨fun _ _ => .rfl, fun _ => (find_eq_ok.1 hplace).1, ?_⟩
      rintro _ ⟨⟩
  | error f' =>
    rw [Path.passes]
    split
    · exact hrefused
    · next habsence =>
      apply furnished_of_refused
      rintro rfl
      exact absurd rfl habsence

theorem furnished_of_createFolder (h : d.createFolder p = .ok d') : Furnished d p (.ok ()) d' := by
  obtain ⟨place, hplace, -⟩ := bind_eq_ok.1 h
  refine ⟨sameFiles_createFolder h, fun _ => (find_eq_ok.1 hplace).1, ?_⟩
  rintro _ ⟨⟩

/-- Where the folders above had to be made first, there is no null in the path. -/
theorem Furnished.after {d₁ d₂ : Disk} {q : Path} {r : Except FileError Unit}
    (h : Furnished d₁ q r d₂) (hfiles : SameFiles d d₁) (hp : p.hasNull = false)
    (hq : q.hasNull = false) : Furnished d p r d₂ :=
  ⟨hfiles.trans h.files, fun _ => hp,
    fun e he hnull => absurd (h.null e he hnull).1 (by simp [hq])⟩

theorem furnished_makeFoldersFrom (root : Path.Root) (names : List String) (d : Disk) :
    Furnished d ⟨root, names.reverse⟩ (storage.makeFoldersFrom root names d).1
      (storage.makeFoldersFrom root names d).2 := by
  induction names with
  | nil =>
    rw [Storage.makeFoldersFrom]
    obtain ⟨d', hrun, hdone⟩ | ⟨f, hrun, hrefused⟩ := createFolder_cases d ⟨root, []⟩
    · rw [run_bind hrun]
      exact furnished_of_createFolder hdone
    · rw [run_bind hrun]
      exact furnished_excuse hrefused
  | cons n above ih =>
    rw [Storage.makeFoldersFrom]
    obtain ⟨d', hrun, hdone⟩ | ⟨f, hrun, hrefused⟩ :=
      createFolder_cases d ⟨root, (n :: above).reverse⟩
    · rw [run_bind hrun]
      exact furnished_of_createFolder hdone
    rw [run_bind hrun]
    by_cases hmissing : f = .missing
    · subst hmissing
      -- The disk has been asked about the path, so from here on no null can turn up.
      have hp : (⟨root, (n :: above).reverse⟩ : Path).hasNull = false := by
        rw [← Bool.not_eq_true, ← createFolder_eq_null (d := d), hrefused]
        nofun
      obtain ⟨⟨r₁, d₁⟩, habove⟩ : ∃ x, storage.makeFoldersFrom root above d = x := ⟨_, rfl⟩
      rw [habove] at ih
      dsimp only
      rw [run_bind habove]
      cases r₁ with
      | error e => exact ih.after (fun _ _ => .rfl) hp (Path.hasNull_dropLast hp)
      | ok =>
        obtain ⟨d₂, hrun, hdone⟩ | ⟨f, hrun, hrefused⟩ :=
          createFolder_cases d₁ ⟨root, (n :: above).reverse⟩
        · dsimp only
          rw [run_bind hrun]
          exact (furnished_of_createFolder hdone).after ih.files hp hp
        · dsimp only
          rw [run_bind hrun]
          exact (furnished_excuse hrefused).after ih.files hp hp
    · cases f <;> first | exact absurd rfl hmissing | exact furnished_excuse hrefused

theorem furnished_makeFolders (p : Path) (d : Disk) :
    Furnished d p (storage.makeFolders p d).1 (storage.makeFolders p d).2 := by
  have h := furnished_makeFoldersFrom p.root p.names.reverse d
  rwa [List.reverse_reverse] at h

end Disk

end PlatformGame
