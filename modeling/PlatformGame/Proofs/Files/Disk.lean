import PlatformGame.Files.Disk
import PlatformGame.Proofs.Data.Except
import PlatformGame.Proofs.Data.Pairs

/-! # What a disk keeps

No operation takes anything off a disk. A path that has led to a place leads there for good, a
folder stays a folder, and a file stays as it is unless it is written over. -/

namespace PlatformGame

variable {p : Path} {place : List String} {n : String} {q : List String} {bytes : List UInt8}

/-- A name that is one step down from where it is read. -/
structure Path.Plain (name : String) : Prop where
  read : Path.ofText name = ⟨.here, [name]⟩
  ne_up : name ≠ ".."

namespace Disk

theorem node?_put {d : Disk} (h : place ≠ []) (n : Node) (q : List String) :
    (d.put place n).node? q = if q = place then some n else d.node? q := by
  by_cases hq : q = []
  · subst hq
    rw [if_neg (Ne.symm h)]
    rfl
  · simp only [node?, put, if_neg hq, lookup_putPair]

/-! ## Paths and the places they lead to -/

theorem walk_append (d : Disk) (place ns ms : List String) :
    d.walk place (ns ++ ms) = d.walk place ns >>= fun q => d.walk q ms := by
  induction ns generalizing place with
  | nil => rfl
  | cons n ns ih =>
    simp only [List.cons_append, walk]
    split
    · split
      · rfl
      · exact ih _
    · rfl
    · rfl

theorem walk_concat {d : Disk} {ns : List String} (hn : n ≠ "..")
    (h : d.walk place (ns ++ [n]) = .ok q) :
    ∃ above, d.walk place ns = .ok above ∧ q = above ++ [n] := by
  rw [walk_append] at h
  obtain ⟨above, habove, h⟩ := bind_eq_ok.1 h
  refine ⟨above, habove, ?_⟩
  simp only [walk, if_neg hn] at h
  split at h
  · split at h
    · cases h
    · exact (Except.ok.inj h).symm
  · cases h
  · cases h

theorem find_eq_ok {d : Disk} :
    d.find p = .ok q ↔ p.hasNull = false ∧ p.text.utf8ByteSize ≤ pathLimit ∧
      d.walk (if p.root = .here then d.home else []) p.names = .ok q := by
  rw [find]
  cases p.hasNull with
  | true => simp
  | false =>
    by_cases hlong : pathLimit < p.text.utf8ByteSize
    · simp [hlong, Nat.not_le.2 hlong]
    · simp [hlong, Nat.not_lt.1 hlong]

/-- The place of a path ends with the last name of the path. -/
theorem getLast?_of_find {d : Disk} (h : d.find p = .ok q) (hp : p.names.getLast? = some n)
    (hn : n ≠ "..") : q.getLast? = some n := by
  obtain ⟨ns, hns⟩ := List.getLast?_eq_some_iff.1 hp
  have hwalk := (find_eq_ok.1 h).2.2
  rw [hns] at hwalk
  obtain ⟨above, _, rfl⟩ := walk_concat hn hwalk
  exact List.getLast?_concat

/-- Two names read from one path are side by side. -/
theorem exists_folder {d : Disk} (hn : Path.Plain n) (h : d.find (p.child n) = .ok q) :
    ∃ place, q = place ++ [n] ∧
      ∀ m r, Path.Plain m → d.find (p.child m) = .ok r → r = place ++ [m] := by
  simp only [find_eq_ok, Path.child, Path.join, hn.read, if_true] at h
  obtain ⟨place, hplace, rfl⟩ := walk_concat hn.ne_up h.2.2
  refine ⟨place, rfl, ?_⟩
  intro m r hm hr
  simp only [find_eq_ok, Path.child, Path.join, hm.read, if_true] at hr
  obtain ⟨place', hplace', rfl⟩ := walk_concat hm.ne_up hr.2.2
  rw [Except.ok.inj (hplace'.symm.trans hplace)]

theorem nodeAt_eq_ok {d : Disk} {n : Node} :
    d.nodeAt p = .ok n ↔ ∃ q, d.find p = .ok q ∧ d.node? q = some n := by
  rw [nodeAt, bind_eq_ok]
  refine exists_congr fun q => and_congr_right fun _ => ?_
  cases d.node? q with
  | none => simp [throw, throwThe, MonadExceptOf.throw]
  | some m => simp [pure, Except.pure]

theorem read_eq_ok {d : Disk} :
    d.read p = .ok bytes ↔ ∃ q, d.find p = .ok q ∧ d.node? q = some (.file bytes) := by
  rw [read, bind_eq_ok, ← nodeAt_eq_ok]
  constructor
  · rintro ⟨n, hn, h⟩
    cases n with
    | file b =>
      cases h
      exact hn
    | folder => cases h
  · exact fun h => ⟨_, h, rfl⟩

/-! ## Keeping -/

/-- What stands on a disk stands on a later one, but for what may have been written over files. -/
structure Keeps (written : List String → List UInt8 → Prop) (d d' : Disk) : Prop where
  home : d'.home = d.home
  folder : ∀ q, d.node? q = some .folder → d'.node? q = some .folder
  file : ∀ q bytes, d.node? q = some (.file bytes) →
    d'.node? q = some (.file bytes) ∨ ∃ new, written q new ∧ d'.node? q = some (.file new)

/-- Nothing is written over a file. -/
abbrev Extends : Disk → Disk → Prop := Keeps fun _ _ => False

namespace Keeps

variable {written written' : List String → List UInt8 → Prop} {d d' d'' : Disk}

protected theorem refl (d : Disk) : Keeps written d d :=
  ⟨rfl, fun _ h => h, fun _ _ h => .inl h⟩

theorem mono (h : Keeps written d d') (hw : ∀ q bytes, written q bytes → written' q bytes) :
    Keeps written' d d' := by
  refine ⟨h.home, h.folder, fun q bytes hq => ?_⟩
  obtain hkept | ⟨new, hnew, hn⟩ := h.file q bytes hq
  · exact .inl hkept
  · exact .inr ⟨new, hw q new hnew, hn⟩

protected theorem trans (h : Keeps written d d') (h' : Keeps written d' d'') :
    Keeps written d d'' := by
  refine ⟨h'.home.trans h.home, fun q hq => h'.folder q (h.folder q hq), fun q bytes hq => ?_⟩
  obtain hkept | ⟨new, hnew, hn⟩ := h.file q bytes hq
  · exact h'.file q bytes hkept
  · obtain hkept | hover := h'.file q new hn
    · exact .inr ⟨new, hnew, hkept⟩
    · exact .inr hover

theorem walk (h : Keeps written d d') {ns : List String} (hq : d.walk place ns = .ok q) :
    d'.walk place ns = .ok q := by
  induction ns generalizing place with
  | nil => exact hq
  | cons n ns ih =>
    rw [Disk.walk] at hq ⊢
    split at hq
    · next hfolder =>
      rw [h.folder place hfolder]
      simp only
      split at hq
      · cases hq
      · next hlong =>
        rw [if_neg hlong]
        exact ih hq
    · cases hq
    · cases hq

theorem find (h : Keeps written d d') (hq : d.find p = .ok q) : d'.find p = .ok q := by
  rw [find_eq_ok] at hq ⊢
  rw [h.home]
  exact ⟨hq.1, hq.2.1, h.walk hq.2.2⟩

/-- A file that is read holds what it held, or what was written where its path leads. -/
theorem read (h : Keeps written d d') (hp : d.read p = .ok bytes) : d'.read p = .ok bytes ∨
      ∃ q new, d'.find p = .ok q ∧ written q new ∧ d'.read p = .ok new := by
  obtain ⟨q, hq, hn⟩ := read_eq_ok.1 hp
  obtain hkept | ⟨new, hnew, hn⟩ := h.file q bytes hn
  · exact .inl (read_eq_ok.2 ⟨q, h.find hq, hkept⟩)
  · exact .inr ⟨q, new, h.find hq, hnew, read_eq_ok.2 ⟨q, h.find hq, hn⟩⟩

end Keeps

/-! ## Changing a disk -/

theorem extends_createFolder {d d' : Disk} (h : d.createFolder p = .ok d') : Extends d d' := by
  obtain ⟨place, _, h⟩ := bind_eq_ok.1 h
  split at h
  · next hnone =>
    cases h
    have hplace : place ≠ [] := by
      rintro rfl
      cases hnone
    -- Nothing stood where the folder comes to stand, so what stood elsewhere is all there was.
    have hkeep : ∀ q n, d.node? q = some n → (d.put place .folder).node? q = some n := by
      intro q n hq
      rw [node?_put hplace, if_neg]
      · exact hq
      · rintro rfl
        rw [hnone] at hq
        cases hq
    exact ⟨rfl, fun q => hkeep q .folder, fun q bytes hq => .inl (hkeep q _ hq)⟩
  · cases h

theorem keeps_write {d d' : Disk} (h : d.write p bytes = .ok d') :
    ∃ place, d'.find p = .ok place ∧ d'.node? place = some (.file bytes) ∧
      Keeps (fun q new => q = place ∧ new = bytes) d d' := by
  obtain ⟨place, hfind, h⟩ := bind_eq_ok.1 h
  split at h
  · cases h
  · next hfolder =>
    cases h
    have hplace : place ≠ [] := by
      rintro rfl
      exact hfolder rfl
    have hnew : (d.put place (.file bytes)).node? place = some (.file bytes) := by
      rw [node?_put hplace, if_pos rfl]
    have hkeeps : Keeps (fun q new => q = place ∧ new = bytes) d (d.put place (.file bytes)) := by
      refine ⟨rfl, fun q hq => ?_, fun q old hq => ?_⟩
      · rw [node?_put hplace, if_neg]
        · exact hq
        · rintro rfl
          exact hfolder hq
      · by_cases heq : q = place
        · exact .inr ⟨bytes, ⟨heq, rfl⟩, heq ▸ hnew⟩
        · rw [node?_put hplace, if_neg heq]
          exact .inl hq
    exact ⟨place, hkeeps.find hfind, hnew, hkeeps⟩

/-! ## Programs on a disk -/

theorem run_bind {x : StateM Disk α} {f : α → StateM Disk β} {d d' : Disk} {a : α}
    (h : x d = (a, d')) : (x >>= f) d = f a d' := by
  show f (x d).1 (x d).2 = f a d'
  rw [h]

/-- A program writes over no file. -/
def Adds (x : StateM Disk α) : Prop := ∀ d, Extends d (x d).2

namespace Adds

protected theorem pure (a : α) : Adds (pure a) := fun d => .refl d

protected theorem bind {x : StateM Disk α} {f : α → StateM Disk β} (hx : Adds x)
    (hf : ∀ a, Adds (f a)) : Adds (x >>= f) :=
  fun d => (hx d).trans (hf _ _)

end Adds

theorem adds_isFolder (p : Path) : Adds (storage.isFolder p) := fun d => .refl d

theorem adds_createFolder (p : Path) : Adds (storage.createFolder p) := by
  intro d
  show Extends d (step (·.createFolder p) d).2
  rw [step]
  split
  · next h => exact extends_createFolder h
  · exact .refl d

theorem adds_excuse (p : Path) (f : Fault) : Adds (storage.excuse p f) := by
  rw [Storage.excuse]
  split
  · exact .pure _
  · apply (adds_isFolder p).bind
    intro r
    split <;> exact .pure _

theorem adds_makeFoldersFrom (root : Path.Root) (names : List String) :
    Adds (storage.makeFoldersFrom root names) := by
  induction names with
  | nil =>
    apply (adds_createFolder _).bind
    intro r
    split
    · exact .pure _
    · exact adds_excuse _ _
  | cons n above ih =>
    apply (adds_createFolder _).bind
    intro r
    split
    · exact .pure _
    · apply ih.bind
      intro r
      split
      · exact .pure _
      · apply (adds_createFolder _).bind
        intro r
        split
        · exact .pure _
        · exact adds_excuse _ _
    · exact adds_excuse _ _

theorem adds_makeFolders (p : Path) : Adds (storage.makeFolders p) :=
  adds_makeFoldersFrom p.root p.names.reverse

end Disk

end PlatformGame
