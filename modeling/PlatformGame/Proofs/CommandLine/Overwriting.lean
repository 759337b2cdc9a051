import PlatformGame.Proofs.CommandLine.Batches

/-! # Builds that follow one another

The sources of a batch are built one after the other on one disk. A build writes its two files side
by side and leaves every other file as it is, so the files of a game that was built stand until a
later source is built into the same place. -/

namespace PlatformGame

open Text

variable {s : GameSource} {v : Verdict} {q : List String} {bytes : List UInt8} {folder : Path}
  {g : Game} {a : Artifact} {i : Nat}

theorem Text.encodeUtf8_inj {s t : String} (h : encodeUtf8 s = encodeUtf8 t) : s = t := by
  have hbytes : s.toList.utf8Encode = t.toList.utf8Encode := congrArg List.toByteArray h
  rw [String.utf8Encode_toList, String.utf8Encode_toList] at hbytes
  exact String.toByteArray_inj.1 hbytes

/-! ## One game -/

/-- Two files come into a folder side by side, the page first, and nothing else is written over. -/
theorem Disk.Course.keeps {page data : List UInt8} {d d' : Disk} {r : Except FileError Unit}
    (h : Course page data folder pageFile d r d') {written : List String → List UInt8 → Prop}
    (hpage : ∀ place, d'.find (folder.child pageFile) = .ok (place ++ [pageFile]) →
      (r = .ok () ∨ ∃ f, r = .error ⟨f, folder.child dataFile⟩) →
        written (place ++ [pageFile]) page)
    (hdata : ∀ place, d'.find (folder.child pageFile) = .ok (place ++ [pageFile]) → r = .ok () →
      written (place ++ [dataFile]) data) : Keeps written d d' := by
  have hmade : ∀ {r₁ d₁}, storage.makeFolders folder d = (r₁, d₁) → Keeps written d d₁ := by
    intro r₁ d₁ hrun
    have hadds := adds_makeFolders folder d
    rw [hrun] at hadds
    exact hadds.mono fun _ _ => False.elim
  cases h with
  | noFolder hfolder | noPage hfolder => exact hmade hfolder
  | noData hfolder hwrite =>
    obtain ⟨q, hq, -, hkeeps⟩ := keeps_write hwrite
    obtain ⟨place, rfl, -⟩ := exists_folder Path.plain_pageFile hq
    apply (hmade hfolder).trans
    exact hkeeps.mono fun r new hr => hr.1 ▸ hr.2 ▸ hpage place hq (.inr ⟨_, rfl⟩)
  | done hfolder hwrite hwrite' =>
    obtain ⟨q, hq, -, hkeeps⟩ := keeps_write hwrite
    obtain ⟨q', hq', -, hkeeps'⟩ := keeps_write hwrite'
    replace hq := hkeeps'.find hq
    obtain ⟨place, rfl, hbeside⟩ := exists_folder Path.plain_pageFile hq
    obtain rfl := hbeside _ _ Path.plain_dataFile hq'
    apply ((hmade hfolder).trans (hkeeps.mono ?_)).trans (hkeeps'.mono ?_)
    · exact fun r new hr => hr.1 ▸ hr.2 ▸ hpage place hq (.inl rfl)
    · exact fun r new hr => hr.1 ▸ hr.2 ▸ hdata place hq rfl

namespace CommandLine

/-! ## One source -/

/-- A verdict on a source with its page written: it is built, or the data beside the page were
refused. -/
def Verdict.HasPage (folder : Path) : Verdict → Prop
  | built _ _ _ => True
  | failed _ message _ => ∃ f, message = FileError.message ⟨f, folder.child dataFile⟩

theorem Verdict.hasPage_of_isBuilt (h : v.isBuilt = true) : v.HasPage folder := by
  cases v with
  | built => trivial
  | failed => cases h

/-- The page of a game is due at its place in a folder, and the data beside it, as far as a verdict
tells that they were written. -/
inductive Due (g : Game) (a : Artifact) (folder : Path) (v : Verdict) (d : Disk) :
    List String → List UInt8 → Prop
  | page (h : d.find (folder.child pageFile) = .ok (place ++ [pageFile]))
    (hv : v.HasPage folder) : Due g a folder v d (place ++ [pageFile]) (encodeUtf8 a.page)
  | data (h : d.find (folder.child pageFile) = .ok (place ++ [pageFile]))
    (hv : v.isBuilt = true) (htext : g.dataText = .ok text) :
    Due g a folder v d (place ++ [dataFile]) (encodeUtf8 text)

theorem Due.keep {d d' : Disk} (h : Due g a folder v d q bytes) (hkeeps : d.Keeps written d') :
    Due g a folder v d' q bytes := by
  cases h with
  | page h hv => exact .page (hkeeps.find h) hv
  | data h hv htext => exact .data (hkeeps.find h) hv htext

/-- What building a source with a given verdict writes, by the disk at the end. -/
def GameSource.Writes (output : Option Path) (options : Options) (d : Disk) (s : GameSource)
    (v : Verdict) (q : List String) (bytes : List UInt8) : Prop :=
  ∃ g a, s.product? options d = some (g, a) ∧ Due g a (s.folder output) v d q bytes

variable {output : Option Path} {options : Options} {d d' : Disk}

/-! ## Sources are not written over -/

/-- A file is taken for a source by the ending of its name. -/
def IsSource (p : Path) : Prop := ".pf".toList <:+ p.name.toList

instance (p : Path) : Decidable (IsSource p) :=
  inferInstanceAs (Decidable (".pf".toList <:+ p.name.toList))

/-- The place of a file that a build writes. -/
def IsResult (q : List String) : Prop := q.getLast? = some pageFile ∨ q.getLast? = some dataFile

theorem isResult_of_due (h : Due g a folder v d q bytes) : IsResult q := by
  cases h with
  | page => exact .inl List.getLast?_concat
  | data => exact .inr List.getLast?_concat

theorem isResult_of_writes (h : s.Writes output options d v q bytes) : IsResult q := by
  obtain ⟨g, a, -, hdue⟩ := h
  exact isResult_of_due hdue

theorem IsSource.not_isResult {p : Path} (hp : IsSource p) (hq : d.find p = .ok q) :
    ¬ IsResult q := by
  rw [IsSource, Path.name] at hp
  cases hn : p.names.getLast? with
  | none =>
    rw [hn] at hp
    exact absurd hp (by decide)
  | some n =>
    rw [hn, Option.getD_some] at hp
    have hlast : ∀ m : String, ¬ ".pf".toList <:+ m.toList → n ≠ m := by
      rintro m hm rfl
      exact hm hp
    have hplace := Disk.getLast?_of_find hq hn (hlast ".." (by decide))
    rintro (h | h)
    · exact hlast pageFile (by decide) (Option.some.inj (hplace.symm.trans h))
    · exact hlast dataFile (by decide) (Option.some.inj (hplace.symm.trans h))

theorem IsSource.read_keep {p : Path} (hp : IsSource p) (hkeeps : Disk.Keeps written d d')
    (hw : ∀ q new, written q new → IsResult q) (h : d.read p = .ok bytes) :
    d'.read p = .ok bytes := by
  obtain hkept | ⟨q, new, hq, hnew, -⟩ := hkeeps.read h
  · exact hkept
  · exact absurd (hw q new hnew) (hp.not_isResult hq)

theorem GameSource.product?_keep {x : Game × Artifact} (hs : IsSource s.path)
    (hkeeps : Disk.Keeps written d d') (hw : ∀ q new, written q new → IsResult q)
    (h : s.product? options d = some x) : s.product? options d' = some x := by
  cases hbytes : d.read s.path with
  | error f =>
    rw [product?, hbytes] at h
    cases h
  | ok bytes =>
    rw [product?, hbytes] at h
    rw [product?, hs.read_keep hkeeps hw hbytes]
    exact h

theorem GameSource.Writes.keep (hs : IsSource s.path) (hkeeps : Disk.Keeps written d d')
    (hw : ∀ q new, written q new → IsResult q) (h : s.Writes output options d v q bytes) :
    s.Writes output options d' v q bytes := by
  obtain ⟨g, a, hproduct, hdue⟩ := h
  exact ⟨g, a, product?_keep hs hkeeps hw hproduct, hdue.keep hkeeps⟩

/-- A source is judged at the cost of its own files only. -/
theorem GameSource.Judged.keeps (hs : IsSource s.path) (h : s.Judged output options d v d') :
    Disk.Keeps (s.Writes output options d' v) d d' := by
  have hkeep {g a} (hproduct : s.product? options d = some (g, a))
      (hkeeps : Disk.Keeps (Due g a (s.folder output) v d') d d') :
      Disk.Keeps (s.Writes output options d' v) d d' :=
    hkeeps.mono fun _ _ hdue =>
      ⟨g, a, product?_keep hs hkeeps (fun _ _ => isResult_of_due) hproduct, hdue⟩
  cases h with
  | built hproduct htext hcourse =>
    apply hkeep hproduct
    exact hcourse.keeps (fun _ hq _ => .page hq trivial) fun _ hq _ => .data hq rfl htext
  | refused hproduct _ hcourse =>
    apply hkeep hproduct
    refine hcourse.keeps (fun _ hq hr => .page hq ?_) nofun
    obtain ⟨f, hr⟩ := hr.resolve_left nofun
    exact ⟨f, congrArg FileError.message (Except.error.inj hr)⟩
  | failed => exact .refl d

/-! ## One source after the other -/

/-- What the sources of a batch write that come at a given turn or later. -/
def WritesFrom (output : Option Path) (options : Options) (d : Disk) (sources : List GameSource)
    (verdicts : List Verdict) (i : Nat) (q : List String) (bytes : List UInt8) : Prop :=
  ∃ j s v, i ≤ j ∧ sources[j]? = some s ∧ verdicts[j]? = some v ∧
    s.Writes output options d v q bytes

theorem isResult_of_writesFrom {sources : List GameSource} {verdicts : List Verdict}
    (q : List String) (bytes : List UInt8)
    (h : WritesFrom output options d sources verdicts i q bytes) : IsResult q := by
  obtain ⟨_, _, _, -, -, -, hw⟩ := h
  exact isResult_of_writes hw

theorem WritesFrom.cons {sources : List GameSource} {verdicts : List Verdict} (s : GameSource)
    (v : Verdict) (h : WritesFrom output options d sources verdicts i q bytes) :
    WritesFrom output options d (s :: sources) (v :: verdicts) (i + 1) q bytes := by
  obtain ⟨j, t, w, hij, ht, hw, hwrites⟩ := h
  exact ⟨j + 1, t, w, Nat.succ_le_succ hij, ht, hw, hwrites⟩

namespace Handled

variable {sources : List GameSource} {verdicts : List Verdict}

theorem length_eq (h : Handled output options d sources verdicts d') :
    verdicts.length = sources.length := by
  induction h with
  | nil => rfl
  | cons _ _ ih => rw [List.length_cons, List.length_cons, ih]

/-- A batch writes over no file but the results of its sources. -/
theorem keeps (h : Handled output options d sources verdicts d')
    (hsources : ∀ s ∈ sources, IsSource s.path) :
    Disk.Keeps (WritesFrom output options d' sources verdicts 0) d d' := by
  induction h with
  | nil d => exact .refl d
  | @cons d₁ rest vs d' d s v hjudged hrest ih =>
    rw [List.forall_mem_cons] at hsources
    have hkeeps := ih hsources.2
    have hfirst : Disk.Keeps (s.Writes output options d' v) d d₁ :=
      (hjudged.keeps hsources.1).mono fun _ _ hw =>
        hw.keep hsources.1 hkeeps isResult_of_writesFrom
    apply (hfirst.mono fun _ _ hw => ⟨0, s, v, Nat.le_refl 0, rfl, rfl, hw⟩).trans
    apply hkeeps.mono
    intro q bytes hw
    obtain ⟨j, t, w, -, hlater⟩ := hw.cons s v
    exact ⟨j, t, w, Nat.zero_le j, hlater⟩

/-- After a build that is reported as done its files stand, and from then on only later sources
write over files. -/
theorem built {name : String} {page : Path} {vs : List Violation}
    (h : Handled output options d sources verdicts d') (hsources : ∀ s ∈ sources, IsSource s.path)
    (hs : sources[i]? = some s) (hv : verdicts[i]? = some (.built name page vs)) :
    name = s.name ∧ page = s.page output ∧
      ∃ g a d₁, vs = a.violations ∧ s.product? options d₁ = some (g, a) ∧
        g.Stands a (s.folder output) d₁ ∧
        Disk.Keeps (WritesFrom output options d' sources verdicts (i + 1)) d₁ d' := by
  induction h generalizing i with
  | nil => cases hs
  | @cons d₁ rest ws d' d s₀ v hjudged hrest ih =>
    rw [List.forall_mem_cons] at hsources
    cases i with
    | zero =>
      cases hs
      cases hv
      have hkeeps := hjudged.keeps hsources.1
      cases hjudged with
      | @built g a _ _ hproduct _ _ hstands =>
        have hproduct' := GameSource.product?_keep hsources.1 hkeeps
          (fun _ _ => isResult_of_writes) hproduct
        refine ⟨rfl, rfl, g, a, d₁, rfl, hproduct', hstands, ?_⟩
        exact (hrest.keeps hsources.2).mono fun _ _ hw => hw.cons s _
    | succ i =>
      obtain ⟨hname, hpage, g, a, d₂, hvs, hproduct, hstands, hkeeps⟩ := ih hsources.2 hs hv
      exact ⟨hname, hpage, g, a, d₂, hvs, hproduct, hstands, hkeeps.mono fun _ _ hw => hw.cons s₀ v⟩

end Handled

/-- Files that stand keep standing where later sources write the same or elsewhere. -/
theorem GameSource.stands_keep (later : GameSource → Verdict → Prop)
    (hstands : g.Stands a (s.folder output) d)
    (hkeeps : Disk.Keeps (fun q bytes => ∃ t v, later t v ∧ t.Writes output options d' v q bytes)
      d d') (hsame : ∀ t v, later t v → v.HasPage (t.folder output) → ∀ g' a',
      t.product? options d' = some (g', a') →
      d'.find (t.page output) = d'.find (s.page output) →
      a'.page = a.page ∧ (v.isBuilt = true → g'.dataText = g.dataText)) :
    g.Stands a (s.folder output) d' := by
  obtain ⟨q, hq, -⟩ := Disk.read_eq_ok.1 hstands.page
  have hpage : d'.find (s.page output) = .ok q := hkeeps.find hq
  obtain ⟨place, rfl, hbeside⟩ := Disk.exists_folder Path.plain_pageFile hpage
  have hne : pageFile ≠ dataFile := by decide
  obtain ⟨text, htext, hdata⟩ := hstands.data
  constructor
  · obtain hkept | ⟨q, new, hq, ⟨t, v, ht, g', a', hproduct, hdue⟩, hnew⟩ :=
      hkeeps.read hstands.page
    · exact hkept
    obtain rfl := hbeside _ _ Path.plain_pageFile hq
    generalize hplace : place ++ [pageFile] = q at hdue
    cases hdue with
    | page hfind hv =>
      rw [hnew, (hsame t v ht hv g' a' hproduct (hfind.trans (hplace ▸ hpage.symm))).1]
    | data => exact absurd (List.append_singleton_inj.1 hplace).2 hne
  · refine ⟨text, htext, ?_⟩
    obtain hkept | ⟨q, new, hq, ⟨t, v, ht, g', a', hproduct, hdue⟩, hnew⟩ := hkeeps.read hdata
    · exact hkept
    obtain rfl := hbeside _ _ Path.plain_dataFile hq
    generalize hplace : place ++ [dataFile] = q at hdue
    cases hdue with
    | page => exact absurd (List.append_singleton_inj.1 hplace).2 hne.symm
    | data hfind hv htext' =>
      obtain ⟨rfl, -⟩ := List.append_singleton_inj.1 hplace
      have hpages := hfind.trans hpage.symm
      have hsame := (hsame t v ht (Verdict.hasPage_of_isBuilt hv) g' a' hproduct hpages).2 hv
      rw [hnew, ← Except.ok.inj (htext'.symm.trans (hsame.trans htext))]

/-! ## The whole batch -/

/-- A name given to the program stands for sources: it is that of a folder, or of a source. -/
def IsArgument (d : Disk) (arg : String) : Prop :=
  d.kind (Path.ofText arg) = .ok .folder ∨ IsSource (Path.ofText arg)

theorem isSource_of_mem_sourcesOf {st : Settings} (h : ∀ arg ∈ st.sources, IsArgument d arg)
    (hs : s ∈ sourcesOf st d) : IsSource s.path := by
  obtain ⟨p, hp, hs⟩ := List.mem_flatMap.1 hs
  obtain ⟨arg, harg, rfl⟩ := List.mem_map.1 hp
  rw [sourcesFound] at hs
  split at hs
  · obtain ⟨n, -, rfl⟩ := List.mem_map.1 hs
    have hname : (sourceIn (Path.ofText arg) n).name = sourceFile := by simp [sourceIn, Path.name]
    rw [IsSource, GameSource.ofPath, hname]
    decide
  · next hkind =>
    obtain rfl := List.mem_singleton.1 hs
    exact (h arg harg).resolve_left hkind

/-- **A source that is reported as built keeps its files** unless a later source comes to write its
page at the same place and differs: whatever the batch does after it, the page holds what comes of
the source, and the data beside it are those of its game. Later sources that are not reached, or
that the disk refuses before their page is written, do not matter. The sources stay as they are. -/
theorem stands_of_built {st : Settings} {d : Disk} (hargs : ∀ arg ∈ st.sources, IsArgument d arg)
    {i : Nat} {s : GameSource} {name : String} {page : Path} {vs : List Violation}
    (hs : (sourcesOf st d)[i]? = some s)
    (hv : (run Disk.storage st d).1.verdicts[i]? = some (.built name page vs)) :
    name = s.name ∧ page = s.page (outputRoot st d) ∧
      (∀ bytes, d.read s.path = .ok bytes → (run Disk.storage st d).2.read s.path = .ok bytes) ∧
      ∃ g a, s.product? st.options (run Disk.storage st d).2 = some (g, a) ∧ vs = a.violations ∧
        ((∀ j t v, i < j → (sourcesOf st d)[j]? = some t →
            (run Disk.storage st d).1.verdicts[j]? = some v →
            v.HasPage (t.folder (outputRoot st d)) → ∀ g' a',
            t.product? st.options (run Disk.storage st d).2 = some (g', a') →
            (run Disk.storage st d).2.find (t.page (outputRoot st d)) =
              (run Disk.storage st d).2.find page →
            a'.page = a.page ∧ (v.isBuilt = true → g'.dataText = g.dataText)) →
          g.Stands a (s.folder (outputRoot st d)) (run Disk.storage st d).2) := by
  obtain ⟨e, -, hrun⟩ | ⟨-, hrun⟩ := run_outcome st d
  · rw [hrun] at hv
    cases hv
  obtain ⟨⟨b, d'⟩, hbuild⟩ : ∃ x, run Disk.storage st d = x := ⟨_, rfl⟩
  obtain ⟨done, rest, hsplit, hhandled, -⟩ := buildAll_in_turn (hrun.symm.trans hbuild)
  have hsources : ∀ s ∈ sourcesOf st d, IsSource s.path := fun s => isSource_of_mem_sourcesOf hargs
  rw [hsplit, List.forall_mem_append] at hsources
  rw [hbuild] at hv ⊢
  rw [hsplit] at hs ⊢
  have hlen (j : Nat) (v : Verdict) (hj : b.verdicts[j]? = some v) :
      (done ++ rest)[j]? = done[j]? := by
    apply List.getElem?_append_left
    rw [← hhandled.length_eq]
    exact (List.getElem?_eq_some_iff.1 hj).1
  rw [hlen i _ hv] at hs
  obtain ⟨hname, rfl, g, a, d₁, hvs, hproduct, hstands, hkeeps⟩ :=
    hhandled.built hsources.1 hs hv
  have hsource := hsources.1 s (List.mem_of_getElem? hs)
  refine ⟨hname, rfl, fun bytes hbytes => ?_, g, a, ?_, hvs, fun hsame => ?_⟩
  · exact hsource.read_keep (hhandled.keeps hsources.1) isResult_of_writesFrom hbytes
  · exact GameSource.product?_keep hsource hkeeps isResult_of_writesFrom hproduct
  · apply GameSource.stands_keep
      (fun t v => ∃ j, i < j ∧ done[j]? = some t ∧ b.verdicts[j]? = some v) hstands
    · apply hkeeps.mono
      rintro q bytes ⟨j, t, v, hij, ht, hw, hwrites⟩
      exact ⟨t, v, ⟨j, hij, ht, hw⟩, hwrites⟩
    · rintro t v ⟨j, hij, ht, hw⟩
      exact hsame j t v hij ((hlen j v hw).trans ht) hw

/-- Two sources side by side and one in a folder. -/
def shelf : Disk where
  nodes := [(["a.pf"], .file (encodeUtf8 "game \"a\" { }")),
    (["b.pf"], .file (encodeUtf8 "game \"b\" { }")), (["x"], .folder),
    (["x", "c.pf"], .file (encodeUtf8 "game \"c\" { }"))]

def shelfSettings : Settings where
  sources := ["a.pf", "b.pf", "x/c.pf"]

theorem stands_of_built_shelf :
    (∀ arg ∈ shelfSettings.sources, IsArgument shelf arg) ∧
      (sourcesOf shelfSettings shelf)[1]? = some (.ofPath (Path.ofText "b.pf")) ∧
      ∃ g a, GameSource.product? shelfSettings.options (run Disk.storage shelfSettings shelf).2
          (.ofPath (Path.ofText "b.pf")) = some (g, a) ∧
        g.Stands a (Path.ofText "b.pf").parent (run Disk.storage shelfSettings shelf).2 := by
  have hargs : ∀ arg ∈ shelfSettings.sources, IsArgument shelf arg := by
    intro arg harg
    right
    revert arg
    exact List.forall_mem_cons.2 ⟨by decide +kernel, List.forall_mem_cons.2 ⟨by decide +kernel,
      List.forall_mem_singleton.2 (by decide +kernel)⟩⟩
  have hs : (sourcesOf shelfSettings shelf)[1]? = some (.ofPath (Path.ofText "b.pf")) := by rfl
  have hlater : (sourcesOf shelfSettings shelf).drop 2 = [.ofPath (Path.ofText "x/c.pf")] := by rfl
  have hbuilt : ((run Disk.storage shelfSettings shelf).1.verdicts[1]?).any Verdict.isBuilt := by
    decide +kernel
  obtain ⟨v, hv, hisBuilt⟩ := (Option.any_eq_true _ _).1 hbuilt
  cases v with
  | failed => cases hisBuilt
  | built name page vs =>
    obtain ⟨-, hpage, -, g, a, hproduct, -, hstands⟩ := stands_of_built hargs hs hv
    refine ⟨hargs, hs, g, a, hproduct, hstands fun j t v hj ht _ _ g' a' _ hplace => ?_⟩
    obtain ⟨k, rfl⟩ := Nat.exists_eq_add_of_le hj
    rw [← List.getElem?_drop, hlater] at ht
    obtain rfl := List.mem_singleton.1 (List.mem_of_getElem? ht)
    rw [hpage] at hplace
    have hc : ((run Disk.storage shelfSettings shelf).2.find
        (GameSource.page none (.ofPath (Path.ofText "x/c.pf")))).toOption =
          some ["x", "index.html"] := by decide +kernel
    have hb : ((run Disk.storage shelfSettings shelf).2.find
        (GameSource.page none (.ofPath (Path.ofText "b.pf")))).toOption =
          some ["index.html"] := by decide +kernel
    have hsame := hc.symm.trans ((congrArg Except.toOption hplace).trans hb)
    exact absurd hsame (by decide)

/-- Two sources in one folder are both reported as built at one path, which cannot hold what comes
of both. -/
theorem run_shelf :
    (run Disk.storage shelfSettings shelf).1.output =
        ["OK: a -> index.html", "  warning: Game must define at least one level",
          "OK: b -> index.html", "  warning: Game must define at least one level",
          "OK: c -> x/index.html", "  warning: Game must define at least one level",
          "Generated 3 games, 0 failures."] ∧
      ∃ a b,
        GameSource.product? shelfSettings.options shelf (.ofPath (Path.ofText "a.pf")) = some a ∧
        GameSource.product? shelfSettings.options shelf (.ofPath (Path.ofText "b.pf")) = some b ∧
        a.2.page ≠ b.2.page ∧
        ¬ ((run Disk.storage shelfSettings shelf).2.read (Path.ofText "index.html") =
              .ok (encodeUtf8 a.2.page) ∧
            (run Disk.storage shelfSettings shelf).2.read (Path.ofText "index.html") =
              .ok (encodeUtf8 b.2.page)) := by
  refine ⟨by decide +kernel, ?_⟩
  have hother : (GameSource.product? shelfSettings.options shelf (.ofPath (Path.ofText "a.pf"))).any
      (fun a => (GameSource.product? shelfSettings.options shelf (.ofPath (Path.ofText "b.pf"))).any
        fun b => a.2.page != b.2.page) = true := by decide +kernel
  obtain ⟨a, ha, hother⟩ := (Option.any_eq_true _ _).1 hother
  obtain ⟨b, hb, hne⟩ := (Option.any_eq_true _ _).1 hother
  refine ⟨a, b, ha, hb, bne_iff_ne.1 hne, fun hboth => ?_⟩
  exact bne_iff_ne.1 hne (encodeUtf8_inj (Except.ok.inj (hboth.1.symm.trans hboth.2)))

end CommandLine

end PlatformGame
