import PlatformGame.CommandLine.Batch
import PlatformGame.Proofs.Compile.Export
import PlatformGame.Proofs.Draft.Failures

/-! # Batches

The sources of a batch are collected and then handled in turn. Each is built, or refused by the
disk, or reported as missing or unreadable, and the others go on. The batch ends with the first
source that is no text, that has an integer with too many digits, or whose game has no page. It does
not begin if a path cannot be looked up while sources are collected (`run_in_turn`). -/

namespace PlatformGame

open Grammar Parse Text

/-! ## Texts that are no games -/

/-- A text is read as a game unless it is not in the language or has an integer with too many
digits. -/
theorem readGame_cases (source : String) :
    (∃ f, readAs start source = .error f ∧
        (readGame source).outcome = .error (.unreadable f source)) ∨
      (∃ tok, Draft.TooLong tok ∧
        (readGame source).outcome = .error (.build (Draft.tooLongError tok))) ∨
      ∃ g, (readGame source).outcome = .ok g := by
  have hstart : entry? "start" = .ok start := rfl
  rw [readGame, readDraft, readSketch]
  cases hread : readAs start source with
  | error f => exact .inl ⟨f, rfl, rfl⟩
  | ok trees =>
    obtain ⟨toks, tree, rfl, hd, hs⟩ := exists_derives_of_readAs (mem_entries_of_eq_ok hstart) hread
    obtain ⟨P, hmeans, hdraft⟩ := Draft.exists_means_of_entry? hstart
    obtain ⟨x, hx, hout⟩ :=
      Draft.outcome_sketch (mem_entries_of_eq_ok hstart) hmeans hd hs.matches
    right
    cases htoken : toks.find? fun tok => Draft.TooLong tok with
    | some tok =>
      have hlong : Draft.TooLong tok := by simpa using List.find?_some htoken
      rw [htoken] at hout
      refine .inl ⟨tok, hlong, ?_⟩
      simp only [Reading.map, sketchTree, hout, Draft.unlessTooLong]
      rfl
    | none =>
      obtain ⟨draft, hsketch⟩ := hdraft rfl x hx
      rw [htoken] at hout
      refine .inr ⟨draft.complete, ?_⟩
      simp only [Reading.map, sketchTree, hout, Draft.unlessTooLong, Except.mapError, bind,
        Except.bind, hsketch]
      rfl

theorem Disk.exists_read {d : Disk} {p : Path} (h : d.kind p = .ok .file) :
    ∃ bytes, d.read p = .ok bytes := by
  obtain ⟨n, hn, hkind⟩ := Disk.kind_eq_ok.1 h
  cases n with
  | folder => cases hkind
  | file bytes => exact ⟨bytes, read_eq_ok.2 (nodeAt_eq_ok.1 hn)⟩

theorem Path.passes_cases (p : Path) (test : FileKind → Bool) (r : Except Fault FileKind) :
    (∃ f, r = .error f ∧ f.isAbsence = false ∧ p.passes test r = .error ⟨f, p⟩) ∨
      (∀ f, r = .error f → f.isAbsence = true) ∧ p.passes test r = .ok (r.toOption.any test) := by
  cases r with
  | ok k => exact .inr ⟨nofun, rfl⟩
  | error f =>
    cases hf : f.isAbsence with
    | false => exact .inl ⟨f, rfl, hf, by simp [Path.passes, hf]⟩
    | true =>
      refine .inr ⟨?_, by simp [Path.passes, hf, Except.toOption]⟩
      rintro _ ⟨⟩
      exact hf

/-- The page and the data of a game stand in a folder. -/
structure Game.Stands (g : Game) (a : Artifact) (folder : Path) (d : Disk) : Prop where
  page : d.read (folder.child pageFile) = .ok (encodeUtf8 a.page)
  data : ∃ text, g.dataText = .ok text ∧ d.read (folder.child dataFile) = .ok (encodeUtf8 text)

namespace CommandLine

/-! ## Collecting sources -/

/-- The sources that a path stands for on a disk. -/
def sourcesFound (d : Disk) (p : Path) : List GameSource :=
  match d.kind p with
  | .ok .folder =>
    (sortTexts ((d.folders p).filter fun n => (d.kind (sourceIn p n)).isOk)).map fun n =>
      .ofPath (sourceIn p n)
  | _ => [.ofPath p]

/-- A path that cannot be looked up: it is named itself, or is that of a source below a folder that
is. -/
inductive Hidden (d : Disk) (p : Path) : FileError → Prop
  | named (h : d.kind p = .error f) (hf : f.isAbsence = false) : Hidden d p ⟨f, p⟩
  | below (hfolder : d.kind p = .ok .folder) (hn : n ∈ d.folders p)
    (h : d.kind (sourceIn p n) = .error f) (hf : f.isAbsence = false) :
    Hidden d p ⟨f, sourceIn p n⟩

theorem run_stands (test : FileKind → Bool) (p : Path) (d : Disk) :
    Disk.storage.stands test p d = (p.passes test (d.kind p), d) := rfl

theorem run_keepSources (folder : Path) (names : List String) (d : Disk) :
    (∃ n ∈ names, ∃ f, d.kind (sourceIn folder n) = .error f ∧ f.isAbsence = false ∧
        keepSources Disk.storage folder names d = (.error ⟨f, sourceIn folder n⟩, d)) ∨
      (∀ n ∈ names, ∀ f, d.kind (sourceIn folder n) = .error f → f.isAbsence = true) ∧
        keepSources Disk.storage folder names d =
          (.ok (names.filter fun n => (d.kind (sourceIn folder n)).isOk), d) := by
  induction names with
  | nil => exact .inr ⟨List.forall_mem_nil _, rfl⟩
  | cons n names ih =>
    rw [keepSources, Disk.run_bind (run_stands _ _ d)]
    obtain ⟨f, hkind, hf, hpass⟩ | ⟨hseen, hpass⟩ := Path.passes_cases (sourceIn folder n)
      (fun _ => true) (d.kind (sourceIn folder n))
    · refine .inl ⟨n, List.mem_cons_self, f, hkind, hf, ?_⟩
      rw [hpass]
      rfl
    rw [hpass]
    obtain ⟨m, hm, f, hkind, hf, hrun⟩ | ⟨hall, hrun⟩ := ih
    · exact .inl ⟨m, .tail _ hm, f, hkind, hf, Disk.run_bind hrun⟩
    · refine .inr ⟨List.forall_mem_cons.2 ⟨hseen, hall⟩, (Disk.run_bind hrun).trans ?_⟩
      rw [List.filter_cons]
      cases d.kind (sourceIn folder n) <;> rfl

theorem run_sourcesAt (p : Path) (d : Disk) :
    (∃ e, Hidden d p e ∧ sourcesAt Disk.storage p d = (.error e, d)) ∨
      (∀ e, ¬ Hidden d p e) ∧ sourcesAt Disk.storage p d = (.ok (sourcesFound d p), d) := by
  have hfolder : Disk.storage.isFolder p d = (p.passes (· == .folder) (d.kind p), d) := rfl
  rw [sourcesAt, Disk.run_bind hfolder]
  obtain ⟨f, hkind, hf, hpass⟩ | ⟨hseen, hpass⟩ :=
    Path.passes_cases p (· == .folder) (d.kind p)
  · refine .inl ⟨_, .named hkind hf, ?_⟩
    rw [hpass]
    rfl
  rw [hpass]
  by_cases hkind : d.kind p = .ok .folder
  · have hfolders : Disk.storage.folders p d = (d.folders p, d) := rfl
    have hbelow : sourcesBelow Disk.storage p d = _ := Disk.run_bind hfolders
    rw [hkind, sourcesFound, hkind]
    obtain ⟨n, hn, f, hsource, hf, hrun⟩ | ⟨hall, hrun⟩ := run_keepSources p (d.folders p) d
    · exact .inl ⟨_, .below hkind hn hsource hf, hbelow.trans (Disk.run_bind hrun)⟩
    · refine .inr ⟨?_, hbelow.trans (Disk.run_bind hrun)⟩
      rintro _ (⟨h, -⟩ | ⟨-, hn, h, hf⟩)
      · cases hkind.symm.trans h
      · rw [hall _ hn _ h] at hf
        cases hf
  · refine .inr ⟨?_, ?_⟩
    · rintro _ (⟨h, hf⟩ | ⟨h, -, -, -⟩)
      · rw [hseen _ h] at hf
        cases hf
      · exact hkind h
    · rw [sourcesFound]
      split
      · next h => exact absurd h hkind
      · match h : d.kind p with
        | .ok .folder => exact absurd h hkind
        | .ok .file | .error _ => rfl

theorem run_collectSources (ps : List Path) (d : Disk) :
    (∃ p ∈ ps, ∃ e, Hidden d p e ∧ collectSources Disk.storage ps d = (.error e, d)) ∨
      (∀ p ∈ ps, ∀ e, ¬ Hidden d p e) ∧
        collectSources Disk.storage ps d = (.ok (ps.flatMap (sourcesFound d)), d) := by
  induction ps with
  | nil => exact .inr ⟨List.forall_mem_nil _, rfl⟩
  | cons p ps ih =>
    rw [collectSources]
    obtain ⟨e, hhidden, hrun⟩ | ⟨hseen, hrun⟩ := run_sourcesAt p d
    · exact .inl ⟨p, List.mem_cons_self, e, hhidden, Disk.run_bind hrun⟩
    rw [Disk.run_bind hrun]
    dsimp only
    obtain ⟨q, hq, e, hhidden, hrest⟩ | ⟨hall, hrest⟩ := ih
    · exact .inl ⟨q, .tail _ hq, e, hhidden, Disk.run_bind hrest⟩
    · exact .inr ⟨List.forall_mem_cons.2 ⟨hseen, hall⟩, Disk.run_bind hrest⟩

/-! ## What the settings ask for -/

/-- Where the settings ask for the results, on a given disk. -/
def outputRoot (st : Settings) (d : Disk) : Option Path :=
  if st.output.isEmpty then none else some ((Path.ofText st.output).resolve d.home)

/-- The sources that the settings name, on a given disk. -/
def sourcesOf (st : Settings) (d : Disk) : List GameSource :=
  (st.sources.map Path.ofText).flatMap (sourcesFound d)

theorem eq_ofPath_of_mem_sourcesOf {st : Settings} {d : Disk} {s : GameSource}
    (h : s ∈ sourcesOf st d) : s = .ofPath s.path := by
  obtain ⟨p, -, hs⟩ := List.mem_flatMap.1 h
  rw [sourcesFound] at hs
  split at hs
  · obtain ⟨n, -, rfl⟩ := List.mem_map.1 hs
    rfl
  · obtain rfl := List.mem_singleton.1 hs
    rfl

/-- Why nothing is built at all: a null character in the name of the output, or a path that cannot
be looked up. -/
inductive Unstarted (st : Settings) (d : Disk) : FileError → Prop
  | output (h : (Path.ofText st.output).hasNull = true) :
    Unstarted st d ⟨.nullInName, Path.ofText st.output⟩
  | source (hnull : (Path.ofText st.output).hasNull = false) (harg : arg ∈ st.sources)
    (h : Hidden d (Path.ofText arg) e) : Unstarted st d e

theorem run_outcome (st : Settings) (d : Disk) :
    (∃ e, Unstarted st d e ∧ run Disk.storage st d = ({ aborted := some (.file e) }, d)) ∨
      (∀ e, ¬ Unstarted st d e) ∧
        run Disk.storage st d =
          buildAll Disk.storage (outputRoot st d) st.options (sourcesOf st d) d := by
  cases hnull : (Path.ofText st.output).hasNull with
  | true =>
    refine .inl ⟨_, .output hnull, ?_⟩
    rw [run]
    simp only [hnull, if_true]
    rfl
  | false =>
    have hroot (next : Option Path → StateM Disk Batch) :
        (do
          let root ← if st.output.isEmpty then pure none
            else do pure (some ((Path.ofText st.output).resolve (← Disk.storage.home)))
          next root) d = next (outputRoot st d) d := by
      rw [outputRoot]
      split <;> rfl
    rw [run]
    simp only [hnull, Bool.false_eq_true, if_false]
    rw [hroot]
    obtain ⟨p, hp, e, hhidden, hfound⟩ | ⟨hall, hfound⟩ :=
      run_collectSources (st.sources.map .ofText) d
    · obtain ⟨arg, harg, rfl⟩ := List.mem_map.1 hp
      exact .inl ⟨e, .source hnull harg hhidden, Disk.run_bind hfound⟩
    · refine .inr ⟨?_, Disk.run_bind hfound⟩
      rintro _ (hbad | ⟨-, harg, hhidden⟩)
      · rw [hnull] at hbad
        cases hbad
      · exact hall _ (List.mem_map_of_mem harg) _ hhidden

theorem hasNull_outputRoot {st : Settings} {d : Disk}
    (hnull : (Path.ofText st.output).hasNull = false) (hhome : ∀ n ∈ d.home, '\x00' ∉ n.toList) :
    ∀ root ∈ outputRoot st d, root.hasNull = false := by
  intro root hroot
  rw [outputRoot] at hroot
  split at hroot
  · cases hroot
  · cases hroot
    rw [Path.hasNull_eq_false]
    apply Path.hasNull_follow _ (Path.hasNull_eq_false.1 hnull)
    split
    · exact hhome
    · exact List.forall_mem_nil _

/-! ## What becomes of one source -/

namespace GameSource

/-- The folder that a source is built into. -/
def folder (output : Option Path) (s : GameSource) : Path :=
  match output with
  | some root => root.child s.name
  | none => s.path.parent

/-- Where the page of a source is written. -/
def page (output : Option Path) (s : GameSource) : Path := (s.folder output).child pageFile

/-- The game and the artifact that come of a source as it stands on a disk. -/
def product? (options : Options) (d : Disk) (s : GameSource) : Option (Game × Artifact) := do
  let bytes ← (d.read s.path).toOption
  let text ← (textOfBytes bytes).toOption
  let g ← (readGame text).outcome.toOption
  let a ← (g.artifactFor (.ok options)).toOption
  pure (g, a)

/-- No folder that a source is built into has a null character in its name. -/
theorem hasNull_folder {s : GameSource} {output : Option Path}
    (hs : s = .ofPath s.path) (hpath : s.path.hasNull = false)
    (houtput : ∀ root ∈ output, root.hasNull = false) : (s.folder output).hasNull = false := by
  cases output with
  | none => exact Path.hasNull_parent hpath
  | some root =>
    apply Path.hasNull_child (houtput root rfl)
    apply Path.hasNull_ofText
    rw [hs, ofPath]
    dsimp only
    split
    · exact Path.notMem_name (Path.hasNull_parent hpath)
    · exact Path.notMem_stem hpath

theorem hasNull_of_product? {options : Options} {d : Disk} {s : GameSource} {x : Game × Artifact}
    (h : s.product? options d = some x) : s.path.hasNull = false := by
  cases hbytes : d.read s.path with
  | error f =>
    rw [product?, hbytes] at h
    cases h
  | ok bytes =>
    obtain ⟨place, hplace, -⟩ := Disk.read_eq_ok.1 hbytes
    exact (Disk.find_eq_ok.1 hplace).1

/-- The text that stands in the file of a source. -/
def Holds (d : Disk) (s : GameSource) (text : String) : Prop :=
  ∃ bytes, d.read s.path = .ok bytes ∧ textOfBytes bytes = .ok text

/-- Errors that concern more than one game: bytes that are no text, integers with too many digits,
and games without a page. -/
inductive Stops (options : Options) (d : Disk) (s : GameSource) : SourceError → Prop
  | undecodable (hbytes : d.read s.path = .ok bytes) (htext : textOfBytes bytes = .error e) :
    Stops options d s (.undecodable e)
  | tooLong (htext : s.Holds d text) (htok : Draft.TooLong tok)
    (hgame : (readGame text).outcome = .error (.build (Draft.tooLongError tok))) :
    Stops options d s (.compile (.build (Draft.tooLongError tok)))
  | pageless (htext : s.Holds d text) (hgame : (readGame text).outcome = .ok g)
    (hartifact : g.artifactFor (.ok options) = .error e) : Stops options d s (.compile e)

/-- What is said of a source that is missing, cannot be looked up or is not in the language. -/
inductive Fails (d : Disk) (s : GameSource) : String → Option String → Prop
  | absent (h : d.kind s.path = .ok .folder ∨ ∃ f, d.kind s.path = .error f ∧ f.isAbsence = true) :
    Fails d s ("Game source not found: " ++ s.path.text) none
  | hidden (h : d.kind s.path = .error f) (hf : f.isAbsence = false) :
    Fails d s (FileError.message ⟨f, s.path⟩) none
  | unreadable (htext : s.Holds d text) (hread : readAs start text = .error f) :
    Fails d s "[parse] Failed to parse DSL source" (some (f.message text))

/-- What is said of a source, and what becomes of the disk. A source with a game and an artifact is
built, and its files stand, unless the disk refuses one of them. -/
inductive Judged (output : Option Path) (options : Options) (d : Disk) (s : GameSource) :
    Verdict → Disk → Prop
  | built (hproduct : s.product? options d = some (g, a)) (htext : g.dataText = .ok text)
    (hcourse : d.Course (encodeUtf8 a.page) (encodeUtf8 text) (s.folder output) pageFile (.ok ())
      d')
    (hstands : g.Stands a (s.folder output) d') :
    Judged output options d s (.built s.name (s.page output) a.violations) d'
  | refused (hproduct : s.product? options d = some (g, a)) (htext : g.dataText = .ok text)
    (hcourse : d.Course (encodeUtf8 a.page) (encodeUtf8 text) (s.folder output) pageFile (.error e)
      d') :
    Judged output options d s (.failed s.name e.message none) d'
  | failed (h : s.Fails d message details) :
    Judged output options d s (.failed s.name message details) d

end GameSource

/-- Sources that are handled in turn, each with a verdict. -/
inductive Handled (output : Option Path) (options : Options) :
    Disk → List GameSource → List Verdict → Disk → Prop
  | nil (d : Disk) : Handled output options d [] [] d
  | cons (hjudged : s.Judged output options d v d₁) (hrest : Handled output options d₁ rest vs d') :
    Handled output options d (s :: rest) (v :: vs) d'

variable {output : Option Path} {options : Options} {d d' : Disk}

/-- A source that is no file is reported at once. -/
theorem buildOne_of_kind {s : GameSource} (h : d.kind s.path ≠ .ok .file) :
    ∃ e message details, s.Fails d message details ∧ e.report? = some (message, details) ∧
      buildOne Disk.storage output options s d = (.error e, d) := by
  have hfile : Disk.storage.isFile s.path d = (s.path.passes (· == .file) (d.kind s.path), d) := rfl
  unfold buildOne
  rw [Disk.run_bind hfile]
  obtain ⟨f, hkind, hf, hpass⟩ | ⟨hseen, hpass⟩ :=
    Path.passes_cases s.path (· == .file) (d.kind s.path)
  · refine ⟨.file ⟨f, s.path⟩, _, _, .hidden hkind hf, if_neg ?_, ?_⟩
    · rintro rfl
      cases hf
    · rw [hpass]
      rfl
  · rw [hpass]
    match hkind : d.kind s.path with
    | .ok .file => exact absurd hkind h
    | .ok .folder => exact ⟨.absent s.path, _, _, .absent (.inl hkind), rfl, rfl⟩
    | .error f => exact ⟨.absent s.path, _, _, .absent (.inr ⟨f, hkind, hseen f hkind⟩), rfl, rfl⟩

/-- A build ends the batch, or reports a source as it stands, or comes down to two files. -/
theorem buildOne_outcome (output : Option Path) (options : Options) (s : GameSource) (d : Disk) :
    (∃ e, s.Stops options d e ∧ buildOne Disk.storage output options s d = (.error e, d)) ∨
      (∃ e message details, s.Fails d message details ∧ e.report? = some (message, details) ∧
        buildOne Disk.storage output options s d = (.error e, d)) ∨
      ∃ g a text r d', s.product? options d = some (g, a) ∧ g.dataText = .ok text ∧
        d.Course (encodeUtf8 a.page) (encodeUtf8 text) (s.folder output) pageFile r d' ∧
        buildOne Disk.storage output options s d =
          ((r.mapError .file).map fun _ => (s.page output, a), d') := by
  by_cases hkind : d.kind s.path = .ok .file
  case neg => exact .inr (.inl (buildOne_of_kind hkind))
  have hfile : Disk.storage.isFile s.path d = (.ok true, d) := by
    show (s.path.passes (· == .file) (d.kind s.path), d) = _
    rw [hkind]
    rfl
  obtain ⟨bytes, hbytes⟩ := Disk.exists_read hkind
  have hread : Disk.storage.read s.path d = (.ok bytes, d) := by
    show (d.read s.path, d) = _
    rw [hbytes]
  unfold buildOne
  rw [Disk.run_bind hfile]
  dsimp only
  rw [Disk.run_bind hread]
  dsimp only
  cases htext : textOfBytes bytes with
  | error e => exact .inl ⟨_, .undecodable hbytes htext, rfl⟩
  | ok text =>
    have hholds : s.Holds d text := ⟨bytes, hbytes, htext⟩
    obtain ⟨e, hcompile, hrun⟩ | ⟨g, a, data, r, d', hgame, hartifact, hdata, hcourse, hrun⟩ :=
      exportGame_outcome text (.ok options) (s.folder output) pageFile d
    · rw [compile] at hcompile
      obtain ⟨f, hread, hgame⟩ | ⟨tok, htok, hgame⟩ | ⟨g, hgame⟩ := readGame_cases text
      · rw [hgame] at hcompile
        cases hcompile
        exact .inr (.inl ⟨_, _, _, .unreadable hholds hread, rfl, Disk.run_bind hrun⟩)
      · rw [hgame] at hcompile
        cases hcompile
        exact .inl ⟨_, .tooLong hholds htok hgame, Disk.run_bind hrun⟩
      · rw [hgame] at hcompile
        exact .inl ⟨_, .pageless hholds hgame hcompile, Disk.run_bind hrun⟩
    · have hproduct : s.product? options d = some (g, a) := by
        simp [GameSource.product?, hbytes, htext, hgame, hartifact, Except.toOption]
      refine .inr (.inr ⟨g, a, data, r, d', hproduct, hdata, hcourse, ?_⟩)
      refine (Disk.run_bind hrun).trans ?_
      cases r <;> rfl

/-! ## One source after the other -/

theorem buildAll_of_ok {s : GameSource} {rest : List GameSource} {page : Path} {a : Artifact}
    {d₁ : Disk} {b : Batch} (hone : buildOne Disk.storage output options s d = (.ok (page, a), d₁))
    (hrest : buildAll Disk.storage output options rest d₁ = (b, d')) :
    buildAll Disk.storage output options (s :: rest) d =
      (b.cons (.built s.name page a.violations), d') := by
  rw [buildAll, Disk.run_bind hone]
  exact Disk.run_bind hrest

theorem buildAll_of_error {s : GameSource} {rest : List GameSource} {e : SourceError}
    {message : String} {details : Option String} {d₁ : Disk} {b : Batch}
    (hone : buildOne Disk.storage output options s d = (.error e, d₁))
    (hreport : e.report? = some (message, details))
    (hrest : buildAll Disk.storage output options rest d₁ = (b, d')) :
    buildAll Disk.storage output options (s :: rest) d =
      (b.cons (.failed s.name message details), d') := by
  rw [buildAll, Disk.run_bind hone]
  simp only [hreport]
  exact Disk.run_bind hrest

theorem report?_of_artifactFor {g : Game} {e : CompileError}
    (h : g.artifactFor (.ok options) = .error e) : e.report? = none := by
  have hart : g.artifactFor (.ok options) = options.url.mapError .option >>= fun url =>
    (g.artifact url options.minify.isTrue options.strictReferences.isTrue).mapError .number := rfl
  rw [hart] at h
  cases hurl : options.url with
  | error e' =>
    rw [hurl] at h
    cases h
    rfl
  | ok url =>
    simp only [hurl, Except.mapError, bind, Except.bind] at h
    split at h <;> cases h
    rfl

theorem GameSource.Stops.report?_eq_none {s : GameSource} {e : SourceError}
    (h : s.Stops options d e) : e.report? = none := by
  cases h with
  | undecodable | tooLong => rfl
  | pageless _ _ hartifact =>
    rw [SourceError.report?, report?_of_artifactFor hartifact]
    rfl

theorem buildAll_of_none {s : GameSource} {e : SourceError} {d₁ : Disk}
    (hone : buildOne Disk.storage output options s d = (.error e, d₁)) (hreport : e.report? = none)
    (rest : List GameSource) :
    buildAll Disk.storage output options (s :: rest) d = ({ aborted := some e }, d₁) := by
  rw [buildAll, Disk.run_bind hone]
  simp only [hreport]
  rfl

/-- The disk says no for reasons of its own, or is not asked. -/
theorem report?_of_course {folder : Path} {page data : List UInt8} {e : FileError}
    (h : d.Course page data folder pageFile (.error e) d') :
    (SourceError.file e).report? = some (e.message, none) ∨
      (SourceError.file e).report? = none ∧ folder.hasNull = true ∧ d' = d := by
  by_cases hnull : e.fault = .nullInName
  · obtain hfolder | ⟨-, hname, -⟩ := h.of_null hnull
    · exact .inr ⟨if_pos hnull, hfolder⟩
    · exact absurd hname (by decide +kernel)
  · exact .inl (if_neg hnull)

/-- A source ends the batch: by what it holds, or because no folder can have its name. -/
def GameSource.Ends (output : Option Path) (options : Options) (d : Disk) (s : GameSource)
    (e : SourceError) : Prop :=
  s.Stops options d e ∨ s.path.hasNull = false ∧ (s.folder output).hasNull = true

/-- One source has a verdict, and the others go on, or it ends the batch. -/
theorem buildAll_step (output : Option Path) (options : Options) (s : GameSource)
    (rest : List GameSource) (d : Disk) :
    (∃ e, s.Ends output options d e ∧
        buildAll Disk.storage output options (s :: rest) d = ({ aborted := some e }, d)) ∨
      ∃ v d₁, s.Judged output options d v d₁ ∧
        ∀ b d', buildAll Disk.storage output options rest d₁ = (b, d') →
          buildAll Disk.storage output options (s :: rest) d = (b.cons v, d') := by
  obtain ⟨e, hstops, hone⟩ | ⟨e, message, details, hfails, hreport, hone⟩ |
    ⟨g, a, text, r, d₁, hproduct, htext, hcourse, hone⟩ := buildOne_outcome output options s d
  · exact .inl ⟨e, .inl hstops, buildAll_of_none hone hstops.report?_eq_none rest⟩
  · exact .inr ⟨_, d, .failed hfails, fun b d' => buildAll_of_error hone hreport⟩
  · cases r with
    | ok =>
      have hreads := hcourse.reads
      have hstands : g.Stands a (s.folder output) d₁ := ⟨hreads.1, text, htext, hreads.2⟩
      exact .inr ⟨_, d₁, .built hproduct htext hcourse hstands, fun b d' => buildAll_of_ok hone⟩
    | error e =>
      obtain hreport | ⟨hreport, hfolder, rfl⟩ := report?_of_course hcourse
      · exact .inr ⟨_, d₁, .refused hproduct htext hcourse,
          fun b d' => buildAll_of_error hone hreport⟩
      · exact .inl ⟨_, .inr ⟨GameSource.hasNull_of_product? hproduct, hfolder⟩,
          buildAll_of_none hone hreport rest⟩

theorem buildAll_in_turn {sources : List GameSource} {b : Batch}
    (h : buildAll Disk.storage output options sources d = (b, d')) :
    ∃ done rest, sources = done ++ rest ∧ Handled output options d done b.verdicts d' ∧
      (rest = [] ∧ b.aborted = none ∨
        ∃ s rest' e, rest = s :: rest' ∧ s.Ends output options d' e ∧ b.aborted = some e) := by
  -- Each source finds the disk as the ones before it have left it.
  induction sources generalizing d b with
  | nil =>
    cases h
    exact ⟨[], [], rfl, .nil _, .inl ⟨rfl, rfl⟩⟩
  | cons s rest ih =>
    obtain ⟨e, hends, hrun⟩ | ⟨v, d₁, hjudged, hrun⟩ := buildAll_step output options s rest d
    · cases hrun.symm.trans h
      exact ⟨[], s :: rest, rfl, .nil _, .inr ⟨s, rest, e, rfl, hends, rfl⟩⟩
    · obtain ⟨⟨b', d₂⟩, hrest⟩ : ∃ x, buildAll Disk.storage output options rest d₁ = x := ⟨_, rfl⟩
      cases (hrun b' d₂ hrest).symm.trans h
      obtain ⟨done, later, rfl, hhandled, hend⟩ := ih hrest
      exact ⟨s :: done, later, rfl, .cons hjudged hhandled, hend⟩

theorem Batch.exitCode_eq_one {b : Batch} :
    b.exitCode = 1 ↔ ∃ v ∈ b.verdicts, v.isBuilt = false := by
  have hcount : b.failures = 0 ↔ ∀ v ∈ b.verdicts, ¬ (!v.isBuilt) = true := List.countP_eq_zero
  rw [exitCode]
  split
  · next hzero =>
    refine iff_of_false (by decide) ?_
    rintro ⟨v, hv, hfailed⟩
    exact hcount.1 hzero v hv (by simp [hfailed])
  · next hsome =>
    refine iff_of_true rfl ?_
    by_contra hnone
    exact hsome (hcount.2 fun v hv hfailed => hnone ⟨v, hv, by simpa using hfailed⟩)

/-- **Sources are handled in turn**, up to the first that is no text, has an integer with too many
digits, or has no page. Each that comes before has one verdict: it is built if there is a game and
an artifact, unless the disk refuses its files, and it fails otherwise. If there is no such source,
all have a verdict, the last line counts them, and the exit code tells whether one has failed. Else
the batch ends with the error of that source. Nothing is built or said if the output has a null
character in its name or a path cannot be looked up while the sources are collected. -/
theorem run_in_turn {st : Settings} {d d' : Disk} {b : Batch}
    (hhome : ∀ n ∈ d.home, '\x00' ∉ n.toList) (h : run Disk.storage st d = (b, d')) :
    (∃ e, Unstarted st d e ∧ b.verdicts = [] ∧ b.aborted = some (.file e) ∧ b.output = [] ∧
        d' = d) ∨
      (∀ e, ¬ Unstarted st d e) ∧ ∃ done rest, sourcesOf st d = done ++ rest ∧
        Handled (outputRoot st d) st.options d done b.verdicts d' ∧
        (rest = [] ∧ b.aborted = none ∧
            b.output = b.verdicts.flatMap Verdict.output ++
              ["Generated " ++ toString (b.verdicts.countP Verdict.isBuilt) ++ " games, " ++
                toString (b.verdicts.countP (!·.isBuilt)) ++ " failures."] ∧
            (b.exitCode = 1 ↔ ∃ v ∈ b.verdicts, v.isBuilt = false) ∨
          ∃ s rest' e, rest = s :: rest' ∧ s.Stops st.options d' e ∧ b.aborted = some e ∧
            b.output = b.verdicts.flatMap Verdict.output) := by
  obtain ⟨e, hunstarted, hrun⟩ | ⟨hstarted, hrun⟩ := run_outcome st d
  · cases hrun.symm.trans h
    exact .inl ⟨e, hunstarted, rfl, rfl, rfl, rfl⟩
  refine .inr ⟨hstarted, ?_⟩
  obtain ⟨done, rest, hsplit, hhandled, hend⟩ := buildAll_in_turn (hrun.symm.trans h)
  refine ⟨done, rest, hsplit, hhandled, ?_⟩
  obtain ⟨hrest, haborted⟩ | ⟨s, rest', e, hrest, hstops | ⟨hpath, hfolder⟩, haborted⟩ := hend
  · refine .inl ⟨hrest, haborted, ?_, Batch.exitCode_eq_one⟩
    rw [Batch.output, haborted]
    rfl
  · refine .inr ⟨s, rest', e, hrest, hstops, haborted, ?_⟩
    rw [Batch.output, haborted]
    exact List.append_nil _
  · -- Folders are named for sources and the output, and neither has a null character.
    have hnull : (Path.ofText st.output).hasNull = false :=
      Bool.not_eq_true _ ▸ fun hnull => hstarted _ (.output hnull)
    have hs : s ∈ sourcesOf st d := by simp [hsplit, hrest]
    have hclean := GameSource.hasNull_folder (eq_ofPath_of_mem_sourcesOf hs) hpath
      (hasNull_outputRoot hnull hhome)
    rw [hfolder] at hclean
    cases hclean

/-- A source that is no text, and another that is. -/
def mixed : Disk where
  nodes := [(["a.pf"], .file [0xff]), (["x"], .folder),
    (["x", "b.pf"], .file (encodeUtf8 "game \"b\" { }"))]

theorem run_in_turn_mixed :
    let st : Settings := { sources := ["x/b.pf", "c.pf", "a.pf"] }
    let b := (run Disk.storage st mixed).1
    b.verdicts.map Verdict.isBuilt = [true, false] ∧
      ∃ done rest, sourcesOf st mixed = done ++ rest ∧
        Handled none st.options mixed done b.verdicts (run Disk.storage st mixed).2 ∧
        ∃ s rest' e, rest = s :: rest' ∧ s.Stops st.options (run Disk.storage st mixed).2 e ∧
          b.aborted = some e := by
  intro st b
  have hverdicts : b.verdicts.map Verdict.isBuilt = [true, false] := by decide +kernel
  have haborted : b.aborted.isNone = false := by decide +kernel
  have hhome : ∀ n ∈ mixed.home, '\x00' ∉ n.toList := List.forall_mem_nil _
  obtain ⟨-, -, hnone, -⟩ | ⟨-, done, rest, hsources, hhandled, ⟨-, hnone, -⟩ |
    ⟨s, rest', e, hrest, hstops, he, -⟩⟩ :=
      run_in_turn hhome (Prod.eta (run Disk.storage st mixed)).symm
  · rw [hnone] at hverdicts
    cases hverdicts
  · rw [hnone] at haborted
    cases haborted
  · exact ⟨hverdicts, done, rest, hsources, hhandled, s, rest', e, hrest, hstops, he⟩

/-- A source that is no text stops the batch before the next one, which is a game, has its turn. -/
theorem run_mixed :
    let st : Settings := { sources := ["a.pf", "x/b.pf"] }
    (GameSource.product? st.options mixed (.ofPath (Path.ofText "x/b.pf"))).isSome = true ∧
      (run Disk.storage st mixed).1.verdicts.length = 0 ∧
      (run Disk.storage st mixed).1.aborted.map SourceError.message =
        some "'utf-8' codec can't decode byte 0xff in position 0: invalid start byte" ∧
      (run Disk.storage st mixed).1.output = [] ∧
      ((run Disk.storage st mixed).2.kind (Path.ofText "x/index.html")).isOk = false := by
  decide +kernel

end CommandLine

end PlatformGame
