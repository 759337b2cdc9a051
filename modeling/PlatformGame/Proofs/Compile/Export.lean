import PlatformGame.Proofs.Files.Null
import PlatformGame.Proofs.Game.Data

/-! # All or nothing

A game is exported as a whole, as far as it is up to the compiler: a text that does not compile
leaves the disk as it is, and once there is a page there are data as well, so that only the disk can
refuse one of the two files (`exportGame_all_or_nothing`). A page with a null character in its name
is refused as well, but not before its folder is there (`nullExport_folder`). -/

namespace PlatformGame

open Text

theorem Path.plain_pageFile : Path.Plain pageFile := ⟨by decide +kernel, by decide⟩

theorem Path.plain_dataFile : Path.Plain dataFile := ⟨by decide +kernel, by decide⟩

namespace Disk

/-! ## Two files in a folder -/

/-- How two files come into a folder: the folder is made, the page is written, and then the data.
The first of these that the disk refuses is the last. -/
inductive Course (page data : List UInt8) (folder : Path) (name : String) (d : Disk) :
    Except FileError Unit → Disk → Prop
  | noFolder (hfolder : storage.makeFolders folder d = (.error e, d₁)) :
    Course page data folder name d (.error e) d₁
  | noPage (hfolder : storage.makeFolders folder d = (.ok (), d₁))
    (hpage : d₁.write (folder.child name) page = .error f) :
    Course page data folder name d (.error ⟨f, folder.child name⟩) d₁
  | noData (hfolder : storage.makeFolders folder d = (.ok (), d₁))
    (hpage : d₁.write (folder.child name) page = .ok d₂)
    (hdata : d₂.write (folder.child dataFile) data = .error f) :
    Course page data folder name d (.error ⟨f, folder.child dataFile⟩) d₂
  | done (hfolder : storage.makeFolders folder d = (.ok (), d₁))
    (hpage : d₁.write (folder.child name) page = .ok d₂)
    (hdata : d₂.write (folder.child dataFile) data = .ok d₃) :
    Course page data folder name d (.ok ()) d₃

theorem hasNull_of_makeFolders {folder : Path} {d d₁ : Disk}
    (h : storage.makeFolders folder d = (.ok (), d₁)) : folder.hasNull = false :=
  (furnished_makeFolders folder d).ok (by rw [h])

theorem hasNull_dataFile {folder : Path} (h : folder.hasNull = false) :
    (folder.child dataFile).hasNull = false := Path.hasNull_child h (by decide +kernel)

theorem read_of_write {d d' : Disk} {p : Path} {bytes : List UInt8}
    (h : d.write p bytes = .ok d') : d'.read p = .ok bytes := by
  obtain ⟨place, hplace, hnode, -⟩ := keeps_write h
  exact read_eq_ok.2 ⟨place, hplace, hnode⟩

namespace Course

variable {page data : List UInt8} {folder : Path} {name : String} {d d' : Disk}
  {r : Except FileError Unit}

/-- A null character in the name of the folder is found out before anything is made, and one in the
name of the page once the folder is there. -/
theorem of_null {e : FileError} (h : Course page data folder name d (.error e) d')
    (hnull : e.fault = .nullInName) :
    folder.hasNull = true ∧ d' = d ∨
      folder.hasNull = false ∧ (Path.ofText name).hasNull = true ∧ SameFiles d d' ∧
        storage.makeFolders folder d = (.ok (), d') := by
  cases h with
  | noFolder hfolder =>
    have hmade := furnished_makeFolders folder d
    rw [hfolder] at hmade
    exact .inl (hmade.null e rfl hnull)
  | noPage hfolder hpage =>
    have hmade := furnished_makeFolders folder d
    rw [hfolder] at hmade
    obtain rfl := hnull
    refine .inr ⟨hmade.ok rfl, ?_, hmade.files, hfolder⟩
    by_contra hname
    have hchild := Path.hasNull_child (hmade.ok rfl) (Bool.not_eq_true _ ▸ hname)
    rw [write_eq_null.1 hpage] at hchild
    cases hchild
  | noData hfolder _ hdata =>
    obtain rfl := hnull
    have hchild := hasNull_dataFile (hasNull_of_makeFolders hfolder)
    rw [write_eq_null.1 hdata] at hchild
    cases hchild

/-- Where a file has changed, the data have been written, or the disk refuses them. -/
theorem sameFiles_or (h : Course page data folder name d r d') :
    SameFiles d d' ∨ d'.read (folder.child dataFile) = .ok data ∨
      ∃ f, r = .error ⟨f, folder.child dataFile⟩ ∧ f ≠ .nullInName := by
  cases h with
  | noFolder hfolder | noPage hfolder =>
    have hmade := furnished_makeFolders folder d
    rw [hfolder] at hmade
    exact .inl hmade.files
  | noData hfolder _ hdata =>
    refine .inr (.inr ⟨_, rfl, ?_⟩)
    rintro rfl
    have hchild := hasNull_dataFile (hasNull_of_makeFolders hfolder)
    rw [write_eq_null.1 hdata] at hchild
    cases hchild
  | done _ _ hdata => exact .inr (.inl (read_of_write hdata))

/-- A course that is not cut short leaves both files. -/
theorem reads (h : Course page data folder pageFile d (.ok ()) d') :
    d'.read (folder.child pageFile) = .ok page ∧ d'.read (folder.child dataFile) = .ok data := by
  cases h with
  | done _ hpage hdata =>
    refine ⟨?_, read_of_write hdata⟩
    obtain ⟨q, hq, -, hkeeps⟩ := keeps_write hdata
    obtain hkept | ⟨_, _, hq', ⟨rfl, -⟩, -⟩ := hkeeps.read (read_of_write hpage)
    · exact hkept
    · obtain ⟨place, rfl, hbeside⟩ := exists_folder Path.plain_pageFile hq'
      exact absurd (List.append_inj' (hbeside _ _ Path.plain_dataFile hq) rfl).2 (by decide)

end Course

theorem run_writeFile_ok {d d' : Disk} {p : Path} {bytes : List UInt8}
    (h : d.write p bytes = .ok d') : storage.writeFile p bytes d = (.ok (), d') := by
  have hrun : storage.write p bytes d = (.ok (), d') := by
    show step (·.write p bytes) d = _
    rw [step, h]
  rw [Storage.writeFile, run_bind hrun]
  rfl

theorem run_writeFile_error {d : Disk} {p : Path} {bytes : List UInt8} {f : Fault}
    (h : d.write p bytes = .error f) : storage.writeFile p bytes d = (.error ⟨f, p⟩, d) := by
  have hrun : storage.write p bytes d = (.error f, d) := by
    show step (·.write p bytes) d = _
    rw [step, h]
  rw [Storage.writeFile, run_bind hrun]
  rfl

end Disk

/-! ## Exporting a game -/

theorem Game.course_writeGame {g : Game} (a : Artifact) {text : String}
    (htext : g.dataText = .ok text) (folder : Path) (name : String) (d : Disk) :
    ∃ r d', Disk.storage.writeGame g a folder name d = (r.mapError .file, d') ∧
      d.Course (encodeUtf8 a.page) (encodeUtf8 text) folder name r d' := by
  obtain ⟨⟨r, d₁⟩, hfolder⟩ : ∃ x, Disk.storage.makeFolders folder d = x := ⟨_, rfl⟩
  rw [Storage.writeGame, Disk.run_bind hfolder]
  cases r with
  | error e => exact ⟨.error e, d₁, rfl, .noFolder hfolder⟩
  | ok =>
    cases hpage : d₁.write (folder.child name) (encodeUtf8 a.page) with
    | error f =>
      refine ⟨_, d₁, ?_, .noPage hfolder hpage⟩
      exact Disk.run_bind (Disk.run_writeFile_error hpage)
    | ok d₂ =>
      dsimp only
      rw [Disk.run_bind (Disk.run_writeFile_ok hpage)]
      simp only [htext]
      cases hdata : d₂.write (folder.child dataFile) (encodeUtf8 text) with
      | error f =>
        refine ⟨_, d₂, ?_, .noData hfolder hpage hdata⟩
        exact Disk.run_bind (Disk.run_writeFile_error hdata)
      | ok d₃ =>
        refine ⟨_, d₃, ?_, .done hfolder hpage hdata⟩
        exact Disk.run_bind (Disk.run_writeFile_ok hdata)

/-- A text that does not compile is not exported, and nothing else is up to the compiler. -/
theorem exportGame_outcome (source : String) (options : Except OptionError Options)
    (folder : Path) (name : String) (d : Disk) :
    (∃ e, (compile source options).outcome = .error e ∧
        Disk.storage.exportGame source options folder name d = (.error (.compile e), d)) ∨
      ∃ g a text r d', (readGame source).outcome = .ok g ∧ g.artifactFor options = .ok a ∧
        g.dataText = .ok text ∧
        d.Course (encodeUtf8 a.page) (encodeUtf8 text) folder name r d' ∧
        Disk.storage.exportGame source options folder name d =
          ((r.mapError .file).map fun _ => a, d') := by
  rw [Storage.exportGame]
  cases hgame : (readGame source).outcome with
  | error e =>
    refine .inl ⟨e, ?_, rfl⟩
    rw [compile, hgame]
    rfl
  | ok g =>
    cases hartifact : g.artifactFor options with
    | error e =>
      refine .inl ⟨e, ?_, ?_⟩
      · rw [compile, hgame]
        exact hartifact
      · simp only [bind, Except.bind, hartifact]
        rfl
    | ok a =>
      obtain ⟨text, htext, -⟩ := exists_dataText (numbered_of_readGame hgame)
      obtain ⟨r, d', hwrite, hcourse⟩ := g.course_writeGame a htext folder name d
      refine .inr ⟨g, a, text, r, d', rfl, hartifact, htext, hcourse, ?_⟩
      simp only [bind, Except.bind, hartifact]
      exact Disk.run_bind hwrite

/-- **An export is all or nothing, as far as it is up to the compiler.** It fails with an error of
the compiler exactly if the text does not compile, and the disk is as it was. Once there is an
artifact the data can be written as well: what is left is up to the disk, and a file changes only
if the data come to stand or the disk refuses just them. A null character in a name, which no disk
is asked about, leaves the disk as it is if it is in the name of the folder; if it is in that of the
page, the files are as they were, but the folder has been made. -/
theorem exportGame_all_or_nothing {source : String} {options : Except OptionError Options}
    {folder : Path} {name : String} {d d' : Disk} {r : Except ExportError Artifact}
    (h : Disk.storage.exportGame source options folder name d = (r, d')) :
    (∀ e, r = .error (.compile e) ↔ (compile source options).outcome = .error e) ∧
      (∀ e, r = .error (.compile e) → d' = d) ∧
      (∀ p, r = .error (.file ⟨.nullInName, p⟩) →
        folder.hasNull = true ∧ d' = d ∨
          folder.hasNull = false ∧ (Path.ofText name).hasNull = true ∧ d.SameFiles d' ∧
            Disk.storage.makeFolders folder d = (.ok (), d')) ∧
      ∀ g a, (readGame source).outcome = .ok g → g.artifactFor options = .ok a →
        ∃ text r', g.dataText = .ok text ∧ r = (r'.mapError .file).map (fun _ => a) ∧
          d.Course (encodeUtf8 a.page) (encodeUtf8 text) folder name r' d' ∧
          (d.SameFiles d' ∨ d'.read (folder.child dataFile) = .ok (encodeUtf8 text) ∨
            ∃ f, r' = .error ⟨f, folder.child dataFile⟩ ∧ f ≠ .nullInName) := by
  obtain ⟨e, hcompile, hrun⟩ | ⟨g, a, text, r', d₁, hgame, hartifact, htext, hcourse, hrun⟩ :=
    exportGame_outcome source options folder name d
  · cases hrun.symm.trans h
    refine ⟨fun e' => ?_, fun _ _ => rfl, nofun, fun g a hgame hartifact => ?_⟩
    · rw [hcompile]
      constructor
      · rintro ⟨⟩
        rfl
      · rintro ⟨⟩
        rfl
    · rw [compile, hgame] at hcompile
      cases hartifact.symm.trans hcompile
  · cases hrun.symm.trans h
    have hcompile : (compile source options).outcome = .ok a := by
      rw [compile, hgame]
      exact hartifact
    -- What is left to go wrong is a matter of files.
    have hne (e : CompileError) :
        (r'.mapError ExportError.file).map (fun _ => a) ≠ .error (.compile e) := by
      cases r' <;> nofun
    refine ⟨fun e => ?_, fun e he => absurd he (hne e), fun p hp => ?_, fun g' a' hgame' ha' => ?_⟩
    · rw [hcompile]
      exact iff_of_false (hne e) nofun
    · cases r' with
      | ok => cases hp
      | error e =>
        cases hp
        exact hcourse.of_null rfl
    · cases hgame.symm.trans hgame'
      cases hartifact.symm.trans ha'
      exact ⟨text, r', htext, rfl, hcourse, hcourse.sameFiles_or⟩

/-- An export with a null character in the name of the page. -/
def nullExport : Except ExportError Artifact × Disk :=
  Disk.storage.exportGame "game \"a\" { }" (.ok {}) (Path.ofText "out") "a\x00" {}

theorem exportGame_all_or_nothing_null :
    (∃ p, nullExport.1 = .error (.file ⟨.nullInName, p⟩)) ∧ Disk.SameFiles {} nullExport.2 ∧
      Disk.storage.makeFolders (Path.ofText "out") {} = (.ok (), nullExport.2) := by
  have hrun := exportGame_all_or_nothing (Prod.eta nullExport).symm
  have hnull : (nullExport.1 matches .error (.file ⟨.nullInName, _⟩)) = true := by decide +kernel
  have hfolder : (Path.ofText "out").hasNull = false := by decide +kernel
  split at hnull
  · next p hr =>
    obtain ⟨hbad, -⟩ | ⟨-, -, hmade⟩ := hrun.2.2.1 p hr
    · rw [hfolder] at hbad
      cases hbad
    · exact ⟨⟨p, hr⟩, hmade⟩
  · cases hnull

/-- No disk has refused anything, and yet there is a folder that was not there before. -/
theorem nullExport_folder :
    (nullExport.1 matches .error (.file ⟨.nullInName, _⟩)) = true ∧
      Disk.node? {} ["out"] = none ∧ nullExport.2.node? ["out"] = some .folder := by
  decide +kernel

end PlatformGame
