import PlatformGame.CommandLine.Arguments
import PlatformGame.Compile.Export
import PlatformGame.Text.Order

/-! # Building several games

Sources are collected first and then built one after the other. A game that is refused, or whose
files cannot be read or written, is reported and the others go on. Any other error ends the batch
where it is, and so does a path that cannot be looked up while sources are collected. -/

namespace PlatformGame.CommandLine

open Text

/-- The name of a source in its folder. -/
def sourceFile : String := "game.pf"

/-- A source file and the name of its game. -/
structure GameSource where
  name : String
  path : Path

/-- A game is named for its file, or for the folder of a file with the usual name. -/
def GameSource.ofPath (p : Path) : GameSource :=
  ⟨if p.name = sourceFile then p.parent.name else p.stem, p⟩

variable {m : Type → Type} [Monad m]

/-- Where the source of a game stands below a folder. -/
def sourceIn (folder : Path) (name : String) : Path :=
  ⟨folder.root, folder.names ++ [name, sourceFile]⟩

/-- Those of the given folders in a folder in which a source stands. -/
def keepSources (s : Storage m) (folder : Path) :
    List String → m (Except FileError (List String))
  | [] => pure (.ok [])
  | n :: ns => do
    match ← s.stands (fun _ => true) (sourceIn folder n) with
    | .error e => pure (.error e)
    | .ok there => do
      pure ((← keepSources s folder ns).map fun kept => if there then n :: kept else kept)

/-- The sources one level below a folder, in order of their names. -/
def sourcesBelow (s : Storage m) (folder : Path) : m (Except FileError (List GameSource)) := do
  let kept ← keepSources s folder (← s.folders folder)
  pure (kept.map fun names => (sortTexts names).map fun n => .ofPath (sourceIn folder n))

/-- A folder stands for the sources below it, any other path for itself. -/
def sourcesAt (s : Storage m) (p : Path) : m (Except FileError (List GameSource)) := do
  match ← s.isFolder p with
  | .error e => pure (.error e)
  | .ok true => sourcesBelow s p
  | .ok false => pure (.ok [.ofPath p])

/-- All sources that are asked for. A path that cannot be looked up ends the search. -/
def collectSources (s : Storage m) : List Path → m (Except FileError (List GameSource))
  | [] => pure (.ok [])
  | p :: ps => do
    match ← sourcesAt s p with
    | .error e => pure (.error e)
    | .ok found => do pure ((← collectSources s ps).map (found ++ ·))

inductive SourceError
  | absent (path : Path)
  | file (e : FileError)
  | undecodable (e : Utf8Error)
  | compile (e : CompileError)

namespace SourceError

def ofExport : ExportError → SourceError
  | .file e => file e
  | .compile e => compile e

/-- The message of an error that concerns one game only, and its details. -/
def report? : SourceError → Option (String × Option String)
  | absent p => some ("Game source not found: " ++ p.text, none)
  | file e => if e.fault = .nullInName then none else some (e.message, none)
  | undecodable _ => none
  | compile e => e.report?.map fun r => (r.headline, r.details)

def message : SourceError → String
  | absent p => "Game source not found: " ++ p.text
  | file e => e.message
  | undecodable e => e.message
  | compile e => e.message

end SourceError

/-- Reads one source, compiles it and writes its page; answers the path of the page. -/
def buildOne (s : Storage m) (output : Option Path) (options : Options) (g : GameSource) :
    m (Except SourceError (Path × Artifact)) := do
  match ← s.isFile g.path with
  | .error e => pure (.error (.file e))
  | .ok false => pure (.error (.absent g.path))
  | .ok true =>
    match ← s.read g.path with
    | .error f => pure (.error (.file ⟨f, g.path⟩))
    | .ok bytes =>
      match textOfBytes bytes with
      | .error e => pure (.error (.undecodable e))
      | .ok source =>
        let folder := match output with
          | some root => root.child g.name
          | none => g.path.parent
        match ← s.exportGame source (.ok options) folder pageFile with
        | .error e => pure (.error (.ofExport e))
        | .ok a => pure (.ok (folder.child pageFile, a))

/-- What is said about one source. -/
inductive Verdict
  | built (name : String) (page : Path) (violations : List Violation)
  | failed (name message : String) (details : Option String)

namespace Verdict

def output : Verdict → List String
  | built name page vs =>
    ("OK: " ++ name ++ " -> " ++ page.text) :: vs.map fun v => "  warning: " ++ v.message
  | failed _ _ _ => []

def complaints : Verdict → List String
  | built _ _ _ => []
  | failed name message details =>
    ("FAIL: " ++ name ++ " - " ++ message) :: (details.filter (!·.isEmpty)).toList

def isBuilt : Verdict → Bool
  | built _ _ _ => true
  | failed _ _ _ => false

end Verdict

/-- The verdicts on the sources, up to the error that ended the batch, if one did. -/
structure Batch where
  verdicts : List Verdict := []
  aborted : Option SourceError := none

namespace Batch

def cons (v : Verdict) (b : Batch) : Batch := { b with verdicts := v :: b.verdicts }

def generated (b : Batch) : Nat := b.verdicts.countP Verdict.isBuilt

def failures (b : Batch) : Nat := b.verdicts.countP (!·.isBuilt)

/-- The lines for the standard output. -/
def output (b : Batch) : List String :=
  b.verdicts.flatMap Verdict.output ++
    if b.aborted.isSome then []
    else ["Generated " ++ toString b.generated ++ " games, " ++ toString b.failures ++ " failures."]

/-- The lines for the error output. -/
def complaints (b : Batch) : List String := b.verdicts.flatMap Verdict.complaints

def exitCode (b : Batch) : Nat := if b.failures = 0 then 0 else 1

end Batch

def buildAll (s : Storage m) (output : Option Path) (options : Options) :
    List GameSource → m Batch
  | [] => pure {}
  | g :: rest => do
    match ← buildOne s output options g with
    | .ok (page, a) => do
      pure ((← buildAll s output options rest).cons (.built g.name page a.violations))
    | .error e =>
      match e.report? with
      | some (message, details) => do
        pure ((← buildAll s output options rest).cons (.failed g.name message details))
      | none => pure { aborted := some e }

/-- Builds what the settings ask for. -/
def run (s : Storage m) (st : Settings) : m Batch := do
  let output := Path.ofText st.output
  if output.hasNull then pure { aborted := some (.file ⟨.nullInName, output⟩) }
  else do
    let root ← if st.output.isEmpty then pure none
      else do pure (some (output.resolve (← s.home)))
    match ← collectSources s (st.sources.map .ofText) with
    | .error e => pure { aborted := some (.file e) }
    | .ok sources => buildAll s root st.options sources

end PlatformGame.CommandLine
