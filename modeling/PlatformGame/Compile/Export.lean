import PlatformGame.Compile.Artifact
import PlatformGame.Draft.Json
import PlatformGame.Files.Storage
import PlatformGame.Text.Utf8

/-! # Exporting

The page of a game and its data are written side by side into a folder. Nothing is written before
the page is complete. -/

namespace PlatformGame

open Text

def pageFile : String := "index.html"

def dataFile : String := "game_ast.json"

inductive ExportError
  | compile (e : CompileError)
  | file (e : FileError)

namespace Game

def dataText (g : Game) : Except NumberError String := Json.pretty 0 g.toDraft.toJson

end Game

variable {m : Type → Type} [Monad m]

/-- Writes the page and the data of a game. -/
def Storage.writeGame (s : Storage m) (g : Game) (a : Artifact) (folder : Path) (name : String) :
    m (Except ExportError Unit) := do
  match ← s.makeFolders folder with
  | .error e => pure (.error (.file e))
  | .ok () =>
    match ← s.writeFile (folder.child name) (encodeUtf8 a.page) with
    | .error e => pure (.error (.file e))
    | .ok () =>
      match g.dataText with
      | .error e => pure (.error (.compile (.number e)))
      | .ok data => do
        pure ((← s.writeFile (folder.child dataFile) (encodeUtf8 data)).mapError .file)

/-- Compiles a text and writes what comes of it into a folder. -/
def Storage.exportGame (s : Storage m) (source : String) (options : Except OptionError Options)
    (folder : Path) (name : String) : m (Except ExportError Artifact) := do
  let compiled : Except CompileError (Game × Artifact) := do
    let g ← (readGame source).outcome
    pure (g, ← g.artifactFor options)
  match compiled with
  | .error e => pure (.error (.compile e))
  | .ok (g, a) => do pure ((← s.writeGame g a folder name).map fun () => a)

end PlatformGame
