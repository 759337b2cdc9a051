import PlatformGame.Compile.Error
import PlatformGame.Draft.Assemble
import PlatformGame.Draft.Decode
import PlatformGame.Program.Page

/-! # Compiling

A text is read, built into a draft, completed, checked and turned into a page. Only the first two
steps can reject a text; violations are returned beside the page. -/

namespace PlatformGame

open Grammar Parse

/-- What came of a text, with the warnings on the way. -/
structure Reading (α : Type) where
  warnings : List Draft.Warning
  outcome : Except CompileError α

namespace Reading

def map (f : α → β) (r : Reading α) : Reading β := ⟨r.warnings, r.outcome.map f⟩

end Reading

/-- What a tree describes. -/
def sketchTree (t : Tree) : Reading Sketch :=
  let built := Draft.sketch t
  ⟨built.warnings, built.outcome.mapError .build⟩

/-- What a text describes that is read as the given phrase. -/
def readSketch (p : Phrase) (source : String) : Reading Sketch :=
  match readAs p source with
  | .error f => ⟨[], .error (.unreadable f source)⟩
  | .ok [] => ⟨[], .error (.build (.noDraft .null))⟩
  | .ok (t :: _) => sketchTree t

def readDraft (source : String) : Reading Draft :=
  let r := readSketch start source
  ⟨r.warnings, do
    let x ← r.outcome
    match Draft.ofSketch? x with
    | some d => pure d
    | none => throw (.build (.noDraft x))⟩

def readGame (source : String) : Reading Game := (readDraft source).map Draft.complete

/-- A page and the violations of the game. -/
structure Artifact where
  page : String
  violations : List Violation

namespace Game

def page (g : Game) (url : String) (minify : Bool) : Except NumberError String := do
  pure ((← Program.Listing.sheet (Program.pageListing g url)).render minify)

def artifact (g : Game) (url : String) (minify strict : Bool) : Except NumberError Artifact := do
  pure ⟨← g.page url minify, g.violations strict⟩

/-- The artifact for options that may be wrong. -/
def artifactFor (g : Game) (options : Except OptionError Options) :
    Except CompileError Artifact := do
  let o ← options.mapError .option
  let url ← o.url.mapError .option
  (g.artifact url o.minify.isTrue o.strictReferences.isTrue).mapError .number

end Game

/-- The text is looked at before the options. -/
def compile (source : String) (options : Except OptionError Options) : Reading Artifact :=
  let r := readGame source
  ⟨r.warnings, do (← r.outcome).artifactFor options⟩

end PlatformGame
