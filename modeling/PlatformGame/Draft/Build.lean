import PlatformGame.Draft.Sketch
import PlatformGame.Number.Literal
import PlatformGame.Parse.Failure

/-! # Building with warnings

Building a sketch may warn and go on, or fail. The warnings of everything done before a failure are
kept, so that a caller who takes warnings for failures sees the first of either. -/

namespace PlatformGame.Draft

open Source Text

inductive Warning
  /-- A block of which only the last occurrence counts has occurred before. -/
  | duplicateBlock (kind : String) (place : Option Position)
  /-- A movement pattern has a parameter that it does not use. -/
  | ignoredParameter (movement key : String) (place : Option Position)
  deriving DecidableEq

namespace Warning

def summary : Warning → String
  | duplicateBlock kind _ =>
    "Duplicate \"" ++ kind ++ "\" block: only the last occurrence is used"
  | ignoredParameter movement key _ =>
    "Movement \"" ++ movement ++ "\" ignores parameter \"" ++ key ++ "\""

def place : Warning → Option Position
  | duplicateBlock _ p => p
  | ignoredParameter _ _ p => p

/-- The warning with its place, and with the line in question if the text is at hand. -/
def message (w : Warning) (source : Option String) : String :=
  locate w.summary (w.place.map fun p => (p.line : Int)) (w.place.map fun p => (p.column : Int))
    source

end Warning

/-- Why the parts of a node do not fit its label. -/
inductive Misfit
  /-- A node without the part that it stands for. -/
  | noPart
  /-- A word without the character that it stands for. -/
  | noCharacter
  /-- A word as the name of a production that needs to know its place. -/
  | wordWithoutPlace (label : String)
  /-- A node that starts with a name has no parts. -/
  | noName
  | tooFew (expected found : Nat)
  | tooMany (expected : Nat)
  | literal (e : LiteralError)
  | notOfChoice (text : String) (kind : ChoiceKind)
  | noItems (sort : String)
  | notKey (sort : String)
  /-- A list is appended to something else. -/
  | notAppendable (earlier : Sketch)
  | noLayer (index : Nat)
  | layerSize (index size : Nat)
  | keyNotText
  | unknownField (kind : RecordKind) (key : String)
  /-- Two keys set one field. -/
  | keyTwice (kind : RecordKind) (key : String)
  /-- A field that comes first is set by name, too. -/
  | fieldTwice (kind : RecordKind) (key : String)
  /-- A step of the builder needs more than parts. -/
  | stepNeedsMore (name : String)
  /-- A step of the builder takes no parts. -/
  | stepTakesNothing
  /-- A step of the builder works on trees and gets something else. -/
  | noTree (sort : String)
  /-- A value of the builder where a step belongs. -/
  | noStep (sort : String)

namespace Misfit

def message : Misfit → String
  | noPart => "list index out of range"
  | noCharacter => "string index out of range"
  | wordWithoutPlace label =>
    "GameASTBuilder." ++ label ++ "() missing 1 required positional argument: 'children'"
  | noName => "not enough values to unpack (expected at least 1, got 0)"
  | tooFew expected found => "not enough values to unpack (expected " ++ Nat.repr expected ++
      ", got " ++ Nat.repr found ++ ")"
  | tooMany expected => "too many values to unpack (expected " ++ Nat.repr expected ++ ")"
  | literal e => e.message
  | notOfChoice text kind => quoted text ++ " is not a valid " ++ kind.name
  | noItems sort => "'" ++ sort ++ "' object is not iterable"
  | notKey sort => "unhashable type: '" ++ sort ++ "'"
  | notAppendable (.list _) => "can only concatenate list (not \"tuple\") to list"
  | notAppendable earlier =>
    if earlier.text?.isSome then "can only concatenate str (not \"tuple\") to str"
    else "unsupported operand type(s) for +: '" ++ earlier.sortName ++ "' and 'tuple'"
  | noLayer index => "cannot convert dictionary update sequence element #" ++ Nat.repr index ++
      " to a sequence"
  | layerSize index size => "dictionary update sequence element #" ++ Nat.repr index ++
      " has length " ++ Nat.repr size ++ "; 2 is required"
  | keyNotText => "keywords must be strings"
  | unknownField kind key =>
    kind.name ++ ".__init__() got an unexpected keyword argument '" ++ key ++ "'"
  | keyTwice kind key =>
    kind.name ++ ".__init__() got multiple values for argument '" ++ key ++ "'"
  | fieldTwice kind key => "platformer_dsl.game_model." ++ kind.name ++
      "() got multiple values for keyword argument '" ++ key ++ "'"
  | stepNeedsMore name => "GameASTBuilder." ++ name ++
      "() missing 2 required positional arguments: 'children' and 'meta'"
  | stepTakesNothing => "expected 0 arguments, got 1"
  | noTree sort => "'" ++ sort ++ "' object has no attribute 'children'"
  | noStep sort => "'" ++ sort ++ "' object is not callable"

end Misfit

/-- Why a tree gives no draft. A tree that comes from reading a text fails only because of an
integer with too many digits. -/
inductive BuildError
  /-- A leaf where a tree was expected. -/
  | leaf (kind text : String)
  | unknownProduction (name : String)
  | unexpectedInBody (x : Sketch)
  | unexpectedInGame (x : Sketch)
  | misfit (label : String) (cause : Misfit)
  /-- A sketch that is no draft. -/
  | noDraft (x : Sketch)

namespace BuildError

def message : BuildError → String
  | leaf kind text => "Expected a parse tree, got token " ++ Sketch.shownToken kind text
  | unknownProduction name => "No AST builder for production '" ++ name ++ "'"
  | unexpectedInBody x => "Unexpected node in property list: " ++ x.shown
  | unexpectedInGame x => "Unexpected node in game block: " ++ x.shown
  | misfit label cause => "Error trying to process rule \"" ++ label ++ "\":\n\n" ++ cause.message
  | noDraft x => "Expected a game, got " ++ x.shown

end BuildError

structure Build (α : Type) where
  warnings : List Warning
  outcome : Except BuildError α

namespace Build

def succeed (a : α) : Build α := ⟨[], .ok a⟩

def fail (e : BuildError) : Build α := ⟨[], .error e⟩

def warn (w : Warning) : Build Unit := ⟨[w], .ok ()⟩

def andThen (x : Build α) (f : α → Build β) : Build β :=
  match x.outcome with
  | .ok a => ⟨x.warnings ++ (f a).warnings, (f a).outcome⟩
  | .error e => ⟨x.warnings, .error e⟩

instance : Monad Build where
  pure := succeed
  bind := andThen

def warnAll : List Warning → Build Unit
  | [] => pure ()
  | w :: ws => do
    warn w
    warnAll ws

end Build

end PlatformGame.Draft
