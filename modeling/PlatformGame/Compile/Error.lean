import PlatformGame.Check.Violation
import PlatformGame.Compile.Options
import PlatformGame.Draft.Build

/-! # Errors of the compiler -/

namespace PlatformGame

/-- The step of compilation that reports an error. -/
inductive Phase
  | parse | semantic | validate | generate
  deriving DecidableEq

def Phase.text : Phase → String
  | parse => "parse"
  | semantic => "semantic"
  | validate => "validate"
  | generate => "generate"

/-- An error in the words of the compiler. -/
structure Report where
  phase : Phase
  message : String
  details : Option String := none

def Report.headline (r : Report) : String := "[" ++ r.phase.text ++ "] " ++ r.message

/-- The report on a game with violations. -/
def Report.ofViolations : List Violation → Option Report
  | [] => none
  | v :: vs =>
    let all := (v :: vs).map Violation.message
    some ⟨.validate, v.message, some ("\n".intercalate all)⟩

/-- Why a text does not compile. -/
inductive CompileError
  | unreadable (failure : Parse.Failure) (source : String)
  | build (e : Draft.BuildError)
  | number (e : NumberError)
  | option (e : OptionError)

namespace CompileError

/-- The report of an error that is the text's own. Parts that do not fit, numbers that are too large
and wrong options are not reported this way. -/
def report? : CompileError → Option Report
  | unreadable f source => some ⟨.parse, "Failed to parse DSL source", some (f.message source)⟩
  | build (.misfit _ _) => none
  | build e => some ⟨.semantic, e.message, none⟩
  | number _ => none
  | option _ => none

def message (e : CompileError) : String :=
  match e.report? with
  | some r => r.headline
  | none =>
    match e with
    | unreadable f source => f.message source
    | build e => e.message
    | number e => e.message
    | option e => e.message

end CompileError

end PlatformGame
