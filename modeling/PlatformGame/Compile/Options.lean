import PlatformGame.Data.Pairs
import PlatformGame.Draft.Json

/-! # Options

Options come from callers as loosely typed values under names of which some have several spellings.
The mode has to be one of three; the other values are kept as given and used by their truth. -/

namespace PlatformGame

/-- The form of the result. All modes give a page at present. -/
inductive OutputMode
  | standalone | modular | embed
  deriving DecidableEq

namespace OutputMode

def text : OutputMode → String
  | standalone => "standalone"
  | modular => "module"
  | embed => "embed"

def all : List OutputMode := [standalone, modular, embed]

/-- The mode with the given name; `standalone-html` is an older name of the first. -/
def ofText? (s : String) : Option OutputMode :=
  if s = "standalone-html" then some standalone else all.find? (·.text == s)

end OutputMode

/-- Whether a value counts as true: not if it is zero or empty. -/
def Json.isTrue : Json → Bool
  | .null => false
  | .bool b => b
  | .number (.int n) => n != 0
  | .number (.float (.finite _ m _)) => m != 0
  | .number (.float _) => true
  | .text s => !s.isEmpty
  | .list xs => !xs.isEmpty
  | .object ms => !ms.isEmpty

/-- Where pages get the engine from unless told otherwise. -/
def defaultUrl : String := "https://cdn.jsdelivr.net/npm/phaser@3.80.1/dist/phaser.min.js"

structure Options where
  mode : OutputMode := .standalone
  runtimeUrl : Json := .text defaultUrl
  minify : Json := .bool false
  strictReferences : Json := .bool false

inductive OptionError
  | unknownOption (name : String)
  | unknownMode (shown : String)
  /-- The address of the engine is no text; this is noticed only when it is needed. -/
  | urlNotText (sort : String)
  deriving DecidableEq

def OptionError.message : OptionError → String
  | unknownOption name => "Unknown compile option '" ++ name ++ "'."
  | unknownMode shown => "Unknown output mode '" ++ shown ++ "'. Expected one of: " ++
      ", ".intercalate (OutputMode.all.map OutputMode.text) ++ "."
  | urlNotText sort => "'" ++ sort ++ "' object has no attribute 'replace'"

namespace Options

inductive Field
  | mode | runtimeUrl | minify | strictReferences
  deriving DecidableEq

/-- The spellings of the options. -/
def field? (name : String) : Option Field :=
  [("mode", Field.mode), ("runtime_url", .runtimeUrl), ("runtimeUrl", .runtimeUrl),
    ("phaserCdn", .runtimeUrl), ("phaser_cdn", .runtimeUrl), ("minify", .minify),
    ("strict_references", .strictReferences), ("strictReferences", .strictReferences)].lookup name

def modeOf (value : Json) : Except OptionError OutputMode :=
  let mode? := match value with
    | .text s => OutputMode.ofText? s
    | _ => none
  match mode? with
  | some m => .ok m
  | none => .error (.unknownMode (Sketch.ofJson value).plain)

/-- The fields that are named, in order, unless a name is unknown. -/
def fieldsOf : List (String × Json) → Except OptionError (List (Field × Json))
  | [] => .ok []
  | (name, value) :: rest =>
    match field? name with
    | some f => do pure ((f, value) :: (← fieldsOf rest))
    | none => .error (.unknownOption name)

/-- The last value that is given for a field. -/
def lastValue (f : Field) (fields : List (Field × Json)) : Option Json :=
  (fields.reverse.find? (·.1 == f)).map (·.2)

/-- Options from pairs of a name and a value. Unknown names are reported before an unknown mode. -/
def ofPairs (pairs : List (String × Json)) : Except OptionError Options := do
  let fields ← fieldsOf (putPairs pairs)
  let mode ← match lastValue .mode fields with
    | some value => modeOf value
    | none => pure .standalone
  let base : Options := {}
  pure {
    mode := mode
    runtimeUrl := (lastValue .runtimeUrl fields).getD base.runtimeUrl
    minify := (lastValue .minify fields).getD base.minify
    strictReferences := (lastValue .strictReferences fields).getD base.strictReferences }

/-- The address of the engine. -/
def url (o : Options) : Except OptionError String :=
  match o.runtimeUrl with
  | .text s => .ok s
  | value => .error (.urlNotText (Sketch.ofJson value).sortName)

end Options

end PlatformGame
