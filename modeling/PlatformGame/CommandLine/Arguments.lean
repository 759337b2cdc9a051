import PlatformGame.Compile.Options
import PlatformGame.Text.Quoted

/-! # Command-line arguments

Each argument is first told apart on its own: a plain word, an option, or something that looks like
an option and is none. Long options may be cut short as long as one option remains, and take a value
after an equals sign or as the next word. After two dashes every argument is a plain word. The first
unbroken run of plain words names the sources; other leftovers are reported together, after all
else. -/

namespace PlatformGame.CommandLine

open Text

inductive Switch
  | help | output | mode | runtimeUrl | minify | strict
  deriving DecidableEq

namespace Switch

/-- Whether the option has a value. -/
def takesValue : Switch → Bool
  | output | mode | runtimeUrl => true
  | help | minify | strict => false

/-- The spellings of the options. -/
def spellings : List (String × Switch) :=
  [("-h", help), ("--help", help), ("--output", output), ("--mode", mode),
    ("--runtime-url", runtimeUrl), ("--minify", minify), ("--strict", strict)]

/-- The option in messages: all its spellings. -/
def text (w : Switch) : String :=
  "/".intercalate ((spellings.filter (·.2 == w)).map (·.1))

end Switch

inductive UsageError
  | sourcesRequired
  | unrecognized (args : List String)
  | valueRequired (w : Switch)
  | valueIgnored (w : Switch) (value : String)
  | unknownMode (value : String)
  | ambiguous (arg : String) (candidates : List String)
  deriving DecidableEq

namespace UsageError

def message : UsageError → String
  | sourcesRequired => "the following arguments are required: sources"
  | unrecognized args => "unrecognized arguments: " ++ " ".intercalate args
  | valueRequired w => "argument " ++ w.text ++ ": expected one argument"
  | valueIgnored w value => "argument " ++ w.text ++ ": ignored explicit argument " ++ quoted value
  | unknownMode value => "argument --mode: invalid choice: " ++ quoted value ++ " (choose from " ++
      ", ".intercalate (OutputMode.all.map fun m => quoted m.text) ++ ")"
  | ambiguous arg candidates => "ambiguous option: " ++ arg ++ " could match " ++
      ", ".intercalate candidates

/-- The name of the command. -/
def command : String := "platformer-dsl-build"

def line (e : UsageError) : String := command ++ ": error: " ++ e.message

end UsageError

/-- An argument told apart. -/
inductive Word
  | plain (s : String)
  | divider
  | switch (w : Switch) (value : Option String)
  | short (w : Switch) (letters : String)
  | unknown (s : String)
  deriving DecidableEq

/-- The text before the first equals sign and the text after it. -/
def splitEquals (cs : List Char) : List Char × Option (List Char) :=
  match cs.dropWhile (· != '=') with
  | [] => (cs, none)
  | _ :: value => (cs.takeWhile (· != '='), some value)

/-- A minus sign and digits, perhaps with a point before the last of them. -/
def isNegativeNumber : List Char → Bool
  | '-' :: cs =>
    let cs := if cs.getLast? = some '\n' then cs.dropLast else cs
    match cs.dropWhile Char.isDigit with
    | [] => !cs.isEmpty
    | '.' :: fraction => !fraction.isEmpty && fraction.all Char.isDigit
    | _ => false
  | _ => false

/-- An argument with a leading dash that names no option. -/
def leftover (s : String) : Word :=
  if isNegativeNumber s.toList || s.toList.contains ' ' then .plain s else .unknown s

/-- The options that a long argument can be short for. -/
def candidates (s : String) : List (String × Switch) :=
  let name := (splitEquals s.toList).1
  Switch.spellings.filter fun (spelling, _) => name.isPrefixOf spelling.toList

def classifyLong (s : String) : Except UsageError Word :=
  match candidates s with
  | [] => .ok (leftover s)
  | [(_, w)] => .ok (.switch w ((splitEquals s.toList).2.map String.ofList))
  | many => .error (.ambiguous s (many.map (·.1)))

def classifyShort (s : String) : Word :=
  match Switch.spellings.lookup (String.ofList (s.toList.take 2)) with
  | some w => .short w (String.ofList (s.toList.drop 2))
  | none => leftover s

/-- An option under one of its full spellings, with or without a value. -/
def classifyExact (s : String) : Option Word :=
  match Switch.spellings.lookup s, splitEquals s.toList with
  | some w, _ => some (.switch w none)
  | none, (name, some value) =>
    (Switch.spellings.lookup (String.ofList name)).map fun w =>
      .switch w (some (String.ofList value))
  | none, (_, none) => none

def classify (s : String) : Except UsageError Word :=
  match s.toList, classifyExact s with
  | '-' :: _, some word => .ok word
  | ['-'], none => .ok (.plain s)
  | '-' :: '-' :: _, none => classifyLong s
  | '-' :: _, none => .ok (classifyShort s)
  | _, _ => .ok (.plain s)

def classifyAll : List String → Except UsageError (List Word)
  | [] => .ok []
  | s :: rest =>
    if s = "--" then .ok (.divider :: rest.map .plain)
    else do
      let word ← classify s
      let words ← classifyAll rest
      pure (word :: words)

/-- What the arguments ask for. -/
structure Settings where
  sources : List String := []
  output : String := ""
  mode : OutputMode := .standalone
  runtimeUrl : Option String := none
  minify : Bool := false
  strict : Bool := false

namespace Settings

/-- Sets the value of an option. -/
def withValue (st : Settings) (w : Switch) (value : String) : Except UsageError Settings :=
  match w with
  | .output => .ok { st with output := value }
  | .runtimeUrl => .ok { st with runtimeUrl := some value }
  | .mode =>
    match OutputMode.all.find? (·.text == value) with
    | some m => .ok { st with mode := m }
    | none => .error (.unknownMode value)
  | _ => .error (.valueIgnored w value)

def withSwitch (st : Settings) : Switch → Settings
  | .minify => { st with minify := true }
  | .strict => { st with strict := true }
  | _ => st

def options (st : Settings) : Options :=
  let base : Options := {}
  { mode := st.mode
    runtimeUrl := (st.runtimeUrl.map Json.text).getD base.runtimeUrl
    minify := .bool st.minify
    strictReferences := .bool st.strict }

end Settings

/-- The run of plain words that names the sources: to come, being read, or over. -/
inductive Run
  | ahead | reading | over
  deriving DecidableEq

/-- What the words so far say. -/
structure Gathered where
  settings : Settings := {}
  run : Run := .ahead
  extras : List String := []

namespace Gathered

/-- An option ends the run of sources. -/
def close (g : Gathered) : Gathered := { g with run := if g.run = .ahead then .ahead else .over }

def addExtra (g : Gathered) (s : String) : Gathered := { g with extras := g.extras ++ [s] }

def addPlain (g : Gathered) (s : String) : Gathered :=
  if g.run = .over then g.addExtra s
  else { g with
    run := .reading
    settings := { g.settings with sources := g.settings.sources ++ [s] } }

/-- The divider disappears in the run of sources and before it, and is left over elsewhere. -/
def addDivider (g : Gathered) (rest : List Word) : Gathered :=
  if g.run = .over || g.run = .ahead && rest.isEmpty then g.addExtra "--" else g

end Gathered

/-- Why the arguments lead to no run. -/
inductive Stop
  | help
  | usage (e : UsageError)
  deriving DecidableEq

/-- What the letters after a short option amount to. They are further short options up to one that
is unknown, of which there is only the one for help, and none of them takes a value. -/
def shortLetters (w : Switch) : List Char → Stop
  | [] => .help
  | ['h'] => .help
  | 'h' :: '=' :: value => .usage (.valueIgnored w (String.ofList value))
  | 'h' :: letters => shortLetters w letters
  | '-' :: letters => .usage (.valueIgnored w (String.ofList ('-' :: letters)))
  | _ :: _ => .help

def gather (g : Gathered) : List Word → Except Stop Gathered
  | [] => .ok g
  | .plain s :: rest => gather (g.addPlain s) rest
  | .divider :: rest => gather (g.addDivider rest) rest
  | .unknown s :: rest => gather (g.close.addExtra s) rest
  | .short w letters :: _ => .error (shortLetters w letters.toList)
  | .switch w (some value) :: rest =>
    match g.settings.withValue w value with
    | .ok settings => gather { g.close with settings } rest
    | .error e => .error (.usage e)
  | .switch w none :: rest =>
    if w = .help then .error .help
    else if w.takesValue then
      match rest with
      | .plain value :: rest =>
        match g.settings.withValue w value with
        | .ok settings => gather { g.close with settings } rest
        | .error e => .error (.usage e)
      | _ => .error (.usage (.valueRequired w))
    else gather { g.close with settings := g.settings.withSwitch w } rest

def parseArguments (args : List String) : Except Stop Settings := do
  let words ← (classifyAll args).mapError .usage
  let g ← gather {} words
  if g.run = .ahead then throw (.usage .sourcesRequired)
  if !g.extras.isEmpty then throw (.usage (.unrecognized g.extras))
  pure g.settings

end PlatformGame.CommandLine
