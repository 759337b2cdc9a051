import PlatformGame.Program.Code

/-! # Sheets

A sheet is text under construction: lines written so far, a nesting level and the unit of
indentation. Empty lines are never indented. A sheet can be appended to another, which indents its
lines once more at the level reached there. -/

namespace PlatformGame.Program

open Text

structure Sheet where
  unit : String := "  "
  level : Nat := 0
  lines : List String := []

namespace Sheet

def repeated (unit : String) (n : Nat) : String := String.join (List.replicate n unit)

/-- A text indented by the given number of units, unless it is empty. -/
def indented (unit : String) (level : Nat) (s : String) : String :=
  if s.isEmpty then "" else repeated unit level ++ s

def isEmpty (b : Sheet) : Bool := b.lines.isEmpty

def indent (b : Sheet) : Sheet := { b with level := b.level + 1 }

def dedent (b : Sheet) : Sheet := { b with level := b.level - 1 }

def line (b : Sheet) (s : String) : Sheet :=
  { b with lines := b.lines ++ [indented b.unit b.level s] }

/-- Opens a block with the given header. -/
def openBlock (b : Sheet) (header : String) : Sheet :=
  (b.line (if header.isEmpty then r"{" else header ++ r" {")).indent

def closeBlock (b : Sheet) (close : String) : Sheet := b.dedent.line close

/-- The parts of a text between newlines; `part` is what has been read of the first, in reverse. -/
def splitNewlines (part : List Char) : List Char → List (List Char)
  | [] => [part.reverse]
  | c :: cs =>
    if c = '\n' then part.reverse :: splitNewlines [] cs else splitNewlines (c :: part) cs

/-- Adds lines as they stand. -/
def raw (b : Sheet) (s : String) : Sheet :=
  { b with lines := b.lines ++ (splitNewlines [] s.toList).map String.ofList }

def append (b other : Sheet) : Sheet :=
  { b with lines := b.lines ++ other.lines.map (indented b.unit b.level) }

/-- The text of the sheet; on request without indentation and blank lines. -/
def render (b : Sheet) (minify : Bool) : String :=
  if minify then "\n".intercalate ((b.lines.map strip).filter (!·.isEmpty))
  else "\n".intercalate b.lines

end Sheet

/-- What is done to a sheet: single lines, steps in and out, blocks with the commands inside them,
and whole sheets. -/
inductive Command
  | line (s : String)
  | indent
  | dedent
  | block (header close : String) (body : List Command)
  | append (other : Sheet)

namespace Command

mutual

def run : Command → Sheet → Sheet
  | line s, b => b.line s
  | indent, b => b.indent
  | dedent, b => b.dedent
  | block header close body, b => (runAll body (b.openBlock header)).closeBlock close
  | append other, b => b.append other

def runAll : List Command → Sheet → Sheet
  | [], b => b
  | c :: cs, b => runAll cs (c.run b)

end

end Command

def Row.command : Row → Except NumberError Command
  | .line ps => do pure (.line (← writeAll ps))
  | .indent => pure .indent
  | .dedent => pure .dedent

/-- The rows on a sheet of their own. -/
def Listing.sheet (rows : Listing) : Except NumberError Sheet := do
  pure (Command.runAll (← rows.mapM Row.command) {})

end PlatformGame.Program
