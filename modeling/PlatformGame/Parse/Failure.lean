import PlatformGame.Parse.Reader
import PlatformGame.Source.Location
import PlatformGame.Text.Order
import PlatformGame.Text.Quoted

/-! # Messages about unreadable texts

A failure is told as what was found and what could have stood there instead, in the order of the
labels. The end of input is reported at the start of the last token. -/

namespace PlatformGame.Parse

open Grammar Source Text

namespace Failure

def position : Failure → Position
  | character _ p _ => p
  | token t _ => t.span.first

def found : Failure → String
  | character c _ _ => "Unexpected character " ++ quoted c.toString
  | token t _ =>
    match t.terminal with
    | .endOfInput => "Unexpected end of input"
    | .keyword _ => "Unexpected " ++ t.terminal.label
    | _ => "Unexpected " ++ t.terminal.label ++ " " ++ quoted t.text

/-- The labels of what could have stood there. Where no token at all was admitted, the file should
have ended. -/
def alternatives : Failure → List String
  | character _ _ [] => ["<END-OF-FILE>"]
  | character _ _ ts => sortTexts (ts.map Terminal.label)
  | token _ ts => sortTexts (ts.map Terminal.label)

def summary (f : Failure) : String :=
  "Invalid DSL syntax: " ++ f.found ++
    match f.alternatives with
    | [] => ""
    | labels => ". Expected one of: " ++ ", ".intercalate labels

def message (f : Failure) (source : String) : String :=
  locate f.summary (some f.position.line) (some f.position.column) (some source)

end Failure

/-- Asking for a phrase that no entry of the grammar has. -/
structure UnknownEntry where
  name : String

def UnknownEntry.message (e : UnknownEntry) : String :=
  "Unknown start rule " ++ e.name ++ ". Must be one of [" ++
    ", ".intercalate (entries.map fun (n, _) => quoted n) ++ "]"

def entry? (name : String) : Except UnknownEntry Phrase :=
  match entries.lookup name with
  | some p => .ok p
  | none => .error ⟨name⟩

end PlatformGame.Parse
