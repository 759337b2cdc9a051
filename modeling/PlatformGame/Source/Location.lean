import PlatformGame.Text.Blank

/-! # Messages with a place

A message about a place in a text is followed by a line that names the place and, if the text is at
hand and that line of it is not blank, by the line itself. Places may come from outside, so lines
and columns are integers here; an unknown or zero column is the first. -/

namespace PlatformGame.Source

open Text

/-- The given line of a text, counted from one and without white space around it. -/
def quotedLine (source : String) (line : Int) : Option String :=
  if line ≤ 0 then none else ((splitLines source)[line.toNat - 1]?).map strip

def locate (message : String) (line column : Option Int) (source : Option String) : String :=
  match line with
  | none => message
  | some line =>
    let column := match column with
      | some c => if c = 0 then 1 else c
      | none => 1
    let place := message ++ "\nLocation: line " ++ toString line ++ ", column " ++ toString column
    match source.bind (quotedLine · line) with
    | some code => if code.isEmpty then place else place ++ "\nCode: " ++ code
    | none => place

end PlatformGame.Source
