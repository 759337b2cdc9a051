/-! # Positions in a text

Lines end at newline characters and are counted from one; columns count characters, from one. -/

namespace PlatformGame.Source

structure Position where
  line : Nat
  column : Nat
  deriving DecidableEq

namespace Position

def first : Position := ⟨1, 1⟩

def next (p : Position) (c : Char) : Position :=
  if c = '\n' then ⟨p.line + 1, 1⟩ else ⟨p.line, p.column + 1⟩

/-- The position after the given characters. -/
def after (p : Position) (cs : List Char) : Position := cs.foldl next p

theorem after_append (p : Position) (cs ds : List Char) :
    p.after (cs ++ ds) = (p.after cs).after ds := List.foldl_append

end Position

/-- A stretch of text, `last` being the position after its end. -/
structure Span where
  first : Position
  last : Position
  deriving DecidableEq

end PlatformGame.Source
