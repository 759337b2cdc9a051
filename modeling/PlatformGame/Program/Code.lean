import PlatformGame.Data.Json
import PlatformGame.Text.Blank
import PlatformGame.Text.Script

/-! # Generated text

Generated text is a list of rows, each a list of pieces or a step in or out. Pieces keep apart
what is fixed text and what comes from the game: quoted texts, numbers, names and payloads. So one
can ask what a program does (which scenes it starts, which assets it loads) without reading its
text, and all decisions on quoting and number forms are made once, when the rows are written
(`Piece.write`).

Writing fails only on a number: a quantity that cannot be computed or written. -/

namespace PlatformGame.Program

open Text

/-- A number that is computed when it is written. -/
inductive Quantity
  | value (n : Number)
  | shifted (n : Number) (offset : Int)
  /-- The middle of a stretch. -/
  | middle (start extent : Number)
  /-- Where something of the given even width starts that is centred in an extent. -/
  | centred (extent : Number) (halfWidth : Nat)
  /-- A number that the game does not have. -/
  | absent
  deriving DecidableEq

def Quantity.compute : Quantity → Except NumberError Number
  | value n => .ok n
  | shifted n k => .ok (n.shift k)
  | middle s e => s.middle e
  | centred e w => do
    let half ← e.half
    pure (.float (half.sub (Binary64.round false w 1)))
  | absent => .error .absent

def Quantity.ofOption : Option Number → Quantity
  | some n => value n
  | none => absent

inductive Piece
  /-- Fixed text. -/
  | code (s : String)
  /-- A text as a literal. -/
  | literal (s : String)
  | number (q : Quantity)
  /-- A literal with a number inside. -/
  | labelled (before : String) (n : Number) (after : String)
  /-- A name, as it stands. -/
  | name (s : String)
  | payload (j : Json)
  /-- A text of the page around the program. -/
  | html (s : String)

instance : Coe String Piece := ⟨.code⟩

def Piece.write : Piece → Except NumberError String
  | code s => .ok s
  | literal s => .ok (scriptLiteral s)
  | number q => do (← q.compute).literal
  | labelled before n after => do pure (scriptLiteral (before ++ (← n.literal) ++ after))
  | name s => .ok s
  | payload j => j.compact
  | html s => .ok (escapeHtml s)

/-- A line of generated text, or a step to the lines further in or out. -/
inductive Row
  | line (pieces : List Piece)
  | indent
  | dedent

@[simp] def Row.pieces : Row → List Piece
  | line ps => ps
  | indent | dedent => []

/-- Rows of generated text. -/
abbrev Listing := List Row

def line (ps : List Piece) : Row := .line ps

def blank : Row := .line []

def indent (rows : Listing) : Listing := .indent :: rows ++ [.dedent]

/-- A header with an opening brace, an indented body and a closing line. -/
def blockTo (close : String) (header : List Piece) (body : Listing) : Listing :=
  line (if header.isEmpty then [r"{"] else header ++ [.code r" {"])
    :: indent body ++ [line [close]]

def block (header : List Piece) (body : Listing) : Listing := blockTo r"}" header body

/-- A number of the game. -/
def num (n : Number) : Piece := .number (.value n)

/-- Pieces with a separator between them. -/
def separate (sep : String) : List Piece → List Piece
  | [] => []
  | [p] => [p]
  | p :: ps => p :: sep :: separate sep ps

def writeAll : List Piece → Except NumberError String
  | [] => .ok ""
  | p :: ps => do
    let s ← p.write
    let rest ← writeAll ps
    pure (s ++ rest)

end PlatformGame.Program
