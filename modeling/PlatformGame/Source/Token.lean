import PlatformGame.Source.Lexeme
import PlatformGame.Source.Position

/-! # Tokens

Which tokens are recognised depends on the terminals that the reader admits at a place. Where names
are admitted, an admitted keyword in the form of a name is recognised only when it is the whole
name; where they are not, keywords are recognised as they stand, also in front of further letters.
Of several keywords that a text starts with, the longest is taken. -/

namespace PlatformGame.Source

open Grammar

structure Token where
  terminal : Terminal
  text : String
  span : Span
  deriving DecidableEq

/-- The rest of a text and where it starts. -/
structure Cursor where
  rest : List Char
  position : Position

namespace Cursor

def ofString (source : String) : Cursor := ⟨source.toList, .first⟩

/-- The cursor after a piece of text. -/
def past (c : Cursor) (s : Split) : Cursor := ⟨s.rest, c.position.after s.piece⟩

/-- Skips layout. The fuel counts pieces of layout, none of which is empty. -/
def skipLayout : Nat → Cursor → Cursor
  | 0, c => c
  | fuel + 1, c =>
    match layout? c.rest with
    | some s => skipLayout fuel (c.past s)
    | none => c

/-- The start of the next token. -/
def nextStart (c : Cursor) : Cursor := c.skipLayout c.rest.length

end Cursor

/-- Keywords that are recognised only as whole names. -/
def isEmbedded (admitted : List Terminal) (k : Keyword) : Bool :=
  admitted.contains .name && isWord k

/-- The terminals that are recognised by their own form. -/
def scanned (admitted : List Terminal) : List Terminal :=
  admitted.filter fun
    | .keyword k => !isEmbedded admitted k
    | .endOfInput => false
    | _ => true

/-- The longer of the best keyword so far and a further one, if the text starts with it. -/
def longerKeyword (cs : List Char) (best : Option (Keyword × Split)) (k : Keyword) :
    Option (Keyword × Split) :=
  match keyword? k cs, best with
  | some s, some (_, b) => if b.piece.length < s.piece.length then some (k, s) else best
  | some s, none => some (k, s)
  | none, _ => best

/-- The longest of the given keywords that the text starts with. -/
def longestKeyword (ks : List Keyword) (cs : List Char) : Option (Keyword × Split) :=
  ks.foldl (longerKeyword cs) none

def keywordsOf (ts : List Terminal) : List Keyword :=
  ts.filterMap fun
    | .keyword k => some k
    | _ => none

/-- A name, or the admitted keyword that it spells. -/
def nameTerminal (admitted : List Terminal) (piece : List Char) : Terminal :=
  match (keywordsOf admitted).find? fun k => isWord k && k.text == String.ofList piece with
  | some k => .keyword k
  | none => .name

/-- The token that a text starts with, if any of the admitted terminals has that form. -/
def scan (admitted : List Terminal) (cs : List Char) : Option (Terminal × Split) :=
  let class? (t : Terminal) (match? : List Char → Option Split) : Option (Terminal × Split) :=
    if admitted.contains t then (match? cs).map (t, ·) else none
  (class? .name name?).map (fun (_, s) => (nameTerminal admitted s.piece, s))
  <|> class? .string string?
  <|> class? .number number?
  <|> class? .color color?
  <|> (longestKeyword (keywordsOf (scanned admitted)) cs).map fun (k, s) => (.keyword k, s)

/-- The token at the cursor, and the cursor after it. -/
def Cursor.token? (c : Cursor) (admitted : List Terminal) : Option (Token × Cursor) :=
  (scan admitted c.rest).map fun (t, s) =>
    let after := c.past s
    (⟨t, String.ofList s.piece, c.position, after.position⟩, after)

end PlatformGame.Source
