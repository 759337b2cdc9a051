import PlatformGame.Number.Basic
import PlatformGame.Text.Quoted

/-! # JSON

Values, and two ways of writing them: on one line, and with one member per line and the members of
objects in the order of their keys. Text is written in ASCII, characters beyond it as UTF-16 units.
An integer with too many digits cannot be written. -/

namespace PlatformGame

inductive Json
  | null
  | bool (b : Bool)
  | number (n : Number)
  | text (s : String)
  | list (xs : List Json)
  | object (members : List (String × Json))

namespace Json

open Text

def unit (n : Nat) : List Char := '\\' :: 'u' :: hexDigits 4 n

/-- A character inside a JSON text. -/
def escapeChar (c : Char) : List Char :=
  if c = '"' then ['\\', '"']
  else if c = '\\' then ['\\', '\\']
  else if c = '\n' then ['\\', 'n']
  else if c = '\r' then ['\\', 'r']
  else if c = '\t' then ['\\', 't']
  else if c = '\x08' then ['\\', 'b']
  else if c = '\x0c' then ['\\', 'f']
  else
    let n := c.toNat
    if 0x20 ≤ n ∧ n < 0x7f then [c]
    else if n < 0x10000 then unit n
    else unit (0xd800 + (n - 0x10000) / 0x400) ++ unit (0xdc00 + (n - 0x10000) % 0x400)

def textLiteral (s : String) : String :=
  String.ofList ('"' :: s.toList.flatMap escapeChar ++ ['"'])

def numberLiteral : Number → Except NumberError String
  | .int n => integerText n
  | .float x => .ok (x.textWith "Infinity" "NaN")

mutual

/-- On one line, with a space after each comma and colon. -/
def compact : Json → Except NumberError String
  | null => .ok "null"
  | bool b => .ok (if b then "true" else "false")
  | number n => numberLiteral n
  | text s => .ok (textLiteral s)
  | list xs => do pure ("[" ++ ", ".intercalate (← compactAll xs) ++ "]")
  | object ms => do pure (r"{" ++ ", ".intercalate (← compactMembers ms) ++ r"}")

def compactAll : List Json → Except NumberError (List String)
  | [] => .ok []
  | x :: xs => do
    let t ← compact x
    let ts ← compactAll xs
    pure (t :: ts)

def compactMembers : List (String × Json) → Except NumberError (List String)
  | [] => .ok []
  | (k, x) :: ms => do
    let t ← compact x
    let ts ← compactMembers ms
    pure ((textLiteral k ++ ": " ++ t) :: ts)

end

/-- Inserts a member by its key. -/
def insertMember (m : String × α) : List (String × α) → List (String × α)
  | [] => [m]
  | n :: rest => if m.1 < n.1 then m :: n :: rest else n :: insertMember m rest

def sortMembers (ms : List (String × α)) : List (String × α) := ms.foldr insertMember []

/-- Lines of a container between its brackets; an empty one has none. -/
def enclose (opening closing : String) (depth : Nat) (items : List String) : String :=
  if items.isEmpty then opening ++ closing
  else
    let line (d : Nat) : String := "\n" ++ String.ofList (List.replicate (2 * d) ' ')
    opening ++ line (depth + 1) ++ (("," ++ line (depth + 1)).intercalate items) ++ line depth
      ++ closing

mutual

/-- One member per line, each level two spaces further in. -/
def pretty (depth : Nat) : Json → Except NumberError String
  | null => .ok "null"
  | bool b => .ok (if b then "true" else "false")
  | number n => numberLiteral n
  | text s => .ok (textLiteral s)
  | list xs => do pure (enclose "[" "]" depth (← prettyAll (depth + 1) xs))
  | object ms => do
    let members ← prettyMembers (depth + 1) ms
    pure (enclose r"{" r"}" depth (sortMembers members |>.map fun (k, t) =>
      textLiteral k ++ ": " ++ t))

def prettyAll (depth : Nat) : List Json → Except NumberError (List String)
  | [] => .ok []
  | x :: xs => do
    let t ← pretty depth x
    let ts ← prettyAll depth xs
    pure (t :: ts)

def prettyMembers (depth : Nat) : List (String × Json) → Except NumberError (List (String × String))
  | [] => .ok []
  | (k, x) :: ms => do
    let t ← pretty depth x
    let ts ← prettyMembers depth ms
    pure ((k, t) :: ts)

end

end Json

end PlatformGame
