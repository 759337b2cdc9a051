import PlatformGame.Text.Quoted

/-! # Text in bytes

The encoding of text as UTF-8. A sequence of bytes is no text from the first byte on that no
character can begin with or continue with; what is reported are the bytes of that character that
have been good so far. -/

namespace PlatformGame.Text

/-- Why bytes are no text. -/
inductive Utf8Reason
  | start | continuation | truncated
  deriving DecidableEq

def Utf8Reason.text : Utf8Reason → String
  | start => "invalid start byte"
  | continuation => "invalid continuation byte"
  | truncated => "unexpected end of data"

/-- The bytes at fault, and where they begin. -/
structure Utf8Error where
  reason : Utf8Reason
  position : Nat
  lead : UInt8
  count : Nat
  deriving DecidableEq

def Utf8Error.message (e : Utf8Error) : String :=
  "'utf-8' codec can't decode " ++
    (if e.count = 1 then
      "byte 0x" ++ String.ofList (hexDigits 2 e.lead.toNat) ++ " in position " ++
        toString e.position
    else
      "bytes in position " ++ toString e.position ++ "-" ++
        toString (e.position + e.count - 1)) ++
    ": " ++ e.reason.text

/-- What the first byte of a character says: its share of the code point, and the bounds of each of
the bytes to follow. -/
def utf8Lead (b : Nat) : Option (Nat × List (Nat × Nat)) :=
  let tail := (0x80, 0xbf)
  if b < 0x80 then some (b, [])
  else if b < 0xc2 then none
  else if b < 0xe0 then some (b - 0xc0, [tail])
  else if b = 0xe0 then some (0, [(0xa0, 0xbf), tail])
  else if b = 0xed then some (0xd, [(0x80, 0x9f), tail])
  else if b < 0xf0 then some (b - 0xe0, [tail, tail])
  else if b = 0xf0 then some (0, [(0x90, 0xbf), tail, tail])
  else if b < 0xf4 then some (b - 0xf0, [tail, tail, tail])
  else if b = 0xf4 then some (4, [(0x80, 0x8f), tail, tail])
  else none

/-- A character under way: where it began, its bytes so far, the code point so far, and the bounds
of the bytes to follow. -/
structure Utf8Pending where
  position : Nat
  lead : UInt8
  count : Nat
  code : Nat
  bounds : List (Nat × Nat)

/-- Decodes bytes from a position on, in the middle of a character or between two. -/
def decodeFrom (position : Nat) (pending : Option Utf8Pending) :
    List UInt8 → Except Utf8Error (List Char)
  | [] =>
    match pending with
    | none => .ok []
    | some p => .error ⟨.truncated, p.position, p.lead, p.count⟩
  | b :: bs =>
    match pending with
    | none =>
      match utf8Lead b.toNat with
      | none => .error ⟨.start, position, b, 1⟩
      | some (code, []) => do pure (Char.ofNat code :: (← decodeFrom (position + 1) none bs))
      | some (code, bounds) => decodeFrom (position + 1) (some ⟨position, b, 1, code, bounds⟩) bs
    | some p =>
      match p.bounds with
      | [] => .error ⟨.continuation, p.position, p.lead, p.count⟩
      | (low, high) :: bounds =>
        if low ≤ b.toNat ∧ b.toNat ≤ high then
          let code := p.code * 64 + (b.toNat - 0x80)
          if bounds.isEmpty then do
            pure (Char.ofNat code :: (← decodeFrom (position + 1) none bs))
          else
            decodeFrom (position + 1) (some ⟨p.position, p.lead, p.count + 1, code, bounds⟩) bs
        else .error ⟨.continuation, p.position, p.lead, p.count⟩

def decodeUtf8 (bytes : List UInt8) : Except Utf8Error (List Char) := decodeFrom 0 none bytes

def encodeUtf8 (s : String) : List UInt8 := s.toList.flatMap String.utf8EncodeChar

/-- Every line end, be it a return, a newline or both, as a newline. -/
def plainNewlines : List Char → List Char
  | [] => []
  | '\r' :: '\n' :: cs => '\n' :: plainNewlines cs
  | c :: cs => (if c = '\r' then '\n' else c) :: plainNewlines cs

/-- The text of a file. -/
def textOfBytes (bytes : List UInt8) : Except Utf8Error String :=
  (decodeUtf8 bytes).map fun cs => String.ofList (plainNewlines cs)

end PlatformGame.Text
