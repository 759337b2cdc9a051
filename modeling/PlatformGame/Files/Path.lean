/-! # Paths

A path is a list of names, read from a place that its leading slashes say. Empty names and single
dots are dropped when a path is read; two dots stay, since only the file system knows where they
lead. -/

namespace PlatformGame

/-- Where a path starts: where the program runs, or at the top, which two slashes name as well. -/
inductive Path.Root
  | here | top | doubledTop
  deriving DecidableEq

def Path.Root.text : Path.Root → String
  | here => ""
  | top => "/"
  | doubledTop => "//"

structure Path where
  root : Path.Root := .here
  names : List String := []
  deriving DecidableEq

namespace Path

/-- The parts of a text between slashes; `part` is what has been read of the first, in reverse. -/
def splitSlashes (part : List Char) : List Char → List String
  | [] => [String.ofList part.reverse]
  | c :: cs =>
    if c = '/' then String.ofList part.reverse :: splitSlashes [] cs
    else splitSlashes (c :: part) cs

/-- Exactly two slashes at the start are kept apart from one or many. -/
def rootOf : List Char → Root
  | '/' :: '/' :: '/' :: _ => .top
  | '/' :: '/' :: _ => .doubledTop
  | '/' :: _ => .top
  | _ => .here

def ofText (s : String) : Path :=
  ⟨rootOf s.toList, (splitSlashes [] s.toList).filter fun n => n != "" && n != "."⟩

/-- The path in writing; the empty path is a dot. -/
def text (p : Path) : String :=
  if p.root = .here && p.names.isEmpty then "."
  else p.root.text ++ "/".intercalate p.names

def hasNull (p : Path) : Bool := p.names.any fun n => n.toList.contains '\x00'

/-- Another path read from this one. -/
def join (p q : Path) : Path := if q.root = .here then ⟨p.root, p.names ++ q.names⟩ else q

def child (p : Path) (name : String) : Path := p.join (ofText name)

def parent (p : Path) : Path := ⟨p.root, p.names.dropLast⟩

/-- The last name; none is the empty text. -/
def name (p : Path) : String := p.names.getLast?.getD ""

/-- A name without its ending, which begins at the last dot. A dot at either end of the name begins
none. -/
def stemOf (name : String) : String :=
  let before := (name.toList.reverse.dropWhile (· != '.')).drop 1
  if before.isEmpty || name.toList.getLast? = some '.' then name else String.ofList before.reverse

def stem (p : Path) : String := stemOf p.name

/-- Follows names from a place given from the top; two dots go one place back. -/
def follow (place : List String) : List String → List String
  | [] => place
  | n :: ns => follow (if n = ".." then place.dropLast else place ++ [n]) ns

/-- The path from the top, read from the given place. -/
def resolve (home : List String) (p : Path) : Path :=
  ⟨.top, follow (if p.root = .here then home else []) p.names⟩

end Path

end PlatformGame
