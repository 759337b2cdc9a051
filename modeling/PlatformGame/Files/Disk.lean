import PlatformGame.Data.Pairs
import PlatformGame.Files.Storage

/-! # Disks

A storage held in memory: files and folders under their places, which are lists of names from the
top. They form a tree: there are no links, so what stands at one place stands at no other. Paths are
followed name by name, so every name but the last has to be that of a folder, also before two dots.
Names and paths have a greatest length. -/

namespace PlatformGame

/-- What stands at a place. -/
inductive Node
  | file (bytes : List UInt8)
  | folder
  deriving DecidableEq

def Node.kind : Node → FileKind
  | file _ => .file
  | folder => .folder

structure Disk where
  home : List String := []
  nodes : List (List String × Node) := []

namespace Disk

/-- The top is always a folder. -/
def node? (d : Disk) (place : List String) : Option Node :=
  if place = [] then some .folder else d.nodes.lookup place

def put (d : Disk) (place : List String) (n : Node) : Disk :=
  { d with nodes := putPair place n d.nodes }

/-- The greatest length of a name, in bytes. -/
def nameLimit : Nat := 255

/-- The greatest length of a path, in bytes. -/
def pathLimit : Nat := 4095

def walk (d : Disk) (place : List String) : List String → Except Fault (List String)
  | [] => .ok place
  | n :: ns =>
    match d.node? place with
    | some .folder =>
      if nameLimit < n.utf8ByteSize then .error .tooLong
      else walk d (if n = ".." then place.dropLast else place ++ [n]) ns
    | some (.file _) => .error .notFolder
    | none => .error .missing

/-- The place that a path leads to, whether or not something stands there. -/
def find (d : Disk) (p : Path) : Except Fault (List String) :=
  if p.hasNull then .error .nullInName
  else if pathLimit < p.text.utf8ByteSize then .error .tooLong
  else d.walk (if p.root = .here then d.home else []) p.names

def nodeAt (d : Disk) (p : Path) : Except Fault Node := do
  match d.node? (← d.find p) with
  | some n => pure n
  | none => throw .missing

def kind (d : Disk) (p : Path) : Except Fault FileKind := (d.nodeAt p).map Node.kind

def folders (d : Disk) (p : Path) : List String :=
  match d.find p with
  | .ok place => d.nodes.filterMap fun (spot, n) =>
      if n = .folder ∧ spot.dropLast = place then spot.getLast? else none
  | .error _ => []

def read (d : Disk) (p : Path) : Except Fault (List UInt8) := do
  match ← d.nodeAt p with
  | .file bytes => pure bytes
  | .folder => throw .isFolder

def createFolder (d : Disk) (p : Path) : Except Fault Disk := do
  let place ← d.find p
  match d.node? place with
  | none => pure (d.put place .folder)
  | some _ => throw .present

def write (d : Disk) (p : Path) (bytes : List UInt8) : Except Fault Disk := do
  let place ← d.find p
  match d.node? place with
  | some .folder => throw .isFolder
  | _ => pure (d.put place (.file bytes))

/-- A step that changes the disk unless it is refused. -/
def step (f : Disk → Except Fault Disk) : StateM Disk (Except Fault Unit) := fun d =>
  match f d with
  | .ok d' => (.ok (), d')
  | .error e => (.error e, d)

def storage : Storage (StateM Disk) where
  home := do pure (← get).home
  kind p := do pure ((← get).kind p)
  folders p := do pure ((← get).folders p)
  read p := do pure ((← get).read p)
  createFolder p := step (·.createFolder p)
  write p bytes := step (·.write p bytes)

/-- Adds a folder with all folders above it. -/
def addFolder (d : Disk) (p : Path) : Disk := (storage.makeFolders p d).2

/-- Adds a file with all folders above it. -/
def addFile (d : Disk) (p : Path) (bytes : List UInt8) : Disk :=
  let d := d.addFolder p.parent
  ((d.write p bytes).toOption).getD d

/-- The files, with their places. -/
def files (d : Disk) : List (List String × List UInt8) :=
  d.nodes.filterMap fun (place, n) => match n with
    | .file bytes => some (place, bytes)
    | .folder => none

end Disk

end PlatformGame
