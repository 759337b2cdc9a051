import PlatformGame.Files.Path
import PlatformGame.Text.Quoted

/-! # Storage

What a program asks of a file system, in any monad, and the one composite operation on it: making a
folder with all the folders above it. -/

namespace PlatformGame

/-- Why an operation on files is refused. Faults that no decision depends on are kept as the system
reports them. -/
inductive Fault
  | missing | present | notFolder | isFolder | tooLong
  /-- A name with a null character, which no system is asked about. -/
  | nullInName
  | other (number : Nat) (text : String)
  deriving DecidableEq

namespace Fault

/-- The number under which systems report the fault. -/
def number : Fault → Nat
  | missing => 2
  | present => 17
  | notFolder => 20
  | isFolder => 21
  | tooLong => 36
  | nullInName => 22
  | other n _ => n

def text : Fault → String
  | missing => "No such file or directory"
  | present => "File exists"
  | notFolder => "Not a directory"
  | isFolder => "Is a directory"
  | tooLong => "File name too long"
  | nullInName => "embedded null byte"
  | other _ s => s

/-- Whether a path that is looked up with this fault leads to nothing. Other faults leave it open
what stands there. -/
def isAbsence : Fault → Bool
  | missing | notFolder | nullInName => true
  -- no such descriptor, and too many links
  | other n _ => n == 9 || n == 40
  | present | isFolder | tooLong => false

def ofNumber (n : Nat) (text : String) : Fault :=
  (([missing, present, notFolder, isFolder, tooLong] : List Fault).find? (·.number == n)).getD
    (other n text)

end Fault

/-- A fault at a path. -/
structure FileError where
  fault : Fault
  path : Path
  deriving DecidableEq

def FileError.message (e : FileError) : String :=
  if e.fault = .nullInName then e.fault.text
  else "[Errno " ++ toString e.fault.number ++ "] " ++ e.fault.text ++ ": " ++
    Text.quoted e.path.text

/-- What can stand at a path. -/
inductive FileKind
  | file | folder
  deriving DecidableEq

/-- What looking up a path says about a test: where it leads to nothing, the test fails. -/
def Path.passes (p : Path) (test : FileKind → Bool) : Except Fault FileKind → Except FileError Bool
  | .ok k => .ok (test k)
  | .error f => if f.isAbsence then .ok false else .error ⟨f, p⟩

structure Storage (m : Type → Type) where
  /-- The place, from the top, that paths without a root are read from. -/
  home : m (List String)
  /-- What stands at a path. -/
  kind : Path → m (Except Fault FileKind)
  /-- The names of the folders in a folder, in any order. -/
  folders : Path → m (List String)
  read : Path → m (Except Fault (List UInt8))
  createFolder : Path → m (Except Fault Unit)
  write : Path → List UInt8 → m (Except Fault Unit)

namespace Storage

variable {m : Type → Type} [Monad m] (s : Storage m)

/-- Whether something that passes the test stands at a path. -/
def stands (test : FileKind → Bool) (p : Path) : m (Except FileError Bool) := do
  pure (p.passes test (← s.kind p))

def isFolder (p : Path) : m (Except FileError Bool) := s.stands (· == .folder) p

def isFile (p : Path) : m (Except FileError Bool) := s.stands (· == .file) p

/-- What a refused folder amounts to: no matter if there is one already. -/
def excuse (p : Path) (f : Fault) : m (Except FileError Unit) := do
  if f = .missing then pure (.error ⟨f, p⟩)
  else
    match ← s.isFolder p with
    | .error e => pure (.error e)
    | .ok true => pure (.ok ())
    | .ok false => pure (.error ⟨f, p⟩)

/-- Makes the folder with the given names, last name first, after making those above it where they
are missing. -/
def makeFoldersFrom (root : Path.Root) : List String → m (Except FileError Unit)
  | [] => do
    match ← s.createFolder ⟨root, []⟩ with
    | .ok () => pure (.ok ())
    | .error f => s.excuse ⟨root, []⟩ f
  | n :: above => do
    let p : Path := ⟨root, (n :: above).reverse⟩
    match ← s.createFolder p with
    | .ok () => pure (.ok ())
    | .error .missing =>
      match ← makeFoldersFrom root above with
      | .error e => pure (.error e)
      | .ok () =>
        match ← s.createFolder p with
        | .ok () => pure (.ok ())
        | .error f => s.excuse p f
    | .error f => s.excuse p f

def makeFolders (p : Path) : m (Except FileError Unit) := s.makeFoldersFrom p.root p.names.reverse

def writeFile (p : Path) (bytes : List UInt8) : m (Except FileError Unit) := do
  pure ((← s.write p bytes).mapError (⟨·, p⟩))

end Storage

end PlatformGame
