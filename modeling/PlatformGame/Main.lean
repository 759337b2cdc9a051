import PlatformGame.CommandLine.Batch
import PlatformGame.CommandLine.Help

/-! # The command

Connects the command line to the system's files and to the terminal. -/

namespace PlatformGame

/-- The system's number and text for an error. -/
def faultOf : IO.Error → Fault
  | .noFileOrDirectory _ n s | .alreadyExists _ n s | .inappropriateType _ n s
  | .permissionDenied _ n s | .resourceExhausted _ n s | .invalidArgument _ n s
  | .noSuchThing _ n s | .interrupted _ n s | .otherError n s | .resourceBusy n s
  | .resourceVanished n s | .unsupportedOperation n s | .hardwareFault n s
  | .unsatisfiedConstraints n s | .illegalOperation n s | .protocolError n s
  | .timeExpired n s => .ofNumber n.toNat s
  | e => .other 0 (toString e)

/-- What the system says to an action at a path. -/
def attempt (p : Path) (action : IO α) : IO (Except Fault α) := do
  if p.hasNull then pure (.error .nullInName)
  else try pure (.ok (← action)) catch e => pure (.error (faultOf e))

/-- The files of the system. -/
def systemStorage : Storage IO where
  home := do pure (Path.ofText (← IO.currentDir).toString).names
  kind p := attempt p do
    let found ← ((← IO.currentDir) / p.text).metadata
    pure (if found.type == .dir then .folder else .file)
  folders p := do
    let entries ← ((← IO.currentDir) / p.text).readDir
    let inner ← entries.toList.filterM (·.path.isDir)
    pure (inner.map (·.fileName))
  read p := attempt p do pure (← IO.FS.readBinFile p.text).toList
  createFolder p := attempt p (IO.FS.createDir p.text)
  write p bytes := attempt p (IO.FS.writeBinFile p.text bytes.toByteArray)

end PlatformGame

open PlatformGame CommandLine

def main (args : List String) : IO UInt32 := do
  match parseArguments args with
  | .error .help =>
    helpLines.forM (IO.println ·)
    pure 0
  | .error (.usage e) =>
    (usageLines ++ [e.line]).forM (IO.eprintln ·)
    pure 2
  | .ok settings =>
    let batch ← run systemStorage settings
    batch.output.forM (IO.println ·)
    batch.complaints.forM (IO.eprintln ·)
    match batch.aborted with
    | some e =>
      IO.eprintln e.message
      pure 1
    | none => pure (UInt32.ofNat batch.exitCode)
