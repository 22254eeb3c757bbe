import Std.Time.DateTime.Timestamp
import Workflow.CommandLine.Report

/-!
# The command

Reads the files that a command names, carries out the command, and prints its report as the run goes
on, with real pauses, real instants in universal time and random ids.
-/

namespace Workflow

/-- Why a file has no contents. -/
def fileFault (e : IO.Error) : FileFault :=
  match e with
  | .noFileOrDirectory .. => .missing
  | .permissionDenied .. => .denied
  | .inappropriateType _ code _ => if code = 20 then .notInDirectory else .isDirectory
  | e => .other (toString e)

/-- The contents of a file. -/
def readContents (path : String) : IO (Except FileFault String) := do
  try
    match String.fromUTF8? (← IO.FS.readBinFile path) with
    | some contents => return .ok contents
    | none => return .error .notText
  catch e => return .error (fileFault e)

/-- The files at some paths; there are no others. -/
def readFiles (paths : List String) : IO Files := do
  let contents ← paths.mapM fun path => return (path, ← readContents path)
  return fun path => (contents.lookup path).getD (.error .missing)

/-- A random id for an entry of the log. -/
def freshId : IO String := do
  let bytes ← IO.getRandomBytes 16
  let digits := bytes.toList.flatMap fun b =>
    [Nat.digitChar (b.toNat / 16), Nat.digitChar (b.toNat % 16)]
  return "log-" ++ String.ofList digits

/-- What tells an entry apart that is delivered now. -/
def stampNow : IO Stamp := do
  let now := (← Std.Time.Timestamp.now).val
  let nanoseconds := now.nano.val.toNat
  match Instant.ofEpoch? now.second.val.toNat nanoseconds with
  | some timestamp => return { id := ← freshId, timestamp := timestamp }
  | none => throw (IO.userError "the clock is out of range")

/-- Prints a failure. -/
def printFailure (message : String) : IO Unit :=
  IO.eprintln s!"\nError: {message}"

/-- How many milliseconds can be waited for at once. -/
def longestSleep : Nat := 0x80000000

/-- Waits for a number of milliseconds. -/
def wait (ms : Nat) : IO Unit := do
  for _ in [0 : ms / longestSleep] do
    IO.sleep (UInt32.ofNat longestSleep)
  IO.sleep (UInt32.ofNat (ms % longestSleep))

/-- Reports a run as it goes on. -/
def perform (style : Style) (name : String) (setup : Setup) : IO UInt32 := do
  let stdout ← IO.getStdout
  if let some heading := setup.heading? style name then stdout.putStrLn heading
  let execution := setup.run .never
  let mut time := 0
  for t in execution.events do
    wait (t.time - time)
    time := t.time
    if let some text := t.event.printed? style (← stampNow) then
      stdout.putStrLn text
      stdout.flush
  return UInt32.ofNat execution.outcome.exitCode

/-- Carries out a command. -/
def carryOut (o : Options) : IO UInt32 := do
  let files ← readFiles o.paths
  match o.prepare files with
  | .error failure =>
    printFailure failure.message
    return 1
  | .ok (.validated name graph) =>
    IO.println (validText name graph)
    return 0
  | .ok (.run name setup) => perform o.style name setup

end Workflow

open Workflow in
/-- The command. -/
def main (arguments : List String) : IO UInt32 := do
  match Arguments.parse? arguments with
  | none =>
    IO.eprintln "error: the arguments make no sense; for more information, try '--help'."
    return 2
  | some .help =>
    Arguments.helpLines.forM fun line => IO.println line
    return 0
  | some .version =>
    IO.println Arguments.versionText
    return 0
  | some (.run o) => carryOut o
