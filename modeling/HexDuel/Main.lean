import HexDuel.Console.Report

/-!
The program: reads the files that its arguments name, and does what the report says.
-/

set_option autoImplicit false

namespace HexDuel.Console

def reasonOf : IO.Error → String
  | .noFileOrDirectory .. => "No such file or directory (os error 2)"
  | e => toString e

def readFile (path : String) : IO (String × Except String String) := do
  try
    return (path, .ok (← IO.FS.readFile path))
  catch e =>
    return (path, .error (reasonOf e))

/-- Seconds with two decimals. -/
def secondsText (milliseconds : Nat) : String :=
  let hundredths := roundDiv milliseconds 10
  s!"{hundredths / 100}." ++ (if hundredths % 100 < 10 then "0" else "") ++ s!"{hundredths % 100}s"

def elapsedText (milliseconds : Nat) : Option Nat → String
  | none => s!"Completed in {secondsText milliseconds}"
  | some games =>
    let speed := roundDiv (games * 1000) (max milliseconds 1)
    s!"Simulation completed in {secondsText milliseconds} ({speed} games/sec)"

def writeFile (path text : String) : IO Output := do
  try
    IO.FS.writeFile path text
    return saveMessage path none
  catch e =>
    return saveMessage path (some (reasonOf e))

def carryOut (milliseconds : Nat) : Output → IO Unit
  | .line text => IO.println text
  | .message text => IO.eprintln text
  | .save path text => do
    match ← writeFile path text with
    | .message text => IO.eprintln text
    | _ => return ()
  | .elapsed games => IO.println (elapsedText milliseconds games)

end HexDuel.Console

open HexDuel.Console in
def main (args : List String) : IO UInt32 := do
  let paths :=
    match Invocation.parse args with
    | .ok i => i.files
    | .error _ => []
  let contents ← paths.mapM readFile
  let files : Files := fun path => (contents.lookup path).getD (.error "not read")
  let anySeed ← IO.rand 0 (HexDuel.Width.end64 - 1)
  let before ← IO.monoMsNow
  let report := run args files anySeed
  report.outputs.forM (carryOut ((← IO.monoMsNow) - before))
  return report.code.toUInt32
