import Reckon.CommandLine.Run

/-!
# The program

Reads what a run can see, runs the command line and writes the outcome.
-/

open Reckon

/-- All bytes of a stream after those in `done`. -/
partial def readAll (input : IO.FS.Stream) (done : Bytes) : IO Bytes := do
  let chunk ← input.read 65536
  if chunk.isEmpty then return done else readAll input (done ++ chunk.data.toList)

/-- The content of a file. -/
def readFile (path : Bytes) : IO (Except FileFault Bytes) := do
  try
    let content ← IO.FS.readBinFile (String.ofList (Utf8.chars path))
    return .ok content.data.toList
  catch
    | .noFileOrDirectory .. => return .error .missing
    | _ => return .error .directory

/-- The variables that can override settings. -/
def readEnvironment : IO Environment :=
  Settings.overrides.filterMapM fun (name, _) => do
    let full := Settings.variableStart ++ name
    let value ← IO.getEnv (String.ofList (Utf8.chars full))
    return value.map fun text => (full, Bytes.ofString text)

/-- Writes bytes to a stream. -/
def writeBytes (output : IO.FS.Stream) (s : Bytes) : IO Unit := do
  output.write ⟨s.toArray⟩
  output.flush

def main (args : List String) : IO UInt32 := do
  let words := args.map Bytes.ofString
  let content ← readFile (CommandLine.settingsPath words)
  let input ← if CommandLine.readsInput words then readAll (← IO.getStdin) [] else pure []
  let r := CommandLine.run {} ⟨fun _ => content, ← readEnvironment, input⟩ words
  writeBytes (← IO.getStdout) r.stdout
  writeBytes (← IO.getStderr) r.errorStream
  return if r.failed then 1 else 0
