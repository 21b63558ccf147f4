import Chartboard.Canvas.Identifier
import Chartboard.Command.Execution

open Chartboard

partial def readToEnd (stream : IO.FS.Stream) (read : ByteArray) : IO ByteArray := do
  let more ← stream.read 65536
  if more.isEmpty then return read else readToEnd stream (read ++ more)

/-- The text at a path or, for a dash, on the standard input. -/
def readInput (path : String) : IO (Option String) := do
  try
    let bytes ← if path = "-" then readToEnd (← IO.getStdin) .empty else IO.FS.readBinFile path
    return String.fromUTF8? bytes
  catch _ => return none

def variableNames : List String :=
  [Command.boardVariable, Settings.concurrencyVariable, "DIAGRAM_CREATE_TIMEOUT_SECS",
   "DIAGRAM_NODE_WIDTH", "DIAGRAM_NODE_HEIGHT", "DIAGRAM_SPACING_X", "DIAGRAM_SPACING_Y"]

def main (words : List String) : IO UInt32 := do
  let values ← variableNames.filterMapM fun name => do
    return (← IO.getEnv name).map (name, ·)
  let seed := (← IO.getRandomBytes 16).foldl (fun n byte => 256 * n + byte.toNat) 0
  let text ← match Command.ofArguments? words with
    | some command => readInput command.input
    | none => pure none
  let ending := Command.execute (fun name => values.lookup name) (identifier seed)
    (fun _ => text) words
  ending.errors.forM fun line => do (← IO.getStderr).putStrLn line
  IO.print ending.output
  return ending.status.toUInt32
