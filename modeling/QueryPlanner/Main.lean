import Std.Time.DateTime.Timestamp
import QueryPlanner.Command.Session

namespace QueryPlanner.Command

-- A file that is there but cannot be read under its name is taken for a directory.
def fileContents (path : String) : IO Contents := do
  try
    return .text (← IO.FS.readFile path)
  catch
    | .noFileOrDirectory ..          => return .missing
    | .inappropriateType (some _) .. => return .missing
    | .inappropriateType none ..     => return .directory
    | e => throw e

def surroundings : Surroundings IO where
  file  := fileContents
  input := do (← IO.getStdin).readToEnd

def appendLines (path : String) (lines : List String) : IO Unit := do
  let handle ← IO.FS.Handle.mk path .append
  lines.forM handle.putStrLn

def writeReport (r : Report) : IO Unit := do
  let now ← Std.Time.Timestamp.now
  let time := r.journal.time now.toSecondsSinceUnixEpoch.val
  r.output.forM IO.println
  (r.errorLines time).forM IO.eprintln
  if let .broken b := r.ending then
    IO.eprintln b.message
  if let some path := r.journal.file then
    appendLines path (r.logLines time)

end QueryPlanner.Command

open QueryPlanner.Command

def main (arguments : List String) : IO UInt32 := do
  let report ← Session.run surroundings arguments
  writeReport report
  return report.ending.exitCode.toUInt32
