import QueryPlanner.Document.Json
import QueryPlanner.Journal.Level
import QueryPlanner.Text.Calendar

namespace QueryPlanner

structure Record where
  logger   : String
  level    : Int
  message  : String
  function : String := ""
  line     : Int := 0
  error    : Option String := none
  context  : List (String × Document) := []

namespace Record

def errorText (text : String) : String :=
  if text = "" then "ValueError" else "ValueError: " ++ text

def plain (time : String) (r : Record) : String :=
  let line := time ++ " - " ++ r.logger ++ " - " ++ Level.name r.level ++ " - " ++ r.message
  match r.error with
  | none   => line
  | some e => (if line.endsWith "\n" then line else line ++ "\n") ++ errorText e

-- The context comes last, but a field that is there already is replaced in its place.
def fields (time : String) (r : Record) : List (String × Document) :=
  let own := [
    ("timestamp", .text time), ("level", .text (Level.name r.level)), ("logger", .text r.logger),
    ("message", .text r.message), ("function", .text r.function), ("line", .integer r.line)
  ]
  let error := (r.error.map fun e => ("exception", Document.text (errorText e))).toList
  r.context.foldl (fun fs f => Document.setField f.1 f.2 fs) (own ++ error)

def structured (time : String) (r : Record) : String :=
  (Document.object (r.fields time)).compact

end Record
end QueryPlanner
