import QueryPlanner.Journal.Record

namespace QueryPlanner

structure Journal where
  level      : Int := 30
  structured : Bool := false
  file       : Option String := none

namespace Journal

def root : String := "relopt"

def setup (level : String) (structured : Bool) (file : Option String) : Journal where
  level      := Level.ofName level
  structured := structured
  file       := file.filter (· ≠ "")

def belongs (logger : String) : Bool :=
  logger = root || logger.startsWith (root ++ ".")

-- Without a level of its own the program reports what is reported everywhere: warnings.
def threshold (j : Journal) : Int :=
  if j.level = Level.notSet then 30 else j.level

def shows (j : Journal) (r : Record) : Bool :=
  belongs r.logger && j.threshold ≤ r.level

def formatter (j : Journal) : String :=
  if j.structured then "StructuredFormatter" else "StandardFormatter"

def handlers (j : Journal) : List String :=
  "StreamHandler" :: (j.file.map fun _ => "FileHandler").toList

def time (j : Journal) (seconds : Int) : String :=
  if j.structured then Text.universalTimestamp seconds else Text.timestamp seconds

def line (j : Journal) (time : String) (r : Record) : String :=
  if j.structured then r.structured time else r.plain time

def foreignLine? (r : Record) : Option String :=
  if belongs r.logger || r.level < 30 then none else some r.message

end Journal
end QueryPlanner
