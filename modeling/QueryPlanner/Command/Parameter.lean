import QueryPlanner.Text.Likeness
import QueryPlanner.Text.Printable

namespace QueryPlanner.Command

inductive Parameter
  | settings
  | catalogue
  | query
  | explain
  | level
  | help
  deriving DecidableEq, Repr

namespace Parameter

def all : List Parameter :=
  [settings, catalogue, query, explain, level, help]

def shortName? : Parameter → Option String
  | settings => some "-c"
  | query    => some "-q"
  | _        => none

def longName : Parameter → String
  | settings  => "--config"
  | catalogue => "--catalogue"
  | query     => "--query"
  | explain   => "--explain"
  | level     => "--log-level"
  | help      => "--help"

def takesValue (p : Parameter) : Bool :=
  p ≠ help

def hint (p : Parameter) : String :=
  " / ".intercalate ((p.shortName?.toList ++ [p.longName]).map fun n => "'" ++ n ++ "'")

def ofShortName? (name : String) : Option Parameter :=
  all.find? (·.shortName? = some name)

def ofLongName? (name : String) : Option Parameter :=
  all.find? (·.longName = name)

def longNames : List String :=
  all.map longName

end Parameter

inductive ValueFault
  | missingFile (path : String)
  | noFile (path : String)
  | missingInput (path : String)
  | noInput (path : String)
  | noChoice (value : String) (choices : List String)
  deriving DecidableEq, Repr

namespace ValueFault

def message : ValueFault → String
  | missingFile p  => "File " ++ Text.quoted p ++ " does not exist."
  | noFile p       => "File " ++ Text.quoted p ++ " is a directory."
  | missingInput p => "'" ++ p ++ "': No such file or directory"
  | noInput p      => "'" ++ p ++ "': Is a directory"
  | noChoice v cs  =>
    Text.quoted v ++ " is not one of " ++ ", ".intercalate (cs.map Text.quoted) ++ "."

end ValueFault

inductive UsageError
  | unknownName (name : String)
  | missingValue (name : String)
  | needlessValue (name : String)
  | invalid (parameter : Parameter) (fault : ValueFault)
  | surplus (first : String) (more : List String)
  | noCatalogue
  deriving DecidableEq, Repr

namespace UsageError

-- Only long names are ever proposed in place of one that is not known.
def proposal (name : String) : String :=
  match if name.startsWith "--" then Text.closest name Parameter.longNames else [] with
  | []  => ""
  | [n] => " Did you mean " ++ n ++ "?"
  | ns  => " (Possible options: " ++ ", ".intercalate ns ++ ")"

def message : UsageError → String
  | unknownName n   => "No such option: " ++ n ++ proposal n
  | missingValue n  => "Option '" ++ n ++ "' requires an argument."
  | needlessValue n => "Option '" ++ n ++ "' does not take a value."
  | invalid p f     => "Invalid value for " ++ p.hint ++ ": " ++ f.message
  | surplus a []    => "Got unexpected extra argument (" ++ a ++ ")"
  | surplus a as    => "Got unexpected extra arguments (" ++ " ".intercalate (a :: as) ++ ")"
  | noCatalogue     => "No catalogue given; use --catalogue or set it in --config"

end UsageError
end QueryPlanner.Command
