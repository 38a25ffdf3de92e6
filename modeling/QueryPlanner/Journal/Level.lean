import QueryPlanner.Text.Basic

namespace QueryPlanner

inductive Severity
  | debug
  | info
  | warning
  | error
  | critical
  deriving DecidableEq, Repr

namespace Severity

def name : Severity → String
  | debug    => "DEBUG"
  | info     => "INFO"
  | warning  => "WARNING"
  | error    => "ERROR"
  | critical => "CRITICAL"

def rank : Severity → Nat
  | debug    => 10
  | info     => 20
  | warning  => 30
  | error    => 40
  | critical => 50

end Severity

namespace Level

-- Levels are numbers. The higher the number, the more serious a message is.

def notSet : Int := 0

def ofSeverity (s : Severity) : Int := s.rank

def severities : List Severity :=
  [.debug, .info, .warning, .error, .critical]

def name (level : Int) : String :=
  if level = notSet then
    "NOTSET"
  else
    match severities.find? (ofSeverity · = level) with
    | some s => s.name
    | none   => "Level " ++ toString level

def ofName (name : String) : Int :=
  match Text.capitals name with
  | "DEBUG"              => 10
  | "INFO"               => 20
  | "WARNING" | "WARN"   => 30
  | "ERROR"              => 40
  | "CRITICAL" | "FATAL" => 50
  | "NOTSET"             => 0
  | _                    => 30

end Level
end QueryPlanner
