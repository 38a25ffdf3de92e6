import QueryPlanner.Command.Parameter
import QueryPlanner.Journal.Setup
import QueryPlanner.Optimise.Run
import QueryPlanner.Settings

namespace QueryPlanner.Command

inductive Breakdown
  | settings (error : SettingsError)
  | levelNoText
  | logFileNoText
  | logFileMissingDirectory (path : String)
  | logFileIsDirectory (path : String)
  | catalogueIsDirectory (path : String)
  | optimiser (failure : Failure)
  deriving DecidableEq, Repr

namespace Breakdown

def message : Breakdown → String
  | settings e                => e.message
  | levelNoText               => "The log level is no text"
  | logFileNoText             => "The log file is no text"
  | logFileMissingDirectory p => "There is no directory for the log file " ++ p
  | logFileIsDirectory p      => "The log file " ++ p ++ " is a directory"
  | catalogueIsDirectory p    => "The catalogue " ++ p ++ " is a directory"
  | optimiser f               => f.message

end Breakdown

inductive Ending
  | done
  | refused (message : String)
  | misused (error : UsageError)
  | broken (breakdown : Breakdown)
  deriving DecidableEq, Repr

namespace Ending

def exitCode : Ending → Nat
  | done      => 0
  | refused _ => 1
  | misused _ => 2
  | broken _  => 1

def complaint? : Ending → Option String
  | refused m => some ("error: " ++ m)
  | misused e => some ("Error: " ++ e.message)
  | _         => none

end Ending

structure Report where
  output  : List String := []
  journal : Journal := {}
  records : List Record := []
  ending  : Ending := .done

namespace Report

def logLines (time : String) (r : Report) : List String :=
  (r.records.filter r.journal.shows).map (r.journal.line time)

def errorLines (time : String) (r : Report) : List String :=
  r.logLines time ++ r.ending.complaint?.toList

def usage : List String := [
  "Usage: cli [OPTIONS]",
  "",
  "  Print the canonical and optimised plans of a query.",
  "",
  "Options:",
  "  -c, --config FILE               Path to YAML config file.",
  "  --catalogue FILE                Serialised catalogue file. Overrides the",
  "                                  config file's catalogue.",
  "  -q, --query FILENAME            File holding the canonical query.  [default:",
  "                                  (stdin)]",
  "  --explain [text|json]           Also print the optimised plan with per-node",
  "                                  estimates.",
  "  --log-level [debug|info|warning|error]",
  "                                  Override the configured log level.",
  "  --help                          Show this message and exit."
]

end Report
end QueryPlanner.Command
