import QueryPlanner.Command.Report
import QueryPlanner.Command.Request
import QueryPlanner.Optimise.Reshape
import QueryPlanner.Query.Canonical

namespace QueryPlanner.Command

structure Session where
  request   : Request
  settings  : Settings
  catalogue : String
  journal   : Journal

namespace Session

def queryName (s : Session) : String :=
  s.request.query.getD "<stdin>"

def record (s : Session) (severity : Severity) (message : String) : Record where
  logger  := Journal.root ++ ".cli.relopt"
  level   := severity.rank
  message := message
  context := [("query", .text s.queryName)]

def loaded (s : Session) (c : Catalogue) : Record where
  logger  := Journal.root ++ ".catalogue.loader"
  level   := Severity.info.rank
  message := "Loaded catalogue from " ++ s.catalogue ++ ": " ++ toString c.relations.size ++
    " relations, " ++ toString c.attributes.size ++ " attributes"

def recordOf (e : Event) : Record where
  logger  := e.logger
  level   := e.severity.rank
  message := e.message

def refuse (s : Session) (before : List Record) (message : String) : Report where
  journal := s.journal
  records := before ++ [s.record .error ("Failed to build query plan: " ++ message)]
  ending  := .refused message

def present (s : Session) (before : List Record) (plan : Plan Unit) : Report :=
  let canonical := "Query Plan: " ++ plan.text
  match optimise s.settings.options plan with
  | .error f => {
      output  := [canonical]
      journal := s.journal
      records := before
      ending  := .broken (.optimiser f)
    }
  | .ok o => {
      output  := [canonical, "Optimised Plan: " ++ o.value.text] ++
        (s.request.explain.map (o.value.map some).explain).toList
      journal := s.journal
      records := before ++ o.events.map recordOf ++ [s.record .info
        ("Optimised plan estimated at " ++ toString o.value.tupleCount ++ " tuples")]
    }

def report (s : Session) (catalogue : Contents) (query : String) : Report :=
  match catalogue with
  | .missing   => s.refuse [] ("Catalogue file not found: " ++ s.catalogue)
  | .directory => { journal := s.journal, ending := .broken (.catalogueIsDirectory s.catalogue) }
  | .text t    =>
    match Catalogue.ofText t with
    | .error e => s.refuse [] e.message
    | .ok c    =>
      match Query.plan c query with
      | .error e => s.refuse [s.loaded c] e.message
      | .ok plan => s.present [s.loaded c] plan

variable {m : Type → Type} [Monad m]

def settingsOf (s : Surroundings m) : Option String → ExceptT Ending m Settings
  | none      => return {}
  | some path => do
    match ← s.file path with
    | .text t =>
      match Settings.ofText path t with
      | .ok settings => return settings
      | .error e     => throw (.broken (.settings e))
    | _ => throw (.broken (.settings (.missingFile path)))

-- The level on the command line comes before the one of the settings.
def levelOf (request : Request) (settings : Settings) : Except Ending String :=
  match request.level, settings.level with
  | some l, _               => .ok l.name
  | none, .scalar (.text l) => .ok l
  | none, _                 => .error (.broken .levelNoText)

def logFileOf (s : Surroundings m) (settings : Settings) : ExceptT Ending m (Option String) := do
  match settings.logFile with
  | .scalar (.text "")   => return none
  | .scalar (.text path) =>
    match ← s.file path with
    | .text _    => return some path
    | .directory => throw (.broken (.logFileIsDirectory path))
    | .missing   =>
      match ← s.file (Text.besideFile path ".") with
      | .directory => return some path
      | _          => throw (.broken (.logFileMissingDirectory path))
  | value => if value.isEmpty then return none else throw (.broken .logFileNoText)

def prepare (s : Surroundings m) (request : Request) : ExceptT Ending m Session := do
  let settings ← settingsOf s request.settings
  match request.catalogue <|> settings.catalogue with
  | none           => throw (.misused .noCatalogue)
  | some catalogue =>
    let level ← liftExcept (levelOf request settings)
    let file ← logFileOf s settings
    return {
      request   := request
      settings  := settings
      catalogue := catalogue
      journal   := .setup level (!settings.structured.isEmpty) file
    }

def run (s : Surroundings m) (words : List String) : m Report := do
  match ← (Request.read? s words).run with
  | .error e           => return { ending := .misused e }
  | .ok none           => return { output := Report.usage }
  | .ok (some request) =>
    match ← (prepare s request).run with
    | .error e    => return { ending := e }
    | .ok session =>
      let catalogue ← s.file session.catalogue
      let query ← match request.query with
        | none      => s.input
        | some path => do
          match ← s.file path with
          | .text t => pure t
          | _       => pure ""
      return session.report catalogue query

end Session
end QueryPlanner.Command
