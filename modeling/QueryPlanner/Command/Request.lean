import QueryPlanner.Command.Arguments
import QueryPlanner.Explain
import QueryPlanner.Journal.Level

namespace QueryPlanner.Command

inductive Contents
  | missing
  | directory
  | text (text : String)
  deriving DecidableEq, Repr

structure Surroundings (m : Type → Type) where
  file  : String → m Contents
  input : m String

structure Request where
  settings  : Option String := none
  catalogue : Option String := none
  query     : Option String := none
  explain   : Option ExplainFormat := none
  level     : Option Severity := none
  deriving DecidableEq, Repr

namespace Request

def explainChoices : List (String × ExplainFormat) :=
  [("text", .text), ("json", .json)]

def levelChoices : List (String × Severity) :=
  [("debug", .debug), ("info", .info), ("warning", .warning), ("error", .error)]

-- One small letter above ASCII is another form of an s.
def small (c : Char) : Char :=
  if c = '\u017f' then 's' else c.toLower

def choose {α : Type} (choices : List (String × α)) (value : String) : Except ValueFault α :=
  match choices.find? (·.1.toList = value.toList.map small) with
  | some c => .ok c.2
  | none   => .error (.noChoice value (choices.map Prod.fst))

def isInput (path : String) : Bool :=
  path = "-"

def choiceFault? {α : Type} (choices : List (String × α)) (value : String) : Option ValueFault :=
  match choose choices value with
  | .ok _    => none
  | .error f => some f

def fileFault? (path : String) : Contents → Option ValueFault
  | .missing   => some (.missingFile path)
  | .directory => some (.noFile path)
  | .text _    => none

def inputFault? (path : String) : Contents → Option ValueFault
  | .missing   => some (.missingInput path)
  | .directory => some (.noInput path)
  | .text _    => none

def ofArguments (a : Arguments) : Request where
  settings  := a.value? .settings
  catalogue := a.value? .catalogue
  query     := (a.value? .query).filter (!isInput ·)
  explain   := (a.value? .explain).bind fun v => (choose explainChoices v).toOption
  level     := (a.value? .level).bind fun v => (choose levelChoices v).toOption

variable {m : Type → Type} [Monad m]

def fault? (s : Surroundings m) : Parameter → String → m (Option ValueFault)
  | .settings, path | .catalogue, path => return fileFault? path (← s.file path)
  | .query, path    => do
    if isInput path then return none else return inputFault? path (← s.file path)
  | .explain, value => return choiceFault? explainChoices value
  | .level, value   => return choiceFault? levelChoices value
  | .help, _        => return none

def check (s : Surroundings m) : List (Parameter × String) → ExceptT UsageError m Unit
  | []           => return
  | (p, v) :: vs => do
    match ← ExceptT.lift (fault? s p v) with
    | some f => throw (.invalid p f)
    | none   => check s vs

def read? (s : Surroundings m) (words : List String) : ExceptT UsageError m (Option Request) := do
  let a ← liftExcept (Arguments.read words)
  if a.wantsHelp then
    return none
  check s a.values
  match a.operands with
  | []      => return some (ofArguments a)
  | o :: os => throw (.surplus o os)

end Request
end QueryPlanner.Command
