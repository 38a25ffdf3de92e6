import QueryPlanner.Optimise.Run
import QueryPlanner.Settings.Yaml

namespace QueryPlanner

namespace Text

def pathNames (path : String) : List String :=
  (path.splitOn "/").filter fun n => n ≠ "" ∧ n ≠ "."

def isAbsolutePath (path : String) : Bool :=
  path.toList.head? = some '/'

-- Exactly two slashes at the beginning are a root of their own.
def pathRoot (path : String) : String :=
  match path.toList with
  | '/' :: '/' :: '/' :: _ => "/"
  | '/' :: '/' :: _        => "//"
  | '/' :: _               => "/"
  | _                      => ""

def renderPath (root : String) (names : List String) : String :=
  if root = "" ∧ names = [] then "." else root ++ "/".intercalate names

def besideFile (file path : String) : String :=
  renderPath (pathRoot file) ((pathNames file).dropLast ++ pathNames path)

end Text

inductive Section
  | optimizer
  | logging
  deriving DecidableEq, Repr

namespace Section

def key : Section → String
  | optimizer => "optimizer"
  | logging   => "logging"

def keys : Section → List String
  | optimizer => ["enable_projection_pushdown", "enable_join_reordering"]
  | logging   => ["level", "structured", "log_file"]

def title : Section → String
  | optimizer => "OptimizerConfig"
  | logging   => "LoggingConfig"

end Section

inductive SettingsError
  | missingFile (path : String)
  | malformed
  | noMapping
  | sectionNoMapping (name : Section)
  | keyNoText (name : Section)
  | unknownKey (name : Section) (key : String)
  | catalogueNoText
  deriving DecidableEq, Repr

namespace SettingsError

def message : SettingsError → String
  | missingFile p      => "Config file not found: " ++ p
  | malformed          => "The settings are malformed"
  | noMapping          => "The settings are no mapping"
  | sectionNoMapping s => "The section " ++ s.key ++ " is no mapping"
  | keyNoText s        => "A key of the section " ++ s.key ++ " is no text"
  | unknownKey s k     => s.title ++ ".__init__() got an unexpected keyword argument '" ++ k ++ "'"
  | catalogueNoText    => "The catalogue is no text"

end SettingsError

-- The settings of the program. What a file says about an option is kept as it stands there.
structure Settings where
  catalogue       : Option String := none
  pushProjections : Yaml := .scalar (.boolean true)
  reorderJoins    : Yaml := .scalar (.boolean true)
  level           : Yaml := .scalar (.text "WARNING")
  structured      : Yaml := .scalar (.boolean false)
  logFile         : Yaml := .scalar .null

namespace Settings

def options (s : Settings) : Options where
  pushProjections := !s.pushProjections.isEmpty
  reorderJoins    := !s.reorderJoins.isEmpty

def value? (key : String) (entries : List (Scalar × Yaml)) : Option Yaml :=
  (entries.find? (·.1 = .text key)).map Prod.snd

def sectionEntries (name : Section) (entries : List (Scalar × Yaml)) :
    Except SettingsError (List (Scalar × Yaml)) :=
  match value? name.key entries with
  | none         => .ok []
  | some section_ =>
    if section_.isEmpty then
      .ok []
    else
      match section_ with
      | .mapping es => .ok es
      | _           => .error (.sectionNoMapping name)

def unknownKey? (name : Section) : List (Scalar × Yaml) → Option String
  | []               => none
  | (.text k, _) :: es => if k ∈ name.keys then unknownKey? name es else some k
  | _ :: es          => unknownKey? name es

def checkKeys (name : Section) (entries : List (Scalar × Yaml)) : Except SettingsError Unit :=
  if entries.all fun e => e.1 matches .text _ then
    match unknownKey? name entries with
    | some k => .error (.unknownKey name k)
    | none   => .ok ()
  else
    .error (.keyNoText name)

def valueOr (default : Yaml) (key : String) (entries : List (Scalar × Yaml)) : Yaml :=
  (value? key entries).getD default

def cataloguePath (file : String) (entries : List (Scalar × Yaml)) :
    Except SettingsError (Option String) :=
  match value? "catalogue" entries with
  | none | some (.scalar .null) => .ok none
  | some (.scalar (.text p))    =>
    .ok (some (if Text.isAbsolutePath p then p else Text.besideFile file p))
  | some _ => .error .catalogueNoText

def ofEntries (file : String) (entries : List (Scalar × Yaml)) : Except SettingsError Settings := do
  let defaults : Settings := {}
  let optimizer ← sectionEntries .optimizer entries
  checkKeys .optimizer optimizer
  let logging ← sectionEntries .logging entries
  checkKeys .logging logging
  return {
    catalogue       := ← cataloguePath file entries
    pushProjections := valueOr defaults.pushProjections "enable_projection_pushdown" optimizer
    reorderJoins    := valueOr defaults.reorderJoins "enable_join_reordering" optimizer
    level           := valueOr defaults.level "level" logging
    structured      := valueOr defaults.structured "structured" logging
    logFile         := valueOr defaults.logFile "log_file" logging
  }

def ofText (file text : String) : Except SettingsError Settings :=
  match Yaml.ofText? text with
  | none   => .error .malformed
  | some v =>
    if v.isEmpty then
      ofEntries file []
    else
      match v with
      | .mapping entries => ofEntries file entries
      | _                => .error .noMapping

end Settings
end QueryPlanner
