import QueryPlanner.Command.Parameter

namespace QueryPlanner.Command

inductive Argument
  | operand
  | endOfParameters
  | parameter (parameter : Parameter) (name : String) (attached : Option String)
  | unknown (name : String)
  deriving DecidableEq, Repr

namespace Argument

def splitAtEquals (argument : String) : String × Option String :=
  let cs := argument.toList
  match cs.dropWhile (· ≠ '=') with
  | []         => (argument, none)
  | _ :: value => (String.ofList (cs.takeWhile (· ≠ '=')), some (String.ofList value))

def ofShort (letter : Char) (more : List Char) : Argument :=
  let name := String.ofList ['-', letter]
  match Parameter.ofShortName? name with
  | some p => .parameter p name (if more = [] then none else some (String.ofList more))
  | none   => .unknown name

def ofText (argument : String) : Argument :=
  match argument.toList with
  | ['-', '-'] => .endOfParameters
  | '-' :: c :: cs =>
    let (name, attached) := splitAtEquals argument
    match Parameter.ofLongName? name with
    | some p => .parameter p name attached
    | none   => if c = '-' then .unknown name else ofShort c cs
  | _ => .operand

end Argument

structure Arguments where
  given    : List (Parameter × String) := []
  operands : List String := []
  deriving DecidableEq, Repr

namespace Arguments

def addOperand (operand : String) (a : Arguments) : Arguments :=
  { a with operands := operand :: a.operands }

def addParameter (p : Parameter) (value : String) (a : Arguments) : Arguments :=
  { a with given := (p, value) :: a.given }

def read : List String → Except UsageError Arguments
  | []           => .ok {}
  | word :: rest =>
    match Argument.ofText word with
    | .operand         => (read rest).map (addOperand word)
    | .endOfParameters => .ok { operands := rest }
    | .unknown n       => .error (.unknownName n)
    | .parameter p n attached =>
      if p.takesValue then
        match attached, rest with
        | some v, rest    => (read rest).map (addParameter p v)
        | none, v :: rest => (read rest).map (addParameter p v)
        | none, []        => .error (.missingValue n)
      else
        match attached with
        | some _ => .error (.needlessValue n)
        | none   => (read rest).map (addParameter p "")

-- A value that is given again takes the place of the one before.
def value? (p : Parameter) (a : Arguments) : Option String :=
  (a.given.reverse.find? (·.1 = p)).map Prod.snd

def values (a : Arguments) : List (Parameter × String) :=
  (a.given.map Prod.fst).eraseDups.filterMap fun p => (a.value? p).map fun v => (p, v)

def wantsHelp (a : Arguments) : Bool :=
  a.given.any (·.1 = .help)

end Arguments
end QueryPlanner.Command
