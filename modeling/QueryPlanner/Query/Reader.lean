import QueryPlanner.Query.Keyword
import QueryPlanner.Query.Statement

namespace QueryPlanner.Query

-- A reader takes the tokens of its phrase and leaves the rest of them. It fails if there is a mistake
-- in its phrase. A phrase that need not be there is read as an option.
abbrev Reader := StateT (List Token) Option

namespace Reader

variable {α : Type}

def mistake : Reader α :=
  fun _ => none

def rest : Reader (List Token) :=
  fun ts => some (ts, ts)

def peek : Reader (Option Token) :=
  fun ts => some (ts.head?, ts)

def skip (count : Nat) : Reader Unit :=
  fun ts => some ((), ts.drop count)

def accept (kind : Token → Bool) : Reader Bool
  | t :: ts => some (if kind t then (true, ts) else (false, t :: ts))
  | []      => some (false, [])

def symbol (s : String) : Reader Bool :=
  accept (· = .symbol s)

def keyword (k : String) : Reader Bool :=
  accept (Token.isKeyword k)

def oneOf (ks : List String) : Reader Bool :=
  accept (Token.isOneOf ks)

def skipAll (kind : Token → Bool) : Reader Nat :=
  fun ts => some ((ts.takeWhile kind).length, ts.dropWhile kind)

def sequence (kinds : List (Token → Bool)) : Reader Bool := do
  let ts ← rest
  if kinds.length ≤ ts.length && (kinds.zip ts).all fun (kind, t) => kind t then
    skip kinds.length
    return true
  else
    return false

def keywords (ks : List String) : Reader Bool :=
  sequence (ks.map Token.isKeyword)

def require (found : Reader Bool) : Reader Unit := do
  if !(← found) then
    mistake

def required (phrase : Reader (Option α)) : Reader α := do
  match ← phrase with
  | some a => return a
  | none   => mistake

def orElse (first second : Reader (Option α)) : Reader (Option α) := do
  match ← first with
  | some a => return some a
  | none   => second

def attempt (phrase : Reader α) : Reader (Option α) :=
  fun ts =>
    match phrase ts with
    | some (a, rest) => some (some a, rest)
    | none           => some (none, ts)

def comesNext (phrase : Reader Bool) : Reader Bool :=
  fun ts =>
    match phrase ts with
    | some (found, _) => some (found, ts)
    | none            => some (false, ts)

def afterCommas (item : Reader (Option α)) : (fuel : Nat) → Reader (List (Option α))
  | 0        => mistake
  | fuel + 1 => do
    if ← symbol "," then
      let a ← item
      return a :: (← afterCommas item fuel)
    else
      return []

-- The places before, between and after commas. Every comma is a token, so that the fuel is enough.
def places (item : Reader (Option α)) : Reader (List (Option α)) := do
  let a ← item
  return a :: (← afterCommas item ((← rest).length + 1))

def commaList (item : Reader (Option α)) : Reader (List α) := do
  return (← places item).filterMap id

def wrapped (phrase : Reader α) : Reader α := do
  require (symbol "(")
  let a ← phrase
  require (symbol ")")
  return a

def perhapsWrapped (phrase : Reader α) : Reader α := do
  if ← comesNext (symbol "(") then
    wrapped phrase
  else
    phrase

end Reader
end QueryPlanner.Query
