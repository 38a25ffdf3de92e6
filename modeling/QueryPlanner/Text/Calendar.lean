namespace QueryPlanner.Text

structure Date where
  year  : Int
  month : Nat
  day   : Nat
  deriving DecidableEq, Repr

-- The calendar repeats after 400 years. Within them the years are taken to begin in March, so that
-- a leap day is the last day of its year.

def Date.ofDays (days : Int) : Date :=
  let shifted := days + 719468
  let era := shifted.fdiv 146097
  let dayOfEra := (shifted.fmod 146097).toNat
  let yearOfEra := (dayOfEra - dayOfEra / 1460 + dayOfEra / 36524 - dayOfEra / 146096) / 365
  let dayOfYear := dayOfEra - (365 * yearOfEra + yearOfEra / 4 - yearOfEra / 100)
  let monthFromMarch := (5 * dayOfYear + 2) / 153
  let month := if monthFromMarch < 10 then monthFromMarch + 3 else monthFromMarch - 9
  { year  := yearOfEra + era * 400 + (if month ≤ 2 then 1 else 0)
    month := month
    day   := dayOfYear - (153 * monthFromMarch + 2) / 5 + 1 }

def padded (width n : Nat) : String :=
  let digits := toString n
  String.ofList (List.replicate (width - digits.length) '0') ++ digits

def Date.render (d : Date) : String :=
  toString d.year ++ "-" ++ padded 2 d.month ++ "-" ++ padded 2 d.day

def renderTime (secondOfDay : Nat) : String :=
  padded 2 (secondOfDay / 3600) ++ ":" ++ padded 2 (secondOfDay / 60 % 60) ++ ":" ++
    padded 2 (secondOfDay % 60)

def renderInstant (separator : String) (seconds : Int) : String :=
  (Date.ofDays (seconds.fdiv 86400)).render ++ separator ++
    renderTime (seconds.fmod 86400).toNat

def timestamp (seconds : Int) : String :=
  renderInstant " " seconds

def universalTimestamp (seconds : Int) : String :=
  renderInstant "T" seconds ++ "+00:00"

end QueryPlanner.Text
