import ContextServer.Text.Numeral

/-!
The text of a moment, in seconds since 1970, as a UTC time in the format of RFC 3339. Years are
counted from March on, so that the leap day is the last day of a year.
-/

namespace ContextServer.Text.Timestamp

structure Date where
  year : Nat
  month : Nat
  day : Nat
  deriving DecidableEq, Repr

/-- Days in four hundred years, after which the calendar repeats. -/
def eraDays : Nat := 146097

/-- The date that lies `days` days after the first of January 1970. -/
def dateOf (days : Nat) : Date :=
  let z := days + 719468
  let dayOfEra := z % eraDays
  let yearOfEra := (dayOfEra - dayOfEra / 1460 + dayOfEra / 36524 - dayOfEra / 146096) / 365
  let dayOfYear := dayOfEra - (365 * yearOfEra + yearOfEra / 4 - yearOfEra / 100)
  let shifted := (5 * dayOfYear + 2) / 153
  let month := if shifted < 10 then shifted + 3 else shifted - 9
  let year := yearOfEra + z / eraDays * 400
  ⟨if month ≤ 2 then year + 1 else year, month, dayOfYear - (153 * shifted + 2) / 5 + 1⟩

/-- The digits of `n`, filled up with zeros on the left. -/
def padded (width n : Nat) : List Char :=
  let ds := decimal n
  List.replicate (width - ds.length) '0' ++ ds

def utc (seconds : Nat) : String :=
  let date := dateOf (seconds / 86400)
  let s := seconds % 86400
  String.ofList
    (padded 4 date.year ++ '-' :: padded 2 date.month ++ '-' :: padded 2 date.day ++ 'T' ::
      padded 2 (s / 3600) ++ ':' :: padded 2 (s / 60 % 60) ++ ':' :: padded 2 (s % 60) ++ ['Z'])

end ContextServer.Text.Timestamp
