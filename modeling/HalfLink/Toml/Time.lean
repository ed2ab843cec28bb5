import HalfLink.Text.Reader

/-! Dates and times, told from their spelling: days exist in the calendar, a minute may have a leap
second, and a distance from universal time is less than a day. -/
namespace HalfLink.Toml

open Text

def isDecimal : Char → Bool := isDigitOf 10

/-- A number of exactly `n` digits within bounds. -/
def field? (n lo hi : Nat) (cs : List Char) : Option Nat :=
  if cs.length = n ∧ cs.all isDecimal then
    some (numberOf 10 cs) |>.filter fun v => decide (lo ≤ v ∧ v ≤ hi)
  else none

def daysOf (year month : Nat) : Nat :=
  if month = 2 then
    if year % 4 = 0 ∧ (year % 100 ≠ 0 ∨ year % 400 = 0) then 29 else 28
  else if month = 4 ∨ month = 6 ∨ month = 9 ∨ month = 11 then 30
  else 31

def isDate (cs : List Char) : Bool :=
  match cs.splitOn '-' with
  | [y, m, d] => (do
      let year ← field? 4 0 9999 y
      let month ← field? 2 1 12 m
      field? 2 1 (daysOf year month) d).isSome
  | _ => false

/-- Hours, minutes and seconds, and a fraction of the last. -/
def isTime (cs : List Char) : Bool :=
  match cs.splitOn ':' with
  | [h, m, s] =>
    let seconds := s.takeWhile (· != '.')
    let fraction := s.dropWhile (· != '.')
    (field? 2 0 23 h).isSome && (field? 2 0 59 m).isSome && (field? 2 0 60 seconds).isSome &&
      (fraction.isEmpty || (!fraction.tail.isEmpty && fraction.tail.all isDecimal))
  | _ => false

/-- A time with or without its distance from universal time. -/
def isOffsetTime (cs : List Char) : Bool :=
  let isMark c := c == 'Z' || c == 'z' || c == '+' || c == '-'
  isTime (cs.takeWhile (!isMark ·)) &&
    match cs.dropWhile (!isMark ·) with
    | [] => true
    | mark :: distance =>
      if mark == '+' || mark == '-' then
        match distance.splitOn ':' with
        | [h, m] => (field? 2 0 23 h).isSome && (field? 2 0 59 m).isSome
        | _ => false
      else distance.isEmpty

/-- A date, a date with a time, or a time of any day. -/
def isTimestamp (cs : List Char) : Bool :=
  if isTime cs then true
  else if isDate (cs.take 10) then
    match cs.drop 10 with
    | [] => true
    | mark :: time => (mark == 'T' || mark == 't' || mark == ' ') && isOffsetTime time
  else false

end HalfLink.Toml
