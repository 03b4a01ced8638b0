import StandingQuery.Json.Value

/-!
# Dates and times of a settings text

A date, a time, or both; only a date with a time can have an offset. No setting is a date or a
time, so only the text is kept.
-/

namespace StandingQuery.Toml

open Json (Value)

/-- Two digits for a number in a range. -/
def twoDigits? (low high : Nat) : List Char → Option (Nat × List Char)
  | a :: b :: cs =>
    let n := (a.toNat - 48) * 10 + (b.toNat - 48)
    if a.isDigit ∧ b.isDigit ∧ low ≤ n ∧ n ≤ high then some (n, cs) else none
  | _ => none

/-- The rest after the character `c`. -/
def after? (c : Char) : List Char → Option (List Char)
  | d :: cs => if d = c then some cs else none
  | [] => none

def isLeapYear (year : Nat) : Bool := year % 4 == 0 && (year % 100 != 0 || year % 400 == 0)

def daysOfMonth (year month : Nat) : Nat :=
  if month = 2 then if isLeapYear year then 29 else 28
  else if month = 4 ∨ month = 6 ∨ month = 9 ∨ month = 11 then 30
  else 31

/-- The rest after a date. -/
def date? (cs : List Char) : Option (List Char) := do
  let (century, cs) ← twoDigits? 0 99 cs
  let (year, cs) ← twoDigits? 0 99 cs
  let (month, cs) ← twoDigits? 1 12 (← after? '-' cs)
  let (_, cs) ← twoDigits? 1 (daysOfMonth (century * 100 + year) month) (← after? '-' cs)
  return cs

/-- The rest after a fraction of a second, if there is one. -/
def skipFraction : List Char → List Char
  | '.' :: c :: cs => if c.isDigit then cs.dropWhile Char.isDigit else '.' :: c :: cs
  | cs => cs

/-- The rest after a time; a minute may have a leap second. -/
def time? (cs : List Char) : Option (List Char) := do
  let (_, cs) ← twoDigits? 0 23 cs
  let (_, cs) ← twoDigits? 0 59 (← after? ':' cs)
  let (_, cs) ← twoDigits? 0 60 (← after? ':' cs)
  return skipFraction cs

/-- The rest after an offset. -/
def offset? : List Char → Option (List Char)
  | [] => none
  | c :: cs =>
    if c = 'Z' ∨ c = 'z' then some cs
    else if c = '+' ∨ c = '-' then do
      let (_, cs) ← twoDigits? 0 23 cs
      let (_, cs) ← twoDigits? 0 59 (← after? ':' cs)
      return cs
    else none

/-- The rest after a date and the time that may follow it. -/
def dated? (cs : List Char) : Option (List Char) := do
  let cs ← date? cs
  match cs with
  | c :: rest =>
    match if c = 'T' ∨ c = 't' ∨ c = ' ' then time? rest else none with
    | some rest => return (offset? rest).getD rest
    | none => return cs
  | [] => return cs

/-- The one member of a date or time. -/
def dateTimeMember : String := "$__toml_private_datetime"

def dateTime? (cs : List Char) : Option (Value × List Char) := do
  let rest ← (dated? cs).or (time? cs)
  let text := String.ofList (cs.take (cs.length - rest.length))
  return (.object [(dateTimeMember, .string text)], rest)

end StandingQuery.Toml
