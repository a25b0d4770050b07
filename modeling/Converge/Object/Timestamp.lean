/-
  Converge.Object.Timestamp — the timestamps of object metadata.

  A timestamp is a date and a time of day to the second.  It may be written with
  few digits, with blanks before its numbers, with a fraction of a second and at
  any offset from UTC; in its normal form it is in UTC, marked `Z`, and has two
  digits for each part and four for the year.  A minute may have a second 60.

  Main statement: `daysIn` is between 28 and 31.
-/
import Converge.Json.Source
import Converge.Text.Blank

namespace Converge.Timestamp

/-! ## §1. Days -/

/-- A day. -/
structure Day where
  year : Int
  month : Nat
  day : Nat
deriving DecidableEq, Repr, Inhabited

/-- The days of a month. -/
def daysIn (year : Int) (month : Nat) : Nat :=
  match month with
  | 2 => if year % 4 = 0 ∧ (year % 100 ≠ 0 ∨ year % 400 = 0) then 29 else 28
  | 4 | 6 | 9 | 11 => 30
  | _ => 31

theorem daysIn_bounds (year : Int) (month : Nat) :
    28 ≤ daysIn year month ∧ daysIn year month ≤ 31 := by
  unfold daysIn
  split
  · split <;> omega
  · omega
  · omega
  · omega
  · omega
  · omega

namespace Day

/-- The years that are kept track of. -/
def isYear (year : Int) : Bool := decide (-262143 ≤ year ∧ year ≤ 262142)

/-- Whether there is such a day. -/
def isValid (d : Day) : Bool :=
  isYear d.year && decide (1 ≤ d.month ∧ d.month ≤ 12 ∧ 1 ≤ d.day ∧ d.day ≤ daysIn d.year d.month)

/-- The day after. -/
def next (d : Day) : Day :=
  if d.day < daysIn d.year d.month then { d with day := d.day + 1 }
  else if d.month < 12 then { d with month := d.month + 1, day := 1 }
  else ⟨d.year + 1, 1, 1⟩

/-- The day before. -/
def previous (d : Day) : Day :=
  if 1 < d.day then { d with day := d.day - 1 }
  else if 1 < d.month then
    { d with month := d.month - 1, day := daysIn d.year (d.month - 1) }
  else ⟨d.year - 1, 12, 31⟩

end Day

/-- A day and a time of that day in UTC. -/
structure Moment where
  day : Day
  minuteOfDay : Nat
  second : Nat
deriving DecidableEq, Repr, Inhabited

/-- The moment at a minute of a day counted from midnight, at most a day off. -/
def Moment.at (day : Day) (minute : Int) (second : Nat) : Moment :=
  let day := if minute < 0 then day.previous else if 1440 ≤ minute then day.next else day
  ⟨day, (minute % 1440).toNat, second⟩

/-! ## §2. Reading -/

/-- The text after its leading blanks. -/
def skipBlanks (cs : List Char) : List Char := cs.dropWhile Text.isBlank

/-- A number of at most `width` digits, and the text after it. -/
def readNumber (width : Nat) (cs : List Char) : Option (Nat × List Char) :=
  let cs := skipBlanks cs
  let ds := (cs.take width).takeWhile Char.isDigit
  if ds.isEmpty then none else some (Source.digitsToNat ds, cs.drop ds.length)

/-- A year: of four digits at most, or of any number of digits after a sign. -/
def readYear (cs : List Char) : Option (Int × List Char) :=
  match skipBlanks cs with
  | '-' :: rest =>
    (Source.readDigits rest).map fun r => (-(Source.digitsToNat r.1 : Int), r.2)
  | '+' :: rest => (Source.readDigits rest).map fun r => ((Source.digitsToNat r.1 : Int), r.2)
  | rest => (readNumber 4 rest).map fun r => ((r.1 : Int), r.2)

/-- The text after one expected character, blanks before it skipped. -/
def readMark (mark : Char) (cs : List Char) : Option (List Char) :=
  match skipBlanks cs with
  | c :: rest => if c = mark then some rest else none
  | [] => none

/-- The text after a fraction of a second, if one is written. -/
def readFraction : List Char → Option (List Char)
  | '.' :: rest => (Source.readDigits rest).map Prod.snd
  | rest => some rest

/-- Two digits. -/
def readPair : List Char → Option (Nat × List Char)
  | a :: b :: rest =>
    if a.isDigit && b.isDigit then some (Source.digitsToNat [a, b], rest) else none
  | _ => none

/-- The hours and minutes of an offset after its sign. -/
def readOffsetSize (sign : Int) (cs : List Char) : Option (Int × List Char) := do
  let (hours, rest) ← readPair cs
  let (minutes, rest) ← readPair (rest.dropWhile fun c => c == ':' || Text.isBlank c)
  if minutes < 60 ∧ hours < 24 then some (sign * (60 * hours + minutes), rest) else none

/-- An offset from UTC in minutes. -/
def readOffset (cs : List Char) : Option (Int × List Char) :=
  if (cs.take 3).map Char.toUpper = ['U', 'T', 'C'] then some (0, cs.drop 3)
  else match cs with
    | 'Z' :: rest | 'z' :: rest => some (0, rest)
    | '+' :: rest => readOffsetSize 1 rest
    | '-' :: rest | '\u2212' :: rest => readOffsetSize (-1) rest
    | _ => none

/-- The mark between day and time. -/
def readBetween : List Char → Option (List Char)
  | 'T' :: rest | 't' :: rest | ' ' :: rest => some rest
  | _ => none

/-- The moment a text names. -/
def read? (s : String) : Option Moment := do
  let (year, cs) ← readYear s.toList
  let (month, cs) ← readNumber 2 (← readMark '-' cs)
  let (day, cs) ← readNumber 2 (← readMark '-' cs)
  let (hour, cs) ← readNumber 2 (← readBetween cs)
  let (minute, cs) ← readNumber 2 (← readMark ':' cs)
  let (second, cs) ← readNumber 2 (← readMark ':' cs)
  let (offset, cs) ← readOffset (skipBlanks (← readFraction cs))
  let day : Day := ⟨year, month, day⟩
  let moment : Moment := .at day (60 * hour + minute - offset) second
  -- a leap second has the number 60
  if (skipBlanks cs).isEmpty && day.isValid && Day.isYear moment.day.year
    && decide (hour < 24 ∧ minute < 60 ∧ second ≤ 60)
  then some moment
  else none

/-! ## §3. Writing -/

/-- A number of at least `width` digits. -/
def padded (width n : Nat) : String :=
  let ds := toString n
  String.ofList (List.replicate (width - ds.length) '0') ++ ds

/-- A year; one of more than four digits, or before the year 0, has a sign. -/
def yearText (year : Int) : String :=
  if 0 ≤ year ∧ year ≤ 9999 then padded 4 year.toNat
  else (if year < 0 then "-" else "+") ++ padded 4 year.natAbs

/-- The normal form of a moment. -/
def Moment.text (m : Moment) : String :=
  yearText m.day.year ++ "-" ++ padded 2 m.day.month ++ "-" ++ padded 2 m.day.day
    ++ "T" ++ padded 2 (m.minuteOfDay / 60) ++ ":" ++ padded 2 (m.minuteOfDay % 60)
    ++ ":" ++ padded 2 m.second ++ "Z"

/-- The normal form of a timestamp, unless the text is none. -/
def normal? (s : String) : Option String := (read? s).map Moment.text

/-- Whether a text is a timestamp. -/
def isValid (s : String) : Bool := (read? s).isSome

end Converge.Timestamp
