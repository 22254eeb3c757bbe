import Workflow.Decimal.Basic
import Workflow.Text.Blank
import Workflow.Text.Bytes

/-!
# Instants

Moments of universal time, to the nanosecond, as dates and times of day.  They are written
`2025-01-10T08:00:00Z`, with three, six or nine digits of a second where fewer would lose something,
and read with any offset, which is taken off.

* `Date.next?` and `Date.previous?` step over the calendar.
* `Instant.ofEpoch?` is an instant by its distance from the beginning of 1970.
* `Instant.text` writes an instant, `Instant.clockText` its time of day only.
* `Instant.parse` reads an instant or says what is wrong.
-/

namespace Workflow

/-! ## Dates -/

/-- Whether a year has a leap day. -/
def isLeapYear (year : Int) : Bool :=
  year % 4 == 0 && (year % 100 != 0 || year % 400 == 0)

/-- The number of days of a month. -/
def daysInMonth (year : Int) (month : Nat) : Nat :=
  if month = 2 then if isLeapYear year then 29 else 28
  else if month ∈ [4, 6, 9, 11] then 30
  else 31

/-- A day of the calendar, which ends some quarter of a million years from now on either side. -/
structure Date where
  year : Int
  month : Nat
  day : Nat
  inRange : -262143 ≤ year ∧ year ≤ 262142
  valid : 1 ≤ month ∧ month ≤ 12 ∧ 1 ≤ day ∧ day ≤ daysInMonth year month
deriving DecidableEq, Repr

namespace Date

/-- The date with given numbers, if there is one. -/
def ofNumbers? (year : Int) (month day : Nat) : Option Date :=
  if hr : -262143 ≤ year ∧ year ≤ 262142 then
    if hv : 1 ≤ month ∧ month ≤ 12 ∧ 1 ≤ day ∧ day ≤ daysInMonth year month then
      some ⟨year, month, day, hr, hv⟩
    else none
  else none

/-- The day after. -/
def next? (d : Date) : Option Date :=
  (ofNumbers? d.year d.month (d.day + 1)).or
    ((ofNumbers? d.year (d.month + 1) 1).or (ofNumbers? (d.year + 1) 1 1))

/-- The day before. -/
def previous? (d : Date) : Option Date :=
  (ofNumbers? d.year d.month (d.day - 1)).or
    ((ofNumbers? d.year (d.month - 1) (daysInMonth d.year (d.month - 1))).or
      (ofNumbers? (d.year - 1) 12 31))

/-- The day with a number, counted from the first of January 1970.  Four hundred years have the same
number of days wherever they begin, and in a year that begins with March the leap day comes last. -/
def ofDayNumber? (number : Nat) : Option Date :=
  let shifted := number + 719468
  let day := shifted % 146097
  let year := (day - day / 1460 + day / 36524 - day / 146096) / 365
  let dayOfYear := day - (365 * year + year / 4 - year / 100)
  let month := (5 * dayOfYear + 2) / 153
  let dayOfMonth := dayOfYear - (153 * month + 2) / 5 + 1
  let year : Nat := shifted / 146097 * 400 + year
  if month < 10 then ofNumbers? year (month + 3) dayOfMonth
  else ofNumbers? (year + 1 : Nat) (month - 9) dayOfMonth

end Date

/-! ## Instants -/

/-- A moment of universal time.  The second may be 60, for a leap second. -/
structure Instant where
  date : Date
  hour : Nat
  minute : Nat
  second : Nat
  nanosecond : Nat
  valid : hour < 24 ∧ minute < 60 ∧ second ≤ 60 ∧ nanosecond < 1000000000
deriving DecidableEq, Repr

namespace Instant

/-- The instant a number of seconds and nanoseconds after the beginning of 1970. -/
def ofEpoch? (seconds nanoseconds : Nat) : Option Instant := do
  let date ← Date.ofDayNumber? (seconds / 86400)
  let second := seconds % 86400
  if h : second / 3600 < 24 ∧ second / 60 % 60 < 60 ∧ second % 60 ≤ 60 ∧
      nanoseconds < 1000000000 then
    some ⟨date, second / 3600, second / 60 % 60, second % 60, nanoseconds, h⟩
  else none

/-! ### Writing -/

/-- A number with zeros in front up to a width. -/
def padded (width n : Nat) : List Char :=
  let ds := Decimal.digitsText n
  List.replicate (width - ds.length) '0' ++ ds

/-- A year: four digits, or a sign and at least four for those that have none. -/
def yearText (year : Int) : List Char :=
  if 0 ≤ year ∧ year ≤ 9999 then padded 4 year.toNat
  else (if year < 0 then '-' else '+') :: padded 4 year.natAbs

/-- The part of a second, in as few of three, six or nine digits as keep it. -/
def fractionText (nanosecond : Nat) : List Char :=
  if nanosecond = 0 then []
  else if nanosecond % 1000000 = 0 then '.' :: padded 3 (nanosecond / 1000000)
  else if nanosecond % 1000 = 0 then '.' :: padded 6 (nanosecond / 1000)
  else '.' :: padded 9 nanosecond

/-- The text of an instant. -/
def textChars (i : Instant) : List Char :=
  yearText i.date.year ++ '-' :: padded 2 i.date.month ++ '-' :: padded 2 i.date.day ++
    'T' :: padded 2 i.hour ++ ':' :: padded 2 i.minute ++ ':' :: padded 2 i.second ++
    fractionText i.nanosecond ++ ['Z']

/-- The text of an instant. -/
def text (i : Instant) : String :=
  String.ofList i.textChars

/-- The time of day to the millisecond, at an offset from universal time in minutes. -/
def clockText (i : Instant) (offset : Int) : String :=
  let minutes := (((i.hour * 60 + i.minute : Nat) + offset) % 1440).toNat
  String.ofList (padded 2 (minutes / 60) ++ ':' :: padded 2 (minutes % 60) ++
    ':' :: padded 2 i.second ++ '.' :: padded 3 (i.nanosecond / 1000000))

/-! ### Reading -/

/-- Why a text is no instant. -/
inductive Fault where
  | invalid
  | tooShort
  | tooLong
  | outOfRange
  | impossible
deriving DecidableEq, Repr

/-- The message for a text that is no instant. -/
def Fault.message : Fault → String
  | .invalid => "input contains invalid characters"
  | .tooShort => "premature end of input"
  | .tooLong => "trailing input"
  | .outOfRange => "input is out of range"
  | .impossible => "no possible date and time matching input"

/-- Passes over blanks. -/
def skipBlanks (cs : List Char) : List Char :=
  cs.dropWhile Text.isBlank

/-- What is wrong with a text that does not start as it should. -/
def mismatch : List Char → Fault
  | [] => .tooShort
  | _ :: _ => .invalid

/-- Reads a number of one digit to `width` digits. -/
def numberAt (width : Nat) (cs : List Char) : Except Fault (Nat × List Char) :=
  let digits := (cs.take width).takeWhile Char.isDigit
  if digits = [] then .error (mismatch cs)
  else .ok (Decimal.digitsValue digits, cs.drop digits.length)

/-- Reads a field of two digits at most within bounds, blanks before it allowed. -/
def fieldAt (least greatest : Nat) (cs : List Char) : Except Fault (Nat × List Char) := do
  let (n, rest) ← numberAt 2 (skipBlanks cs)
  if least ≤ n ∧ n ≤ greatest then .ok (n, rest) else .error .outOfRange

/-- The least year that can be written.  It is far from any that a date has, and so is its opposite,
the first that cannot be written. -/
def leastYear : Int := -0x80000000

/-- Reads a year: four digits at most, or a sign and any number of them. -/
def yearAt (cs : List Char) : Except Fault (Int × List Char) := do
  let (isNegative, width, rest) := match skipBlanks cs with
    | '-' :: rest => (true, rest.length, rest)
    | '+' :: rest => (false, rest.length, rest)
    | rest => (false, 4, rest)
  let (n, rest) ← numberAt width rest
  let year : Int := if isNegative then -(n : Int) else n
  if leastYear ≤ year ∧ year < -leastYear then .ok (year, rest) else .error .outOfRange

/-- Passes over a separator, blanks before it allowed. -/
def separatorAt (c : Char) (cs : List Char) : Except Fault (List Char) :=
  match skipBlanks cs with
  | d :: rest => if d = c then .ok rest else .error .invalid
  | [] => .error .tooShort

/-- Passes over what stands between a date and a time of day. -/
def dividerAt : List Char → Except Fault (List Char)
  | 'T' :: rest | 't' :: rest | ' ' :: rest => .ok rest
  | cs => .error (mismatch cs)

/-- Reads the part of a second in nanoseconds, if there is one; digits beyond the ninth are passed
over. -/
def fractionAt : List Char → Except Fault (Nat × List Char)
  | '.' :: rest =>
    let digits := (rest.take 9).takeWhile Char.isDigit
    if digits = [] then .error (mismatch rest)
    else
      .ok (Decimal.digitsValue digits * Nat.pow 10 (9 - digits.length),
        (rest.drop digits.length).dropWhile Char.isDigit)
  | cs => .ok (0, cs)

/-- What is wrong with a text that does not start with two digits: it is too short if it has not even
two bytes. -/
def notTwoDigits (cs : List Char) : Fault :=
  if Text.byteLength cs < 2 then .tooShort else .invalid

/-- Reads two digits. -/
def twoDigitsAt (cs : List Char) : Except Fault (Nat × List Char) :=
  match cs with
  | a :: b :: rest =>
    if a.isDigit ∧ b.isDigit then .ok (Decimal.digitsValue [a, b], rest)
    else .error (notTwoDigits cs)
  | _ => .error (notTwoDigits cs)

/-- Reads the two digits of the minutes of an offset. -/
def offsetMinutesAt (cs : List Char) : Except Fault (Nat × List Char) := do
  let (n, rest) ← twoDigitsAt cs
  if n < 60 then .ok (n, rest) else .error .outOfRange

/-- Reads an offset from universal time, in minutes: `Z`, `UTC`, or a sign, two digits of hours and
two of minutes, with colons and blanks between them allowed. -/
def offsetAt (cs : List Char) : Except Fault (Int × List Char) := do
  match cs with
  | [] => .error .tooShort
  | sign :: rest =>
    if sign = 'Z' ∨ sign = 'z' then .ok (0, rest)
    else if (cs.take 3).map Char.toUpper = ['U', 'T', 'C'] then .ok (0, cs.drop 3)
    else if sign = '+' ∨ sign = '-' ∨ sign = '−' then
      let (hours, rest) ← twoDigitsAt rest
      let (minutes, rest) ← offsetMinutesAt (rest.dropWhile fun c => c == ':' || Text.isBlank c)
      let minutes : Int := (hours * 60 + minutes : Nat)
      .ok (if sign = '+' then minutes else -minutes, rest)
    else .error .invalid

/-- The instant of a local date and time of day at an offset from universal time. -/
def ofLocal (date : Date) (hour minute second nanosecond : Nat) (offset : Int) :
    Except Fault Instant :=
  if -1440 < offset ∧ offset < 1440 then
    let minutes := (hour * 60 + minute : Nat) - offset
    let shifted :=
      if minutes < 0 then date.previous? else if 1440 ≤ minutes then date.next? else some date
    let minuteOfDay := (minutes % 1440).toNat
    match shifted with
    | none => .error .impossible
    | some date =>
      if h : minuteOfDay / 60 < 24 ∧ minuteOfDay % 60 < 60 ∧ second ≤ 60 ∧
          nanosecond < 1000000000 then
        .ok ⟨date, minuteOfDay / 60, minuteOfDay % 60, second, nanosecond, h⟩
      else .error .outOfRange
  else .error .outOfRange

/-- Reads an instant from the characters of a text. -/
def parseChars (cs : List Char) : Except Fault Instant := do
  let (year, cs) ← yearAt cs
  let cs ← separatorAt '-' cs
  let (month, cs) ← fieldAt 1 12 cs
  let cs ← separatorAt '-' cs
  let (day, cs) ← fieldAt 1 31 cs
  let cs ← dividerAt cs
  let (hour, cs) ← fieldAt 0 23 cs
  let cs ← separatorAt ':' cs
  let (minute, cs) ← fieldAt 0 59 cs
  let cs ← separatorAt ':' cs
  let (second, cs) ← fieldAt 0 60 cs
  let (nanosecond, cs) ← fractionAt cs
  let (offset, cs) ← offsetAt (skipBlanks cs)
  if skipBlanks cs ≠ [] then .error .tooLong
  else
    match Date.ofNumbers? year month day with
    | none => .error .outOfRange
    | some date => ofLocal date hour minute second nanosecond offset

/-- Reads an instant. -/
def parse (source : String) : Except Fault Instant :=
  parseChars source.toList

end Instant
end Workflow
