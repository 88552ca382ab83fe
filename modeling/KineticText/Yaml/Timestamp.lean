import KineticText.Yaml.Scalar

/-!
# Days and times of day

A day, or a day with a time of day, in the forms that `isDayForm` and
`isTimeForm` recognise.  `Timestamp.read` takes the numbers out of such a
form, `isPossible` says whether the calendar has that day and the clock that
time.  `text` writes it with a fixed number of digits, `inspect` as the numbers
that make it.
-/

namespace KineticText.Yaml

structure Clock where
  hour : Nat
  minute : Nat
  second : Nat
  /-- Millionths of a second. -/
  micros : Nat
  /-- How many minutes the clock is ahead of that of the prime meridian. -/
  offset : Option Int
deriving DecidableEq, Repr

/-- Whether a clock can show a time; zones differ by less than a day. -/
def Clock.isPossible (c : Clock) : Bool :=
  c.hour < 24 && c.minute < 60 && c.second < 60 && c.offset.all (·.natAbs < 24 * 60)

/-- A day, perhaps with a time of day. -/
structure Timestamp where
  year : Nat
  month : Nat
  day : Nat
  clock : Option Clock
deriving DecidableEq, Repr

namespace Timestamp

/-! ## Reading -/

/-- The number in front of a text, and the rest behind its digits. -/
def number (s : List Char) : Nat × List Char :=
  (digitsValue 10 (s.takeWhile Char.isDigit), s.dropWhile Char.isDigit)

/-- The number behind what is no digit, and the rest behind it. -/
def nextNumber (s : List Char) : Nat × List Char := number (s.dropWhile (!·.isDigit))

/-- The minutes of a time zone, if there is one. -/
def readOffset (s : List Char) : Option Int :=
  match s.dropWhile (fun c => c = ' ' || c = '\t') with
  | [] => none
  | sign :: rest =>
    if isSign sign then
      let (hours, rest) := number rest
      let (minutes, _) := nextNumber rest
      let total := hours * 60 + minutes
      some (if sign = '-' then -(total : Int) else total)
    else some 0

/-- The millionths of a fraction in digits. -/
def readMicros (digits : List Char) : Nat :=
  let kept := digits.take 6
  digitsValue 10 (kept ++ List.replicate (6 - kept.length) '0')

def readClock (s : List Char) : Clock :=
  let (hour, rest) := nextNumber s
  let (minute, rest) := nextNumber rest
  let (second, rest) := nextNumber rest
  let fraction := ((eat? (· = '.') rest).map (·.takeWhile Char.isDigit)).getD []
  let rest := ((eat? (· = '.') rest).map (·.dropWhile Char.isDigit)).getD rest
  { hour, minute, second, micros := readMicros fraction, offset := readOffset rest }

def read (s : List Char) : Timestamp :=
  let (year, rest) := nextNumber s
  let (month, rest) := nextNumber rest
  let (day, rest) := nextNumber rest
  { year, month, day, clock := if rest.isEmpty then none else some (readClock rest) }

/-! ## The calendar -/

/-- Every fourth year has a leap day, except three of four full centuries. -/
def isLeap (year : Nat) : Bool := year % 4 = 0 && (year % 100 ≠ 0 || year % 400 = 0)

def daysIn (year month : Nat) : Nat :=
  if month = 2 then (if isLeap year then 29 else 28)
  else if [4, 6, 9, 11].contains month then 30
  else 31

def isPossible (t : Timestamp) : Bool :=
  1 ≤ t.year && 1 ≤ t.month && t.month ≤ 12 && 1 ≤ t.day && t.day ≤ daysIn t.year t.month &&
    t.clock.all Clock.isPossible

/-! ## Writing -/

/-- A number with zeros in front, up to a width. -/
def padded (width n : Nat) : List Char :=
  let digits := Nat.toDigits 10 n
  List.replicate (width - digits.length) '0' ++ digits

def offsetText (offset : Int) : List Char :=
  (if offset < 0 then '-' else '+') ::
    (padded 2 (offset.natAbs / 60) ++ ':' :: padded 2 (offset.natAbs % 60))

/-- A time of day; whole seconds have no fraction. -/
def clockText (c : Clock) : List Char :=
  padded 2 c.hour ++ ':' :: padded 2 c.minute ++ ':' :: padded 2 c.second ++
    (if c.micros = 0 then [] else '.' :: padded 6 c.micros) ++
    (c.offset.map offsetText).getD []

def text (t : Timestamp) : List Char :=
  padded 4 t.year ++ '-' :: padded 2 t.month ++ '-' :: padded 2 t.day ++
    (t.clock.map fun c => ' ' :: clockText c).getD []

/-- The zone of a clock, as the seconds that it is ahead; those of a zone behind
count from a day before. -/
def inspectOffset (offset : Int) : List Char :=
  if offset = 0 then "datetime.timezone.utc".toList
  else
    let seconds := (toString (offset * 60 % 86400)).toList
    "datetime.timezone(datetime.timedelta(".toList ++
      (if offset < 0 then "days=-1, ".toList else []) ++ "seconds=".toList ++ seconds ++ [')', ')']

/-- The numbers of a clock; seconds without a fraction may be left out. -/
def clockNumbers (c : Clock) : List Nat :=
  [c.hour, c.minute] ++
    if c.micros ≠ 0 then [c.second, c.micros] else if c.second ≠ 0 then [c.second] else []

def inspect (t : Timestamp) : List Char :=
  let kind := if t.clock.isSome then "datetime.datetime(" else "datetime.date("
  let numbers := [t.year, t.month, t.day] ++ (t.clock.map clockNumbers).getD []
  let zone := (t.clock.bind Clock.offset).map fun offset => "tzinfo=".toList ++ inspectOffset offset
  kind.toList ++
    Datum.commaSeparated (numbers.map (fun n => (toString n).toList) ++ zone.toList) ++ [')']

end Timestamp

end KineticText.Yaml
