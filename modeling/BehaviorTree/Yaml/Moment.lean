import BehaviorTree.Decimal.Notation
import BehaviorTree.Yaml.Cursor

/-!
Points in time: dates, and dates with a time of day and perhaps a zone.
-/

set_option autoImplicit false

namespace BehaviorTree.Yaml

structure Zone where
  west : Bool
  minutes : Nat
  deriving DecidableEq, Repr

structure TimeOfDay where
  hour : Nat
  minute : Nat
  second : Nat
  micro : Nat := 0
  /-- The zone, and whether it is named by the letter for none. -/
  zone : Option Zone := none
  deriving DecidableEq, Repr

structure Moment where
  year : Nat
  month : Nat
  day : Nat
  time : Option TimeOfDay := none
  deriving DecidableEq, Repr

namespace Moment

def isSign (c : Char) : Bool := c = '+' || c = '-'

def number (ds : List Char) : Nat := ds.foldl (fun n d => n * 10 + (d.toNat - '0'.toNat)) 0

def digits (least most : Nat) (cs : List Char) : Option (Nat × List Char) :=
  let ds := (cs.take most).takeWhile Char.isDigit
  if ds.length < least then none else some (number ds, cs.drop ds.length)

def expect (c : Char) : List Char → Option (List Char)
  | d :: r => if c = d then some r else none
  | [] => none

def zone? (cs : List Char) : Option (Option Zone) :=
  match cs.dropWhile isBlank with
  | [] => if cs.isEmpty then some none else none
  | ['Z'] => some (some ⟨false, 0⟩)
  | s :: r =>
    if isSign s then do
      let (hours, r) ← digits 1 2 r
      match r with
      | [] => return some ⟨s = '-', hours * 60⟩
      | ':' :: r =>
        match ← digits 2 2 r with
        | (minutes, []) => return some ⟨s = '-', hours * 60 + minutes⟩
        | _ => none
      | _ => none
    else none

def between : List Char → Option (List Char)
  | c :: r => if c = 'T' || c = 't' then some r else if isBlank c then some (r.dropWhile isBlank) else none
  | [] => none

def fractionOf : List Char → Nat × List Char
  | '.' :: r =>
    let ds := (r.takeWhile Char.isDigit).take 6
    (number (ds ++ List.replicate (6 - ds.length) '0'), r.dropWhile Char.isDigit)
  | cs => (0, cs)

def time? (cs : List Char) : Option TimeOfDay := do
  let r ← between cs
  let (hour, r) ← digits 1 2 r
  let (minute, r) ← digits 2 2 (← expect ':' r)
  let (second, r) ← digits 2 2 (← expect ':' r)
  let (micro, r) := fractionOf r
  let zone ← zone? r
  return ⟨hour, minute, second, micro, zone⟩

def ofChars? (cs : List Char) : Option Moment := do
  let (year, r) ← digits 4 4 (withoutBreak cs)
  let afterYear ← expect '-' r
  let (month, r) ← digits 1 2 afterYear
  let afterMonth ← expect '-' r
  let (day, r) ← digits 1 2 afterMonth
  match r with
  | [] => return { year, month, day }
  | r => return { year, month, day, time := some (← time? r) }

/-- Is this the form of a point in time where nothing else says so? A date alone has all its digits then. -/
def isPlain (cs : List Char) : Bool :=
  match ofChars? cs with
  | some m => m.time.isSome || (withoutBreak cs).length = 10
  | none => false

def isLeapYear (y : Nat) : Bool := (y % 4 = 0 && y % 100 ≠ 0) || y % 400 = 0

def daysOf (year month : Nat) : Nat :=
  if month = 2 then (if isLeapYear year then 29 else 28)
  else if [4, 6, 9, 11].contains month then 30
  else 31

def dayNumber (m : Moment) : Nat :=
  let before := m.year - 1
  m.year * 365 + before / 4 - before / 100 + before / 400
    + (List.range (m.month - 1)).foldl (fun n i => n + daysOf m.year (i + 1)) 0 + m.day

def dayMinutes : Nat := 24 * 60

/-- The distance of a zone, as days and seconds of which the seconds are never negative. -/
def zoneShift (z : Zone) : Int × Nat :=
  let total : Int := if z.west then -Int.ofNat z.minutes else Int.ofNat z.minutes
  (Int.fdiv total (Int.ofNat dayMinutes), (Int.fmod total (Int.ofNat dayMinutes)).toNat * 60)

def zoneDescribed (z : Zone) : String :=
  let intText (i : Int) := String.ofList (Decimal.intText i)
  let (days, seconds) := zoneShift z
  let parts := (if days = 0 then [] else ["days=" ++ intText days])
    ++ (if seconds = 0 then [] else ["seconds=" ++ intText (Int.ofNat seconds)])
  "datetime.timedelta(" ++ (if parts.isEmpty then "0" else ", ".intercalate parts) ++ ")"

/-- What is wrong with a point in time that there cannot be. The zone is looked at first. -/
def problem? (m : Moment) : Option String :=
  match m.time.bind TimeOfDay.zone with
  | some z =>
    if dayMinutes ≤ z.minutes then
      some ("offset must be a timedelta strictly between -timedelta(hours=24) and timedelta(hours=24), not "
        ++ zoneDescribed z ++ ".")
    else ofDay
  | none => ofDay
where
  ofDay : Option String :=
    if m.year = 0 then some "year 0 is out of range"
    else if m.month = 0 || 12 < m.month then some "month must be in 1..12"
    else if m.day = 0 || daysOf m.year m.month < m.day then some "day is out of range for month"
    else m.time.bind ofTime
  ofTime (t : TimeOfDay) : Option String :=
    if 23 < t.hour then some "hour must be in 0..23"
    else if 59 < t.minute then some "minute must be in 0..59"
    else if 59 < t.second then some "second must be in 0..59"
    else none

def padded (width n : Nat) : String :=
  let ds := Decimal.natText n
  String.ofList (List.replicate (width - ds.length) '0' ++ ds)

def zoneText : Option Zone → String
  | none => ""
  | some z =>
    (if z.west && z.minutes ≠ 0 then "-" else "+") ++ padded 2 (z.minutes / 60) ++ ":" ++ padded 2 (z.minutes % 60)

def written (m : Moment) : String :=
  let date := padded 4 m.year ++ "-" ++ padded 2 m.month ++ "-" ++ padded 2 m.day
  match m.time with
  | none => date
  | some t =>
    date ++ " " ++ padded 2 t.hour ++ ":" ++ padded 2 t.minute ++ ":" ++ padded 2 t.second
      ++ (if t.micro = 0 then "" else "." ++ padded 6 t.micro) ++ zoneText t.zone

/-- A point in time as a constructor of it would be written. Seconds and their fraction are left out where they are zero. -/
def described (m : Moment) : String :=
  let natText (n : Nat) := String.ofList (Decimal.natText n)
  let date := ", ".intercalate ([m.year, m.month, m.day].map natText)
  match m.time with
  | none => "datetime.date(" ++ date ++ ")"
  | some t =>
    let micro := if t.micro = 0 then [] else [natText t.micro]
    let second := if t.second = 0 && t.micro = 0 then [] else [natText t.second]
    let zone :=
      match t.zone with
      | none => []
      | some z =>
        ["tzinfo=" ++ if z.minutes = 0 then "datetime.timezone.utc" else "datetime.timezone(" ++ zoneDescribed z ++ ")"]
    "datetime.datetime(" ++ ", ".intercalate ([date, natText t.hour, natText t.minute] ++ second ++ micro ++ zone) ++ ")"

/-- How many millionths of a second a point in time with a zone lies after the first day. -/
def instant (m : Moment) (t : TimeOfDay) (z : Zone) : Int :=
  let minutes : Int := Int.ofNat (((dayNumber m * 24) + t.hour) * 60 + t.minute)
  let here := if z.west then minutes + Int.ofNat z.minutes else minutes - Int.ofNat z.minutes
  (here * 60 + Int.ofNat t.second) * 1000000 + Int.ofNat t.micro

/-- The same point in time, though it may be written for different zones. -/
def same (a b : Moment) : Bool :=
  match a.time, b.time with
  | some s, some t =>
    match s.zone, t.zone with
    | some y, some z => instant a s y = instant b t z
    | _, _ => a = b
  | _, _ => a = b

end Moment

end BehaviorTree.Yaml
