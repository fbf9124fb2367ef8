import BehaviorTree.Files
import BehaviorTree.Json.Writer
import BehaviorTree.Logging.Level
import BehaviorTree.Logging.Template

/-!
Log records and how they are written: as a line of text with the context at its end, or as a JSON object. An
exception comes with its text, which may go over many lines.
-/

set_option autoImplicit false

namespace BehaviorTree.Logging

structure Record where
  logger : String
  level : Number
  template : String
  arguments : List Value := []
  file : Option String := some "mod.py"
  line : Value := .int 1
  /-- Seconds since the epoch, unless no time can be told from what is given. -/
  created : Option Int := some 0
  extra : Table Value := []
  /-- The text of the exception that comes with the record, as it is shown. -/
  exception : Option String := none

namespace Record

def ownNames : List String :=
  ["name", "msg", "args", "levelname", "levelno", "pathname", "filename", "module", "exc_info", "exc_text", "stack_info",
    "lineno", "funcName", "created", "msecs", "relativeCreated", "thread", "threadName", "processName", "process", "message",
    "asctime"]

def clash? (r : Record) : Option String := (Table.keys r.extra).find? ownNames.contains

def message? (r : Record) : Option String := Template.filled r.template r.arguments

/-- The name of the logger; the root has one though it may be called by none. -/
def loggerName (r : Record) : String := if r.logger.isEmpty then "root" else r.logger

def contextNames : List String := ["node_id", "connection_id", "operation"]

def context (r : Record) : Table Value :=
  contextNames.filterMap fun name => (Table.lookup r.extra name).map fun v => (name, v)

def moduleOf (file : String) : String :=
  let name := ((Text.split '/' file.toList).getLast?).getD []
  let stem := ((name.reverse.dropWhile (· ≠ '.')).drop 1).reverse
  String.ofList (if stem.all (· = '.') then name else stem)

def module (r : Record) : String := (r.file.map moduleOf).getD "Unknown module"

/-- The day of a number of days since the epoch: year, month and day. Years are counted from March on, in cycles of four
hundred. -/
def civil (days : Int) : Int × Nat × Nat :=
  let z := days + 719468
  let era := z / 146097
  let dayOfEra := (z % 146097).toNat
  let yearOfEra := (dayOfEra - dayOfEra / 1460 + dayOfEra / 36524 - dayOfEra / 146096) / 365
  let dayOfYear := dayOfEra - (365 * yearOfEra + yearOfEra / 4 - yearOfEra / 100)
  let m := (5 * dayOfYear + 2) / 153
  let day := dayOfYear - (153 * m + 2) / 5 + 1
  let month := if m < 10 then m + 3 else m - 9
  (yearOfEra + era * 400 + (if month ≤ 2 then 1 else 0), month, day)

def two (n : Nat) : String := if n < 10 then "0" ++ Value.intText n else Value.intText n

/-- The years that a calendar reaches: those of 32 bits with a sign, counted from 1900 on below and from zero on above. -/
def isCalendarYear (year : Int) : Bool := -2147481748 ≤ year && year ≤ 2147483647

/-- The time so many seconds after the epoch, in the zone of the zero meridian; none beyond the calendar. -/
def timeAt? (seconds : Int) : Option String :=
  let (year, month, day) := civil (seconds / 86400)
  let second := (seconds % 86400).toNat
  if isCalendarYear year then
    some (Value.intText year ++ "-" ++ two month ++ "-" ++ two day ++ "T" ++ two (second / 3600) ++ ":"
      ++ two (second / 60 % 60) ++ ":" ++ two (second % 60))
  else none

def time? (r : Record) : Option String := r.created.bind timeAt?

def withException (r : Record) (s : String) : String :=
  match r.exception.filter fun e => !e.isEmpty with
  | none => s
  | some e => (if s.toList.getLast? = some '\n' then s else s ++ "\n") ++ e

def contextText (c : Table Value) : String :=
  if c.isEmpty then "" else " | " ++ " ".intercalate (c.map fun f => f.1 ++ "=" ++ f.2.written)

def padded (width : Nat) (s : String) : String := s ++ String.ofList (List.replicate (width - s.length) ' ')

/-- A line of text: time, level, logger and message, then the error and the context. -/
def textLine (r : Record) (time message : String) : String :=
  r.withException (time ++ " " ++ padded 7 (levelName r.level) ++ " " ++ r.loggerName ++ ": " ++ message)
    ++ contextText r.context

def jsonLine (r : Record) (time message : String) : String :=
  let members : Table Value :=
    [("ts", .text time), ("level", .text (levelName r.level)), ("logger", .text r.loggerName), ("message", .text message),
      ("where", .text (r.module ++ ":" ++ r.line.written))]
  Json.compact (.object (members ++ r.context ++
    (r.exception.map fun e => ("exc_info", .text e)).toList))

/-- Can all numbers of the context be written? A JSON line also gives the line in the source. -/
def isWritable (r : Record) (json : Bool) : Bool :=
  !(r.context.any fun f => f.2.hasLongInteger) && !(json && r.line.hasLongInteger)

/-- The line of a record, if its message can be put together, its time be told and its numbers be written. -/
def line? (json : Bool) (r : Record) : Option String := do
  let message ← r.message?
  let time ← r.time?
  if r.isWritable json then some (if json then r.jsonLine time message else r.textLine time message) else none

def bare (r : Record) (message : String) : String := r.withException message

end Record

end BehaviorTree.Logging
