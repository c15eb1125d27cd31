import Stepwise.Options
import Stepwise.Text.UpperCase
import Stepwise.Value.Text

/-!
# Log lines

A sink writes events as lines of fields. Its threshold is set once, by the first
configuration; later ones only change the service that events without one are given.
Below the threshold nothing is written.

On a line a value stands as it comes back from plain data: tuples as lists, keys as
texts, and sets and marks as their own text. A mapping with a key that is no scalar
cannot be written.
-/

namespace Stepwise.Log

/-- The format text that is filed among the levels under the name `BASIC_FORMAT`. -/
def basicFormat : String := "%(levelname)s:%(name)s:%(message)s"

/-- What is filed under the names of levels, in upper case: the rank of a level, or why
    what is filed there is none. -/
def filed : List (String × Attempt Nat) :=
  [("CRITICAL", .ok 50), ("FATAL", .ok 50), ("ERROR", .ok 40), ("WARNING", .ok 30),
    ("WARN", .ok 30), ("INFO", .ok 20), ("DEBUG", .ok 10), ("NOTSET", .ok 0),
    ("BASIC_FORMAT", .error (.refused (.unknownLevel basicFormat))),
    ("_STYLES", .error .wrongKind)]

/-- The rank that a name in any case means; an unknown name means that of `INFO`. -/
def thresholdOf (name : String) : Attempt Nat :=
  (Entries.get? (Text.upperCase name) filed).getD (.ok Level.info.rank)

/-- The rank from which on events pass when no threshold was set. -/
def unsetRank : Nat := Level.warning.rank

/-- Where events are written. `rank` is present once a configuration got as far as
    setting up the output, `service` once one succeeded. -/
structure Sink where
  rank : Option Nat
  service : Option String

namespace Sink

/-- A sink that was never configured. -/
def unconfigured : Sink := ⟨none, none⟩

/-- What a logger does with events. As long as no configuration succeeded none is
    written. -/
def manner (sink : Sink) : Manner := if sink.service.isSome then .writing else .collecting

/-- Configure a sink. A name that is filed among the levels but is none is refused,
    and the output is then left at its own threshold. -/
def configure (sink : Sink) (options : Options) : Attempt Unit × Sink :=
  match sink.rank with
  | some rank => (.ok (), ⟨some rank, some options.serviceName⟩)
  | none =>
    match thresholdOf options.logLevel with
    | .ok rank => (.ok (), ⟨some rank, some options.serviceName⟩)
    | .error why => (.error why, { sink with rank := some unsetRank })

end Sink

/-- A key as the text that it is on a line; only scalars have one. -/
def lineKey : Key → Attempt String
  | .null => .ok "null"
  | .bool b => .ok (if b then "true" else "false")
  | .int n => .ok (toString n)
  | .real (.nan _) => .ok "NaN"
  | .real (.infinite negative) => .ok (if negative then "-Infinity" else "Infinity")
  | .real x => .ok x.toText
  | .text s => .ok s
  | _ => .error .wrongKind

mutual

/-- A value as it comes back from a line. -/
def lineValue : Value → Attempt Value
  | .list items => (lineValues items).map .list
  | .tuple items => (lineValues items).map .list
  | .mapping entries =>
    (lineEntries entries).map fun written => .mapping (Entries.ofWrites written)
  | .set frozen members => .ok (.text (Value.set frozen members).quoted)
  | .replacement held => .ok (.text (Value.replacement held).quoted)
  | value => .ok value

/-- Values as they come back from a line. -/
def lineValues : List Value → Attempt (List Value)
  | [] => .ok []
  | value :: rest => do
    let written ← lineValue value
    let others ← lineValues rest
    return written :: others

/-- Entries as they come back from a line. -/
def lineEntries : List (Key × Value) → Attempt (List (Key × Value))
  | [] => .ok []
  | (key, value) :: rest => do
    let name ← lineKey key
    let written ← lineValue value
    let others ← lineEntries rest
    return (.text name, written) :: others

end

/-- The name of a logger. The nameless one is the root of all. -/
def loggerName (logger : String) : String := if logger = "" then "root" else logger

/-- The field in which a line tells its time. The time is none of the fields here. -/
def timeField : String := "timestamp"

/-- The field in which an event can bring the record that it is made from. -/
def recordField : String := "_record"

/-- The fields of an event before they are written: those of the context, overridden by
    those bound and the event's own, then the event, its level and the logger, and a
    service if there is none yet. A field in the place of the time gives way to it, and
    one that asks for an exception is answered with nothing, as there is none. -/
def gathered (service logger : String) (context : Bound) (event : Event) : List (String × Value) :=
  let named := Entries.insert "event" (Value.text event.name) (Entries.merge context event.fields)
  let leveled := Entries.insert "level" (Value.text event.level.name) named
  let full := Entries.insert "logger" (Value.text (loggerName logger)) leveled
  let served := if Entries.has "service" full then full
    else Entries.insert "service" (Value.text service) full
  Entries.erase Event.exceptionField (Entries.erase timeField served)

/-- Whether an event claims to be made from a record. No value here is one. -/
def claimsRecord (fields : List (String × Value)) : Bool :=
  match Entries.get? recordField fields with
  | none | some .null => false
  | some _ => true

/-- The fields of an event's line. -/
def line (service logger : String) (context : Bound) (event : Event) :
    Attempt (List (String × Value)) :=
  let fields := gathered service logger context event
  if claimsRecord fields then .error .noOperation
  else fields.mapM fun field => do return (field.1, ← lineValue field.2)

/-- The lines that an event makes in a sink: one, or none below the threshold or
    before any configuration succeeded. -/
def Sink.write (sink : Sink) (logger : String) (context : Bound) (event : Event) :
    Attempt (List (List (String × Value))) :=
  match sink.service with
  | none => .ok []
  | some service =>
    if sink.rank.getD unsetRank ≤ event.level.rank then
      (line service logger context event).map fun fields => [fields]
    else .ok []

end Stepwise.Log
