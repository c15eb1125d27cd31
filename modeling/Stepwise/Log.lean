import Stepwise.Failure

/-!
# Log events

An event has a level, a name and fields. Fields bound to a logger, such as those that
tell which run an event belongs to, stand on every event of it; the event's own fields
override them.
-/

namespace Stepwise

/-- How grave an event is. -/
inductive Level where
  | debug | info | warning | error | critical
deriving DecidableEq

/-- The word for a level. -/
def Level.name : Level → String
  | .debug => "debug"
  | .info => "info"
  | .warning => "warning"
  | .error => "error"
  | .critical => "critical"

/-- The number by which levels are compared. -/
def Level.rank : Level → Nat
  | .debug => 10
  | .info => 20
  | .warning => 30
  | .error => 40
  | .critical => 50

/-- The level of a word. Some levels have a second one. -/
def Level.ofWord? : String → Option Level
  | "debug" => some .debug
  | "info" => some .info
  | "warning" | "warn" => some .warning
  | "error" => some .error
  | "critical" | "fatal" => some .critical
  | _ => none

/-- What a logger does with events: collect them, or write them as lines. -/
inductive Manner where
  | collecting
  | writing
deriving DecidableEq

/-- The level of a word to a logger. Only one that collects knows `msg`. -/
def Manner.levelOf? : Manner → String → Option Level
  | .collecting, "msg" => some .info
  | _, word => Level.ofWord? word

/-- Something that happened. -/
structure Event where
  level : Level
  name : String
  fields : List (String × Value)

/-- The fields that a logger puts on every event. -/
abbrev Bound : Type := List (String × Value)

namespace Event

/-- The event with bound fields put under its own. -/
def on (event : Event) (bound : Bound) : Event :=
  { event with fields := Entries.merge bound event.fields }

/-- The word that reports an error together with the exception that led to it. -/
def exceptionWord : String := "exception"

/-- The field that asks for the exception's text. -/
def exceptionField : String := "exc_info"

/-- The names that a logger keeps for what it is called with; no field of an event's own
    can have them. -/
def takenNames : List String := ["self", "event", "method_name"]

/-- The word that expects a level before the name of the event. -/
def filingWord : String := "log"

/-- Why nothing is reported under that word: the name stands where the level is expected,
    and no level is named so. A logger that writes looks it up, if nothing else was given
    for the level as well. -/
def misfiled (manner : Manner) (name : String) (fields : List (String × Value)) : Failure :=
  match manner with
  | .collecting => .wrongKind
  | .writing =>
    if fields.any fun field => ["self", "level"].contains field.1 then .wrongKind
    else .keyAbsent (.text name)

/-- The event that a word and fields report. -/
def ofWord (manner : Manner) (word name : String) (fields : List (String × Value)) :
    Attempt Event :=
  if word = filingWord then .error (misfiled manner name fields)
  else
    let asked := word = exceptionWord
    match if asked then some .error else manner.levelOf? word with
    | none => .error .noOperation
    | some level =>
      if fields.any fun field => takenNames.contains field.1 then .error .wrongKind
      else
        let asking := asked && !Entries.has exceptionField fields
        .ok ⟨level, name, if asking then fields ++ [(exceptionField, .bool true)] else fields⟩

/-- The field in which a collected event shows its level. -/
def levelField : String := "log_level"

/-- The event as it is collected: its level takes the place of a field. -/
def collected (event : Event) : Event :=
  { event with fields := Entries.erase levelField event.fields }

end Event
end Stepwise
