import Stepwise.Procedure
import Stepwise.Options
import Stepwise.Record
import Stepwise.Ending

/-!
# Walking a list of procedures

The direct way to run a workflow: a cursor stands on a procedure, the procedure is
dispatched, and its answer moves the cursor. An action gets a copy of the record and
returns the whole record, section by section; its successor is its own or the next in
the list. A check says where to go. A name that no procedure has ends the walk.

The ceiling is looked at before each dispatch, and the dispatch is noted before its
body runs, so that what was visited includes a body that fails.
-/

namespace Stepwise

/-- Whether a run goes on, ended well or failed. -/
inductive Status where
  | running | completed | failed
deriving DecidableEq

/-- The word for a status. -/
def Status.name : Status → String
  | .running => "RUNNING"
  | .completed => "COMPLETED"
  | .failed => "FAILED"

/-- How far a walk has come. -/
structure Progress where
  index : List (String × Nat)
  cursor : Option Nat
  iteration : Nat
  status : Status
  visited : List String

/-- What does not change during a walk. -/
structure Itinerary (World : Type) where
  procedures : List (Procedure World)
  models : Models
  options : Options

/-- A walk: the record, how far it has come, what was logged, and the bodies' world. -/
structure Walk (World : Type) where
  sections : Sections
  progress : Progress
  events : List Event
  world : World

namespace Progress

/-- A walk that starts at the first procedure, if there is one. -/
def start {World : Type} (procedures : List (Procedure World)) : Progress where
  index := Procedure.index procedures
  cursor := if procedures.isEmpty then none else some 0
  iteration := 0
  status := .running
  visited := []

/-- Note that a procedure is dispatched. -/
def dispatched (progress : Progress) (name : String) : Progress :=
  { progress with iteration := progress.iteration + 1, visited := progress.visited ++ [name] }

end Progress

namespace Walk

variable {World : Type}

/-- Log an event under the bound fields of the run. -/
def log (itinerary : Itinerary World) (walk : Walk World) (event : Event) : Walk World :=
  { walk with events := walk.events ++ [event.on (itinerary.options.bound none)] }

/-- Put the cursor somewhere. -/
def moveTo (walk : Walk World) (cursor : Option Nat) : Walk World :=
  { walk with progress := { walk.progress with cursor } }

/-- The level of events that only tell how a run goes. -/
def reportLevel (options : Options) : Level := if options.verbose then .info else .debug

/-- Put the cursor on the procedure of a name. An unknown name is reported and ends the
    walk. -/
def jump (itinerary : Itinerary World) (walk : Walk World) (name : Key) : Walk World :=
  let position := name.text?.bind fun text => Entries.get? text walk.progress.index
  match position with
  | some position => walk.moveTo (some position)
  | none =>
    (walk.log itinerary
      ⟨.warning, "procedure_not_found", [("procedure", name.toValue)]⟩).moveTo none

/-- Put the cursor where an action's successor is. -/
def continueTo (itinerary : Itinerary World) (walk : Walk World) (position : Nat) :
    Successor → Walk World
  | .finish => walk.moveTo none
  | .named name => walk.jump itinerary (.text name)
  | .following =>
    walk.moveTo (if position + 1 < itinerary.procedures.length then some (position + 1) else none)

/-- Take over the record that an action returned, input before output. What has no
    sections is refused, but an input that it has is taken over first. -/
def adopt (walk : Walk World) (returned : Value) : Option Failure × Walk World :=
  match returned.child (.text Section.input.name) with
  | .error why => (some why, walk)
  | .ok input =>
    let entered := { walk with sections := walk.sections.set .input input }
    match returned.child (.text Section.output.name) with
    | .error why => (some why, entered)
    | .ok output => (none, { entered with sections := entered.sections.set .output output })

/-- Put the cursor where a check's answer points. An answer that cannot be looked up
    fails. -/
def follow (itinerary : Itinerary World) (walk : Walk World) (answer : Value) :
    Option Failure × Walk World :=
  if endsRun answer then (none, walk.moveTo none)
  else
    match answer.key? with
    | some key => (none, walk.jump itinerary key)
    | none => (some .wrongKind, walk)

/-- The event that announces a dispatch. -/
def dispatchEvent (options : Options) (progress : Progress) (procedure : Procedure World) : Event :=
  ⟨reportLevel options, "procedure_dispatch",
    [("iteration", .int progress.iteration), ("procedure", .text procedure.name),
      ("kind", .text procedure.kind)]⟩

/-- Dispatch the procedure at a position. -/
def dispatch (itinerary : Itinerary World) (position : Nat) (procedure : Procedure World)
    (walk : Walk World) : Option Failure × Walk World :=
  let noted := { walk with progress := walk.progress.dispatched procedure.name }
  let announced := noted.log itinerary (dispatchEvent itinerary.options noted.progress procedure)
  match procedure with
  | .action _ body next =>
    match body itinerary.models walk.sections.toValue walk.world with
    | (.error why, world) => (some why, { announced with world })
    | (.ok returned, world) =>
      match { announced with world }.adopt returned with
      | (some why, entered) => (some why, entered)
      | (none, entered) => (none, entered.continueTo itinerary position (Successor.ofNext next))
  | .check _ body =>
    match body itinerary.models walk.sections.toValue walk.world with
    | (.error why, world) => (some why, { announced with world })
    | (.ok answer, world) => { announced with world }.follow itinerary answer

/-- Whether the ceiling forbids another dispatch. -/
def atCeiling (options : Options) (progress : Progress) : Option Nat :=
  options.ceiling.filter fun ceiling => ceiling ≤ progress.iteration

/-- What a walk does next: it is over, or a procedure is to be dispatched. -/
inductive Turn (World : Type) where
  | over (ending : Ending Unit) (walk : Walk World)
  | dispatch (position : Nat) (procedure : Procedure World)

/-- Look at the cursor, then at the ceiling. Reaching the ceiling is reported. -/
def turn (itinerary : Itinerary World) (walk : Walk World) : Turn World :=
  match walk.progress.cursor with
  | none => .over (.finished ()) walk
  | some position =>
    match atCeiling itinerary.options walk.progress with
    | some ceiling =>
      .over (.failed (.iterationLimit ceiling)) <|
        walk.log itinerary
          ⟨.warning, "iteration_limit_reached", [("max_iterations", .int ceiling)]⟩
    | none =>
      match itinerary.procedures[position]? with
      | some procedure => .dispatch position procedure
      | none => .over (.failed .outOfRange) walk

/-- Walk on until the walk is over, for at most the given number of dispatches. -/
def run (itinerary : Itinerary World) : Nat → Walk World → Ending Unit × Walk World
  | 0, walk =>
    match turn itinerary walk with
    | .over ending final => (ending, final)
    | .dispatch .. => (.unfinished, walk)
  | left + 1, walk =>
    match turn itinerary walk with
    | .over ending final => (ending, final)
    | .dispatch position procedure =>
      match walk.dispatch itinerary position procedure with
      | (some why, stopped) => (.failed why, stopped)
      | (none, moved) => run itinerary left moved

end Walk
end Stepwise
