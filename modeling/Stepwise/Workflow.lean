import Stepwise.Walk
import Stepwise.Flow

/-!
# Workflows

A workflow ties procedures, models, schemas and options to a record. It is run in two
ways, by walking its list and by running its plan, and both stand in the same envelope:
the list of procedures is accepted first, then the input is checked and put into the
record, and at the end the output is checked; its checked form is the result.

A walk works on the record itself, procedure by procedure. A run of the plan works on
channels and replaces both sections at once when it has ended. Until then the record is
changed only where the channels still hold mappings of it and fields are assigned below
these. Only a walk is remembered as the last run.
-/

namespace Stepwise

/-- A workflow and its record. The separator is fixed when the workflow is set up;
    options may change later. -/
structure Workflow (World : Type) where
  models : Models
  procedures : List (Procedure World)
  schemas : Schemas
  sections : Sections
  options : Options
  separator : Separator
  lastRun : Option Progress

/-- What a run leaves: the workflow, what was logged, and the bodies' world. -/
structure Aftermath (World : Type) where
  workflow : Workflow World
  events : List Event
  world : World

namespace Workflow

variable {World : Type}

/-- A workflow with a fresh record. -/
def setUp (models : Models) (procedures : List (Procedure World)) (schemas : Schemas)
    (options : Options) : Workflow World where
  models := models
  procedures := procedures
  schemas := schemas
  sections := .fresh schemas
  options := options
  separator := options.separator
  lastRun := none

/-- The workflow with a section replaced. -/
def withSection (workflow : Workflow World) (side : Section) (value : Value) :
    Workflow World :=
  { workflow with sections := workflow.sections.set side value }

/-- What is said of a section that does not fit. -/
def mismatchSummary : Section → String
  | .input => "Input does not match the input schema."
  | .output => "Output does not match the output schema."

/-- Check a value against the schema of a section. -/
def accept (workflow : Workflow World) (side : Section) (value : Value) : Attempt Value :=
  ((workflow.schemas.of side).check value).mapError (Rejection.toFailure (mismatchSummary side))

/-- The itinerary of a walk. -/
def itinerary (workflow : Workflow World) : Itinerary World :=
  ⟨workflow.procedures, workflow.models, workflow.options⟩

/-- The workflow as a walk left it. -/
def afterWalk (workflow : Workflow World) (walk : Walk World) (status : Status) :
    Workflow World :=
  { workflow with
    sections := walk.sections
    lastRun := some { walk.progress with status } }

/-- The event that closes a walk. -/
def walkedEvent (progress : Progress) : Event :=
  ⟨.debug, "run_completed",
    [("iterations", .int progress.iteration), ("visited", .list (progress.visited.map .text))]⟩

/-- Close a walk that came to its end: the output must fit its schema. -/
def closeWalk (workflow : Workflow World) (walk : Walk World) : Ending Value × Aftermath World :=
  match workflow.accept .output walk.sections.output with
  | .error why => (.failed why, ⟨workflow.afterWalk walk .failed, walk.events, walk.world⟩)
  | .ok result =>
    let closed := walk.log workflow.itinerary (walkedEvent walk.progress)
    (.finished result, ⟨workflow.afterWalk closed .completed, closed.events, closed.world⟩)

/-- Walk the list on an input, for at most `patience` dispatches. -/
def walk (workflow : Workflow World) (patience : Nat) (input : Value) (world : World) :
    Ending Value × Aftermath World :=
  match Procedure.validate workflow.procedures with
  | .error why => (.failed why, ⟨workflow, [], world⟩)
  | .ok () =>
    match workflow.accept .input input with
    | .error why => (.failed why, ⟨workflow, [], world⟩)
    | .ok data =>
      let entered := workflow.withSection .input data
      let start : Walk World := ⟨entered.sections, .start workflow.procedures, [], world⟩
      match Walk.run entered.itinerary patience start with
      | (.finished (), walked) => entered.closeWalk walked
      | (.failed why, walked) =>
        (.failed why, ⟨entered.afterWalk walked .failed, walked.events, walked.world⟩)
      | (.unfinished, walked) =>
        (.unfinished, ⟨entered.afterWalk walked .running, walked.events, walked.world⟩)

/-- The plan of a workflow, made anew on every call. -/
def plan (workflow : Workflow World) : Attempt (Plan World) := do
  Procedure.validate workflow.procedures
  Plan.make workflow.procedures workflow.schemas workflow.models workflow.separator
    workflow.options.preferredModel workflow.options.ceiling

/-- What is logged when a plan is taken for use of its own. -/
def planEvents (workflow : Workflow World) (plan : Plan World) : List Event :=
  plan.diagnostics.map fun message =>
    ⟨.debug, "graph_diagnostic",
      [("agent", .text workflow.options.agentName), ("message", .text message)]⟩

/-- An event of a run of the plan. -/
def runEvent (workflow : Workflow World) (level : Level) (name : String)
    (fields : List (String × Value)) : Event :=
  Event.on ⟨level, name, fields⟩ (workflow.options.bound none)

/-- The events that the nodes of a run make. -/
def stepEvents (workflow : Workflow World) (chunks : List Chunk) : List Event :=
  (Flow.nodesRun chunks).zipIdx.map fun (node, position) =>
    workflow.runEvent (Walk.reportLevel workflow.options) "graph_step"
      [("iteration", .int (position + 1 : Nat)), ("procedure", .text node)]

/-- The ceiling as a value. -/
def ceilingValue (options : Options) : Value :=
  match options.ceiling with
  | some ceiling => .int ceiling
  | none => .null

/-- How the failure of a run of the plan is logged and reported. Reaching the graph's own
    limit is reported as reaching the ceiling; every other failure as it is. -/
def flowFailure (workflow : Workflow World) : Failure → List Event × Failure
  | .stepLimit =>
    ([workflow.runEvent .warning "iteration_limit_reached"
        [("max_iterations", ceilingValue workflow.options)]],
      .iterationLimit (workflow.options.ceiling.getD Flow.unboundedLimit))
  | why => ([], why)

/-- Close a run of the plan that came to its end: take over both sections, then check
    the output. -/
def closeFlow (workflow : Workflow World) (plan : Plan World) (initial : Flat) (events : List Event)
    (flow : Flow World) : Ending Value × Aftermath World :=
  let completed := events ++ [workflow.runEvent .debug "graph_completed"
    [("iterations", .int (Flow.nodesRun flow.chunks).length)]]
  match plan.channels.decodeAfter (Flow.readsBehind plan flow.chunks)
      ((Flow.lastValues? flow.chunks).getD initial) with
  | .error why => (.failed why, ⟨workflow, completed, flow.world⟩)
  | .ok nested =>
    let replaced := { workflow with sections := .ofNested nested }
    match replaced.accept .output replaced.sections.output with
    | .error why => (.failed why, ⟨replaced, completed, flow.world⟩)
    | .ok result => (.finished result, ⟨replaced, completed, flow.world⟩)

/-- The workflow as a run leaves it that did not replace the record: with what collecting
    from the first state of the channels left of it. -/
def readThrough (workflow : Workflow World) (plan : Plan World) (initial : Flat)
    (chunks : List Chunk) : Workflow World :=
  match plan.channels.writeAll [] initial with
  | .error _ => workflow
  | .ok flat =>
    { workflow with sections :=
        plan.channels.sectionsAfter (Flow.readsOfStart plan chunks) flat workflow.sections }

/-- Run a plan of the workflow on the record as it is. -/
def runPlan (workflow : Workflow World) (patience : Nat) (plan : Plan World)
    (events : List Event) (world : World) : Ending Value × Aftermath World :=
  match plan.channels.encode workflow.sections.toValue with
  | .error why => (.failed why, ⟨workflow, events, world⟩)
  | .ok initial =>
    let (ending, flow) := Flow.run plan patience initial world
    let stepped := events ++ workflow.stepEvents flow.chunks
    match ending with
    | .finished () => workflow.closeFlow plan initial stepped flow
    | .unfinished =>
      (.unfinished, ⟨workflow.readThrough plan initial flow.chunks, stepped, flow.world⟩)
    | .failed why =>
      let (closing, reported) := workflow.flowFailure why
      (.failed reported,
        ⟨workflow.readThrough plan initial flow.chunks, stepped ++ closing, flow.world⟩)

/-- Run the plan on an input. Without a ceiling at most `patience` checks are followed
    in one resolution. -/
def execute (workflow : Workflow World) (patience : Nat) (input : Value) (world : World) :
    Ending Value × Aftermath World :=
  match workflow.plan with
  | .error why => (.failed why, ⟨workflow, [], world⟩)
  | .ok plan =>
    match workflow.accept .input input with
    | .error why => (.failed why, ⟨workflow, [], world⟩)
    | .ok data =>
      let entered := workflow.withSection .input data
      let warnings := plan.diagnostics.map fun message =>
        entered.runEvent .warning "graph_diagnostic" [("message", .text message)]
      entered.runPlan patience plan warnings world

/-- A run of the plan that is watched: what was put out, once there is a plan, and the
    record that the last state holds. -/
structure Trace where
  chunks : Option (List Chunk)
  decoded : Ending Flat.Nested

/-- Watch a run of the plan. An input is put into the record unchecked, and the record is
    not replaced at the end. -/
def trace (workflow : Workflow World) (patience : Nat) (input : Option Value) (world : World) :
    Trace × Aftermath World :=
  match workflow.plan with
  | .error why => (⟨none, .failed why⟩, ⟨workflow, [], world⟩)
  | .ok plan =>
    let entered := match input with
      | some value => workflow.withSection .input value
      | none => workflow
    match plan.channels.encode entered.sections.toValue with
    | .error why => (⟨some [], .failed why⟩, ⟨entered, [], world⟩)
    | .ok initial =>
      let (ending, flow) := Flow.run plan patience initial world
      let decoded := ending.andThen fun _ =>
        .ofAttempt (plan.channels.decodeAfter (Flow.readsBehind plan flow.chunks)
          ((Flow.lastValues? flow.chunks).getD initial))
      (⟨some flow.chunks, decoded⟩,
        ⟨entered.readThrough plan initial flow.chunks, [], flow.world⟩)

/-- Spread a value over the channels of a fresh plan. -/
def encode (workflow : Workflow World) (value : Value) : Attempt Flat := do
  let plan ← workflow.plan
  plan.channels.encode value

/-- Collect the record that a value holds for the channels of a fresh plan. -/
def decode (workflow : Workflow World) (value : Value) : Attempt Flat.Nested := do
  let plan ← workflow.plan
  plan.channels.decodeValue value

end Workflow
end Stepwise
