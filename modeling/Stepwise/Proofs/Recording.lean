import Stepwise.Proofs.Worlds

/-!
# Recording the calls of bodies

What a run gives to the bodies is seen by recording it in their world: every body also
notes which procedure it belongs to and what it was given. Recording changes nothing
else: the list is accepted and has a plan as before.
-/

namespace Stepwise

variable {World : Type}

/-- A call of a procedure's body with what it was given. -/
structure Call where
  name : String
  models : Models
  record : Value

/-- A body that notes its call before it does what it does. -/
def Body.recorded (name : String) (body : Body World) : Body (World × List Call) :=
  fun models record world =>
    ((body models record world.1).1,
      ((body models record world.1).2, world.2 ++ [⟨name, models, record⟩]))

/-- A procedure whose body notes its calls. -/
def Procedure.recorded : Procedure World → Procedure (World × List Call)
  | .action name body next => .action name (Body.recorded name body) next
  | .check name body => .check name (Body.recorded name body)

/-- A workflow whose bodies note their calls. -/
def Workflow.recorded (workflow : Workflow World) : Workflow (World × List Call) :=
  ⟨workflow.models, workflow.procedures.map Procedure.recorded, workflow.schemas,
    workflow.sections, workflow.options, workflow.separator, workflow.lastRun⟩

/-- The calls of a walk, in their order. -/
def Workflow.walkCalls (workflow : Workflow World) (patience : Nat) (input : Value)
    (world : World) : List Call :=
  (workflow.recorded.walk patience input (world, [])).2.world.2

/-- The calls of a run of the plan, in their order. -/
def Workflow.planCalls (workflow : Workflow World) (patience : Nat) (input : Value)
    (world : World) : List Call :=
  (workflow.recorded.execute patience input (world, [])).2.world.2

namespace Procedure

/-- Recording leaves a procedure its name. -/
@[simp] theorem name_recorded (procedure : Procedure World) :
    procedure.recorded.name = procedure.name := by
  cases procedure <;> rfl

/-- Recording leaves an action an action. -/
@[simp] theorem isAction_recorded (procedure : Procedure World) :
    procedure.recorded.isAction = procedure.isAction := by
  cases procedure <;> rfl

/-- Recording leaves a check a check. -/
@[simp] theorem isCheck_recorded (procedure : Procedure World) :
    procedure.recorded.isCheck = procedure.isCheck := by
  cases procedure <;> rfl

/-- Recording leaves an action its successor. -/
@[simp] theorem leavesNextOpen_recorded (procedure : Procedure World) :
    procedure.recorded.leavesNextOpen = procedure.leavesNextOpen := by
  cases procedure <;> rfl

/-- Recording leaves a list its names. -/
@[simp] theorem names_recorded (procedures : List (Procedure World)) :
    names (procedures.map recorded) = names procedures := by
  simp [names, Function.comp_def]

/-- Recording does not matter for whether a list is accepted. -/
theorem validate_recorded (procedures : List (Procedure World)) :
    validate (procedures.map recorded) = validate procedures := by
  have checks : (procedures.map recorded).any (·.isCheck) = procedures.any (·.isCheck) := by
    simp [List.any_map, Function.comp_def]
  have openEnded : names ((procedures.map recorded).filter (·.leavesNextOpen)) =
      names (procedures.filter (·.leavesNextOpen)) := by
    simp [List.filter_map, names, Function.comp_def]
  rw [validate, validate, ListFault.ofList?, ListFault.ofList?, names_recorded, checks, openEnded]

end Procedure

/-- Recording leaves the nodes of a graph. -/
theorem Plan.actionNames_recorded (procedures : List (Procedure World)) :
    Plan.actionNames (procedures.map Procedure.recorded) = Plan.actionNames procedures := by
  simp [Plan.actionNames, List.filter_map, Procedure.names, Function.comp_def]

/-- A workflow has a plan with recording if it has one without. -/
theorem Workflow.exists_plan_recorded (workflow : Workflow World) (plan : Plan World)
    (planned : workflow.plan = .ok plan) :
    ∃ recorded, workflow.recorded.plan = .ok recorded ∧ recorded.MadeFor workflow.recorded ∧
      recorded.selection = plan.selection := by
  have made := Plan.madeFor_of_plan workflow plan planned
  obtain ⟨recorded, planned, selection⟩ := Plan.exists_plan workflow.recorded plan.selection
    ((Procedure.validate_recorded _).trans made.accepted)
    ((congrArg Plan.nodesFault? (Plan.actionNames_recorded _)).trans made.nodes) made.selected
  exact ⟨recorded, planned, Plan.madeFor_of_plan _ _ planned, selection⟩

/-- A recording body adds one call. -/
theorem Procedure.body_recorded (procedure : Procedure World) (models : Models) (record : Value)
    (world : World × List Call) : (procedure.recorded.body models record world).2.2 =
      world.2 ++ [⟨procedure.name, models, record⟩] := by
  cases procedure <;> rfl

/-- The calls before are the first of the calls after. -/
def CallsGrow (before after : World × List Call) : Prop := before.2 <+: after.2

/-- Recording bodies only add calls. -/
theorem Procedure.recorded_keeps (procedure : Procedure World) :
    procedure.recorded.Keeps CallsGrow := by
  intro models record world
  rw [CallsGrow, procedure.body_recorded]
  exact List.prefix_append _ _

/-- An itinerary whose bodies note their calls. -/
def Itinerary.recorded (itinerary : Itinerary World) : Itinerary (World × List Call) :=
  ⟨itinerary.procedures.map Procedure.recorded, itinerary.models, itinerary.options⟩

namespace Walk

/-- A walk without the calls that its bodies noted. -/
def withoutCalls (walk : Walk (World × List Call)) : Walk World :=
  ⟨walk.sections, walk.progress, walk.events, walk.world.1⟩

/-- Moving to a name is the same with recording. -/
theorem jump_recorded (itinerary : Itinerary World) (walk : Walk (World × List Call))
    (name : Key) : (walk.jump itinerary.recorded name).withoutCalls =
      walk.withoutCalls.jump itinerary name := by
  unfold jump
  dsimp only [withoutCalls]
  split <;> rfl

/-- Moving on from an action is the same with recording. -/
theorem continueTo_recorded (itinerary : Itinerary World) (walk : Walk (World × List Call))
    (position : Nat) (successor : Successor) :
    (walk.continueTo itinerary.recorded position successor).withoutCalls =
      walk.withoutCalls.continueTo itinerary position successor := by
  cases successor with
  | finish => rfl
  | named name => exact jump_recorded itinerary walk _
  | following =>
    rw [continueTo, continueTo, Itinerary.recorded, List.length_map]
    rfl

/-- Following an answer is the same with recording. -/
theorem follow_recorded (itinerary : Itinerary World) (walk : Walk (World × List Call))
    (answer : Value) : Prod.map id withoutCalls (walk.follow itinerary.recorded answer) =
      walk.withoutCalls.follow itinerary answer := by
  unfold follow
  split
  · rfl
  · split
    · next key _ => exact congrArg (Prod.mk none) (jump_recorded itinerary walk key)
    · rfl

/-- A dispatch is the same with recording. -/
theorem dispatch_recorded (itinerary : Itinerary World) (walk : Walk (World × List Call))
    (position : Nat) (procedure : Procedure World) :
    Prod.map id withoutCalls (walk.dispatch itinerary.recorded position procedure.recorded) =
      walk.withoutCalls.dispatch itinerary position procedure := by
  have modelsKept : itinerary.recorded.models = itinerary.models := rfl
  unfold dispatch
  cases procedure with
  | action name body next =>
    simp only [Procedure.recorded, Body.recorded, withoutCalls]
    rw [modelsKept]
    cases answered : body itinerary.models walk.sections.toValue walk.world.1 with
    | mk outcome after =>
      cases outcome with
      | error why => rfl
      | ok returned =>
        unfold adopt
        dsimp only
        cases returned.child (.text Section.input.name) with
        | error why => rfl
        | ok input =>
          dsimp only
          cases returned.child (.text Section.output.name) with
          | error why => rfl
          | ok output =>
            exact congrArg (Prod.mk none) (continueTo_recorded itinerary _ position _)
  | check name body =>
    simp only [Procedure.recorded, Body.recorded, withoutCalls]
    rw [modelsKept]
    cases answered : body itinerary.models walk.sections.toValue walk.world.1 with
    | mk outcome after =>
      cases outcome with
      | error why => rfl
      | ok answer => exact follow_recorded itinerary _ answer

/-- A walk looks at the same turn with recording. -/
theorem turn_recorded (itinerary : Itinerary World) (walk : Walk (World × List Call)) :
    (∃ ending final, turn itinerary.recorded walk = .over ending final ∧
      turn itinerary walk.withoutCalls = .over ending final.withoutCalls) ∨
    ∃ position procedure,
      turn itinerary.recorded walk = .dispatch position (Procedure.recorded procedure) ∧
      turn itinerary walk.withoutCalls = .dispatch position procedure := by
  unfold turn
  dsimp only [withoutCalls, Itinerary.recorded]
  cases walk.progress.cursor with
  | none => exact .inl ⟨_, _, rfl, rfl⟩
  | some position =>
    dsimp only
    cases atCeiling itinerary.options walk.progress with
    | some ceiling => exact .inl ⟨_, _, rfl, rfl⟩
    | none =>
      dsimp only
      rw [List.getElem?_map]
      cases itinerary.procedures[position]? with
      | none => exact .inl ⟨_, _, rfl, rfl⟩
      | some procedure => exact .inr ⟨position, procedure, rfl, rfl⟩

/-- A walk is the same with recording. -/
theorem run_recorded (itinerary : Itinerary World) (left : Nat)
    (walk : Walk (World × List Call)) :
    Prod.map id withoutCalls (run itinerary.recorded left walk) =
      run itinerary left walk.withoutCalls := by
  induction left generalizing walk with
  | zero =>
    rcases turn_recorded itinerary walk with
      ⟨ending, final, ended, plainOver⟩ | ⟨position, procedure, next, plainNext⟩
    · rw [run, run, ended, plainOver]
      rfl
    · rw [run, run, next, plainNext]
      rfl
  | succ left ih =>
    rcases turn_recorded itinerary walk with
      ⟨ending, final, ended, plainOver⟩ | ⟨position, procedure, next, plainNext⟩
    · rw [run, run, ended, plainOver]
      rfl
    · rw [run, run, next, plainNext]
      dsimp only
      rw [← dispatch_recorded]
      cases walk.dispatch itinerary.recorded position procedure.recorded with
      | mk failure moved =>
        cases failure with
        | some why => rfl
        | none => exact ih moved

end Walk
end Stepwise
