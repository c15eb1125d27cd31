import Mathlib.Data.List.Dedup
import Stepwise.Proofs.WellFormed

/-!
# Running a plan by supersteps

A graph runs by supersteps: the nodes of one are all those that a route out of a node of the
one before leads to, and several may be due at once. Run so, a plan never has two nodes due,
since there is one way out of the start and of every action. It is the run of the plan, and
each superstep is that of one action.

A run of a plan tells its steps in events, numbered from one. These are the actions of the
supersteps that were completed, in their order. An action tells its step as soon as its
updates are out; so one more is told where the superstep then stops, because the updates
cannot be written or the route out of the action is not resolved.
-/

namespace Stepwise

variable {World : Type}

namespace Plan

/-- All routes out of a place. -/
def routesOut (plan : Plan World) (place : String) : List (Route World) :=
  (plan.allRoutes.filter fun entry => entry.1 = place).map Prod.snd

/-- Where places are filed once, what is filed under one is what it is looked up as. -/
theorem filter_eq_lookup (routes : List (String × Route World)) (place : String)
    (distinct : (routes.map Prod.fst).Nodup) :
    (routes.filter fun entry => entry.1 = place).map Prod.snd =
      (routes.lookup place).toList := by
  induction routes with
  | nil => rfl
  | cons entry rest ih =>
    obtain ⟨source, route⟩ := entry
    obtain ⟨fresh, restDistinct⟩ := List.nodup_cons.mp distinct
    by_cases same : source = place
    · subst same
      have none : (rest.filter fun entry => entry.1 = source) = [] := by
        refine List.filter_eq_nil_iff.mpr fun entry member same => ?_
        exact fresh (List.mem_map.mpr ⟨entry, member, of_decide_eq_true same⟩)
      rw [List.filter_cons_of_pos (by simp), none, List.lookup_cons_self]
      rfl
    · have other : (place == source) = false := by simpa using Ne.symm same
      rw [List.filter_cons_of_neg (by simpa using same), ih restDistinct, List.lookup_cons, other]

/-- What a place is looked up as is filed under it. -/
theorem mem_of_lookup (routes : List (String × Route World)) (place : String)
    (route : Route World) (found : routes.lookup place = some route) : (place, route) ∈ routes := by
  obtain ⟨before, after, rfl, -⟩ := List.lookup_eq_some_iff.mp found
  simp

variable {workflow : Workflow World} {plan : Plan World}

/-- One route leads out of the start. -/
theorem MadeFor.routesOut_start (made : MadeFor workflow plan) :
    plan.routesOut startName = [plan.start] := by
  rw [routesOut, filter_eq_lookup _ _ made.nodup_sources, allRoutes, List.lookup_cons_self]
  rfl

/-- One route leads out of an action. -/
theorem MadeFor.routesOut_node (made : MadeFor workflow plan) {name : String}
    (isNode : name ∈ actionNames workflow.procedures) :
    plan.routesOut name = [plan.routeOf name] ∧ (name, plan.routeOf name) ∈ plan.allRoutes := by
  have distinct := made.nodup_sources
  have sources := made.sources
  rw [made.procedures] at sources
  have started : name ≠ startName := by
    rintro rfl
    rw [sources] at distinct
    exact (List.nodup_cons.mp distinct).1 isNode
  have notStart : (name == startName) = false := by simpa using started
  rw [routesOut, filter_eq_lookup _ _ distinct, allRoutes, List.lookup_cons, notStart, routeOf]
  cases found : plan.routes.lookup name with
  | none =>
    rw [allRoutes, List.map_cons, List.cons.injEq] at sources
    rw [← sources.2] at isNode
    obtain ⟨⟨source, route⟩, member, rfl⟩ := List.mem_map.mp isNode
    have differs := List.lookup_eq_none_iff.mp found _ member
    simp at differs
  | some route => exact ⟨rfl, List.mem_cons_of_mem _ (mem_of_lookup _ _ _ found)⟩

/-- The action of a node is found under its name. -/
theorem MadeFor.find?_of_node (made : MadeFor workflow plan) {name : String}
    (isNode : name ∈ actionNames workflow.procedures) :
    ∃ body next, Procedure.find? plan.procedures name = some (.action name body next) := by
  obtain ⟨body, next, member⟩ := (mem_actionNames_iff _ _).mp isNode
  rw [made.procedures]
  exact ⟨body, next, Procedure.find?_of_mem _
    (Procedure.nodup_names_of_validate _ made.accepted) _ member⟩

end Plan

namespace Flow

/-- Where routes lead, all of them, for the values in the channels. -/
def resolveAll (plan : Plan World) (patience : Nat) (flat : Flat) :
    List (Route World) → World → Ending (List Stop) × World
  | [], world => (.finished [], world)
  | route :: rest, world =>
    match plan.resolve patience flat route world with
    | (.finished stop, world) =>
      match resolveAll plan patience flat rest world with
      | (.finished stops, world) => (.finished (stop :: stops), world)
      | (ending, world) => (ending, world)
    | (.failed why, world) => (.failed why, world)
    | (.unfinished, world) => (.unfinished, world)

/-- The name of a node where a route leads. -/
def node? : Stop → Option String
  | .node name => some name
  | .finish => none

/-- The nodes that are due where routes have led, each once. -/
def due (stops : List Stop) : List String := (stops.filterMap node?).dedup

/-- The superstep of one action: its body runs, its updates are put out and written, and all
routes out of it are resolved. What is no action has no superstep. -/
def superstep (plan : Plan World) (patience : Nat) (name : String) (flow : Flow World) :
    Option (Ending (List Stop) × Flow World) :=
  match Procedure.find? plan.procedures name with
  | some (.action _ body _) =>
    match nodeUpdates plan body (readsBehind plan flow.chunks) flow.flat flow.world with
    | (.error why, world) => some (.failed why, { flow with world })
    | (.ok updates, world) =>
      let reported := { flow with world }.emit (.updates name updates)
      match plan.channels.writeAll flow.flat updates with
      | .error why => some (.failed why, reported)
      | .ok flat =>
        match resolveAll plan patience flat (plan.routesOut name) reported.world with
        | (.finished stops, world) =>
          some (.finished stops, { reported with flat, world }.emit (.values flat))
        | (ending, world) => some (ending, { reported with world })
  | _ => none

/-- The supersteps of a run, each as the one action that it runs: those that are completed, and
the one in which the run stops, if it stops in one. -/
structure Steps where
  completed : List String
  stopped : Option String

/-- The supersteps with one that was completed before them. -/
def Steps.behind (steps : Steps) (name : String) : Steps :=
  { steps with completed := name :: steps.completed }

/-- Run supersteps from where routes have led, for at most `limit` of them. Nothing comes of it
if two nodes are due at once. -/
def runSupersteps (plan : Plan World) (patience : Nat) :
    Nat → List Stop → Flow World → Option (Steps × Ending Unit × Flow World)
  | 0, stops, flow =>
    match due stops with
    | [] => some (⟨[], none⟩, .finished (), flow)
    | [_] => some (⟨[], none⟩, .failed .stepLimit, flow)
    | _ => none
  | limit + 1, stops, flow =>
    match due stops with
    | [] => some (⟨[], none⟩, .finished (), flow)
    | [name] =>
      match superstep plan patience name flow with
      | some (.finished next, moved) =>
        if limit = 0 then some (⟨[name], none⟩, .failed .stepLimit, moved)
        else (runSupersteps plan patience limit next moved).map fun (steps, run) =>
          (steps.behind name, run)
      | some (.failed why, stopped) => some (⟨[], some name⟩, .failed why, stopped)
      | some (.unfinished, stopped) => some (⟨[], some name⟩, .unfinished, stopped)
      | none => none
    | _ => none

/-- Run a plan by supersteps on an initial state of the channels. -/
def bySupersteps (plan : Plan World) (patience : Nat) (initial : Flat) (world : World) :
    Option (Steps × Ending Unit × Flow World) :=
  match plan.channels.writeAll [] initial with
  | .error why => some (⟨[], none⟩, .failed why, ⟨[], [], world⟩)
  | .ok flat =>
    match resolveAll plan patience flat (plan.routesOut Plan.startName) world with
    | (.finished stops, world) =>
      runSupersteps plan patience (plan.ceiling.getD unboundedLimit) stops
        ⟨flat, [.values flat], world⟩
    | (.failed why, world) => some (⟨[], none⟩, .failed why, ⟨flat, [], world⟩)
    | (.unfinished, world) => some (⟨[], none⟩, .unfinished, ⟨flat, [], world⟩)

variable {workflow : Workflow World} {plan : Plan World}

/-- One route leads to one stop. -/
theorem resolveAll_singleton (plan : Plan World) (patience : Nat) (flat : Flat)
    (route : Route World) (world : World) :
    resolveAll plan patience flat [route] world =
      ((plan.resolve patience flat route world).1.andThen fun stop => .finished [stop],
        (plan.resolve patience flat route world).2) := by
  rw [resolveAll]
  rcases plan.resolve patience flat route world with ⟨ending, after⟩
  cases ending <;> rfl

/-- The superstep of an action is the run of its node. -/
theorem superstep_eq_runNode (made : Plan.MadeFor workflow plan) (patience : Nat) (name : String)
    (isNode : name ∈ Plan.actionNames workflow.procedures) (flow : Flow World) :
    superstep plan patience name flow =
      some ((runNode plan patience name flow).1.andThen fun stop => .finished [stop],
        (runNode plan patience name flow).2) := by
  obtain ⟨body, next, found⟩ := made.find?_of_node isNode
  obtain ⟨oneRoute, -⟩ := made.routesOut_node isNode
  rw [superstep, runNode, found, oneRoute]
  dsimp only
  cases nodeUpdates plan body (readsBehind plan flow.chunks) flow.flat flow.world with
  | mk updates world =>
    cases updates with
    | error why => rfl
    | ok updates =>
      dsimp only
      cases plan.channels.writeAll flow.flat updates with
      | error why => rfl
      | ok flat =>
        dsimp only
        rw [resolveAll_singleton]
        rcases plan.resolve patience flat (plan.routeOf name) _ with ⟨ending, after⟩
        cases ending <;> rfl

/-- The run of an action's node tells the action where it leads on, to an action or to the end.
Where it stops, it has told the action or not, as its updates were put out or not. -/
theorem runNode_cases (made : Plan.MadeFor workflow plan) (patience : Nat) (name : String)
    (isNode : name ∈ Plan.actionNames workflow.procedures) (flow : Flow World) :
    (∃ stop, (runNode plan patience name flow).1 = .finished stop ∧
      Plan.IsAmong (Plan.actionNames workflow.procedures) stop ∧
      nodesRun (runNode plan patience name flow).2.chunks = nodesRun flow.chunks ++ [name]) ∨
    (∀ stop, (runNode plan patience name flow).1 ≠ .finished stop) ∧
      (nodesRun (runNode plan patience name flow).2.chunks = nodesRun flow.chunks ∨
        nodesRun (runNode plan patience name flow).2.chunks = nodesRun flow.chunks ++ [name]) := by
  obtain ⟨body, next, found⟩ := made.find?_of_node isNode
  obtain ⟨-, isRoute⟩ := made.routesOut_node isNode
  have one : ∀ updates, nodesRun (flow.chunks ++ [.updates name updates]) =
      nodesRun flow.chunks ++ [name] := fun updates => List.filterMap_append
  rw [runNode, found]
  dsimp only
  cases nodeUpdates plan body (readsBehind plan flow.chunks) flow.flat flow.world with
  | mk updates world =>
    cases updates with
    | error why => exact .inr ⟨by simp, .inl rfl⟩
    | ok updates =>
      dsimp only
      cases plan.channels.writeAll flow.flat updates with
      | error why => exact .inr ⟨by simp, .inr (one updates)⟩
      | ok flat =>
        dsimp only [emit]
        cases resolved : plan.resolve patience flat (plan.routeOf name) world with
        | mk ending after =>
          cases ending with
          | failed why => exact .inr ⟨by simp, .inr (one updates)⟩
          | unfinished => exact .inr ⟨by simp, .inr (one updates)⟩
          | finished stop =>
            refine .inl ⟨stop, rfl, made.resolve_among isRoute resolved, ?_⟩
            dsimp only
            rw [nodesRun, List.filterMap_append]
            exact (List.append_nil _).trans (one updates)

/-- What a run puts out tells the actions of its supersteps, behind some that were told before:
those completed, and perhaps the one in which it stops. A run that comes to its end stops in
none. -/
structure Tells (nodes earlier : List String) (steps : Steps) (run : Ending Unit × Flow World) :
    Prop where
  completed : ∀ name ∈ steps.completed, name ∈ nodes
  stopped : ∀ name ∈ steps.stopped, name ∈ nodes ∧ run.1 ≠ .finished ()
  told : nodesRun run.2.chunks = earlier ++ steps.completed ∨
    ∃ name ∈ steps.stopped, nodesRun run.2.chunks = earlier ++ (steps.completed ++ [name])

variable {nodes earlier : List String} {steps : Steps} {name : String}
  {run : Ending Unit × Flow World}

/-- Without a superstep nothing more is told. -/
theorem Tells.nothing (same : nodesRun run.2.chunks = earlier) :
    Tells nodes earlier ⟨[], none⟩ run :=
  ⟨fun _ member => absurd member List.not_mem_nil,
    fun _ member => absurd member (Option.not_mem_none _),
    .inl (same.trans (List.append_nil _).symm)⟩

/-- A superstep that was completed is told before those behind it. -/
theorem Tells.behind {between : List String} (tells : Tells nodes between steps run)
    (isNode : name ∈ nodes) (put : between = earlier ++ [name]) :
    Tells nodes earlier (steps.behind name) run := by
  subst put
  refine ⟨?_, tells.stopped, ?_⟩
  · rintro other (_ | ⟨_, later⟩)
    · exact isNode
    · exact tells.completed other later
  · rcases tells.told with all | ⟨last, isLast, more⟩
    · exact .inl (by rw [all, List.append_assoc, List.singleton_append]; rfl)
    · exact .inr ⟨last, isLast, by rw [more, List.append_assoc, List.singleton_append]; rfl⟩

/-- A run that stops in a superstep may have told it, and has completed none more. -/
theorem Tells.stopping (isNode : name ∈ nodes) (ends : run.1 ≠ .finished ())
    (put : nodesRun run.2.chunks = earlier ∨ nodesRun run.2.chunks = earlier ++ [name]) :
    Tells nodes earlier ⟨[], some name⟩ run := by
  refine ⟨fun _ member => absurd member List.not_mem_nil, ?_, ?_⟩
  · rintro _ ⟨⟩
    exact ⟨isNode, ends⟩
  · rcases put with same | one
    · exact .inl (same.trans (List.append_nil _).symm)
    · exact .inr ⟨name, rfl, one⟩

/-- Supersteps from an action or the end are the run from there.

Proof: by induction on the number of supersteps that are left. Where the superstep of an action
leads is a single stop again. -/
theorem runSupersteps_eq_runFrom (made : Plan.MadeFor workflow plan) (patience limit : Nat)
    (stop : Stop) (among : Plan.IsAmong (Plan.actionNames workflow.procedures) stop)
    (flow : Flow World) :
    ∃ steps, runSupersteps plan patience limit [stop] flow =
        some (steps, runFrom plan patience limit stop flow) ∧
      Tells (Plan.actionNames workflow.procedures) (nodesRun flow.chunks) steps
        (runFrom plan patience limit stop flow) := by
  induction limit generalizing stop flow with
  | zero => cases stop <;> exact ⟨_, rfl, .nothing rfl⟩
  | succ limit ih =>
    cases stop with
    | finish => exact ⟨_, rfl, .nothing rfl⟩
    | node name =>
      have isDue : due [Stop.node name] = [name] := rfl
      have ran := superstep_eq_runNode made patience name among flow
      have told := runNode_cases made patience name among flow
      rw [runSupersteps, isDue, runFrom]
      dsimp only
      rw [ran]
      generalize runNode plan patience name flow = outcome at told
      obtain ⟨ending, moved⟩ := outcome
      cases ending with
      | finished next =>
        obtain ⟨_, ⟨⟩, onward, put⟩ | ⟨leads, -⟩ := told
        · dsimp only [Ending.andThen] at put ⊢
          by_cases last : limit = 0
          · rw [if_pos last, if_pos last]
            exact ⟨_, rfl, Tells.behind (.nothing rfl) among put⟩
          · obtain ⟨steps, runs, tells⟩ := ih next onward moved
            rw [if_neg last, if_neg last, runs]
            exact ⟨_, rfl, tells.behind among put⟩
        · exact absurd rfl (leads next)
      | failed why =>
        obtain ⟨_, ⟨⟩, -⟩ | ⟨-, put⟩ := told
        exact ⟨_, rfl, .stopping among (by simp) put⟩
      | unfinished =>
        obtain ⟨_, ⟨⟩, -⟩ | ⟨-, put⟩ := told
        exact ⟨_, rfl, .stopping among (by simp) put⟩

/-- Supersteps are the run of a plan. -/
theorem bySupersteps_eq_run (made : Plan.MadeFor workflow plan) (patience : Nat) (initial : Flat)
    (world : World) :
    ∃ steps, bySupersteps plan patience initial world =
        some (steps, Flow.run plan patience initial world) ∧
      Tells (Plan.actionNames workflow.procedures) [] steps
        (Flow.run plan patience initial world) := by
  rw [bySupersteps, Flow.run]
  cases plan.channels.writeAll [] initial with
  | error why => exact ⟨_, rfl, .nothing rfl⟩
  | ok flat =>
    dsimp only
    rw [made.routesOut_start, resolveAll_singleton]
    cases resolved : plan.resolve patience flat plan.start world with
    | mk ending after =>
      cases ending with
      | failed why => exact ⟨_, rfl, .nothing rfl⟩
      | unfinished => exact ⟨_, rfl, .nothing rfl⟩
      | finished stop =>
        exact runSupersteps_eq_runFrom made patience _ stop
          (made.resolve_among List.mem_cons_self resolved) _

end Flow

/-- The number and the name that an event tells, if it is of a step of the graph. -/
def Event.step? (event : Event) : Option (Option Value × Option Value) :=
  if event.name = "graph_step" then
    some (Entries.get? "iteration" event.fields, Entries.get? "procedure" event.fields)
  else none

/-- The steps that events tell, in their order. -/
def stepsTold (events : List Event) : List (Option Value × Option Value) :=
  events.filterMap Event.step?

namespace Workflow

/-- The events that nodes make tell these, numbered from one. -/
theorem stepsTold_stepEvents (workflow : Workflow World) (chunks : List Chunk) :
    stepsTold (workflow.stepEvents chunks) = numbered (Flow.nodesRun chunks) := by
  rw [stepsTold, stepEvents, List.filterMap_map, numbered, ← List.filterMap_eq_map]
  exact List.filterMap_congr fun _ _ => rfl

/-- Warnings tell no step. -/
theorem stepsTold_warnings (workflow : Workflow World) (messages : List String) :
    stepsTold (messages.map fun message =>
      workflow.runEvent .warning "graph_diagnostic" [("message", .text message)]) = [] := by
  rw [stepsTold, List.filterMap_map]
  exact List.filterMap_eq_nil_iff.mpr fun _ _ => rfl

/-- A run of a plan tells the nodes whose updates were put out, numbered from one. -/
theorem stepsTold_runPlan (workflow : Workflow World) (patience : Nat) (plan : Plan World)
    (events : List Event) (world : World) (initial : Flat)
    (encoded : plan.channels.encode workflow.sections.toValue = .ok initial) :
    stepsTold (workflow.runPlan patience plan events world).2.events =
      stepsTold events ++
        numbered (Flow.nodesRun (Flow.run plan patience initial world).2.chunks) := by
  have told : ∀ chunks more, stepsTold more = [] →
      stepsTold (events ++ workflow.stepEvents chunks ++ more) =
        stepsTold events ++ numbered (Flow.nodesRun chunks) := by
    intro chunks more silent
    rw [← workflow.stepsTold_stepEvents, stepsTold, List.filterMap_append, List.filterMap_append]
    exact (congrArg (_ ++ ·) silent).trans (List.append_nil _)
  rw [runPlan, encoded]
  dsimp only
  rcases Flow.run plan patience initial world with ⟨ending, flow⟩
  cases ending with
  | finished =>
    dsimp only [closeFlow]
    split
    · exact told flow.chunks _ rfl
    · split
      · exact told flow.chunks _ rfl
      · exact told flow.chunks _ rfl
  | unfinished =>
    have same := told flow.chunks [] rfl
    rwa [List.append_nil] at same
  | failed why =>
    have silent : stepsTold (workflow.flowFailure why).1 = [] := by
      cases why <;> rfl
    exact told flow.chunks _ silent

/-- What a run of a workflow's plan tells. A run that is not begun tells nothing: its input is
rejected, or the record cannot be spread over the channels. Another one is made of supersteps of
one action each. It tells those that are completed, numbered from one, and perhaps behind them
the one in which it stops before its end. -/
inductive TellsSteps (workflow : Workflow World) (plan : Plan World) (patience : Nat)
    (input : Value) (world : World) : Prop where
  | unbegun (why : Failure) (failed : (workflow.execute patience input world).1 = .failed why)
      (cause : workflow.accept .input input = .error why ∨
        ∃ data, workflow.accept .input input = .ok data ∧
          plan.channels.encode (workflow.withSection .input data).sections.toValue = .error why)
      (silent : stepsTold (workflow.execute patience input world).2.events = [])
  | begun (data : Value) (initial : Flat) (steps : Flow.Steps)
      (accepted : workflow.accept .input input = .ok data)
      (encoded : plan.channels.encode (workflow.withSection .input data).sections.toValue =
        .ok initial)
      (supersteps : Flow.bySupersteps plan patience initial world =
        some (steps, Flow.run plan patience initial world))
      (completed : ∀ name ∈ steps.completed, name ∈ plan.nodes)
      (stopped : ∀ name ∈ steps.stopped,
        name ∈ plan.nodes ∧ (Flow.run plan patience initial world).1 ≠ .finished ())
      (told : stepsTold (workflow.execute patience input world).2.events =
          numbered steps.completed ∨
        ∃ name ∈ steps.stopped, stepsTold (workflow.execute patience input world).2.events =
          numbered (steps.completed ++ [name]))

/-- A run of a workflow's plan tells its supersteps. -/
theorem tellsSteps (workflow : Workflow World) (plan : Plan World)
    (planned : workflow.plan = .ok plan) (patience : Nat) (input : Value) (world : World) :
    workflow.TellsSteps plan patience input world := by
  have made := Plan.madeFor_of_plan workflow plan planned
  have isNode : ∀ name, name ∈ Plan.actionNames workflow.procedures → name ∈ plan.nodes := by
    intro name member
    rwa [plan.mem_nodes_iff, made.procedures]
  cases accepted : workflow.accept .input input with
  | error why =>
    have rejected : workflow.execute patience input world =
        (.failed why, ⟨workflow, [], world⟩) := by
      rw [execute, planned]
      dsimp only
      rw [accepted]
    exact .unbegun why (by rw [rejected]) (.inl accepted) (by rw [rejected]; rfl)
  | ok data =>
    let entered := workflow.withSection .input data
    let warnings := plan.diagnostics.map fun message =>
      entered.runEvent .warning "graph_diagnostic" [("message", .text message)]
    have begun : workflow.execute patience input world =
        entered.runPlan patience plan warnings world := by
      rw [execute, planned]
      dsimp only
      rw [accepted]
    have warned : stepsTold warnings = [] := entered.stepsTold_warnings plan.diagnostics
    cases encoded : plan.channels.encode entered.sections.toValue with
    | error why =>
      have unspread : entered.runPlan patience plan warnings world =
          (.failed why, ⟨entered, warnings, world⟩) := by
        rw [runPlan, encoded]
      rw [unspread] at begun
      exact .unbegun why (by rw [begun]) (.inr ⟨data, accepted, encoded⟩) (by rw [begun, warned])
    | ok initial =>
      obtain ⟨steps, supersteps, tells⟩ := Flow.bySupersteps_eq_run made patience initial world
      have told := entered.stepsTold_runPlan patience plan warnings world initial encoded
      rw [← begun, warned, List.nil_append] at told
      refine .begun data initial steps accepted encoded supersteps
        (fun name member => isNode name (tells.completed name member))
        (fun name member => (tells.stopped name member).imp_left (isNode name)) ?_
      rw [told]
      rcases tells.told with all | ⟨name, member, more⟩
      · exact .inl (by rw [all, List.nil_append])
      · exact .inr ⟨name, member, by rw [more, List.nil_append]⟩

/-- The graph of a workflow's plan has its form, and every route in it settles on an action or the
end, fails, or goes on without a ceiling. Run by supersteps it has one action due until it ends,
and this is the run of the plan; and a run of the workflow tells the actions of its supersteps in
order. -/
theorem plan_by_supersteps (workflow : Workflow World) (plan : Plan World)
    (planned : workflow.plan = .ok plan) :
    plan.WellFormed workflow.procedures ∧
    (∀ source route, (source, route) ∈ plan.allRoutes →
      ∀ flat world, plan.Settles flat route world) ∧
    (∀ patience initial world, ∃ steps, Flow.bySupersteps plan patience initial world =
      some (steps, Flow.run plan patience initial world)) ∧
    ∀ patience input world, workflow.TellsSteps plan patience input world := by
  have made := Plan.madeFor_of_plan workflow plan planned
  refine ⟨made.wellFormed, fun source route isRoute flat world => made.settles isRoute flat world,
    fun patience initial world => ?_, workflow.tellsSteps plan planned⟩
  obtain ⟨steps, supersteps, -⟩ := Flow.bySupersteps_eq_run made patience initial world
  exact ⟨steps, supersteps⟩

/-- A workflow without declared fields whose first action leads to a check. -/
def checkedBehind (answer : Attempt Value) : Workflow Unit :=
  withList noFields none
    [.action "first" (fun _ record world => (.ok record, world)) (some "choice"),
      .check "choice" (fun _ _ world => (answer, world)),
      .action "second" (fun _ record world => (.ok record, world)) (some endName)]

/-- Where the check names the other action, both have a superstep, and both steps are told. -/
theorem plan_by_supersteps_choice :
    ∃ plan, (checkedBehind (.ok (.text "second"))).plan = .ok plan ∧
      plan.WellFormed (checkedBehind (.ok (.text "second"))).procedures ∧
      stepsTold ((checkedBehind (.ok (.text "second"))).execute 1 (.mapping []) ()).2.events =
        numbered ["first", "second"] := by
  obtain ⟨wellFormed, -, -, tells⟩ :=
    plan_by_supersteps (checkedBehind (.ok (.text "second"))) _ rfl
  refine ⟨_, rfl, wellFormed, ?_⟩
  cases tells 1 (.mapping []) () with
  | unbegun why failed => cases failed
  | begun data initial steps accepted encoded supersteps completed stopped told =>
    cases accepted
    cases encoded
    obtain ⟨rfl, -⟩ := Prod.mk.inj (Option.some.inj supersteps)
    rcases told with both | ⟨name, inNone, -⟩
    · exact both
    · cases inNone

/-- Every run tells just the actions of the supersteps that it has completed. -/
def TellsCompleted (workflow : Workflow World) : Prop :=
  ∀ (plan : Plan World) (patience : Nat) (input data : Value) (world : World) (initial : Flat)
    (steps : Flow.Steps), workflow.plan = .ok plan → workflow.accept .input input = .ok data →
    plan.channels.encode (workflow.withSection .input data).sections.toValue = .ok initial →
    Flow.bySupersteps plan patience initial world =
      some (steps, Flow.run plan patience initial world) →
      stepsTold (workflow.execute patience input world).2.events = numbered steps.completed

/-- Every route of the plan settles with enough patience. -/
def RoutesSettle (workflow : Workflow World) : Prop :=
  ∀ (plan : Plan World) (source : String) (route : Route World), workflow.plan = .ok plan →
    (source, route) ∈ plan.allRoutes → ∀ flat world, ∃ patience,
      (plan.resolve patience flat route world).1 ≠ .unfinished

/-- A workflow of a check that names itself. -/
def namingItself : Workflow Unit :=
  withList noFields none [.check "again" (fun _ _ world => (.ok (.text "again"), world))]

/-- Where the check behind an action fails, the action's superstep is not completed, and yet its
step is told; and without a ceiling a check that names itself is asked for ever. -/
theorem not_tellsCompleted_nor_routesSettle :
    ¬ (checkedBehind (.error (.refused (.stated "no")))).TellsCompleted ∧
      ¬ namingItself.RoutesSettle := by
  constructor
  · intro tells
    have silent := tells _ 1 (.mapping []) _ () _ ⟨[], some "first"⟩ rfl rfl rfl rfl
    have told := congrArg List.length silent
    revert told
    decide
  · intro settle
    obtain ⟨patience, settled⟩ := settle _ _ _ rfl List.mem_cons_self [] ()
    exact settled (congrArg Prod.fst (Plan.askChecks_of_self _ rfl "again" _ rfl
      (fun _ _ _ => rfl) (by decide) _ patience 0 ()))

end Workflow
end Stepwise
