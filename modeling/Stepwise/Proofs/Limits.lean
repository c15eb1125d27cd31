import Stepwise.Proofs.Ceiling
import Stepwise.Proofs.PlainFailures
import Stepwise.Proofs.Replacing

/-!
# The limits of both ways to run

A walk under a ceiling may make as many dispatches as it says. A run of the plan counts
nodes only, and checks by the resolution that they are asked in; but when as many nodes have
run as the ceiling says it fails, also if the last of them led to the end.

Both are compared where bodies say nothing but where to go on. Then both take the same
course, so a run of the plan has run the actions that the walk has dispatched. It reaches
its limit where a walk does not only if the walk makes as many dispatches as the ceiling
says and all of them are of actions.
-/

namespace Stepwise

variable {World : Type}

/-- A procedure that says nothing but where to go on: an action returns its record as it is,
and whether and what a check answers depends on nothing that it is given. A check does not
fail as the graph does when it reaches its own limit. -/
inductive Procedure.IsIdle : Procedure World → Prop where
  | action (name : String) (body : Body World) (next : Option String) (effect : World → World)
      (returns : ∀ models record world, body models record world = (.ok record, effect world)) :
      IsIdle (.action name body next)
  | check (name : String) (body : Body World) (answer : World → Attempt Value × World)
      (answers : ∀ models record world, body models record world = answer world)
      (unlimited : ∀ world, (answer world).1 ≠ .error .stepLimit) :
      IsIdle (.check name body)

/-- The names of the actions are those of the list's actions. -/
theorem Plan.mem_actionNames_iff (procedures : List (Procedure World)) (name : String) :
    name ∈ actionNames procedures ↔ ∃ body next, .action name body next ∈ procedures := by
  rw [actionNames, Procedure.names, List.mem_map]
  constructor
  · rintro ⟨procedure, member, rfl⟩
    obtain ⟨there, isAction⟩ := List.mem_filter.mp member
    cases procedure with
    | action name body next => exact ⟨body, next, there⟩
    | check => cases isAction
  · rintro ⟨body, next, there⟩
    exact ⟨_, List.mem_filter.mpr ⟨there, rfl⟩, rfl⟩

/-- In a list without repeated names no check has the name of an action. -/
theorem Plan.not_mem_actionNames (procedures : List (Procedure World))
    (distinct : (Procedure.names procedures).Nodup) (name : String) (body : Body World)
    (member : .check name body ∈ procedures) : name ∉ actionNames procedures := by
  rw [mem_actionNames_iff]
  rintro ⟨otherBody, next, there⟩
  cases List.inj_on_of_nodup_map distinct member there rfl

/-- The actions among the procedures that a walk has visited. -/
def Walk.actionsVisited (procedures : List (Procedure World)) (walk : Walk World) : List String :=
  walk.progress.visited.filter fun name => decide (name ∈ Plan.actionNames procedures)

namespace Workflow

/-- A walk under a ceiling with the ending that it comes to, which is not that of reaching
the ceiling. -/
structure StaysBelow (workflow : Workflow World) (limit left : Nat) (walk : Walk World)
    (ending : Ending Unit) (walked : Walk World) : Prop where
  onList : Walk.OnList workflow.procedures walk
  counted : walk.progress.iteration = walk.progress.visited.length
  within : walk.progress.iteration ≤ limit
  ran : Walk.run (workflow.itinerary.withCeiling (some limit)) left walk = (ending, walked)
  enough : limit ≤ walk.progress.iteration + left
  below : ∀ n, ending ≠ .failed (.iterationLimit n)

variable {workflow : Workflow World} {plan : Plan World} {limit most left checks : Nat}
  {walk walked : Walk World} {ending : Ending Unit}

/-- A walk that stays below a ceiling stands nowhere, or it dispatches a procedure and either
ends as the dispatch fails or stays below from there on. -/
theorem StaysBelow.cases (stays : workflow.StaysBelow limit left walk ending walked)
    (distinct : (Procedure.names workflow.procedures).Nodup) :
    (walk.progress.cursor = none ∧ ending = .finished () ∧ walked = walk) ∨
      ∃ rest position procedure failure moved, left = rest + 1 ∧
        walk.progress.cursor = some position ∧
        workflow.procedures[position]? = some procedure ∧ walk.progress.iteration < limit ∧
        walk.dispatch workflow.itinerary position procedure = (failure, moved) ∧
        (∀ why, failure = some why → ending = .failed why) ∧
        (failure = none → workflow.StaysBelow limit rest moved ending walked) := by
  have onList : Walk.OnList workflow.itinerary.procedures walk := stays.onList
  rcases onList.turn_cases with ⟨nowhere, isOver⟩ | ⟨position, procedure, next, bounded⟩
  · left
    have ended := stays.ran.symm.trans (Walk.run_of_over _ walk walk _ (isOver (some limit)) left)
    obtain ⟨rfl, rfl⟩ := Prod.mk.inj ended
    exact ⟨nowhere, rfl, rfl⟩
  · right
    have fewer : walk.progress.iteration < limit := by
      by_contra reached
      have cut := bounded limit
      rw [if_pos (Nat.not_lt.mp reached)] at cut
      have ended := stays.ran.symm.trans (Walk.run_of_over _ walk _ _ cut left)
      exact stays.below limit (Prod.mk.inj ended).1
    have next := bounded limit
    rw [if_neg (Nat.not_le.mpr fewer)] at next
    obtain ⟨stands, there⟩ := Walk.stands_of_turn _ walk position procedure next
    obtain ⟨rest, rfl⟩ : ∃ rest, left = rest + 1 := by
      have enough := stays.enough
      exact ⟨left - 1, by omega⟩
    have counted := Walk.iteration_dispatch workflow.itinerary walk position procedure
    obtain ⟨cursor, progress⟩ := Walk.progress_dispatch workflow.itinerary walk position procedure
    have kept := onList.dispatch distinct position procedure
    cases dispatched : walk.dispatch workflow.itinerary position procedure with
    | mk failure moved =>
      have bound : walk.dispatch (workflow.itinerary.withCeiling (some limit)) position procedure =
          (failure, moved) :=
        (Walk.dispatch_withCeiling _ _ walk position procedure).trans dispatched
      rw [dispatched] at counted kept progress
      dsimp only at counted kept progress
      refine ⟨rest, position, procedure, failure, moved, rfl, stands, there, fewer, dispatched,
        ?_, ?_⟩
      · rintro why rfl
        have ended := stays.ran.symm.trans
          (Walk.run_of_failed _ walk moved position procedure next why bound rest)
        exact (Prod.mk.inj ended).1
      · rintro rfl
        have enough := stays.enough
        refine ⟨kept, ?_, ?_, ?_, ?_, stays.below⟩
        · have more : (walk.progress.visited ++ [procedure.name]).length =
              walk.progress.visited.length + 1 := List.length_append
          rw [counted, progress, stays.counted]
          exact more.symm
        · omega
        · rw [← stays.ran]
          exact (Walk.run_of_moved _ walk moved position procedure next bound rest).symm
        · omega

/-- What is asked of a workflow and its plan for the plan to take the course of a walk. -/
structure Idles (workflow : Workflow World) (plan : Plan World) (limit most : Nat) : Prop where
  made : plan.MadeFor workflow
  filled : ∀ procedure ∈ workflow.procedures, procedure.name ≠ ""
  idle : ∀ procedure ∈ workflow.procedures, procedure.IsIdle
  ceiling : workflow.options.ceiling = some most
  bounded : limit ≤ most

/-- How a resolution ends beside a walk that stays below a ceiling: it fails for no limit, or
it leads where the walk stands when it has dispatched the same checks. -/
inductive Resolves (workflow : Workflow World) (limit left : Nat) (walk : Walk World)
    (ending : Ending Unit) (walked : Walk World) : Ending Stop × World → Prop where
  | failed (why : Failure) (next : World) (plain : why.isLimit = false) :
      Resolves workflow limit left walk ending walked (.failed why, next)
  | arrived (stop : Stop) (rest : Nat) (moved : Walk World)
      (stays : workflow.StaysBelow limit rest moved ending walked)
      (leads : Plan.routeAt workflow.procedures moved.progress.cursor = .straight stop)
      (actions : moved.actionsVisited workflow.procedures =
        walk.actionsVisited workflow.procedures) :
      Resolves workflow limit left walk ending walked (.finished stop, moved.world)

/-- What a walk that stays below a ceiling fails with, and is not the graph's own limit,
tells of no limit. -/
theorem StaysBelow.isLimit_eq_false (stays : workflow.StaysBelow limit left walk ending walked)
    (why : Failure) (ended : ending = .failed why) (other : why ≠ .stepLimit) :
    why.isLimit = false := by
  cases why with
  | iterationLimit n => exact absurd ended (stays.below n)
  | stepLimit => exact absurd rfl other
  | _ => rfl

/-- Where no action is visited in between, a resolution ends as it does from later on. -/
theorem Resolves.behind {rest : Nat} {moved : Walk World} {outcome : Ending Stop × World}
    (resolves : workflow.Resolves limit rest moved ending walked outcome)
    (actions : moved.actionsVisited workflow.procedures =
      walk.actionsVisited workflow.procedures) :
    workflow.Resolves limit left walk ending walked outcome := by
  cases resolves with
  | failed why next plain => exact .failed why next plain
  | arrived stop last final stays leads visited =>
    exact .arrived stop last final stays leads (visited.trans actions)

/-- A check is no action that was visited. -/
theorem actionsVisited_check (procedures : List (Procedure World))
    (distinct : (Procedure.names procedures).Nodup) (name : String) (body : Body World)
    (member : .check name body ∈ procedures) (walk moved : Walk World)
    (visited : moved.progress.visited = walk.progress.visited ++ [name]) :
    moved.actionsVisited procedures = walk.actionsVisited procedures := by
  have noAction := Plan.not_mem_actionNames procedures distinct name body member
  rw [Walk.actionsVisited, visited, List.filter_append]
  simp [noAction, Walk.actionsVisited]

/-- An action is visited behind those before. -/
theorem actionsVisited_action (procedures : List (Procedure World)) (name : String)
    (body : Body World) (next : Option String) (member : .action name body next ∈ procedures)
    (walk moved : Walk World)
    (visited : moved.progress.visited = walk.progress.visited ++ [name]) :
    moved.actionsVisited procedures = walk.actionsVisited procedures ++ [name] := by
  have isAction := (Plan.mem_actionNames_iff procedures name).mpr ⟨body, next, member⟩
  rw [Walk.actionsVisited, visited, List.filter_append]
  simp [isAction, Walk.actionsVisited]

/-- A walk that stays below a ceiling and stands somewhere may still dispatch. -/
theorem StaysBelow.iteration_lt (stays : workflow.StaysBelow limit left walk ending walked)
    (distinct : (Procedure.names workflow.procedures).Nodup) (position : Nat)
    (stands : walk.progress.cursor = some position) : walk.progress.iteration < limit := by
  rcases stays.cases distinct with ⟨nowhere, -⟩ | ⟨_, _, _, _, _, -, -, -, fewer, -⟩
  · rw [stands] at nowhere
    cases nowhere
  · exact fewer

/-- What a check answers beside a walk that dispatches it and stays below a ceiling: it fails
for no limit, or the walk has gone where the answer points, or it points nowhere. -/
inductive Asked (workflow : Workflow World) (limit : Nat) (walk : Walk World)
    (ending : Ending Unit) (walked : Walk World) : Attempt Value × World → Prop where
  | failed (why : Failure) (after : World) (plain : why.isLimit = false) :
      Asked workflow limit walk ending walked (.error why, after)
  | ended (answer : Value) (rest : Nat) (moved : Walk World)
      (stays : workflow.StaysBelow limit rest moved ending walked)
      (ends : endsRun answer = true) (nowhere : moved.progress.cursor = none)
      (actions : moved.actionsVisited workflow.procedures =
        walk.actionsVisited workflow.procedures) :
      Asked workflow limit walk ending walked (.ok answer, moved.world)
  | led (answer : Value) (key : Key) (rest : Nat) (moved : Walk World)
      (stays : workflow.StaysBelow limit rest moved ending walked)
      (counted : moved.progress.iteration = walk.progress.iteration + 1)
      (noEnd : endsRun answer = false) (isKey : answer.key? = some key)
      (cursor : moved.progress.cursor =
        key.text?.bind fun text => Entries.get? text (Procedure.index workflow.procedures))
      (actions : moved.actionsVisited workflow.procedures =
        walk.actionsVisited workflow.procedures) :
      Asked workflow limit walk ending walked (.ok answer, moved.world)
  | lost (answer : Value) (after : World) (noEnd : endsRun answer = false)
      (noKey : answer.key? = none) : Asked workflow limit walk ending walked (.ok answer, after)

/-- An idle check answers whatever it is given as it does when the walk dispatches it. -/
theorem Idles.asked (idles : workflow.Idles plan limit most)
    (stays : workflow.StaysBelow limit left walk ending walked) (position : Nat)
    (stands : walk.progress.cursor = some position) (name : String) (body : Body World)
    (there : workflow.procedures[position]? = some (.check name body)) (models : Models)
    (values : Value) :
    workflow.Asked limit walk ending walked (body models values walk.world) := by
  have distinct := Procedure.nodup_names_of_validate _ idles.made.accepted
  rcases stays.cases distinct with
    ⟨nowhere, -⟩ | ⟨rest, here, _, failure, moved, rfl, standsHere, thereHere, -, dispatched,
      fails, goesOn⟩
  · rw [stands] at nowhere
    cases nowhere
  obtain rfl := Option.some.inj (stands.symm.trans standsHere)
  obtain rfl := Option.some.inj (there.symm.trans thereHere)
  have member := List.mem_of_getElem? there
  cases idles.idle _ member with
  | check _ _ answer answers unlimited =>
    have walkAnswers := answers workflow.models walk.sections.toValue walk.world
    have noLimit := unlimited walk.world
    rw [answers]
    cases answered : answer walk.world with
    | mk attempt after =>
      rw [answered] at walkAnswers noLimit
      cases attempt with
      | error why =>
        obtain ⟨stopped, raised⟩ := Walk.dispatch_raised workflow.itinerary walk position
          (.check name body) why after walkAnswers
        rw [dispatched] at raised
        have ended := fails why (Prod.mk.inj raised).1
        have other : why ≠ .stepLimit := fun same => noLimit (by rw [same])
        exact .failed why after (stays.isLimit_eq_false why ended other)
      | ok answer =>
        have actions := actionsVisited_check _ distinct name body member walk
        obtain ⟨events, ⟨ends, whole⟩ | ⟨noEnd, key, isKey, whole⟩ |
            ⟨noEnd, noKey, stopped, whole⟩⟩ :=
          Walk.dispatch_answered workflow.itinerary walk position name body answer after
            walkAnswers
        · obtain ⟨rfl, rfl⟩ := Prod.mk.inj (dispatched.symm.trans whole)
          exact .ended answer rest _ (goesOn rfl) ends rfl (actions _ rfl)
        · obtain ⟨rfl, rfl⟩ := Prod.mk.inj (dispatched.symm.trans whole)
          refine .led answer key rest _ (goesOn rfl) rfl noEnd isKey ?_ (actions _ rfl)
          rw [← stays.onList.indexed]
        · exact .lost answer after noEnd noKey

/-- The checks that a walk dispatches one after the other are asked in one resolution.

Proof: by induction on the checks that may still be followed. The walk counts each of them
and stays below its ceiling, so there are fewer of them than the plan may ask. -/
theorem Idles.askChecks (idles : workflow.Idles plan limit most) (values : Value)
    (stays : workflow.StaysBelow limit left walk ending walked) (position : Nat)
    (stands : walk.progress.cursor = some position) (name : String) (body : Body World)
    (there : workflow.procedures[position]? = some (.check name body)) (more asked : Nat)
    (few : asked ≤ walk.progress.iteration) (enough : most ≤ asked + more) :
    workflow.Resolves limit left walk ending walked
      (plan.askChecks values more asked body walk.world) := by
  have distinct := Procedure.nodup_names_of_validate _ idles.made.accepted
  induction more generalizing left walk position name body asked with
  | zero =>
    have fewer := stays.iteration_lt distinct position stands
    have bounded := idles.bounded
    omega
  | succ more ih =>
    have fewer := stays.iteration_lt distinct position stands
    have bounded := idles.bounded
    have noCeiling : (plan.ceiling.filter fun ceiling => ceiling ≤ asked) = none := by
      have below : asked < most := by omega
      rw [idles.made.ceiling, idles.ceiling]
      exact Option.filter_some_neg (by simpa using below)
    have answers := idles.asked stays position stands name body there plan.models values
    rw [Plan.askChecks, noCeiling]
    dsimp only
    generalize body plan.models values walk.world = outcome at answers
    cases answers with
    | failed why after plain => exact .failed why after plain
    | ended answer rest moved onward ends nowhere actions =>
      dsimp only
      rw [if_pos ends]
      refine .arrived .finish rest moved onward ?_ actions
      rw [Plan.routeAt, nowhere, Option.bind_none]
    | led answer key rest moved onward counted noEnd isKey cursor actions =>
      dsimp only
      rw [if_neg (by rw [noEnd]; decide), isKey]
      dsimp only
      rw [idles.made.find?_of_key, ← cursor]
      cases reached : moved.progress.cursor.bind fun position =>
          workflow.procedures[position]? with
      | none =>
        refine .arrived .finish rest moved onward ?_ actions
        rw [Plan.routeAt, reached]
      | some procedure =>
        cases procedure with
        | action nextName nextBody afterwards =>
          refine .arrived (.node nextName) rest moved onward ?_ actions
          rw [Plan.routeAt, reached]
        | check nextName nextBody =>
          obtain ⟨nextPosition, standsNext, thereNext⟩ := Option.bind_eq_some_iff.mp reached
          have asks := ih onward nextPosition standsNext nextName nextBody thereNext
            (asked + 1) (by omega) (by omega)
          exact asks.behind actions
    | lost answer after noEnd noKey =>
      dsimp only
      rw [if_neg (by rw [noEnd]; decide), noKey]
      exact .failed .wrongKind after rfl

/-- The route out of where a walk stands is resolved to where it stands when no check is
next. -/
theorem Idles.resolve (idles : workflow.Idles plan limit most)
    (stays : workflow.StaysBelow limit left walk ending walked) (enough : most ≤ checks)
    (flat : Flat) : workflow.Resolves limit left walk ending walked (plan.resolve checks flat
      (Plan.routeAt workflow.procedures walk.progress.cursor) walk.world) := by
  cases route : Plan.routeAt workflow.procedures walk.progress.cursor with
  | straight target => exact .arrived target left walk stays route rfl
  | branch name body =>
    obtain ⟨position, stands, there⟩ := Plan.exists_of_routeAt_branch _ _ name body route
    rw [Plan.resolve]
    cases decoded : plan.channels.decode flat with
    | error why =>
      exact .failed why walk.world (plan.channels.failsPlainly_decode flat why decoded)
    | ok nested =>
      exact idles.askChecks nested.toValue stays position stands name body there checks 0
        (Nat.zero_le _) (by omega)

/-- How the run of a node ends beside a walk that dispatches its action: it fails for no
limit, or it leads where the walk stands when it has dispatched the checks behind it. -/
inductive RunsNode (workflow : Workflow World) (limit : Nat) (walk : Walk World)
    (ending : Ending Unit) (walked : Walk World) (name : String) :
    Ending Stop × Flow World → Prop where
  | failed (why : Failure) (next : Flow World) (plain : why.isLimit = false) :
      RunsNode workflow limit walk ending walked name (.failed why, next)
  | arrived (stop : Stop) (rest : Nat) (moved : Walk World) (next : Flow World)
      (stays : workflow.StaysBelow limit rest moved ending walked)
      (leads : Plan.routeAt workflow.procedures moved.progress.cursor = .straight stop)
      (actions : moved.actionsVisited workflow.procedures =
        walk.actionsVisited workflow.procedures ++ [name])
      (worlds : next.world = moved.world) :
      RunsNode workflow limit walk ending walked name (.finished stop, next)

/-- What a node's updates are made of fails for no limit, and otherwise the body leaves the
world as it does in a walk. -/
theorem nodeUpdates_idle (plan : Plan World) (body : Body World) (effect : World → World)
    (returns : ∀ models record world, body models record world = (.ok record, effect world))
    (times : Nat) (flat : Flat) (world : World) :
    (∃ why next, Flow.nodeUpdates plan body times flat world = (.error why, next) ∧
      why.isLimit = false) ∨
    ∃ updates, Flow.nodeUpdates plan body times flat world = (.ok updates, effect world) := by
  rw [Flow.nodeUpdates]
  cases decoded : plan.channels.decodeAfter times flat with
  | error why =>
    exact .inl ⟨why, world, rfl, plan.channels.failsPlainly_decodeAfter times flat why decoded⟩
  | ok nested =>
    dsimp only
    rw [returns]
    dsimp only
    cases encoded : plan.channels.encode nested.toValue with
    | error why =>
      exact .inl ⟨why, effect world, rfl,
        plan.channels.failsPlainly_encode nested.toValue why encoded⟩
    | ok target => exact .inr ⟨_, rfl⟩

/-- Where a walk dispatches an action, a plan runs its node and resolves the route out of
it. -/
theorem Idles.runNode (idles : workflow.Idles plan limit most)
    (stays : workflow.StaysBelow limit left walk ending walked) (enough : most ≤ checks)
    (name : String)
    (leads : Plan.routeAt workflow.procedures walk.progress.cursor = .straight (.node name))
    (flow : Flow World) (worlds : flow.world = walk.world) :
    workflow.RunsNode limit walk ending walked name (Flow.runNode plan checks name flow) := by
  have distinct := Procedure.nodup_names_of_validate _ idles.made.accepted
  obtain ⟨position, body, next, stands, there⟩ := Plan.exists_of_routeAt_node _ _ name leads
  have member := List.mem_of_getElem? there
  have node : Procedure.find? plan.procedures name = some (.action name body next) := by
    rw [idles.made.procedures]
    exact Procedure.find?_of_mem _ distinct (.action name body next) member
  have route := idles.made.routeOf_eq_routeAt idles.filled position name body next there
  rcases stays.cases distinct with
    ⟨nowhere, -⟩ | ⟨rest, here, _, failure, moved, rfl, standsHere, thereHere, fewer,
      dispatched, fails, goesOn⟩
  · rw [stands] at nowhere
    cases nowhere
  obtain rfl := Option.some.inj (stands.symm.trans standsHere)
  obtain rfl := Option.some.inj (there.symm.trans thereHere)
  have idle := idles.idle _ member
  cases idle with
  | action _ _ _ effect returns =>
    obtain ⟨events, action⟩ := Walk.dispatch_action workflow.itinerary walk stays.onList.indexed
      position name body next walk.sections.toValue (effect walk.world)
      (returns workflow.models walk.sections.toValue walk.world) _ _
      (walk.sections.child_toValue .input) (walk.sections.child_toValue .output)
    obtain ⟨rfl, arrived⟩ := Prod.mk.inj (dispatched.symm.trans action)
    have onward := goesOn rfl
    have actions := actionsVisited_action workflow.procedures name body next member walk moved
      (by rw [arrived]; rfl)
    have cursor : moved.progress.cursor =
        Plan.cursorBehind workflow.procedures position (Successor.ofNext next) := by
      rw [arrived]
      rfl
    have world : effect flow.world = moved.world := by rw [arrived, worlds]
    rw [Flow.runNode, node]
    dsimp only
    rcases nodeUpdates_idle plan body effect returns (Flow.readsBehind plan flow.chunks) flow.flat
        flow.world with
      ⟨why, next, failed, plain⟩ | ⟨updates, updated⟩
    · rw [failed]
      exact .failed why _ plain
    · rw [updated]
      dsimp only
      cases written : plan.channels.writeAll flow.flat updates with
      | error why =>
        exact .failed why _ (plan.channels.failsPlainly_writeAll flow.flat updates why written)
      | ok flat =>
        have resolves := idles.resolve onward enough flat
        dsimp only [Flow.emit]
        rw [route, ← cursor, world]
        generalize plan.resolve checks flat
          (Plan.routeAt workflow.procedures moved.progress.cursor) moved.world = outcome at resolves
        cases resolves with
        | failed why next plain => exact .failed why _ plain
        | arrived stop last final staysLast leadsLast visited =>
          exact .arrived stop last final _ staysLast leadsLast (visited.trans actions) rfl

/-- How a run of the plan ends beside a walk that stays below a ceiling: it fails for no
limit; or it comes to the end, and the walk has visited fewer actions than the plan's ceiling
says; or it reaches its limit, and the walk has visited as many. -/
inductive Ends (workflow : Workflow World) (most : Nat) (walked : Walk World) :
    Ending Unit × Flow World → Prop where
  | failed (why : Failure) (final : Flow World) (plain : why.isLimit = false) :
      Ends workflow most walked (.failed why, final)
  | finished (final : Flow World)
      (few : (walked.actionsVisited workflow.procedures).length < most) :
      Ends workflow most walked (.finished (), final)
  | limited (final : Flow World)
      (many : most ≤ (walked.actionsVisited workflow.procedures).length) :
      Ends workflow most walked (.failed .stepLimit, final)

/-- A walk that stays below a ceiling has visited no more actions than it may dispatch. -/
theorem StaysBelow.length_actionsVisited_le
    (stays : workflow.StaysBelow limit left walk ending walked) :
    (walk.actionsVisited workflow.procedures).length ≤ walk.progress.iteration := by
  rw [stays.counted]
  exact List.length_filter_le _ _

/-- A walk that stands where a run of the plan ends is over. -/
theorem StaysBelow.walked_of_finish (stays : workflow.StaysBelow limit left walk ending walked)
    (distinct : (Procedure.names workflow.procedures).Nodup)
    (leads : Plan.routeAt workflow.procedures walk.progress.cursor = .straight .finish) :
    walked = walk := by
  rcases stays.cases distinct with
    ⟨-, -, same⟩ | ⟨_, position, procedure, _, _, -, stands, there, -⟩
  · exact same
  · rw [Plan.routeAt, stands, Option.bind_some, there] at leads
    cases procedure <;> cases leads

/-- A run of nodes takes the course of a walk that stays below a ceiling.

Proof: by induction on the nodes that may be run. When none is left as many have run as the
plan's ceiling says; the walk has then dispatched as many actions, which is all that it may
dispatch, so it is over. -/
theorem Idles.runFrom (idles : workflow.Idles plan limit most)
    (stays : workflow.StaysBelow limit left walk ending walked) (enough : most ≤ checks)
    (remaining : Nat) (positive : 0 < remaining) (stop : Stop)
    (leads : Plan.routeAt workflow.procedures walk.progress.cursor = .straight stop)
    (flow : Flow World) (worlds : flow.world = walk.world)
    (nodes : (walk.actionsVisited workflow.procedures).length + remaining = most) :
    workflow.Ends most walked (Flow.runFrom plan checks remaining stop flow) := by
  have distinct := Procedure.nodup_names_of_validate _ idles.made.accepted
  induction remaining generalizing left walk stop flow with
  | zero => cases positive
  | succ remaining ih =>
    cases stop with
    | finish =>
      obtain rfl := stays.walked_of_finish distinct leads
      exact .finished flow (by omega)
    | node name =>
      have runs := idles.runNode stays enough name leads flow worlds
      rw [Flow.runFrom]
      generalize Flow.runNode plan checks name flow = outcome at runs
      cases runs with
      | failed why next plain => exact .failed why next plain
      | arrived next rest moved after staysNext leadsNext actions movedWorlds =>
        have more : (moved.actionsVisited workflow.procedures).length =
            (walk.actionsVisited workflow.procedures).length + 1 := by
          rw [actions, List.length_append, List.length_singleton]
        dsimp only
        by_cases last : remaining = 0
        · rw [if_pos last]
          have within := staysNext.within
          have visited := staysNext.length_actionsVisited_le
          have bounded := idles.bounded
          rcases staysNext.cases distinct with
            ⟨-, -, rfl⟩ | ⟨_, _, _, _, _, -, -, -, fewer, -⟩
          · exact .limited after (by omega)
          · omega
        · rw [if_neg last]
          exact ih staysNext (Nat.pos_of_ne_zero last) next leadsNext after movedWorlds (by omega)

/-- A run of the plan from its start takes the course of a walk that stays below a
ceiling. -/
theorem Idles.run (idles : workflow.Idles plan limit most) (positive : 0 < most)
    (enough : most ≤ checks) (data : Value) (world : World)
    (stays : workflow.StaysBelow limit left (workflow.walkStart data world) ending walked)
    (initial : Flat) :
    workflow.Ends most walked (Flow.run plan checks initial world) := by
  rw [Flow.run]
  cases written : plan.channels.writeAll [] initial with
  | error why =>
    exact .failed why _ (plan.channels.failsPlainly_writeAll [] initial why written)
  | ok flat =>
    have resolves := idles.resolve stays enough flat
    have start : plan.start = Plan.routeAt workflow.procedures
        (workflow.walkStart data world).progress.cursor :=
      idles.made.start_eq_routeAt idles.filled
    have fresh : (workflow.walkStart data world).world = world := rfl
    dsimp only
    rw [start]
    rw [fresh] at resolves
    generalize plan.resolve checks flat (Plan.routeAt workflow.procedures
      (workflow.walkStart data world).progress.cursor) world = outcome at resolves
    cases resolves with
    | failed why next plain => exact .failed why _ plain
    | arrived stop rest moved staysNext leads actions =>
      have none : (moved.actionsVisited workflow.procedures).length = 0 := by
        rw [actions]
        rfl
      rw [idles.made.ceiling, idles.ceiling]
      exact idles.runFrom staysNext enough most positive stop leads _ rfl (by omega)

/-- A walk that makes exactly so many dispatches, all of them of actions. -/
def FillsWithActions (workflow : Workflow World) (calls : List Call) (most : Nat) : Prop :=
  calls.length = most ∧ ∀ call ∈ calls, call.name ∈ Plan.actionNames workflow.procedures

/-- The actions that a walk has visited are as many as its dispatches exactly if it has
dispatched nothing else. -/
theorem fillsWithActions_iff (workflow : Workflow World) (walked : Walk World)
    (calls : List Call) (most : Nat) (called : calls.map Call.name = walked.progress.visited)
    (fewer : walked.progress.visited.length ≤ most) :
    workflow.FillsWithActions calls most ↔
      most ≤ (walked.actionsVisited workflow.procedures).length := by
  have length : calls.length = walked.progress.visited.length := by
    rw [← called, List.length_map]
  have within : (walked.actionsVisited workflow.procedures).length ≤
      walked.progress.visited.length := List.length_filter_le _ _
  rw [FillsWithActions, length]
  constructor
  · rintro ⟨full, each⟩
    have all : walked.actionsVisited workflow.procedures = walked.progress.visited := by
      rw [Walk.actionsVisited, List.filter_eq_self, ← called]
      intro name member
      obtain ⟨call, called, rfl⟩ := List.mem_map.mp member
      exact decide_eq_true (each call called)
    rw [all, full]
  · intro many
    have full : walked.progress.visited.length = most := by omega
    refine ⟨full, fun call member => ?_⟩
    have whole : walked.progress.visited.length ≤
        (walked.actionsVisited workflow.procedures).length := by omega
    have all : walked.actionsVisited workflow.procedures = walked.progress.visited :=
      List.filter_sublist.eq_of_length_le whole
    have visited : call.name ∈ walked.actionsVisited workflow.procedures := by
      rw [all, ← called]
      exact List.mem_map_of_mem member
    exact of_decide_eq_true (List.mem_filter.mp visited).2

/-- How a run of the plan ends for its caller, when the walk beside it has visited so many
actions: it fails for no limit, it has a result, or it reports that the ceiling was
reached. -/
inductive Reports (most actions : Nat) : Ending Value → Prop where
  | failed (why : Failure) (plain : why.isLimit = false) : Reports most actions (.failed why)
  | finished (result : Value) (few : actions < most) : Reports most actions (.finished result)
  | limited (many : most ≤ actions) : Reports most actions (.failed (.iterationLimit most))

/-- A run of the plan reports reaching the graph's limit as reaching the ceiling, and every
other failure as it is. -/
theorem Idles.runPlan (idles : workflow.Idles plan limit most) (positive : 0 < most)
    (enough : most ≤ checks) (data : Value) (world : World)
    (stays : workflow.StaysBelow limit left (workflow.walkStart data world) ending walked)
    (events : List Event) :
    Reports most (walked.actionsVisited workflow.procedures).length
      ((workflow.withSection .input data).runPlan checks plan events world).1 := by
  rw [Workflow.runPlan]
  cases encoded : plan.channels.encode (workflow.withSection .input data).sections.toValue with
  | error why => exact .failed why (plan.channels.failsPlainly_encode _ why encoded)
  | ok initial =>
    have ends := idles.run positive enough data world stays initial
    dsimp only
    generalize Flow.run plan checks initial world = outcome at ends
    cases ends with
    | failed why final plain =>
      dsimp only
      cases why with
      | stepLimit => cases plain
      | _ => exact .failed _ plain
    | finished final few =>
      dsimp only
      rw [closeFlow]
      dsimp only
      cases decoded : plan.channels.decodeAfter (Flow.readsBehind plan final.chunks)
          ((Flow.lastValues? final.chunks).getD initial) with
      | error why => exact .failed why (plan.channels.failsPlainly_decodeAfter _ _ why decoded)
      | ok nested =>
        dsimp only
        split
        · next why refused => exact .failed why (failsPlainly_accept _ .output _ why refused)
        · next result _ => exact .finished result few
    | limited final many =>
      dsimp only
      have reported : (workflow.withSection .input data).options.ceiling = some most :=
        idles.ceiling
      rw [flowFailure, reported]
      exact .limited many

/-- A walk that does not reach a ceiling stays below it from its start, and has visited as
many procedures as it made calls. -/
theorem Accepts.staysBelow {input data : Value} (accepts : workflow.Accepts input data)
    (patience : Nat) (patient : limit ≤ patience) (world : World)
    (below : ∀ n, ((workflow.withCeiling (some limit)).walk patience input world).1 ≠
      .failed (.iterationLimit n)) :
    ∃ ending walked,
      workflow.StaysBelow limit patience (workflow.walkStart data world) ending walked ∧
      ((workflow.withCeiling (some limit)).walkCalls patience input world).map Call.name =
        walked.progress.visited ∧ walked.progress.visited.length ≤ limit := by
  have bounded := accepts.withCeiling (some limit)
  have walks := bounded.walk_eq patience world
  have names := bounded.names_walkCalls patience world
  have counted := ((workflow.withCeiling (some limit)).accounts_run data patience world).counted
  have distinct := Procedure.nodup_names_of_validate _ accepts.listed
  have onList : Walk.OnList workflow.itinerary.procedures (workflow.walkStart data world) :=
    Walk.onList_start _ _ _
  obtain ⟨more, rfl⟩ : ∃ more, patience = limit + more := ⟨patience - limit, by omega⟩
  have sameStart : (workflow.withCeiling (some limit)).walkStart data world =
      workflow.walkStart data world := rfl
  have sameItinerary : (workflow.withCeiling (some limit)).itinerary =
      workflow.itinerary.withCeiling (some limit) := rfl
  rw [sameStart, sameItinerary] at walks names counted
  rcases onList.run_cases distinct limit more limit (Nat.zero_add limit).symm with
    ⟨ending, walked, -, within, -, ran⟩ | ⟨walked, -, -, -, cut⟩
  · rw [ran] at walks names counted
    refine ⟨ending, walked, ⟨onList, rfl, Nat.zero_le _, ran, ?_, ?_⟩, names, ?_⟩
    · exact Nat.le_add_left_of_le (Nat.le_add_right limit more)
    · rintro n rfl
      exact below n (by rw [walks]; rfl)
    · exact counted ▸ within
  · rw [cut] at walks
    exact absurd (by rw [walks]; rfl) (below limit)

/-- Where bodies say nothing but where to go on, and a walk does not reach a ceiling, a run
of the plan under the same or a wider one reaches its limit only if the walk makes exactly
as many dispatches as that says, all of them of actions. It never has a result then,
whether or not the last action led to the end. Under a wider ceiling than that of the walk
this cannot be. -/
theorem execute_by_limit (workflow : Workflow World) (plan : Plan World)
    (planned : workflow.plan = .ok plan)
    (filled : ∀ procedure ∈ workflow.procedures, procedure.name ≠ "")
    (idle : ∀ procedure ∈ workflow.procedures, procedure.IsIdle) (limit most : Nat)
    (positive : 0 < limit) (bounded : limit ≤ most) (ceiling : workflow.options.ceiling = some most)
    (patience checks : Nat) (patient : limit ≤ patience) (enough : most ≤ checks)
    (input : Value) (world : World)
    (below : ∀ n, ((workflow.withCeiling (some limit)).walk patience input world).1 ≠
      .failed (.iterationLimit n)) :
    ((∃ n, (workflow.execute checks input world).1 = .failed (.iterationLimit n)) →
      workflow.FillsWithActions
        ((workflow.withCeiling (some limit)).walkCalls patience input world) most) ∧
    (workflow.FillsWithActions
        ((workflow.withCeiling (some limit)).walkCalls patience input world) most →
      ∃ why, (workflow.execute checks input world).1 = .failed why ∧
        (why = .iterationLimit most ∨ why.isLimit = false)) ∧
    ((workflow.withCeiling (some limit)).walkCalls patience input world).length ≤ limit := by
  have made := Plan.madeFor_of_plan workflow plan planned
  have idles : workflow.Idles plan limit most := ⟨made, filled, idle, ceiling, bounded⟩
  rcases workflow.accepts_or_rejects input with ⟨data, accepts⟩ | ⟨why, rejects⟩
  · obtain ⟨ending, walked, stays, names, within⟩ :=
      accepts.staysBelow patience patient world below
    have fills := workflow.fillsWithActions_iff walked _ most names (within.trans bounded)
    obtain ⟨warnings, run⟩ :=
      workflow.execute_eq_runPlan plan planned input data accepts.accepted checks world
    have reports := idles.runPlan (Nat.lt_of_lt_of_le positive bounded) enough data world stays
      warnings
    have calls := congrArg List.length names
    rw [List.length_map] at calls
    rw [run, fills]
    generalize ((workflow.withSection .input data).runPlan checks plan warnings world).1 = ending
      at reports
    refine ⟨?_, ?_, calls.trans_le within⟩
    · rintro ⟨n, rfl⟩
      cases reports with
      | failed _ plain => cases plain
      | limited many => exact many
    · intro many
      cases reports with
      | failed why plain => exact ⟨why, rfl, .inr plain⟩
      | finished result few => omega
      | limited => exact ⟨_, rfl, .inl rfl⟩
  · have silent := (rejects.withCeiling (some limit)).walkCalls_eq patience world
    cases rejects with
    | list unlisted =>
      rw [made.accepted] at unlisted
      cases unlisted
    | input _ unaccepted =>
      have failed : (workflow.execute checks input world).1 = .failed why := by
        rw [execute, planned]
        dsimp only
        rw [unaccepted]
      have plain := workflow.failsPlainly_accept .input input why unaccepted
      rw [failed, silent]
      refine ⟨?_, ?_, Nat.zero_le _⟩
      · rintro ⟨n, same⟩
        cases same
        cases plain
      · rintro ⟨none, -⟩
        have noCall : 0 = most := none
        omega

/-- A workflow of one action that hands on a list in the output, under a ceiling. -/
def handingOnUnder (ceiling : Nat) : Workflow Unit :=
  ((handingOn "first" [] ["items"]).withCeiling (some ceiling)).withSection .output
    (.mapping [(.text "items", .list [.int 1])])

/-- A workflow that hands on says nothing but where to go on. -/
theorem isIdle_handingOnUnder (ceiling : Nat) :
    ∀ procedure ∈ (handingOnUnder ceiling).procedures,
      procedure.name ≠ "" ∧ procedure.IsIdle := by
  intro procedure member
  obtain rfl := List.mem_singleton.mp member
  exact ⟨by decide, .action "first" _ none id fun _ _ _ => rfl⟩

/-- A workflow that starts with a check and goes on to an action, under a ceiling of two. -/
def checkedUnderTwo : Workflow Unit :=
  withList noFields (some 2)
    [.check "gate" (fun _ _ world => (.ok (.text "work"), world)),
      .action "work" (fun _ record world => (.ok record, world)) (some endName)]

/-- Its check and its action say nothing but where to go on. -/
theorem isIdle_checkedUnderTwo :
    ∀ procedure ∈ checkedUnderTwo.procedures, procedure.name ≠ "" ∧ procedure.IsIdle := by
  intro procedure member
  simp only [checkedUnderTwo, procedures_withList, List.mem_cons, List.not_mem_nil, or_false]
    at member
  rcases member with rfl | rfl
  · exact ⟨by decide, .check "gate" _ (fun world => (.ok (.text "work"), world))
      (fun _ _ _ => rfl) (by simp)⟩
  · exact ⟨by decide, .action "work" _ _ id fun _ _ _ => rfl⟩

/-- Under a ceiling of one, a run of the plan of one action never has a result, and under a
ceiling of two it does not reach its limit. Neither does the run behind a check, though the walk
makes two dispatches. -/
theorem execute_by_limit_handing_on :
    (∃ why, ((handingOnUnder 1).execute 1 (.mapping []) ()).1 = .failed why ∧
      (why = .iterationLimit 1 ∨ why.isLimit = false)) ∧
    (∀ n, ((handingOnUnder 2).execute 2 (.mapping []) ()).1 ≠ .failed (.iterationLimit n)) ∧
    (checkedUnderTwo.walkCalls 2 (.mapping []) ()).map Call.name = ["gate", "work"] ∧
    ∀ n, (checkedUnderTwo.execute 2 (.mapping []) ()).1 ≠ .failed (.iterationLimit n) := by
  have walked : ∀ most, (((handingOnUnder most).withCeiling (some 1)).walk 1 (.mapping []) ()).1 =
      .finished (.mapping [(.text "items", .list [.int 1])]) := fun _ => rfl
  have below : ∀ most n,
      (((handingOnUnder most).withCeiling (some 1)).walk 1 (.mapping []) ()).1 ≠
        .failed (.iterationLimit n) := by
    intro most n
    rw [walked]
    simp
  have fills : (handingOnUnder 1).FillsWithActions
      (((handingOnUnder 1).withCeiling (some 1)).walkCalls 1 (.mapping []) ()) 1 := by
    refine ⟨rfl, fun call member => ?_⟩
    obtain rfl := List.mem_singleton.mp member
    decide
  refine ⟨?_, ?_, rfl, ?_⟩
  · exact (execute_by_limit (handingOnUnder 1) _ rfl
      (fun procedure member => (isIdle_handingOnUnder 1 procedure member).1)
      (fun procedure member => (isIdle_handingOnUnder 1 procedure member).2) 1 1 (by decide)
      (by decide) rfl 1 1 (by decide) (by decide) (.mapping []) () (below 1)).2.1 fills
  · intro n reached
    obtain ⟨only, -, few⟩ := execute_by_limit (handingOnUnder 2) _ rfl
      (fun procedure member => (isIdle_handingOnUnder 2 procedure member).1)
      (fun procedure member => (isIdle_handingOnUnder 2 procedure member).2) 1 2 (by decide)
      (by decide) rfl 1 2 (by decide) (by decide) (.mapping []) () (below 2)
    have many := (only ⟨n, reached⟩).1
    omega
  · intro n reached
    have finished : ((checkedUnderTwo.withCeiling (some 2)).walk 2 (.mapping []) ()).1 =
        .finished (.mapping []) := rfl
    obtain ⟨only, -, -⟩ := execute_by_limit checkedUnderTwo _ rfl
      (fun procedure member => (isIdle_checkedUnderTwo procedure member).1)
      (fun procedure member => (isIdle_checkedUnderTwo procedure member).2) 2 2 (by decide)
      (by decide) rfl 2 2 (by decide) (by decide) (.mapping []) () (by simp [finished])
    -- The walk's first call is that of the check, which is no action.
    have isAction := (only ⟨n, reached⟩).2 _ List.mem_cons_self
    revert isAction
    decide

/-- The ceiling that an ending reports as reached. -/
def limitReported? : Ending Value → Option Int
  | .failed (.iterationLimit n) => some n
  | _ => none

/-- An ending that reports a ceiling is that failure. -/
theorem eq_of_limitReported? (ending : Ending Value) (n : Int)
    (reported : limitReported? ending = some n) : ending = .failed (.iterationLimit n) := by
  unfold limitReported? at reported
  split at reported
  · rw [Option.some.inj reported]
  · cases reported

/-- Under a ceiling of one, a walk of one action has a result, and a run of its plan fails
as if the ceiling had been reached. -/
theorem execute_limited_walk_not :
    (∃ plan, (handingOnUnder 1).plan = .ok plan) ∧
    (∀ procedure ∈ (handingOnUnder 1).procedures, procedure.name ≠ "" ∧ procedure.IsIdle) ∧
    ((handingOnUnder 1).walk 1 (.mapping []) ()).1 =
      .finished (.mapping [(.text "items", .list [.int 1])]) ∧
    ((handingOnUnder 1).execute 1 (.mapping []) ()).1 = .failed (.iterationLimit 1) := by
  refine ⟨⟨_, rfl⟩, isIdle_handingOnUnder 1, rfl, ?_⟩
  apply eq_of_limitReported?
  decide +kernel

end Workflow
end Stepwise
