import Stepwise.Proofs.Limits
import Stepwise.Proofs.Resolutions

/-!
# A run under a ceiling

Under a ceiling a run of the plan always comes to an end. It is made of rounds: checks are
asked from the start, then an action is run and the checks behind it are asked, and so on.
The ceiling bounds the checks of every resolution and the actions of the whole run, each by
a counter of its own, so it also bounds all checks together. Both counters report the same
number when they are exhausted. Only a body can tell of another limit, by failing with it.
-/

namespace Stepwise

variable {World : Type}

namespace Plan

/-- Why a run of a plan under a ceiling fails: for no limit, because the ceiling was reached in
a resolution, because the graph reached its own limit, or as one of its bodies failed, which
has left the world. -/
inductive FailsBy (plan : Plan World) (limit : Nat) : Failure → World → Prop where
  | plainly {why : Failure} (plain : why.isLimit = false) (world : World) :
      FailsBy plan limit why world
  | ceiling (world : World) : FailsBy plan limit (.iterationLimit limit) world
  | graph (world : World) : FailsBy plan limit .stepLimit world
  | raised {why : Failure} {world before : World} {procedure : Procedure World} {record : Value}
      (member : procedure ∈ plan.procedures)
      (raises : procedure.body plan.models record before = (.error why, world)) :
      FailsBy plan limit why world

/-- A run of a plan, or a part of it, comes to an end, well or by a failure of these. -/
inductive Ends (plan : Plan World) (limit : Nat) {α : Type} : Ending α → World → Prop where
  | finished (result : α) (world : World) : Ends plan limit (.finished result) world
  | failed {why : Failure} {world : World} (tells : FailsBy plan limit why world) :
      Ends plan limit (.failed why) world

/-- An outcome behind some checks of the list, asked one after the other on one record. -/
structure AsksWithin (plan : Plan World) (limit most : Nat) (record : Value) (world : World)
    (checks : List (Procedure World)) (outcome : Ending Stop × World) : Prop where
  listed : ∀ check ∈ checks, check ∈ plan.procedures ∧ check.isCheck = true
  few : checks.length ≤ most
  behind : outcome.2 = worldBehind plan.models record (checks.map (·.body)) world
  ends : Ends plan limit outcome.1 outcome.2

variable {plan : Plan World} {limit : Nat}

/-- When as many checks have been asked as the ceiling says, none is asked any more. -/
theorem askChecks_none (ceiling : plan.ceiling = some limit) (values : Value) (left asked : Nat)
    (full : limit ≤ asked) (body : Body World) (world : World) :
    AsksWithin plan limit (limit - asked) values world []
      (plan.askChecks values left asked body world) := by
  have reached : (plan.ceiling.filter fun ceiling => ceiling ≤ asked) = some limit := by
    simp [ceiling, full]
  rw [askChecks_of_reached plan values left asked limit body world reached]
  exact ⟨by simp, Nat.zero_le _, rfl, .failed (.ceiling world)⟩

/-- Checks are asked until one of them leads on or fails or as many have been asked as the
ceiling says.

Proof: by induction on the checks that may still be followed, which are no fewer than those
that the ceiling leaves. -/
theorem askChecks_asks (ceiling : plan.ceiling = some limit) (values : Value) (left asked : Nat)
    (enough : limit ≤ left + asked) (name : String) (body : Body World)
    (member : .check name body ∈ plan.procedures) (world : World) :
    ∃ checks, AsksWithin plan limit (limit - asked) values world checks
      (plan.askChecks values left asked body world) := by
  induction left generalizing asked name body world with
  | zero => exact ⟨[], askChecks_none ceiling values 0 asked (by omega) body world⟩
  | succ left ih =>
    by_cases full : limit ≤ asked
    · exact ⟨[], askChecks_none ceiling values _ asked full body world⟩
    have notReached : (plan.ceiling.filter fun ceiling => ceiling ≤ asked) = none := by
      simpa [ceiling] using full
    -- A check that settles the resolution is the only one that was asked.
    have settles : ∀ ending, Ends plan limit ending (body plan.models values world).2 →
        ∃ checks, AsksWithin plan limit (limit - asked) values world checks
          (ending, (body plan.models values world).2) := by
      intro ending ends
      refine ⟨[.check name body], ?_, ?_, rfl, ends⟩
      · simpa using ⟨member, rfl⟩
      · rw [List.length_singleton]
        omega
    rw [askChecks, notReached]
    dsimp only
    cases answered : body plan.models values world with
    | mk outcome after =>
      rw [answered] at settles
      cases outcome with
      | error why =>
        exact settles _ (.failed (.raised member answered))
      | ok answer =>
        dsimp only at settles ⊢
        split
        · exact settles _ (.finished _ after)
        · split
          · exact settles _ (.failed (.plainly rfl after))
          · split
            · exact settles _ (.finished _ after)
            · exact settles _ (.finished _ after)
            · next found =>
              obtain ⟨text, -, found⟩ := Option.bind_eq_some_iff.mp found
              have nextMember := (Procedure.of_find? plan.procedures text _ found).1
              obtain ⟨checks, listed, few, behind, ends⟩ :=
                ih (asked + 1) (by omega) _ _ nextMember after
              refine ⟨.check name body :: checks, ?_, ?_, ?_, ends⟩
              · exact List.forall_mem_cons.mpr ⟨⟨member, rfl⟩, listed⟩
              · rw [List.length_cons]
                omega
              · rw [behind, List.map_cons, worldBehind, Procedure.body, answered]

/-- A route is resolved by asking no more checks than the ceiling says. -/
theorem resolve_asks (ceiling : plan.ceiling = some limit) {patience : Nat}
    (enough : limit ≤ patience) (flat : Flat) (route : Route World)
    (branches : ∀ name body, route = .branch name body → .check name body ∈ plan.procedures)
    (world : World) :
    ∃ record checks, AsksWithin plan limit limit record world checks
      (plan.resolve patience flat route world) := by
  cases route with
  | straight target => exact ⟨.null, [], by simp, Nat.zero_le _, rfl, .finished target world⟩
  | branch name body =>
    rw [resolve]
    cases decoded : plan.channels.decode flat with
    | error why =>
      have plain := plan.channels.failsPlainly_decode flat why decoded
      exact ⟨.null, [], by simp, Nat.zero_le _, rfl, .failed (.plainly plain world)⟩
    | ok nested =>
      exact ⟨nested.toValue, askChecks_asks ceiling nested.toValue patience 0 enough name body
        (branches name body rfl) world⟩

/-- What is asked of a plan for its runs to stay within a limit: that is its ceiling, and its
branches ask checks of its list. -/
structure Bounded (plan : Plan World) (limit : Nat) : Prop where
  ceiling : plan.ceiling = some limit
  start : ∀ name body, plan.start = .branch name body → .check name body ∈ plan.procedures
  routes : ∀ node name body, plan.routeOf node = .branch name body →
    .check name body ∈ plan.procedures

/-- The plan of a workflow with a ceiling stays within it. -/
theorem MadeFor.bounded {workflow : Workflow World} (made : plan.MadeFor workflow)
    (ceiling : workflow.options.ceiling = some limit) : plan.Bounded limit := by
  refine ⟨made.ceiling.trans ceiling, ?_, ?_⟩
  · intro name body branches
    rw [made.procedures]
    exact made.mem_of_branch name body (.inl branches)
  · intro node name body branches
    rw [made.procedures]
    exact made.mem_of_branch name body (.inr ⟨node, branches⟩)

end Plan

namespace Flow

/-- How the run of a node goes: there is no such action; its record cannot be read; its body
is run, and what it returns cannot be taken over; or its route is resolved after that. -/
inductive RunsNode (plan : Plan World) (patience : Nat) (name : String) (flow : Flow World) :
    Ending Stop × Flow World → Prop where
  | absent : RunsNode plan patience name flow (.finished .finish, flow)
  | unread {why : Failure} {left : Flow World} (plain : why.isLimit = false)
      (world : left.world = flow.world) : RunsNode plan patience name flow (.failed why, left)
  | failed {stored : String} {body : Body World} {next : Option String} {record : Value}
      {why : Failure} {left : Flow World}
      (member : .action stored body next ∈ plan.procedures) (named : stored = name)
      (cause : why.isLimit = false ∨
        (body plan.models record flow.world).1 = .error why)
      (world : left.world = (body plan.models record flow.world).2) :
      RunsNode plan patience name flow (.failed why, left)
  | resolved {stored : String} {body : Body World} {next : Option String} {record : Value}
      {flat : Flat} {ending : Ending Stop} {left : Flow World}
      (member : .action stored body next ∈ plan.procedures) (named : stored = name)
      (leads : plan.resolve patience flat (plan.routeOf name)
        (body plan.models record flow.world).2 = (ending, left.world)) :
      RunsNode plan patience name flow (ending, left)

/-- The run of a node goes in one of these ways. -/
theorem runsNode (plan : Plan World) (patience : Nat) (name : String) (flow : Flow World) :
    RunsNode plan patience name flow (runNode plan patience name flow) := by
  rw [runNode]
  cases found : Procedure.find? plan.procedures name with
  | none => exact .absent
  | some procedure =>
    obtain ⟨member, named⟩ := Procedure.of_find? plan.procedures name procedure found
    cases procedure with
    | check => exact .absent
    | action stored body next =>
      dsimp only
      rw [nodeUpdates]
      cases decoded : plan.channels.decodeAfter (readsBehind plan flow.chunks) flow.flat with
      | error why =>
        exact .unread (plan.channels.failsPlainly_decodeAfter _ flow.flat why decoded) rfl
      | ok nested =>
        dsimp only
        cases answered : body plan.models nested.toValue flow.world with
        | mk outcome after =>
          have world : after = (body plan.models nested.toValue flow.world).2 := by
            rw [answered]
          cases outcome with
          | error why => exact .failed member named (.inr (congrArg Prod.fst answered)) world
          | ok returned =>
            dsimp only
            cases encoded : plan.channels.encode returned with
            | error why =>
              have plain := plan.channels.failsPlainly_encode returned why encoded
              exact .failed member named (.inl plain) world
            | ok target =>
              dsimp only [Except.map]
              cases written : plan.channels.writeAll flow.flat
                  (plan.channels.updates flow.flat target) with
              | error why =>
                have plain := plan.channels.failsPlainly_writeAll flow.flat _ why written
                exact .failed member named (.inl plain) world
              | ok flat =>
                dsimp only [emit]
                cases resolved : plan.resolve patience flat (plan.routeOf name) after with
                | mk ending last =>
                  rw [world] at resolved
                  cases ending <;> exact .resolved member named resolved

variable {plan : Plan World} {limit patience : Nat}

/-- The run of a node comes to an end. -/
theorem runNode_ends (bounded : plan.Bounded limit) (enough : limit ≤ patience) (name : String)
    (flow : Flow World) : plan.Ends limit (runNode plan patience name flow).1
      (runNode plan patience name flow).2.world := by
  have runs := runsNode plan patience name flow
  generalize runNode plan patience name flow = outcome at runs
  cases runs with
  | absent => exact .finished _ _
  | unread plain => exact .failed (.plainly plain _)
  | failed member named cause world =>
    rcases cause with plain | raises
    · exact .failed (.plainly plain _)
    · exact .failed (.raised member (Prod.ext raises world.symm))
  | resolved member named leads =>
    obtain ⟨_, _, asks⟩ := Plan.resolve_asks bounded.ceiling enough _ (plan.routeOf name)
      (bounded.routes name) _
    rw [leads] at asks
    exact asks.ends

/-- The runs of nodes from a stop on come to an end. -/
theorem runFrom_ends (bounded : plan.Bounded limit) (enough : limit ≤ patience) (most : Nat)
    (stop : Stop) (flow : Flow World) :
    plan.Ends limit (runFrom plan patience most stop flow).1
      (runFrom plan patience most stop flow).2.world := by
  induction most generalizing stop flow with
  | zero =>
    cases stop with
    | finish => exact .finished () _
    | node name => exact .failed (.graph _)
  | succ most ih =>
    cases stop with
    | finish => exact .finished () _
    | node name =>
      have node := runNode_ends bounded enough name flow
      rw [runFrom]
      generalize runNode plan patience name flow = outcome at node
      obtain ⟨ending, moved⟩ := outcome
      dsimp only at node
      cases ending with
      | finished next =>
        dsimp only
        split
        · exact .failed (.graph _)
        · exact ih next moved
      | failed why =>
        cases node with
        | failed tells => exact .failed tells
      | unfinished => cases node

/-- A run of a plan comes to an end. -/
theorem run_ends (bounded : plan.Bounded limit) (enough : limit ≤ patience) (initial : Flat)
    (world : World) : plan.Ends limit (run plan patience initial world).1
      (run plan patience initial world).2.world := by
  rw [run]
  cases written : plan.channels.writeAll [] initial with
  | error why =>
    exact .failed (.plainly (plan.channels.failsPlainly_writeAll [] initial why written) _)
  | ok flat =>
    obtain ⟨_, _, asks⟩ :=
      Plan.resolve_asks bounded.ceiling enough flat plan.start bounded.start world
    have ends := asks.ends
    dsimp only
    generalize plan.resolve patience flat plan.start world = outcome at ends
    obtain ⟨ending, after⟩ := outcome
    dsimp only at ends
    cases ends with
    | finished stop => exact runFrom_ends bounded enough _ stop _
    | failed tells => exact .failed tells

/-- More patience than the ceiling says changes no resolution. -/
theorem resolve_patient (bounded : plan.Bounded limit) (enough : limit ≤ patience) :
    plan.resolve patience = plan.resolve limit := by
  obtain ⟨more, rfl⟩ := Nat.exists_eq_add_of_le enough
  funext flat route world
  cases route with
  | straight target => rfl
  | branch name body =>
    rw [Plan.resolve, Plan.resolve]
    cases plan.channels.decode flat with
    | error why => rfl
    | ok nested =>
      exact Plan.askChecks_more plan nested.toValue limit more 0 body world
        (Plan.askChecks_bounded plan nested.toValue limit bounded.ceiling limit 0 (Nat.le_refl _)
          body world)

/-- More patience than the ceiling says changes no run. -/
theorem run_patient (bounded : plan.Bounded limit) (enough : limit ≤ patience) :
    run plan patience = run plan limit := by
  have resolves := resolve_patient bounded enough
  have nodes : runNode plan patience = runNode plan limit := by
    funext name flow
    rw [runNode, runNode, resolves]
  have runs : ∀ most, runFrom plan patience most = runFrom plan limit most := by
    intro most
    induction most with
    | zero =>
      funext stop flow
      cases stop <;> rfl
    | succ most ih =>
      funext stop flow
      cases stop with
      | finish => rfl
      | node name => rw [runFrom, runFrom, nodes, ih]
  funext initial world
  rw [run, run, resolves, runs]

end Flow

/-- An action that was called, and the checks that were asked behind it. -/
structure Round where
  action : Call
  checks : List Call

namespace Round

/-- The calls of a round, in their order. -/
def calls (round : Round) : List Call := round.action :: round.checks

end Round

namespace Workflow

/-- Calls of checks of the list, no more than a limit. -/
structure ChecksWithin (workflow : Workflow World) (limit : Nat) (calls : List Call) : Prop where
  checks : ∀ call ∈ calls, ∃ body, .check call.name body ∈ workflow.procedures
  few : calls.length ≤ limit

/-- Rounds of an action of the list and no more checks than a limit. -/
def RoundsWithin (workflow : Workflow World) (limit : Nat) (rounds : List Round) : Prop :=
  ∀ round ∈ rounds, (∃ body next, .action round.action.name body next ∈ workflow.procedures) ∧
    workflow.ChecksWithin limit round.checks

/-- The calls of a run under a ceiling: those of one resolution from the start, then rounds, no
more of them than the ceiling says, and no more checks than that in any one of them. -/
def CallsWithin (workflow : Workflow World) (limit : Nat) (calls : List Call) : Prop :=
  ∃ first rounds, calls = first ++ rounds.flatMap Round.calls ∧
    workflow.ChecksWithin limit first ∧ rounds.length ≤ limit ∧
    workflow.RoundsWithin limit rounds

/-- The calls that are added are so many rounds at most. -/
def AddsRounds (workflow : Workflow World) (limit most : Nat) (before after : World × List Call) :
    Prop :=
  ∃ rounds, after.2 = before.2 ++ rounds.flatMap Round.calls ∧ rounds.length ≤ most ∧
    workflow.RoundsWithin limit rounds

variable {workflow : Workflow World} {plan : Plan (World × List Call)} {limit patience : Nat}

/-- No calls are calls of checks. -/
theorem checksWithin_nil (workflow : Workflow World) (limit : Nat) :
    workflow.ChecksWithin limit [] := ⟨by simp, Nat.zero_le limit⟩

/-- The checks of one resolution, with no round behind it, are calls of a run. -/
theorem ChecksWithin.callsWithin {calls : List Call}
    (within : workflow.ChecksWithin limit calls) : workflow.CallsWithin limit calls :=
  ⟨calls, [], by simp, within, Nat.zero_le limit, by simp [RoundsWithin]⟩

/-- No round is added where nothing is called. -/
theorem addsRounds_refl (workflow : Workflow World) (limit most : Nat)
    (world : World × List Call) : workflow.AddsRounds limit most world world :=
  ⟨[], by simp, Nat.zero_le most, by simp [RoundsWithin]⟩

/-- Rounds are added behind rounds. -/
theorem AddsRounds.trans {first second third : World × List Call} {one other : Nat}
    (added : workflow.AddsRounds limit one first second)
    (behind : workflow.AddsRounds limit other second third) :
    workflow.AddsRounds limit (one + other) first third := by
  obtain ⟨rounds, whole, few, within⟩ := added
  obtain ⟨more, behindWhole, moreFew, moreWithin⟩ := behind
  refine ⟨rounds ++ more, ?_, ?_, ?_⟩
  · rw [behindWhole, whole, List.flatMap_append, List.append_assoc]
  · rw [List.length_append]
    omega
  · intro round member
    rcases List.mem_append.mp member with inFirst | inSecond
    · exact within round inFirst
    · exact moreWithin round inSecond

/-- A procedure of a recording plan notes its calls. -/
theorem exists_of_mem_recorded (made : plan.MadeFor workflow.recorded)
    {procedure : Procedure (World × List Call)} (member : procedure ∈ plan.procedures) :
    ∃ plain ∈ workflow.procedures, procedure = plain.recorded := by
  rw [made.procedures] at member
  obtain ⟨plain, inList, rfl⟩ := List.mem_map.mp member
  exact ⟨plain, inList, rfl⟩

/-- Bodies that note their calls add them. -/
theorem worldBehind_recorded (models : Models) (record : Value)
    (procedures : List (Procedure (World × List Call)))
    (notes : ∀ procedure ∈ procedures, ∃ plain : Procedure World, procedure = plain.recorded)
    (world : World × List Call) :
    (worldBehind models record (procedures.map (·.body)) world).2 =
      world.2 ++ procedures.map fun procedure => ⟨procedure.name, models, record⟩ := by
  induction procedures generalizing world with
  | nil => simp [worldBehind]
  | cons procedure rest ih =>
    obtain ⟨plain, rfl⟩ := notes procedure List.mem_cons_self
    have behind := ih fun other later => notes other (List.mem_cons_of_mem _ later)
    rw [List.map_cons, worldBehind, behind, plain.body_recorded]
    simp

/-- The checks that a resolution asks are the calls that it adds. -/
theorem exists_calls_of_asks (made : plan.MadeFor workflow.recorded) {most : Nat} {record : Value}
    {world : World × List Call} {checks : List (Procedure (World × List Call))}
    {outcome : Ending Stop × (World × List Call)}
    (asks : plan.AsksWithin limit most record world checks outcome) :
    ∃ calls, outcome.2.2 = world.2 ++ calls ∧ workflow.ChecksWithin most calls := by
  have notes : ∀ check ∈ checks, ∃ plain : Procedure World, check = plain.recorded := by
    intro check member
    obtain ⟨plain, -, same⟩ := exists_of_mem_recorded made (asks.listed check member).1
    exact ⟨plain, same⟩
  refine ⟨checks.map fun check => ⟨check.name, plan.models, record⟩, ?_, ?_, ?_⟩
  · rw [asks.behind, worldBehind_recorded _ _ _ notes]
  · intro call member
    obtain ⟨check, inChecks, rfl⟩ := List.mem_map.mp member
    obtain ⟨inPlan, isCheck⟩ := asks.listed check inChecks
    obtain ⟨plain, inList, rfl⟩ := exists_of_mem_recorded made inPlan
    cases plain with
    | action => cases isCheck
    | check name body => exact ⟨body, inList⟩
  · rw [List.length_map]
    exact asks.few

/-- An action that is called and some checks behind it are a round. -/
theorem addsRounds_one (made : plan.MadeFor workflow.recorded) {stored : String}
    {body : Body (World × List Call)} {next : Option String}
    (member : .action stored body next ∈ plan.procedures) (record : Value)
    (world after : World × List Call) {calls : List Call}
    (within : workflow.ChecksWithin limit calls)
    (called : after.2 = (body plan.models record world).2.2 ++ calls) :
    workflow.AddsRounds limit 1 world after := by
  obtain ⟨plain, inList, same⟩ := exists_of_mem_recorded made member
  have noted : (body plan.models record world).2.2 =
      world.2 ++ [⟨plain.name, plan.models, record⟩] := by
    rw [← plain.body_recorded, ← same]
    rfl
  refine ⟨[⟨⟨plain.name, plan.models, record⟩, calls⟩], ?_, Nat.le_refl 1, ?_⟩
  · rw [called, noted]
    simp [Round.calls]
  · intro round only
    obtain rfl := List.mem_singleton.mp only
    cases plain with
    | check => cases same
    | action name body next => exact ⟨⟨body, next, inList⟩, within⟩

/-- The run of a node adds a round of calls, or none. -/
theorem addsRounds_runNode (made : plan.MadeFor workflow.recorded) (bounded : plan.Bounded limit)
    (enough : limit ≤ patience) (name : String) (flow : Flow (World × List Call)) :
    workflow.AddsRounds limit 1 flow.world (Flow.runNode plan patience name flow).2.world := by
  have runs := Flow.runsNode plan patience name flow
  generalize Flow.runNode plan patience name flow = outcome at runs
  cases runs with
  | absent => exact workflow.addsRounds_refl limit 1 _
  | unread plain world =>
    dsimp only
    rw [world]
    exact workflow.addsRounds_refl limit 1 _
  | failed member named cause world =>
    exact addsRounds_one made member _ _ _ (workflow.checksWithin_nil limit)
      (by rw [world, List.append_nil])
  | resolved member named leads =>
    obtain ⟨_, _, asks⟩ := Plan.resolve_asks bounded.ceiling enough _ (plan.routeOf name)
      (bounded.routes name) _
    rw [leads] at asks
    obtain ⟨calls, called, within⟩ := exists_calls_of_asks made asks
    exact addsRounds_one made member _ _ _ within called

/-- The runs of nodes from a stop on add no more rounds of calls than nodes may be run.

Proof: by induction on the nodes that may be run. -/
theorem addsRounds_runFrom (made : plan.MadeFor workflow.recorded) (bounded : plan.Bounded limit)
    (enough : limit ≤ patience) (most : Nat) (stop : Stop) (flow : Flow (World × List Call)) :
    workflow.AddsRounds limit most flow.world
      (Flow.runFrom plan patience most stop flow).2.world := by
  induction most generalizing stop flow with
  | zero => cases stop <;> exact workflow.addsRounds_refl limit 0 _
  | succ most ih =>
    cases stop with
    | finish => exact workflow.addsRounds_refl limit _ _
    | node name =>
      have first := addsRounds_runNode made bounded enough name flow
      rw [Flow.runFrom, Nat.add_comm most 1]
      generalize Flow.runNode plan patience name flow = outcome at first
      obtain ⟨ending, moved⟩ := outcome
      have alone := first.trans (workflow.addsRounds_refl limit most moved.world)
      cases ending with
      | finished next =>
        dsimp only
        split
        · exact alone
        · exact first.trans (ih next moved)
      | failed why => exact alone
      | unfinished => exact alone

/-- A run of a recording plan adds the calls of one resolution, then rounds. -/
theorem exists_calls_run (made : plan.MadeFor workflow.recorded) (bounded : plan.Bounded limit)
    (enough : limit ≤ patience) (initial : Flat) (world : World × List Call) :
    ∃ calls, (Flow.run plan patience initial world).2.world.2 = world.2 ++ calls ∧
      workflow.CallsWithin limit calls := by
  rw [Flow.run]
  cases plan.channels.writeAll [] initial with
  | error why =>
    have none := workflow.checksWithin_nil limit
    exact ⟨[], by simp, none.callsWithin⟩
  | ok flat =>
    obtain ⟨_, _, asks⟩ :=
      Plan.resolve_asks bounded.ceiling enough flat plan.start bounded.start world
    obtain ⟨first, called, within⟩ := exists_calls_of_asks made asks
    dsimp only
    generalize plan.resolve patience flat plan.start world = outcome at called
    obtain ⟨ending, after⟩ := outcome
    cases ending with
    | finished stop =>
      obtain ⟨rounds, added, few, each⟩ := addsRounds_runFrom made bounded enough
        (plan.ceiling.getD Flow.unboundedLimit) stop ⟨flat, [.values flat], after⟩
      rw [bounded.ceiling, Option.getD_some] at few
      refine ⟨first ++ rounds.flatMap Round.calls, ?_, first, rounds, rfl, within, few, each⟩
      dsimp only at added called ⊢
      rw [added, called, List.append_assoc]
    | failed why => exact ⟨first, called, within.callsWithin⟩
    | unfinished => exact ⟨first, called, within.callsWithin⟩

/-- Whether a call is one of an action. -/
def callsAction (workflow : Workflow World) (call : Call) : Bool :=
  decide (call.name ∈ Plan.actionNames workflow.procedures)

/-- The calls of a run of the plan are within its ceiling. -/
theorem callsWithin_planCalls {plan : Plan World} (planned : workflow.plan = .ok plan)
    (ceiling : workflow.options.ceiling = some limit) (enough : limit ≤ patience) (input : Value)
    (world : World) : workflow.CallsWithin limit (workflow.planCalls patience input world) := by
  have none := (workflow.checksWithin_nil limit).callsWithin
  obtain ⟨recorded, recordedPlanned, made, -⟩ := workflow.exists_plan_recorded plan planned
  have bounded : recorded.Bounded limit := made.bounded ceiling
  rw [planCalls]
  cases accepted : workflow.recorded.accept .input input with
  | error why =>
    rw [execute, recordedPlanned]
    dsimp only
    rw [accepted]
    exact none
  | ok data =>
    obtain ⟨warnings, begun⟩ := workflow.recorded.execute_eq_runPlan recorded recordedPlanned input
      data accepted patience (world, [])
    rw [begun]
    cases encoded : recorded.channels.encode
        (workflow.recorded.withSection .input data).sections.toValue with
    | error why =>
      rw [runPlan, encoded]
      exact none
    | ok initial =>
      rw [world_runPlan _ patience recorded warnings (world, []) initial encoded]
      obtain ⟨calls, called, within⟩ := exists_calls_run made bounded enough initial (world, [])
      rw [called, List.nil_append]
      exact within

/-- Among calls of checks there is none of an action. -/
theorem ChecksWithin.countP_callsAction {calls : List Call}
    (within : workflow.ChecksWithin limit calls)
    (distinct : (Procedure.names workflow.procedures).Nodup) :
    calls.countP workflow.callsAction = 0 := by
  rw [List.countP_eq_zero]
  intro call member
  obtain ⟨body, isCheck⟩ := within.checks call member
  have noAction := Plan.not_mem_actionNames _ distinct call.name body isCheck
  simpa [callsAction] using noAction

/-- Rounds have one call of an action each, and no more calls of checks than the limit. -/
theorem RoundsWithin.countP_callsAction {rounds : List Round}
    (within : workflow.RoundsWithin limit rounds)
    (distinct : (Procedure.names workflow.procedures).Nodup) :
    (rounds.flatMap Round.calls).countP workflow.callsAction = rounds.length ∧
      (rounds.flatMap Round.calls).length ≤ rounds.length + rounds.length * limit := by
  induction rounds with
  | nil => simp
  | cons round rest ih =>
    obtain ⟨⟨body, next, isAction⟩, checks⟩ := within round List.mem_cons_self
    obtain ⟨actions, short⟩ := ih fun other later => within other (List.mem_cons_of_mem _ later)
    have named : workflow.callsAction round.action = true := by
      simpa [callsAction] using (Plan.mem_actionNames_iff _ _).mpr ⟨body, next, isAction⟩
    have few := checks.few
    constructor
    · rw [List.flatMap_cons, List.countP_append, Round.calls, List.countP_cons_of_pos named,
        checks.countP_callsAction distinct, actions, List.length_cons]
      omega
    · rw [List.flatMap_cons, List.length_append, Round.calls, List.length_cons, List.length_cons,
        Nat.succ_mul]
      omega

/-- Within a ceiling there are no more calls of actions than it says, and no more calls of checks
than it says for every resolution. -/
theorem CallsWithin.counts {calls : List Call} (within : workflow.CallsWithin limit calls)
    (distinct : (Procedure.names workflow.procedures).Nodup) :
    calls.countP workflow.callsAction ≤ limit ∧
      calls.countP (fun call => !workflow.callsAction call) ≤ limit * (limit + 1) := by
  obtain ⟨first, rounds, rfl, checks, few, each⟩ := within
  obtain ⟨actions, short⟩ := each.countP_callsAction distinct
  have firstFew := checks.few
  have product : rounds.length * limit ≤ limit * limit := Nat.mul_le_mul_right limit few
  have all := List.length_eq_countP_add_countP workflow.callsAction
    (l := first ++ rounds.flatMap Round.calls)
  rw [List.length_append, List.countP_append, checks.countP_callsAction distinct, actions] at all
  constructor
  · rw [List.countP_append, checks.countP_callsAction distinct, actions]
    omega
  · rw [Nat.mul_add, Nat.mul_one]
    have same : (fun call => !workflow.callsAction call) =
        fun call => decide ¬ workflow.callsAction call = true := by
      funext call
      simp
    rw [same]
    omega

/-- A run of the plan under a ceiling comes to an end. -/
theorem execute_ends {plan : Plan World} (planned : workflow.plan = .ok plan)
    (ceiling : workflow.options.ceiling = some limit) (enough : limit ≤ patience) (input : Value)
    (world : World) : plan.Ends limit (workflow.execute patience input world).1
      (workflow.execute patience input world).2.world := by
  have bounded := (Plan.madeFor_of_plan workflow plan planned).bounded ceiling
  rw [execute, planned]
  dsimp only
  cases accepted : workflow.accept .input input with
  | error why =>
    exact .failed (.plainly (workflow.failsPlainly_accept .input input why accepted) _)
  | ok data =>
    dsimp only
    rw [runPlan]
    cases encoded : plan.channels.encode (workflow.withSection .input data).sections.toValue with
    | error why => exact .failed (.plainly (plan.channels.failsPlainly_encode _ why encoded) _)
    | ok initial =>
      have ends := Flow.run_ends bounded enough initial world
      dsimp only
      generalize Flow.run plan patience initial world = outcome at ends
      obtain ⟨ending, flow⟩ := outcome
      dsimp only at ends
      cases ending with
      | finished =>
        dsimp only [closeFlow]
        cases decoded : plan.channels.decodeAfter (Flow.readsBehind plan flow.chunks)
            ((Flow.lastValues? flow.chunks).getD initial) with
        | error why =>
          exact .failed (.plainly (plan.channels.failsPlainly_decodeAfter _ _ why decoded) _)
        | ok nested =>
          dsimp only
          split
          · next why refused =>
            exact .failed (.plainly (failsPlainly_accept _ .output _ why refused) _)
          · exact .finished _ _
      | failed why =>
        cases ends with
        | failed tells =>
          cases why with
          | stepLimit =>
            have reported : (workflow.withSection .input data).options.ceiling = some limit :=
              ceiling
            dsimp only [flowFailure]
            rw [reported]
            exact .failed (.ceiling _)
          | _ => exact .failed tells
      | unfinished => cases ends

/-- More patience than the ceiling says changes no run of the plan. -/
theorem execute_patient {plan : Plan World} (planned : workflow.plan = .ok plan)
    (ceiling : workflow.options.ceiling = some limit) (enough : limit ≤ patience) (input : Value)
    (world : World) :
    workflow.execute patience input world = workflow.execute limit input world := by
  have bounded := (Plan.madeFor_of_plan workflow plan planned).bounded ceiling
  have runs : ∀ entered : Workflow World, entered.runPlan patience plan =
      entered.runPlan limit plan := by
    intro entered
    funext events world
    rw [runPlan, runPlan, Flow.run_patient bounded enough]
  rw [execute, execute, planned]
  simp only [runs]

/-- A run of the plan under a ceiling always comes to an end, which no further patience changes.
It calls checks, no more than the ceiling says, and then rounds, no more than that, of an action
and again no more checks than that; so there are no more actions than the ceiling says, and no
more checks than it says for the start and for every action. What it reports as the ceiling
that was reached is the ceiling, unless a body has failed with another one, and has left the
world as the run does.

Proof: a resolution asks no more checks than are left below the ceiling, by induction on these;
a node is run once and then its route is resolved; and there are as many nodes as the graph's
limit, which is the ceiling, by induction on that. -/
theorem execute_within_ceiling (workflow : Workflow World) (plan : Plan World)
    (planned : workflow.plan = .ok plan) (limit : Nat)
    (ceiling : workflow.options.ceiling = some limit) (patience : Nat)
    (enough : limit ≤ patience) (input : Value) (world : World) :
    (workflow.execute patience input world).1 ≠ .unfinished ∧
    workflow.execute patience input world = workflow.execute limit input world ∧
    workflow.CallsWithin limit (workflow.planCalls patience input world) ∧
    (workflow.planCalls patience input world).countP workflow.callsAction ≤ limit ∧
    (workflow.planCalls patience input world).countP (fun call => !workflow.callsAction call) ≤
      limit * (limit + 1) ∧
    ∀ n, (workflow.execute patience input world).1 = .failed (.iterationLimit n) →
      n = limit ∨ ∃ procedure ∈ workflow.procedures, ∃ record before,
        procedure.body plan.models record before =
          (.error (.iterationLimit n), (workflow.execute patience input world).2.world) := by
  have made := Plan.madeFor_of_plan workflow plan planned
  have distinct := Procedure.nodup_names_of_validate _ made.accepted
  have within := callsWithin_planCalls planned ceiling enough input world
  have ends := execute_ends planned ceiling enough input world
  obtain ⟨actions, checks⟩ := within.counts distinct
  refine ⟨?_, execute_patient planned ceiling enough input world, within, actions, checks, ?_⟩
  · intro unfinished
    rw [unfinished] at ends
    cases ends
  · intro n reported
    rw [reported] at ends
    cases ends with
    | failed tells =>
      cases tells with
      | plainly plain => cases plain
      | ceiling => exact .inl rfl
      | raised member raises =>
        rw [made.procedures] at member
        exact .inr ⟨_, member, _, _, raises⟩

/-- A workflow of an action and a check that send each other on for ever. -/
def goingRound (ceiling : Nat) : Workflow Unit :=
  withList noFields (some ceiling)
    [.action "work" (fun _ record world => (.ok record, world)) (some "again"),
      .check "again" (fun _ _ world => (.ok (.text "work"), world))]

/-- A run that would go on for ever is ended by its ceiling, and reports it. -/
theorem execute_within_ceiling_round :
    ((goingRound 2).execute 5 (.mapping []) ()).1 = .failed (.iterationLimit 2) ∧
    ((goingRound 2).planCalls 5 (.mapping []) ()).countP (goingRound 2).callsAction ≤ 2 ∧
    ∀ n, ((goingRound 2).execute 5 (.mapping []) ()).1 = .failed (.iterationLimit n) → n = 2 := by
  obtain ⟨-, -, -, actions, -, reports⟩ :=
    execute_within_ceiling (goingRound 2) _ rfl 2 rfl 5 (by decide) (.mapping []) ()
  refine ⟨?_, actions, ?_⟩
  · apply eq_of_limitReported?
    decide +kernel
  · intro n reported
    rcases reports n reported with same | ⟨procedure, member, record, before, raises⟩
    · exact same
    · simp only [goingRound, procedures_withList, List.mem_cons, List.not_mem_nil, or_false] at member
      rcases member with rfl | rfl <;> cases raises

end Workflow
end Stepwise
