import Stepwise.Proofs.Ceiling
import Stepwise.Proofs.Passages
import Stepwise.Proofs.WellFormed

/-!
# Where a resolution leads

A plan resolves a route by asking checks on values that do not change meanwhile, where a
walk dispatches these checks one by one. If what a check answers depends on the record
alone, both ask the same checks in the same order and come to the same action, to the end,
or to the failure of the same check, from the start as from behind any action. The plan's
ceiling counts the checks of one resolution: as many as it says may be asked, and where
the walk goes on to one more the resolution fails.
-/

namespace Stepwise

variable {World : Type}

/-- What a body answers depends on the record alone, up to an equality of records. -/
def Body.GoesBy (equal : Value → Value → Prop) (body : Body World) : Prop :=
  ∀ record other, equal record other → ∀ models others world state,
    (body models record world).1 = (body others other state).1

/-- The world behind bodies that are run one after the other on one record. -/
def worldBehind (models : Models) (record : Value) : List (Body World) → World → World
  | [], world => world
  | body :: rest, world => worldBehind models record rest (body models record world).2

/-- Bodies behind others run on the world that those leave. -/
theorem worldBehind_append (models : Models) (record : Value) (first second : List (Body World))
    (world : World) : worldBehind models record (first ++ second) world =
      worldBehind models record second (worldBehind models record first world) := by
  induction first generalizing world with
  | nil => rfl
  | cons body rest ih => exact ih (body models record world).2

namespace Walk

/-- A walk passes checks that answer; `asked` has their bodies, in order. -/
inductive PassesChecks (itinerary : Itinerary World) :
    Walk World → List (Body World) → Walk World → Prop where
  | here (walk : Walk World) : PassesChecks itinerary walk [] walk
  | on {walk moved final : Walk World} {position : Nat} {name : String} {body : Body World}
      {asked : List (Body World)}
      (next : turn itinerary walk = .dispatch position (.check name body))
      (answered : walk.dispatch itinerary position (.check name body) = (none, moved))
      (onward : PassesChecks itinerary moved asked final) :
      PassesChecks itinerary walk (body :: asked) final

/-- A walk that asks checks comes to an action, to its end, or to a check that fails. -/
inductive ComesTo (itinerary : Itinerary World) (walk : Walk World) :
    List (Body World) → Ending Stop → Prop where
  | action {asked : List (Body World)} {here : Walk World} {position : Nat} {name : String}
      {body : Body World} {successor : Option String}
      (passes : PassesChecks itinerary walk asked here)
      (next : turn itinerary here = .dispatch position (.action name body successor)) :
      ComesTo itinerary walk asked (.finished (.node name))
  | stop {asked : List (Body World)} {here final : Walk World}
      (passes : PassesChecks itinerary walk asked here)
      (isOver : turn itinerary here = .over (.finished ()) final) :
      ComesTo itinerary walk asked (.finished .finish)
  | raise {asked : List (Body World)} {here stopped : Walk World} {position : Nat} {name : String}
      {body : Body World} {why : Failure}
      (passes : PassesChecks itinerary walk asked here)
      (next : turn itinerary here = .dispatch position (.check name body))
      (failed : here.dispatch itinerary position (.check name body) = (some why, stopped)) :
      ComesTo itinerary walk (asked ++ [body]) (.failed why)

/-- A walk passes checks and then stands on one more. -/
inductive ComesToCheck (itinerary : Itinerary World) (walk : Walk World) :
    List (Body World) → Prop where
  | check {asked : List (Body World)} {here : Walk World} {position : Nat} {name : String}
      {body : Body World} (passes : PassesChecks itinerary walk asked here)
      (next : turn itinerary here = .dispatch position (.check name body)) :
      ComesToCheck itinerary walk asked

end Walk

namespace Workflow

/-- A walk stands where a route of the plan starts: at the start, or behind an action that
has run and is being left. What the record holds there is open. -/
inductive StandsBehind (workflow : Workflow World) (plan : Plan World) :
    Route World → Walk World → Prop where
  | start (sections : Sections) (world : World) :
      StandsBehind workflow plan plan.start ⟨sections, .start workflow.procedures, [], world⟩
  | action {walk : Walk World} {position : Nat} {name : String} {body : Body World}
      {next : Option String} (indexed : walk.progress.index = Procedure.index workflow.procedures)
      (stands : walk.progress.cursor = some position)
      (there : workflow.procedures[position]? = some (.action name body next)) :
      StandsBehind workflow plan (plan.routeOf name)
        (walk.continueTo workflow.itinerary position (Successor.ofNext next))

end Workflow

namespace Plan

/-- Where a plan goes on from the procedure at a position, so many checks having been asked. -/
def resume (plan : Plan World) (values : Value) (left asked : Nat) (cursor : Option Nat)
    (world : World) : Ending Stop × World :=
  match routeAt plan.procedures cursor with
  | .straight target => (.finished target, world)
  | .branch _ body => plan.askChecks values left asked body world

variable {workflow : Workflow World} {plan : Plan World}

/-- A route is resolved from the procedure that it leads to. -/
theorem resolve_eq_resume {patience : Nat} {flat : Flat} {nested : Flat.Nested}
    (decoded : plan.channels.decode flat = .ok nested) (cursor : Option Nat) (world : World) :
    plan.resolve patience flat (routeAt plan.procedures cursor) world =
      plan.resume nested.toValue patience 0 cursor world := by
  unfold resume resolve
  cases routeAt plan.procedures cursor with
  | straight target => rfl
  | branch name body => rw [decoded]

section Asking

variable {values : Value} (left : Nat) {asked : Nat} {body : Body World} {world after : World}

/-- Asking a check that fails fails. -/
theorem askChecks_of_raised (below : ∀ limit ∈ plan.ceiling, asked < limit) (why : Failure)
    (raises : body plan.models values world = (.error why, after)) :
    plan.askChecks values (left + 1) asked body world = (.failed why, after) := by
  have notReached : (plan.ceiling.filter fun ceiling => ceiling ≤ asked) = none := by
    simpa using below
  rw [askChecks, notReached]
  dsimp only
  rw [raises]

/-- Asking a check that answers the end or nothing leads to the end, and asking one that
answers what cannot be looked up fails. -/
theorem askChecks_of_answered (below : ∀ limit ∈ plan.ceiling, asked < limit) (answer : Value)
    (answers : body plan.models values world = (.ok answer, after)) :
    (endsRun answer = true →
      plan.askChecks values (left + 1) asked body world = (.finished .finish, after)) ∧
    (endsRun answer = false → answer.key? = none →
      plan.askChecks values (left + 1) asked body world = (.failed .wrongKind, after)) ∧
    ∀ key cursor, endsRun answer = false → answer.key? = some key →
      key.text?.bind (Procedure.find? plan.procedures) =
        cursor.bind (fun position => plan.procedures[position]?) →
      plan.askChecks values (left + 1) asked body world =
        plan.resume values left (asked + 1) cursor after := by
  have notReached : (plan.ceiling.filter fun ceiling => ceiling ≤ asked) = none := by
    simpa using below
  rw [askChecks, notReached]
  dsimp only
  rw [answers]
  refine ⟨?_, ?_, ?_⟩
  · intro ends
    simp [ends]
  · intro goesOn noKey
    simp [goesOn, noKey]
  · intro key cursor goesOn isKey found
    simp only [goesOn, Bool.false_eq_true, if_false, isKey, found, resume, routeAt]
    cases cursor.bind fun position => plan.procedures[position]? with
    | none => rfl
    | some procedure => cases procedure <;> rfl

end Asking

/-- What is asked of a workflow, its plan and an itinerary for the plan to ask the checks that a
walk dispatches: they have one list, and its checks go by the record. -/
structure Matches (workflow : Workflow World) (plan : Plan World) (itinerary : Itinerary World)
    (equal : Value → Value → Prop) : Prop where
  made : plan.MadeFor workflow
  listed : itinerary.procedures = workflow.procedures
  fixed : ∀ name body, .check name body ∈ workflow.procedures → body.GoesBy equal

section Matching

variable {itinerary : Itinerary World} {equal : Value → Value → Prop} {values : Value}
  {walk here : Walk World} {bodies : List (Body World)}

/-- A check that answers below the ceiling leads a plan where it leads a walk; one that fails
fails alike. -/
theorem Matches.resume_check (matching : Matches workflow plan itinerary equal)
    (onList : walk.OnList workflow.procedures) (same : equal walk.sections.toValue values)
    {position : Nat} {name : String} {body : Body World}
    (next : Walk.turn itinerary walk = .dispatch position (.check name body)) (left : Nat)
    {asked : Nat} (below : ∀ limit ∈ plan.ceiling, asked < limit) (state : World) :
    (∃ why stopped, walk.dispatch itinerary position (.check name body) = (some why, stopped) ∧
      plan.resume values (left + 1) asked walk.progress.cursor state =
        (.failed why, (body plan.models values state).2)) ∨
    ∃ moved, walk.dispatch itinerary position (.check name body) = (none, moved) ∧
      moved.sections = walk.sections ∧
      plan.resume values (left + 1) asked walk.progress.cursor state =
        plan.resume values left (asked + 1) moved.progress.cursor
          (body plan.models values state).2 := by
  obtain ⟨made, listed, fixed⟩ := matching
  obtain ⟨cursor, there⟩ := Walk.stands_of_turn itinerary walk position _ next
  have asks : plan.resume values (left + 1) asked walk.progress.cursor state =
      plan.askChecks values (left + 1) asked body state := by
    rw [resume, routeAt, cursor, made.procedures, ← listed, Option.bind_some, there]
  have goesBy := fixed name body (listed ▸ List.mem_of_getElem? there)
  have alike := goesBy _ _ same itinerary.models plan.models walk.world state
  cases walked : body itinerary.models walk.sections.toValue walk.world with
  | mk outcome behind =>
    rw [walked] at alike
    have answered : body plan.models values state =
        (outcome, (body plan.models values state).2) := Prod.ext alike.symm rfl
    rw [asks]
    cases outcome with
    | error why =>
      obtain ⟨stopped, failed⟩ :=
        Walk.dispatch_raised itinerary walk position (.check name body) why behind walked
      exact .inl ⟨why, stopped, failed, askChecks_of_raised left below why answered⟩
    | ok answer =>
      obtain ⟨ended, unkeyed, led⟩ := askChecks_of_answered left below answer answered
      obtain ⟨events, ⟨ends, whole⟩ | ⟨goesOn, key, isKey, whole⟩ |
          ⟨goesOn, noKey, stopped, whole⟩⟩ :=
        Walk.dispatch_answered itinerary walk position name body answer behind walked
      · exact .inr ⟨_, whole, rfl, ended ends⟩
      · refine .inr ⟨_, whole, rfl, led key _ goesOn isKey ?_⟩
        rw [made.find?_of_key key, onList.indexed, made.procedures]
      · exact .inl ⟨.wrongKind, stopped, whole, unkeyed goesOn noKey⟩

/-- A walk that passes checks leads a plan on by as many.

Proof: by induction on the checks that are passed; each asks the plan's next check on the
same values, and moves no section. -/
theorem Matches.resume_passes (matching : Matches workflow plan itinerary equal)
    (passes : walk.PassesChecks itinerary bodies here)
    (onList : walk.OnList workflow.procedures) (same : equal walk.sections.toValue values)
    (left asked : Nat) (below : ∀ limit ∈ plan.ceiling, asked + bodies.length ≤ limit)
    (state : World) :
    here.OnList workflow.procedures ∧ here.sections = walk.sections ∧
      plan.resume values (left + bodies.length) asked walk.progress.cursor state =
        plan.resume values left (asked + bodies.length) here.progress.cursor
          (worldBehind plan.models values bodies state) := by
  induction passes generalizing asked state with
  | here walk => exact ⟨onList, rfl, rfl⟩
  | @on walk moved final position name body rest next answered onward ih =>
    have bounds : ∀ limit ∈ plan.ceiling, asked + 1 + rest.length ≤ limit := by
      intro limit isCeiling
      have bound := below limit isCeiling
      rw [List.length_cons] at bound
      omega
    have notReached : ∀ limit ∈ plan.ceiling, asked < limit := by
      intro limit isCeiling
      have bound := bounds limit isCeiling
      omega
    have kept : moved.OnList workflow.procedures := by
      have distinct := Procedure.nodup_names_of_validate _ matching.made.accepted
      rw [← matching.listed] at onList distinct ⊢
      have dispatched := onList.dispatch distinct position (.check name body)
      rwa [answered] at dispatched
    rcases matching.resume_check onList same next (left + rest.length) notReached state with
      ⟨why, stopped, failed, -⟩ | ⟨other, also, sections, led⟩
    · rw [answered] at failed
      cases failed
    · rw [answered] at also
      obtain rfl := (Prod.mk.inj also).2
      obtain ⟨finalOnList, finalSections, whole⟩ := ih kept (sections ▸ same) (asked + 1) bounds
        (body plan.models values state).2
      refine ⟨finalOnList, finalSections.trans sections, ?_⟩
      rw [List.length_cons, ← Nat.add_assoc, led, whole, Nat.add_right_comm asked 1]
      rfl

/-- What the checks of a walk come to, a plan comes to within its ceiling, having asked the same
checks. -/
theorem Matches.resume_comesTo (matching : Matches workflow plan itinerary equal)
    {ending : Ending Stop} (comes : walk.ComesTo itinerary bodies ending)
    (onList : walk.OnList workflow.procedures) (same : equal walk.sections.toValue values)
    (within : ∀ limit ∈ plan.ceiling, bodies.length ≤ limit) (left : Nat) (state : World) :
    plan.resume values (left + bodies.length) 0 walk.progress.cursor state =
      (ending, worldBehind plan.models values bodies state) := by
  have sameList : plan.procedures = itinerary.procedures :=
    matching.made.procedures.trans matching.listed.symm
  cases comes with
  | @action _ here position name body successor passes next =>
    obtain ⟨cursor, there⟩ := Walk.stands_of_turn itinerary here position _ next
    obtain ⟨-, -, whole⟩ := matching.resume_passes passes onList same left 0
      (by simpa using within) state
    rw [whole, resume, routeAt, cursor, sameList, Option.bind_some, there]
  | stop passes isOver =>
    obtain ⟨-, -, whole⟩ := matching.resume_passes passes onList same left 0
      (by simpa using within) state
    rcases Walk.over_cases isOver with ⟨nowhere, -, -⟩ | ⟨why, impossible⟩
    · rw [whole, resume, nowhere]
      rfl
    · cases impossible
  | @raise passed here stopped position name body why passes next failed =>
    have notReached : ∀ limit ∈ plan.ceiling, 0 + passed.length < limit := by
      intro limit isCeiling
      have bound := within limit isCeiling
      rw [List.length_append, List.length_singleton] at bound
      omega
    obtain ⟨hereOnList, sections, whole⟩ := matching.resume_passes passes onList same (left + 1) 0
      (fun limit isCeiling => (notReached limit isCeiling).le) state
    have shift : left + (passed ++ [body]).length = left + 1 + passed.length := by
      rw [List.length_append, List.length_singleton]
      omega
    rw [shift, whole]
    rcases matching.resume_check hereOnList (sections.symm ▸ same) next left notReached
        (worldBehind plan.models values passed state) with
      ⟨other, _, also, fails⟩ | ⟨moved, also, -⟩
    · rw [failed] at also
      obtain rfl := Option.some.inj (Prod.mk.inj also).1
      rw [fails, worldBehind_append]
      rfl
    · rw [failed] at also
      cases also

/-- Where a walk goes on to one check more than the ceiling says, a plan fails, having asked as
many as it says. -/
theorem Matches.resume_comesToCheck (matching : Matches workflow plan itinerary equal)
    (comes : walk.ComesToCheck itinerary bodies) (onList : walk.OnList workflow.procedures)
    (same : equal walk.sections.toValue values) (ceiling : plan.ceiling = some bodies.length)
    (left : Nat) (state : World) :
    plan.resume values (left + bodies.length) 0 walk.progress.cursor state =
      (.failed (.iterationLimit bodies.length), worldBehind plan.models values bodies state) := by
  have sameList : plan.procedures = itinerary.procedures :=
    matching.made.procedures.trans matching.listed.symm
  obtain ⟨passes, next⟩ := comes
  obtain ⟨cursor, there⟩ := Walk.stands_of_turn itinerary _ _ _ next
  obtain ⟨-, -, whole⟩ := matching.resume_passes passes onList same left 0 (by simp [ceiling]) state
  have reached : (plan.ceiling.filter fun ceiling => ceiling ≤ 0 + bodies.length) =
      some bodies.length := by
    simp [ceiling]
  rw [whole, resume, routeAt, cursor, sameList, Option.bind_some, there]
  exact askChecks_of_reached plan values left _ _ _ _ reached

end Matching

end Plan

namespace Walk

/-- A walk that passes a check comes to what it comes to behind it. -/
theorem ComesTo.on {itinerary : Itinerary World} {walk moved : Walk World} {position : Nat}
    {name : String} {body : Body World} {asked : List (Body World)} {ending : Ending Stop}
    (next : turn itinerary walk = .dispatch position (.check name body))
    (answered : walk.dispatch itinerary position (.check name body) = (none, moved))
    (comes : moved.ComesTo itinerary asked ending) :
    walk.ComesTo itinerary (body :: asked) ending := by
  cases comes with
  | action passes stands => exact .action (.on next answered passes) stands
  | stop passes isOver => exact .stop (.on next answered passes) isOver
  | raise passes stands failed => exact .raise (.on next answered passes) stands failed

/-- A walk without a ceiling comes to something within a number of checks, or it passes as many
and stands on one more.

Proof: by induction on the number; a walk in the list is over or stands on a procedure. -/
theorem OnList.comes {itinerary : Itinerary World} {walk : Walk World}
    (onList : OnList itinerary.procedures walk)
    (distinct : (Procedure.names itinerary.procedures).Nodup) (number : Nat) :
    (∃ asked ending, walk.ComesTo (itinerary.withCeiling none) asked ending ∧
      asked.length ≤ number) ∨
    ∃ asked, walk.ComesToCheck (itinerary.withCeiling none) asked ∧ asked.length = number := by
  induction number generalizing walk with
  | zero =>
    rcases onList.turn_cases with ⟨-, isOver⟩ | ⟨position, procedure, next, -⟩
    · exact .inl ⟨[], _, .stop (.here walk) (isOver none), Nat.le_refl 0⟩
    · cases procedure with
      | action name body successor =>
        exact .inl ⟨[], _, .action (.here walk) next, Nat.le_refl 0⟩
      | check name body => exact .inr ⟨[], .check (.here walk) next, rfl⟩
  | succ number ih =>
    rcases onList.turn_cases with ⟨-, isOver⟩ | ⟨position, procedure, next, -⟩
    · exact .inl ⟨[], _, .stop (.here walk) (isOver none), Nat.zero_le _⟩
    · cases procedure with
      | action name body successor =>
        exact .inl ⟨[], _, .action (.here walk) next, Nat.zero_le _⟩
      | check name body =>
        have kept := onList.dispatch distinct position (.check name body)
        have free := dispatch_withCeiling itinerary none walk position (.check name body)
        cases dispatched : walk.dispatch itinerary position (.check name body) with
        | mk failure moved =>
          rw [dispatched] at kept free
          cases failure with
          | some why =>
            exact .inl ⟨[body], _, .raise (.here walk) next free, by simp⟩
          | none =>
            rcases ih kept with ⟨asked, ending, comes, few⟩ | ⟨asked, ⟨passes, stands⟩, rfl⟩
            · exact .inl ⟨body :: asked, ending, comes.on next free, Nat.succ_le_succ few⟩
            · exact .inr ⟨body :: asked, .check (.on next free passes) stands, rfl⟩

end Walk

namespace Workflow

variable {workflow : Workflow World} {plan : Plan World}

/-- The route that starts where a walk stands leads to the procedure that the walk stands on. -/
theorem StandsBehind.leads {route : Route World} {walk : Walk World}
    (stands : workflow.StandsBehind plan route walk) (made : plan.MadeFor workflow)
    (filled : ∀ procedure ∈ workflow.procedures, procedure.name ≠ "") :
    walk.OnList workflow.procedures ∧
      route = Plan.routeAt plan.procedures walk.progress.cursor := by
  rw [made.procedures]
  cases stands with
  | start sections world =>
    exact ⟨Walk.onList_start _ sections world, made.start_eq_routeAt filled⟩
  | @action before position name body next indexed stood there =>
    have distinct := Procedure.nodup_names_of_validate _ made.accepted
    have onList : before.OnList workflow.itinerary.procedures := by
      refine ⟨indexed, ?_⟩
      intro other here
      obtain rfl := Option.some.inj (stood.symm.trans here)
      exact (List.getElem?_eq_some_iff.mp there).1
    obtain ⟨events, moved⟩ := Walk.continueTo_eq workflow.itinerary before indexed position
      (Successor.ofNext next)
    refine ⟨onList.continueTo distinct position _, ?_⟩
    rw [moved]
    exact made.routeOf_eq_routeAt filled position name body next there

/-- A route of a plan leads where a walk without a ceiling goes from the same point on, on a
record that stands for the values in the channels. A walk that asks `bodies` until it comes to
something is matched by a resolution that asks them too, on the plan's own world and values,
and comes to the same, unless the ceiling is less than their number. A walk that asks as many
as the ceiling says and goes on to one more is matched by a resolution that asks these and
fails. Every walk does one or the other.

Proof: from the start and behind an action the route leads to the procedure under the cursor.
A check that answers is followed to the position of the answer by both, one counted check
after the other, so a way of checks is followed by induction; at its end the plan reads off
what the walk stands on. -/
theorem resolve_as_walk (workflow : Workflow World) (plan : Plan World)
    (planned : workflow.plan = .ok plan)
    (filled : ∀ procedure ∈ workflow.procedures, procedure.name ≠ "")
    (equal : Value → Value → Prop)
    (fixed : ∀ name body, .check name body ∈ workflow.procedures → body.GoesBy equal)
    (route : Route World) (walk : Walk World) (stands : workflow.StandsBehind plan route walk)
    (flat : Flat) (nested : Flat.Nested) (decoded : plan.channels.decode flat = .ok nested)
    (same : equal walk.sections.toValue nested.toValue) (state : World) :
    (∀ bodies ending, walk.ComesTo (workflow.itinerary.withCeiling none) bodies ending →
      (∀ limit ∈ workflow.options.ceiling, bodies.length ≤ limit) →
      ∀ patience, bodies.length ≤ patience → plan.resolve patience flat route state =
        (ending, worldBehind plan.models nested.toValue bodies state)) ∧
    (∀ limit bodies, workflow.options.ceiling = some limit →
      walk.ComesToCheck (workflow.itinerary.withCeiling none) bodies → bodies.length = limit →
      ∀ patience, limit ≤ patience → plan.resolve patience flat route state =
        (.failed (.iterationLimit limit),
          worldBehind plan.models nested.toValue bodies state)) ∧
    ∀ number,
      (∃ bodies ending, walk.ComesTo (workflow.itinerary.withCeiling none) bodies ending ∧
        bodies.length ≤ number) ∨
      ∃ bodies, walk.ComesToCheck (workflow.itinerary.withCeiling none) bodies ∧
        bodies.length = number := by
  have made := Plan.madeFor_of_plan workflow plan planned
  have matching : Plan.Matches workflow plan (workflow.itinerary.withCeiling none) equal :=
    ⟨made, rfl, fixed⟩
  obtain ⟨onList, leads⟩ := stands.leads made filled
  refine ⟨?_, ?_, ?_⟩
  · intro bodies ending comes within patience enough
    obtain ⟨left, rfl⟩ := Nat.exists_eq_add_of_le' enough
    rw [leads, Plan.resolve_eq_resume decoded]
    exact matching.resume_comesTo comes onList same (made.ceiling ▸ within) left state
  · intro limit bodies ceiling comes few patience enough
    subst few
    obtain ⟨left, rfl⟩ := Nat.exists_eq_add_of_le' enough
    rw [leads, Plan.resolve_eq_resume decoded]
    exact matching.resume_comesToCheck comes onList same (made.ceiling.trans ceiling) left state
  · exact onList.comes (Procedure.nodup_names_of_validate _ made.accepted)

/-- A workflow that starts with two checks, which note that they were asked, and goes on to an
action. -/
def checkedTwice (ceiling : Option Nat) : Workflow (List String) :=
  withList noFields ceiling
    [.check "first" (fun _ _ world => (.ok (.text "second"), world ++ ["first"])),
      .check "second" (fun _ _ world => (.ok (.text "last"), world ++ ["second"])),
      .action "last" (fun _ record world => (.ok record, world)) (some endName)]

/-- Two checks are asked under a ceiling of two and lead to the action; under a ceiling of one
only the first is. -/
theorem resolve_as_walk_twice :
    (∃ plan, (checkedTwice (some 2)).plan = .ok plan ∧ plan.resolve 2 [] plan.start [] =
      (.finished (.node "last"), ["first", "second"])) ∧
    ∃ plan, (checkedTwice (some 1)).plan = .ok plan ∧ plan.resolve 1 [] plan.start [] =
      (.failed (.iterationLimit 1), ["first"]) := by
  have filled : ∀ ceiling, ∀ procedure ∈ (checkedTwice ceiling).procedures,
      procedure.name ≠ "" := by
    intro ceiling
    simp [checkedTwice, Procedure.name]
  have fixed : ∀ ceiling name body, .check name body ∈ (checkedTwice ceiling).procedures →
      body.GoesBy Eq := by
    intro ceiling name body member record other same models others world state
    simp only [checkedTwice, procedures_withList, List.mem_cons, Procedure.check.injEq,
      List.not_mem_nil, or_false, reduceCtorEq] at member
    rcases member with ⟨-, rfl⟩ | ⟨-, rfl⟩ <;> rfl
  constructor
  · obtain ⟨comesTo, -, -⟩ := resolve_as_walk (checkedTwice (some 2)) _ rfl (filled _) Eq (fixed _)
      _ _ (.start ⟨.mapping [], .mapping []⟩ []) [] ⟨[], []⟩ rfl rfl []
    exact ⟨_, rfl, comesTo _ _ (.action (.on rfl rfl (.on rfl rfl (.here _))) rfl) (by decide) 2
      (Nat.le_refl 2)⟩
  · obtain ⟨-, cutOff, -⟩ := resolve_as_walk (checkedTwice (some 1)) _ rfl (filled _) Eq (fixed _)
      _ _ (.start ⟨.mapping [], .mapping []⟩ []) [] ⟨[], []⟩ rfl rfl []
    exact ⟨_, rfl, cutOff 1 _ rfl (.check (.on rfl rfl (.here _)) rfl) rfl 1 (Nat.le_refl 1)⟩

end Workflow
end Stepwise
