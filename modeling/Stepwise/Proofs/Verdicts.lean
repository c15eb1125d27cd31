import Mathlib.Algebra.Group.Int.Defs
import Stepwise.Proofs.Reordered
import Stepwise.Proofs.Returned
import Stepwise.Proofs.Simulation

/-!
# What becomes of a returned value

A workflow of one action, followed without a ceiling, ends with a judgement about the value
that the action returned. A walk takes both sections over and checks the output that it got;
it fails if one of them cannot be looked up. A run of the plan checks the output that the
channels are led to: sections may be missing or empty, declared fields that are missing are
null, a list field may keep what it held if that is equal, and a value in the place of a
section is refused.

So both agree about what is no mapping, and about an output that is what the channels are led
to. They differ where the schema tells a missing field from null.
-/

namespace Stepwise

open Entries (Named isExact_text isExact_of_lawful)

variable {World : Type}

/-- A key without sets. The members of a copied set may be read in another order. -/
inductive Key.Orderly : Key → Prop
  | null : Key.Orderly .null
  | bool (b : Bool) : Key.Orderly (.bool b)
  | int (n : Int) : Key.Orderly (.int n)
  | real (x : Binary64) : Key.Orderly (.real x)
  | text (s : String) : Key.Orderly (.text s)
  | tuple {items : List Key} (parts : ∀ item ∈ items, Key.Orderly item) :
      Key.Orderly (.tuple items)
  | replacement {held : Key} (inside : Key.Orderly held) : Key.Orderly (.replacement held)

/-- A value without sets. -/
inductive Value.Orderly : Value → Prop
  | null : Value.Orderly .null
  | bool (b : Bool) : Value.Orderly (.bool b)
  | int (n : Int) : Value.Orderly (.int n)
  | real (x : Binary64) : Value.Orderly (.real x)
  | text (s : String) : Value.Orderly (.text s)
  | list {items : List Value} (parts : ∀ item ∈ items, Value.Orderly item) :
      Value.Orderly (.list items)
  | tuple {items : List Value} (parts : ∀ item ∈ items, Value.Orderly item) :
      Value.Orderly (.tuple items)
  | mapping {entries : List (Key × Value)} (keys : ∀ entry ∈ entries, entry.1.Orderly)
      (values : ∀ entry ∈ entries, Value.Orderly entry.2) : Value.Orderly (.mapping entries)
  | replacement {held : Value} (inside : Value.Orderly held) : Value.Orderly (.replacement held)

/-- Entries that are copied as they are. -/
def OrderlyEntries (entries : List (Key × Value)) : Prop := ∀ entry ∈ entries, entry.2.Orderly

/-- What is no mapping has no part under a name. -/
theorem Value.exists_child_error (value : Value) (name : String)
    (noMapping : ∀ record, value ≠ .mapping record) :
    ∃ why, value.child (.text name) = .error why := by
  cases value with
  | mapping record => exact absurd rfl (noMapping record)
  | _ => exact ⟨_, rfl⟩

/-- An action whose record cannot be taken over fails as looking up the section does. -/
theorem Walk.dispatch_unadopted (itinerary : Itinerary World) (walk : Walk World)
    (position : Nat) (name : String) (body : Body World) (next : Option String)
    (returned : Value) (after : World)
    (returns : body itinerary.models walk.sections.toValue walk.world = (.ok returned, after))
    (why : Failure)
    (lacks : returned.child (.text Section.input.name) = .error why ∨
      ∃ input, returned.child (.text Section.input.name) = .ok input ∧
        returned.child (.text Section.output.name) = .error why) :
    ∃ stopped, walk.dispatch itinerary position (.action name body next) = (some why, stopped) := by
  unfold dispatch
  dsimp only
  rw [returns]
  dsimp only
  unfold adopt
  rcases lacks with noInput | ⟨input, hasInput, noOutput⟩
  · rw [noInput]
    exact ⟨_, rfl⟩
  · rw [hasInput]
    dsimp only
    rw [noOutput]
    exact ⟨_, rfl⟩

/-- Behind a single procedure that does not go on to itself nothing follows. -/
theorem Plan.cursorBehind_single (procedure : Procedure World) (successor : Successor)
    (onward : successor ≠ .named procedure.name) :
    cursorBehind [procedure] 0 successor = none := by
  cases successor with
  | finish => rfl
  | following => rfl
  | named name =>
    have apart : procedure.name ≠ name := fun same => onward (same ▸ rfl)
    simp [cursorBehind, Procedure.index, Entries.ofWrites, Entries.merge, Entries.insert,
      Entries.get?, apart]

namespace Flow

variable {plan : Plan World} {name : String} {body : Body World} {next : Option String}

/-- A run fails as its first node does. -/
theorem run_of_failed_node (start : plan.start = .straight (.node name))
    (found : Procedure.find? plan.procedures name = some (.action name body next))
    (unbounded : plan.ceiling = none) (patience : Nat) (initial flat : Flat) (world after : World)
    (written : plan.channels.writeAll [] initial = .ok flat) (why : Failure)
    (failed : nodeUpdates plan body 0 flat world = (.error why, after)) :
    ∃ stopped, run plan patience initial world = (.failed why, stopped) := by
  have unread : readsBehind plan [.values flat] = 0 := congrArg Route.reads start
  have fails : runNode plan patience name ⟨flat, [.values flat], world⟩ =
      (.failed why, ⟨flat, [.values flat], after⟩) := by
    rw [runNode, found]
    dsimp only
    rw [unread, failed]
  rw [run, written]
  dsimp only
  rw [start, unbounded, Plan.resolve, Option.getD_none, unboundedLimit]
  dsimp only
  rw [runFrom, fails]
  exact ⟨_, rfl⟩

/-- A run of one node that leads to the end finishes with what its updates make of the
channels. -/
theorem run_of_last_node (start : plan.start = .straight (.node name))
    (found : Procedure.find? plan.procedures name = some (.action name body next))
    (ends : plan.routeOf name = .straight .finish) (unbounded : plan.ceiling = none)
    (patience : Nat) (initial flat updates result : Flat) (world after : World)
    (written : plan.channels.writeAll [] initial = .ok flat)
    (updated : nodeUpdates plan body 0 flat world = (.ok updates, after))
    (done : plan.channels.writeAll flat updates = .ok result) :
    ∃ flow, run plan patience initial world = (.finished (), flow) ∧
      lastValues? flow.chunks = some result := by
  let reported := emit ⟨flat, [.values flat], after⟩ (.updates name updates)
  let final := emit { reported with flat := result } (.values result)
  have resolved : plan.resolve patience result (plan.routeOf name) after =
      (.finished .finish, after) := by
    rw [ends, Plan.resolve]
  have unread : readsBehind plan [.values flat] = 0 := congrArg Route.reads start
  have moves : runNode plan patience name ⟨flat, [.values flat], world⟩ =
      (.finished .finish, final) := by
    rw [runNode, found]
    dsimp only
    rw [unread, updated]
    dsimp only
    rw [done]
    dsimp only [emit]
    rw [resolved]
    rfl
  refine ⟨final, ?_, lastValues?_emit _ result⟩
  rw [run, written]
  dsimp only
  rw [start, unbounded, Plan.resolve, Option.getD_none, unboundedLimit]
  dsimp only
  rw [runFrom, moves]
  dsimp only
  rw [if_neg (by decide), runFrom]

end Flow

namespace Channels

variable {separator : Separator} {schemas : Schemas} {given : Section → List (Key × Value)}

/-- Every field of a section has a value that its channel can start with. -/
def Startable (separator : Separator) (schemas : Schemas)
    (given : Section → List (Key × Value)) (side : Section) : Prop :=
  ∀ name ∈ (schemas.of side).fieldNames, ∃ value,
    startValue separator schemas given side name = .ok value

/-- A section whose list fields start empty is led to what completes it. -/
theorem led_of_completes {side : Section} {returned full : List (Key × Value)}
    (startable : Startable separator schemas given side)
    (empty : ∀ name ∈ (schemas.of side).fieldNames, isListField separator schemas side name →
      startValue separator schemas given side name = .ok (.list []))
    (completes : Completes (schemas.of side).fieldNames returned full) :
    Led separator schemas given side returned full := by
  refine ⟨completes.named, fun name declared => ?_, completes.others⟩
  obtain ⟨before, starts⟩ := startable name declared
  refine ⟨before, _, starts, ?_, completes.declared name declared⟩
  by_cases list : isListField separator schemas side name
  · obtain rfl := Except.ok.inj (starts.symm.trans (empty name declared list))
    rw [isListField] at list
    rw [ledTo, if_pos list, ListChannel.step_of_empty]
  · rw [isListField] at list
    rw [ledTo, if_neg list]

end Channels

namespace Workflow

/-- What a walk makes of the record that its last action returned: both sections must be
there, and the output must fit its schema. -/
def judged (workflow : Workflow World) (returned : Value) : Attempt Value := do
  let _ ← returned.child (.text Section.input.name)
  let output ← returned.child (.text Section.output.name)
  workflow.accept .output output

/-- A workflow of one action that answers every call with the same value, does not go on to
itself and has no ceiling. -/
structure AnswersWith (workflow : Workflow World) (plan : Plan World) (name : String)
    (body : Body World) (next : Option String) (input : Value) (start : Flat.Nested)
    (returned : Value) : Prop where
  atStart : StartsAt workflow plan name body next [] input start
  onward : Successor.ofNext next ≠ .named name
  unbounded : workflow.options.ceiling = none
  returns : ∀ models record world, ∃ after, body models record world = (.ok returned, after)

namespace AnswersWith

variable {workflow : Workflow World} {plan : Plan World} {name : String} {body : Body World}
  {next : Option String} {input : Value} {start : Flat.Nested} {returned : Value}

/-- The first turn of a walk dispatches the action. -/
theorem turn (answers : AnswersWith workflow plan name body next input start returned)
    (world : World) :
    Walk.turn workflow.itinerary (workflow.walkStart (.mapping start.input) world) =
      .dispatch 0 (.action name body next) := by
  have cursor : (workflow.walkStart (.mapping start.input) world).progress.cursor = some 0 := by
    simp [walkStart, Progress.start, answers.atStart.starts]
  have below : Walk.atCeiling workflow.itinerary.options
      (workflow.walkStart (.mapping start.input) world).progress = none := by
    rw [Walk.atCeiling, itinerary, answers.unbounded]
    rfl
  have there : workflow.itinerary.procedures[0]? = some (.action name body next) := by
    rw [itinerary, answers.atStart.starts]
    rfl
  rw [Walk.turn, cursor]
  dsimp only
  rw [below, there]

/-- The action either fails to hand its record over, or the walk is over behind it. -/
theorem dispatch (answers : AnswersWith workflow plan name body next input start returned)
    (world : World) :
    (∃ why stopped, workflow.judged returned = .error why ∧
      (workflow.walkStart (.mapping start.input) world).dispatch workflow.itinerary 0
        (.action name body next) = (some why, stopped)) ∨
    ∃ moved, workflow.judged returned = workflow.accept .output moved.sections.output ∧
      moved.progress.cursor = none ∧
      (workflow.walkStart (.mapping start.input) world).dispatch workflow.itinerary 0
        (.action name body next) = (none, moved) := by
  obtain ⟨after, returns⟩ := answers.returns workflow.itinerary.models
    (workflow.walkStart (.mapping start.input) world).sections.toValue world
  have unadopted := Walk.dispatch_unadopted workflow.itinerary
    (workflow.walkStart (.mapping start.input) world) 0 name body next returned after returns
  cases hasInput : returned.child (.text Section.input.name) with
  | error why =>
    obtain ⟨stopped, failed⟩ := unadopted why (.inl hasInput)
    refine .inl ⟨why, stopped, ?_, failed⟩
    rw [judged, hasInput]
    rfl
  | ok taken =>
    cases hasOutput : returned.child (.text Section.output.name) with
    | error why =>
      obtain ⟨stopped, failed⟩ := unadopted why (.inr ⟨taken, hasInput, hasOutput⟩)
      refine .inl ⟨why, stopped, ?_, failed⟩
      rw [judged, hasInput, hasOutput]
      rfl
    | ok output =>
      obtain ⟨events, dispatched⟩ := Walk.dispatch_action workflow.itinerary _ rfl 0 name body next
        returned after returns taken output hasInput hasOutput
      have behind : Plan.cursorBehind workflow.itinerary.procedures 0 (Successor.ofNext next) =
          none := by
        rw [itinerary, answers.atStart.starts]
        exact Plan.cursorBehind_single (.action name body next) _ answers.onward
      refine .inr ⟨_, ?_, behind, dispatched⟩
      rw [judged, hasInput, hasOutput]
      rfl

/-- A walk ends as the returned record is judged. -/
theorem walk (answers : AnswersWith workflow plan name body next input start returned)
    (patience : Nat) (world : World) :
    (workflow.walk (patience + 1) input world).1 = .ofAttempt (workflow.judged returned) := by
  have made := Plan.madeFor_of_plan workflow plan answers.atStart.planned
  rw [Workflow.walk, made.accepted, answers.atStart.accepted]
  dsimp only
  have itinerary : (workflow.withSection .input (.mapping start.input)).itinerary =
      workflow.itinerary := rfl
  have begins : Walk.mk (workflow.withSection .input (.mapping start.input)).sections
      (Progress.start workflow.procedures) [] world =
        workflow.walkStart (.mapping start.input) world := rfl
  rw [itinerary, begins]
  have first := answers.turn world
  rcases answers.dispatch world with
    ⟨why, stopped, refused, dispatched⟩ | ⟨moved, accepted, isOver, dispatched⟩
  · rw [Walk.run_of_failed _ _ _ _ _ first why dispatched, refused]
    rfl
  · have ended : Walk.turn workflow.itinerary moved = .over (.finished ()) moved := by
      rw [Walk.turn, isOver]
    have same : (workflow.withSection .input (.mapping start.input)).accept .output
        moved.sections.output = workflow.accept .output moved.sections.output := rfl
    rw [Walk.run_of_moved _ _ _ _ _ first dispatched,
      Walk.run_of_over _ _ _ _ ended, accepted]
    dsimp only
    rw [closeWalk, same]
    cases workflow.accept .output moved.sections.output <;> rfl

/-- Where every field can start, a run of the plan comes to the action, whose channels all hold
something, and those of the fields their start values. -/
theorem exists_start (answers : AnswersWith workflow plan name body next input start returned)
    (startable : ∀ side,
      Channels.Startable workflow.separator workflow.schemas start.get side) :
    ∃ initial flat decoded,
      plan.channels.encode (workflow.withSection .input (.mapping start.input)).sections.toValue =
        .ok initial ∧
      plan.channels.writeAll [] initial = .ok flat ∧ plan.channels.decode flat = .ok decoded ∧
      (∀ key ∈ plan.channels.keys, ∃ value, Entries.get? key flat = some value) ∧
      ∀ side, ∀ field ∈ (workflow.schemas.of side).fieldNames, ∃ value,
        Channels.startValue workflow.separator workflow.schemas start.get side field =
            .ok value ∧
          Entries.get? (Flat.key workflow.separator side [field]) flat = some value := by
  have made := Plan.madeFor_of_plan workflow plan answers.atStart.planned
  have clear := answers.atStart.clear
  obtain ⟨initial, encoded, spread⟩ := answers.atStart.encoded workflow plan made rfl rfl rfl
  obtain ⟨flat, written, fields, overflow⟩ :=
    Channels.exists_writeAll_initial clear initial spread startable
  have filled := spread.filled answers.atStart.named
  obtain ⟨decoded, collected, -⟩ :=
    Channels.collected_of_decode clear ⟨overflow, filled.named, filled.undeclared⟩
  rw [made.channels]
  refine ⟨initial, flat, decoded, made.channels ▸ encoded, written, collected, ?_, fields⟩
  intro key known
  rcases (Channels.mem_keys_iff key).mp known with ⟨side, field, declared, rfl⟩ | ⟨side, rfl⟩
  · obtain ⟨value, -, found⟩ := fields side field declared
    exact ⟨value, found⟩
  · exact ⟨_, overflow side⟩

/-- Behind the action a run of the plan is at its end. -/
theorem ends (answers : AnswersWith workflow plan name body next input start returned) :
    plan.routeOf name = .straight .finish := by
  have made := Plan.madeFor_of_plan workflow plan answers.atStart.planned
  have there : workflow.procedures[0]? = some (.action name body next) := by
    rw [answers.atStart.starts]
    rfl
  have filled : ∀ procedure ∈ workflow.procedures, procedure.name ≠ "" := by
    intro procedure member
    rw [answers.atStart.starts] at member
    obtain rfl := List.mem_singleton.mp member
    exact answers.atStart.filled
  have behind : Plan.cursorBehind workflow.procedures 0 (Successor.ofNext next) = none := by
    rw [answers.atStart.starts]
    exact Plan.cursorBehind_single (.action name body next) _ answers.onward
  rw [made.routeOf_eq_routeAt filled 0 name body next there, behind]
  rfl

/-- What the action's value makes of the channels. -/
theorem nodeUpdates (answers : AnswersWith workflow plan name body next input start returned)
    (flat : Flat) (decoded : Flat.Nested) (held : plan.channels.decode flat = .ok decoded)
    (world : World) : ∃ after, Flow.nodeUpdates plan body 0 flat world =
      ((plan.channels.encode returned).map (plan.channels.updates flat), after) := by
  obtain ⟨after, returns⟩ := answers.returns plan.models decoded.toValue world
  refine ⟨after, ?_⟩
  rw [Flow.nodeUpdates, Channels.decodeAfter_zero, held]
  dsimp only
  rw [returns]

/-- A run of the plan fails where a field cannot start. -/
theorem execute_of_not_startable
    (answers : AnswersWith workflow plan name body next input start returned)
    (unstartable : ¬ ∀ side,
      Channels.Startable workflow.separator workflow.schemas start.get side)
    (checks : Nat) (world : World) :
    ∃ why, (workflow.execute checks input world).1 = .failed why := by
  simp only [Channels.Startable, not_forall] at unstartable
  obtain ⟨side, field, declared, refused⟩ := unstartable
  cases starts : Channels.startValue workflow.separator workflow.schemas start.get side field with
  | ok value => exact absurd ⟨value, starts⟩ refused
  | error why =>
    exact ⟨_, (answers.atStart.execute_unstartable ⟨side, field, declared, why, starts⟩ checks
      world).2⟩

/-- A run of the plan refuses what has no sections. -/
theorem execute_of_no_sections
    (answers : AnswersWith workflow plan name body next input start returned)
    (without : Channels.sectionsOf? returned = none) (checks : Nat) (world : World) :
    ∃ why, (workflow.execute checks input world).1 = .failed why := by
  by_cases startable : ∀ side,
      Channels.Startable workflow.separator workflow.schemas start.get side
  · have made := Plan.madeFor_of_plan workflow plan answers.atStart.planned
    obtain ⟨begins, found⟩ := start_of_action workflow plan made name answers.atStart.filled body
      next [] answers.atStart.starts
    obtain ⟨initial, flat, decoded, encoded, written, held, -, -⟩ :=
      answers.exists_start startable
    obtain ⟨after, updated⟩ := answers.nodeUpdates flat decoded held world
    rw [Channels.encode_eq_sectionsOf?, without] at updated
    obtain ⟨stopped, ran⟩ := Flow.run_of_failed_node begins found
      (made.ceiling.trans answers.unbounded) checks initial flat world after written .noOperation
      updated
    obtain ⟨warnings, run⟩ := workflow.execute_eq_runPlan plan answers.atStart.planned input _
      answers.atStart.accepted checks world
    rw [run, runPlan, encoded]
    dsimp only
    rw [ran]
    exact ⟨_, rfl⟩
  · exact answers.execute_of_not_startable startable checks world

/-- A run of the plan judges the output that the channels are led to by the returned record. -/
theorem execute_of_sections
    (answers : AnswersWith workflow plan name body next input start returned)
    (startable : ∀ side,
      Channels.Startable workflow.separator workflow.schemas start.get side)
    (given : Flat.Nested) (sections : Channels.sectionsOf? returned = some given)
    (named : ∀ side, Named (given.get side)) (checks : Nat) (world : World) :
    ∃ full, Channels.Led workflow.separator workflow.schemas start.get .output given.output full ∧
      (workflow.execute checks input world).1 =
        .ofAttempt (workflow.accept .output (.mapping full)) := by
  have made := Plan.madeFor_of_plan workflow plan answers.atStart.planned
  have clear := answers.atStart.clear
  obtain ⟨begins, found⟩ := start_of_action workflow plan made name answers.atStart.filled body
    next [] answers.atStart.starts
  obtain ⟨initial, flat, decoded, encoded, written, held, complete, fields⟩ :=
    answers.exists_start startable
  obtain ⟨target, spreadOut, spread⟩ := Channels.spread_of_encode clear
    (Channels.hasSections_toValue given named)
  rw [made.channels] at complete
  obtain ⟨result, collected, done, decodedLast, led⟩ :=
    Channels.led_of_writeAll_updates clear named spread fields complete
  obtain ⟨after, updated⟩ := answers.nodeUpdates flat decoded held world
  have taken : (Channels.ofSchemas workflow.separator workflow.schemas).encode returned =
      .ok target := by
    rw [Channels.encode_eq_sectionsOf?, sections]
    exact spreadOut
  rw [made.channels, taken] at updated
  obtain ⟨flow, ran, last⟩ := Flow.run_of_last_node begins found answers.ends
    (made.ceiling.trans answers.unbounded) checks initial flat _ result world after written
    updated (made.channels ▸ done)
  have closing : plan.channels.decodeAfter (Flow.readsBehind plan flow.chunks)
      ((Flow.lastValues? flow.chunks).getD initial) = .ok collected := by
    rw [last, made.channels, clear.decodeAfter]
    exact decodedLast
  obtain ⟨warnings, run⟩ := workflow.execute_eq_runPlan plan answers.atStart.planned input _
    answers.atStart.accepted checks world
  obtain ⟨ending, -, -⟩ := (workflow.withSection .input (.mapping start.input)).closeFlow_of_decode
    plan initial (warnings ++
      (workflow.withSection .input (.mapping start.input)).stepEvents flow.chunks) flow collected
    closing
  refine ⟨collected.output, led .output, ?_⟩
  rw [run, runPlan, encoded]
  dsimp only
  rw [ran]
  dsimp only
  exact ending

end AnswersWith

/-- A value in which both sections can be looked up, as mappings, of which the output is copied
as it is. -/
structure HasBoth (value : Value) (given : Flat.Nested) : Prop where
  sections : ∀ side, value.child (.text (Section.name side)) = .ok (.mapping (given.get side))
  named : ∀ side, Named (given.get side)
  orderly : OrderlyEntries given.output

/-- Sections that can be looked up are read as they are. -/
theorem HasBoth.sectionsOf? {value : Value} {given : Flat.Nested} (both : HasBoth value given) :
    Channels.sectionsOf? value = some given := by
  by_cases isMapping : ∃ record, value = .mapping record
  · obtain ⟨record, rfl⟩ := isMapping
    have reads : ∀ side, Channels.entriesOf? (Flat.sectionOf record side) =
        some (given.get side) := by
      intro side
      have there := both.sections side
      simp only [Value.child, Value.key?] at there
      split at there
      · next part found =>
        rw [Flat.sectionOf, found, Option.getD_some, Except.ok.inj there]
        rfl
      · cases there
    rw [Channels.sectionsOf?, reads .input, reads .output]
    rfl
  · obtain ⟨why, lacks⟩ := Value.exists_child_error value Section.input.name
      fun record same => isMapping ⟨record, same⟩
    have there := both.sections .input
    rw [lacks] at there
    cases there

/-- A walk judges the output of a record that has both sections as it is. -/
theorem HasBoth.judged {value : Value} {given : Flat.Nested} (both : HasBoth value given)
    (workflow : Workflow World) :
    workflow.judged value = workflow.accept .output (.mapping given.output) := by
  rw [Workflow.judged, both.sections .input, both.sections .output]
  rfl

/-- What becomes of the value that a single action returns. A walk takes over both sections
of it and checks the output. A run of the plan fails where a field cannot start or where the
value has no sections; otherwise it checks the output that the channels are led to by it, in
which every declared field that was not returned is null. So both agree about a value that is
no mapping, and about a record that has both sections and whose output is just what the
channels are led to.

Proof: both runs dispatch the action once and are over behind it. The channels hold something
under every key by then, so that no update is refused, whatever the action returned, and each
field is collected as its own channel is led. The order of the entries is not looked at when
the output is checked. -/
theorem verdicts (workflow : Workflow World) (plan : Plan World)
    (planned : workflow.plan = .ok plan) (quiet : plan.channels.diagnostics = [])
    (filled : ∀ side, ∀ field ∈ (workflow.schemas.of side).fieldNames, field ≠ "")
    (free : ∀ side, ∀ field ∈ (workflow.schemas.of side).fieldNames,
      field ≠ Channels.overflowField)
    (name : String) (nameFilled : name ≠ "") (body : Body World) (next : Option String)
    (single : workflow.procedures = [.action name body next])
    (onward : Successor.ofNext next ≠ .named name) (unbounded : workflow.options.ceiling = none)
    (output : List (Key × Value)) (container : workflow.sections.output = .mapping output)
    (outputNamed : Named output) (returned : Value)
    (returns : ∀ models record world, ∃ after, body models record world = (.ok returned, after))
    (input data : Value) (accepted : workflow.accept .input input = .ok data)
    (patience checks : Nat) (world : World) :
    ∃ start : Flat.Nested, data = .mapping start.input ∧ start.output = output ∧
      (workflow.walk (patience + 1) input world).1 = .ofAttempt (workflow.judged returned) ∧
      ((¬ ∀ side, Channels.Startable workflow.separator workflow.schemas start.get side) ∨
          Channels.sectionsOf? returned = none →
        ∃ why, (workflow.execute checks input world).1 = .failed why) ∧
      ((∀ side, Channels.Startable workflow.separator workflow.schemas start.get side) →
        (∀ given, Channels.sectionsOf? returned = some given →
          (∀ side, Named (given.get side)) → OrderlyEntries given.output →
          ∃ full, Channels.Led workflow.separator workflow.schemas start.get .output given.output
              full ∧
            (workflow.execute checks input world).1 =
              .ofAttempt (workflow.accept .output (.mapping full))) ∧
        ((∀ record, returned ≠ .mapping record) ∨
            (∃ given, HasBoth returned given ∧ Channels.Led workflow.separator workflow.schemas
              start.get .output given.output given.output) →
          Ending.Agree (workflow.execute checks input world).1
            (workflow.walk (patience + 1) input world).1)) := by
  obtain ⟨entries, rfl, entriesNamed⟩ := workflow.accept_eq_mapping .input input data accepted
  have clear : Channels.ClearNames workflow.separator workflow.schemas := by
    rw [(Plan.madeFor_of_plan workflow plan planned).channels,
      Channels.diagnostics_eq_nil_iff] at quiet
    exact ⟨quiet, filled, free⟩
  have named : ∀ side, Named (Flat.Nested.get ⟨entries, output⟩ side) := by
    intro side
    cases side
    · exact entriesNamed
    · exact outputNamed
  have limited : workflow.options.ceiling ≠ some 0 := by simp [unbounded]
  have answers : AnswersWith workflow plan name body next input ⟨entries, output⟩ returned :=
    ⟨⟨planned, single, nameFilled, limited, accepted, container, named, clear⟩, onward, unbounded,
      returns⟩
  have walked := answers.walk patience world
  refine ⟨⟨entries, output⟩, rfl, rfl, walked, ?_, fun startable => ⟨?_, ?_⟩⟩
  · rintro (unstartable | without)
    · exact answers.execute_of_not_startable unstartable checks world
    · exact answers.execute_of_no_sections without checks world
  · intro given sections givenNamed _
    exact answers.execute_of_sections startable given sections givenNamed checks world
  · rintro (noMapping | ⟨given, both, exact⟩)
    · have without : Channels.sectionsOf? returned = none := by
        cases returned with
        | mapping record => exact absurd rfl (noMapping record)
        | _ => rfl
      obtain ⟨why, failed⟩ := answers.execute_of_no_sections without checks world
      obtain ⟨cause, lacks⟩ := Value.exists_child_error returned Section.input.name noMapping
      have refused : workflow.judged returned = .error cause := by
        rw [judged, lacks]
        rfl
      rw [failed, walked, refused]
      exact .failed why cause
    · obtain ⟨full, led, ran⟩ := answers.execute_of_sections startable given both.sectionsOf?
        both.named checks world
      rw [walked, both.judged workflow, ran]
      exact workflow.agree_accept_perm .output full given.output led.named (led.perm exact)

/-- A workflow of one action that returns the same value whatever it is given. -/
def answering (name : String) (schemas : Schemas) (returned : Value) : Workflow Unit :=
  withList schemas none [.action name (fun _ _ world => (.ok returned, world)) none]

/-- A record that is returned with a list in the output. -/
def returnedItems : Flat.Nested := ⟨[], [(.text "items", .list [.int 1])]⟩

/-- A workflow whose action returns a list. -/
def answeringItems : Workflow Unit :=
  answering "first" ⟨Channels.uniformSchema .any [], Channels.uniformSchema (.list .any) ["items"]⟩
    returnedItems.toValue

/-- The only field that is declared is a list in the output. -/
theorem fieldNames_answeringItems (side : Section) (field : String)
    (declared : field ∈ (answeringItems.schemas.of side).fieldNames) :
    side = .output ∧ field = "items" := by
  cases side with
  | input =>
    have none : (Channels.uniformSchema .any []).fieldNames = [] :=
      Channels.fieldNames_uniformSchema .any []
    exact absurd (none ▸ declared) List.not_mem_nil
  | output =>
    have only : (Channels.uniformSchema (.list .any) ["items"]).fieldNames = ["items"] :=
      Channels.fieldNames_uniformSchema (.list .any) ["items"]
    exact ⟨rfl, List.mem_singleton.mp (only ▸ declared)⟩

/-- A list that is returned in a record with both sections is the result of either run. -/
theorem verdicts_items :
    (answeringItems.walk 1 (.mapping []) ()).1 =
        .finished (.mapping [(.text "items", .list [.int 1])]) ∧
      Ending.Agree (answeringItems.execute 1 (.mapping []) ()).1
        (answeringItems.walk 1 (.mapping []) ()).1 := by
  have notEmpty : ∀ side, ∀ field ∈ (answeringItems.schemas.of side).fieldNames,
      field ≠ "" ∧ field ≠ Channels.overflowField := by
    intro side field declared
    obtain ⟨-, rfl⟩ := fieldNames_answeringItems side field declared
    decide
  have named : ∀ value : Value, Named [(.text "items", value)] := fun _ => ⟨by simp, by simp⟩
  have both : HasBoth returnedItems.toValue returnedItems := by
    refine ⟨fun side => ?_, fun side => ?_, ?_⟩
    · cases side <;> rfl
    · cases side
      · exact Entries.named_nil
      · exact named _
    · have orderly : (Value.list [.int 1]).Orderly := .list (by simpa using Value.Orderly.int 1)
      simpa [OrderlyEntries, returnedItems] using orderly
  obtain ⟨start, -, output, -, -, runs⟩ := verdicts answeringItems _ rfl (by decide +kernel)
    (fun side field declared => (notEmpty side field declared).1)
    (fun side field declared => (notEmpty side field declared).2) "first" (by decide) _ none rfl
    (by decide) rfl [(.text "items", .null)] rfl (named _) returnedItems.toValue
    (fun _ _ world => ⟨world, rfl⟩) (.mapping []) (.mapping []) rfl 0 1 ()
  have isList : Channels.isListField answeringItems.separator answeringItems.schemas .output
      "items" := by
    rw [Channels.isListField]
    decide +kernel
  have empty : ∀ field ∈ (answeringItems.schemas.of .output).fieldNames,
      Channels.startValue answeringItems.separator answeringItems.schemas start.get .output
        field = .ok (.list []) := by
    intro field declared
    obtain ⟨-, rfl⟩ := fieldNames_answeringItems .output field declared
    rw [Channels.startValue_of_list .output "items" isList,
      show start.get .output = start.output from rfl, output]
    rfl
  have startable : ∀ side, Channels.Startable answeringItems.separator answeringItems.schemas
      start.get side := by
    intro side field declared
    obtain ⟨rfl, -⟩ := fieldNames_answeringItems side field declared
    exact ⟨_, empty field declared⟩
  have completes : Channels.Completes (answeringItems.schemas.of .output).fieldNames
      returnedItems.output returnedItems.output := by
    refine ⟨both.named .output, fun field declared => ?_, fun _ _ => rfl⟩
    obtain ⟨-, rfl⟩ := fieldNames_answeringItems .output field declared
    rfl
  refine ⟨rfl, (runs startable).2 (.inr ⟨returnedItems, both, ?_⟩)⟩
  exact Channels.led_of_completes (startable .output) (fun field declared _ => empty field declared)
    completes

/-- A schema that leaves extras out, of fields with their shapes and defaults. -/
def schemaWithDefaults (fields : List (String × Shape × Option Value)) : Schema :=
  ⟨⟨"M", .ignore, false⟩,
    fields.map fun field => (⟨field.1, none, none, none, field.2.2⟩, field.2.1)⟩

/-- A workflow of an optional field in the output, whose action returns no output. -/
def answeringNoOutput : Workflow Unit :=
  answering "first" ⟨schemaWithDefaults [], schemaWithDefaults [("x", .optional .int, none)]⟩
    (.ofFields [("input", .mapping [])])

/-- Only a walk has a result, though the plan is made without diagnostics. -/
def OnlyWalkAccepts (workflow : Workflow Unit) : Prop :=
  workflow.plan.toOption.map (·.diagnostics) = some [] ∧
    (∃ result, (workflow.walk 1 (.mapping []) ()).1 = .finished result) ∧
    ∃ why, (workflow.execute 1 (.mapping []) ()).1 = .failed why

/-- What the two runs end as tells whether only a walk has a result. -/
theorem onlyWalkAccepts (workflow : Workflow Unit)
    (quiet : workflow.plan.toOption.map (·.diagnostics) = some [])
    (walked : (workflow.walk 1 (.mapping []) ()).1.hasResult? = some true)
    (ran : (workflow.execute 1 (.mapping []) ()).1.hasResult? = some false) :
    OnlyWalkAccepts workflow :=
  ⟨quiet, Ending.exists_result _ walked, Ending.exists_failure _ ran⟩

/-- Of the values that an action may return, one that lacks a field with a default and one
with a number in the place of the input have a result in a walk only, and one that lacks an
output of optional fields in a run of the plan only.

Further, only a walk has a result where a declared name is empty, where a number is the key
that a declared name spells, where an input is not checked and cannot start, where the action
has no name, and where a list starts equal to the returned one but is read otherwise. -/
theorem verdicts_differ :
    (OnlyWalkAccepts (answering "first"
        ⟨schemaWithDefaults [], schemaWithDefaults [("x", .int, some (.int 5))]⟩
        (.ofFields [("input", .mapping []), ("output", .mapping [])])) ∧
      OnlyWalkAccepts (answering "first" ⟨schemaWithDefaults [], schemaWithDefaults []⟩
        (.ofFields [("input", .int 5), ("output", .mapping [])])) ∧
      (∃ why, (answeringNoOutput.walk 1 (.mapping []) ()).1 = .failed why) ∧
      ∃ result, (answeringNoOutput.execute 1 (.mapping []) ()).1 = .finished result) ∧
    OnlyWalkAccepts (answering "first"
      ⟨schemaWithDefaults [], schemaWithDefaults [("", .int, none)]⟩
      (.ofFields [("input", .mapping []), ("output", .mapping [(.text "", .int 5)])])) ∧
    OnlyWalkAccepts (answering "first"
      ⟨schemaWithDefaults [], schemaWithDefaults [("1", .text, some .null)]⟩
      (.ofFields [("input", .mapping []), ("output", .mapping [(.int 1, .int 5)])])) ∧
    OnlyWalkAccepts (answering "first"
      ⟨schemaWithDefaults [("a", .list .any, some (.int 5))], schemaWithDefaults []⟩
      (.ofFields [("input", .mapping []), ("output", .mapping [])])) ∧
    OnlyWalkAccepts (answering ""
      ⟨schemaWithDefaults [], schemaWithDefaults [("x", .int, none)]⟩
      (.ofFields [("input", .mapping []), ("output", .mapping [(.text "x", .int 5)])])) ∧
    OnlyWalkAccepts ((answering "first"
      ⟨schemaWithDefaults [], schemaWithDefaults [("x", .list .int, none)]⟩
      (.ofFields [("input", .mapping []),
        ("output", .mapping [(.text "x", .list [.int (2 ^ 64)])])])).withSection .output
          (.mapping [(.text "x", .list [.real (.ofInt (2 ^ 64))])])) := by
  refine ⟨⟨?_, ?_, Ending.exists_failure _ (by decide +kernel),
    Ending.exists_result _ (by decide +kernel)⟩, ?_, ?_, ?_, ?_, ?_⟩
  all_goals
    apply onlyWalkAccepts <;> decide +kernel

end Workflow
end Stepwise
