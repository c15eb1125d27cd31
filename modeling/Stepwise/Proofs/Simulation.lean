import Stepwise.Proofs.Mirrors
import Stepwise.Proofs.StartStates
import Stepwise.Proofs.Turns

/-!
# A plan follows a walk

A walk keeps the record itself, a run of the plan keeps channels that mirror it. Both
dispatch the same procedures one after the other: the node that comes next is where the
cursor stands, and a chain of checks that the walk dispatches is asked while one route is
resolved. So if bodies do not look at orders, they are called alike.

What is carried along is that the channels mirror the record of the walk and that the
next stop is where the cursor stands.
-/

namespace Stepwise

open Channels (HasFields Mirrors SharpLists ClearNames isListField)
open Entries (Named isExact_text)

variable {World : Type}

/-- A body that answers alike to records that are the same up to order, in worlds that
belong together. -/
def Procedure.InStep (relation : World → World → Prop) (models : Models)
    (procedure : Procedure World) : Prop :=
  ∀ record other world state, record.Rearranged other → relation world state →
    ∃ answer otherAnswer after next, procedure.body models record world = (.ok answer, after) ∧
      procedure.body models other state = (.ok otherAnswer, next) ∧
      answer.Rearranged otherAnswer ∧ relation after next

/-- A value that has both sections, with all their fields. -/
def IsComplete (schemas : Schemas) (value : Value) : Prop :=
  ∃ record given, value = .mapping record ∧ (Entries.keys record).Nodup ∧
    (∀ side, Entries.get? (Key.text side.name) record = some (.mapping (given side))) ∧
    HasFields schemas given

/-- Records with rearranged sections are rearranged. -/
theorem Flat.Nested.toValue_rearranged (nested other : Flat.Nested)
    (related : ∀ side, (Value.mapping (nested.get side)).Rearranged (.mapping (other.get side))) :
    nested.toValue.Rearranged other.toValue :=
  .mapping (List.Perm.refl _)
    (.cons (.of (.same _) (related .input)) (.cons (.of (.same _) (related .output)) .nil))

/-- A record with all its fields is complete as a value. -/
theorem Channels.HasFields.isComplete {schemas : Schemas} {nested : Flat.Nested}
    (complete : HasFields schemas nested.get) : IsComplete schemas nested.toValue := by
  refine ⟨_, nested.get, rfl, by simp [Section.name], fun side => ?_, complete⟩
  cases side <;> rfl

/-- A record that is rearranged to one with all its fields has them too. -/
theorem Channels.HasFields.of_rearranged {schemas : Schemas}
    {given others : Section → List (Key × Value)} (complete : HasFields schemas given)
    (related : ∀ side, (Value.mapping (given side)).Rearranged (.mapping (others side))) :
    HasFields schemas others := by
  refine ⟨fun side => (complete.named side).of_rearranged (related side), ?_⟩
  intro side name declared
  obtain ⟨value, present⟩ := complete.field side name declared
  obtain ⟨other, held, -⟩ := Entries.exists_get?_rearranged name _ _
    (complete.named side).distinct (related side) value present
  exact ⟨other, held⟩

/-- Complete values that are rearranged have rearranged sections. -/
theorem IsComplete.exists_sections {schemas : Schemas} {value other : Value}
    (complete : IsComplete schemas value) (otherComplete : IsComplete schemas other)
    (related : value.Rearranged other) :
    ∃ nested otherRecord otherNested, HasFields schemas (Flat.Nested.get nested) ∧
      (∀ side, value.child (.text (Section.name side)) = .ok (.mapping (nested.get side))) ∧
      other = .mapping otherRecord ∧
      Channels.HasSections otherRecord (Flat.Nested.get otherNested) ∧
      ∀ side, (Value.mapping (nested.get side)).Rearranged (.mapping (otherNested.get side)) := by
  obtain ⟨record, given, rfl, distinct, holds, fields⟩ := complete
  obtain ⟨otherRecord, otherGiven, rfl, -, otherHolds, otherFields⟩ := otherComplete
  have parts : ∀ side, Flat.Nested.get ⟨given .input, given .output⟩ side = given side := by
    intro side
    cases side <;> rfl
  have otherParts : ∀ side, Flat.Nested.get ⟨otherGiven .input, otherGiven .output⟩ side =
      otherGiven side := by
    intro side
    cases side <;> rfl
  refine ⟨⟨given .input, given .output⟩, otherRecord, ⟨otherGiven .input, otherGiven .output⟩,
    funext parts ▸ fields, ?_, rfl, ?_, ?_⟩
  · intro side
    rw [parts side]
    simp only [Value.child, Value.key?, holds side]
  · rw [funext otherParts]
    refine ⟨fun side => .inl ?_, otherFields.named⟩
    rw [Flat.sectionOf, otherHolds side, Option.getD_some]
  · intro side
    rw [parts side, otherParts side]
    obtain ⟨part, held, values⟩ :=
      Entries.exists_get?_rearranged side.name _ _ distinct related _ (holds side)
    rw [otherHolds side] at held
    obtain rfl := Option.some.inj held
    exact values

/-- The state that was put out last is the last one. -/
theorem Flow.lastValues?_emit (flow : Flow World) (flat : Flat) :
    lastValues? (flow.emit (.values flat)).chunks = some flat := by
  simp [lastValues?, emit]

/-- Where every list field has a list, the channels mirror a record once it was written into
them. -/
theorem Channels.mirrors_of_writeAll {separator : Separator} {schemas : Schemas}
    {given : Section → List (Key × Value)} (clear : ClearNames separator schemas) (initial : Flat)
    (spread : Channels.Spread separator schemas given initial)
    (lists : ∀ side, ∀ name ∈ (schemas.of side).fieldNames,
      isListField separator schemas side name →
        ∃ items, Entries.get? (Key.text name) (given side) = some (.list items)) :
    ∃ flat, (ofSchemas separator schemas).writeAll [] initial = .ok flat ∧
      Mirrors separator schemas given flat := by
  have unchanged : ∀ update ∈ initial,
      (ofSchemas separator schemas).written update.1 (Entries.get? update.1 []) update.2 =
        .ok update.2 := by
    intro update member
    rw [Entries.get?_nil]
    have read := Entries.get?_of_mem _ (Entries.isExact_of_lawful _) _ initial spread.distinct
      member
    rcases written_of_mem_spread clear spread update member with
      ⟨side, name, declared, same, starts⟩ | plain
    · rw [same, spread.field side name declared, Option.some.injEq] at read
      rw [starts]
      by_cases list : isListField separator schemas side name
      · obtain ⟨items, held⟩ := lists side name declared list
        rw [held, Option.getD_some] at read
        rw [startValue_of_list side name list, held, Option.getD_some, ← read]
        rfl
      · rw [startValue_of_plain side name list, read]
    · exact plain
  obtain ⟨flat, done, values⟩ := writeAll_ok _ initial spread.distinct []
    (fun update member => ⟨update.2, unchanged update member⟩)
  have held : ∀ key value, Entries.get? key initial = some value →
      Entries.get? key flat = some value := by
    intro key value found
    have member := Entries.mem_of_get? key (Entries.isExact_of_lawful key) value initial found
    obtain ⟨written, same, read⟩ := values _ member
    rw [unchanged _ member] at same
    obtain rfl := Except.ok.inj same
    exact read
  exact ⟨flat, done, fun side name declared =>
    ⟨_, held _ _ (spread.field side name declared), .same _⟩,
    fun side => ⟨_, held _ _ (spread.overflow side), .same _⟩⟩

namespace Workflow

/-- The values of list fields in sections are sharp. -/
def HasSharpLists (workflow : Workflow World) (sections : Sections) : Prop :=
  ∀ side, ∀ name ∈ (workflow.schemas.of side).fieldNames,
    isListField workflow.separator workflow.schemas side name →
      ∀ entries value, sections.get side = .mapping entries →
        Entries.get? (Key.text name) entries = some value → value.Sharp

/-- A plan that may follow a walk of its workflow: names are clear, bodies are in step, and
actions keep records complete. -/
structure Follows (relation : World → World → Prop) (workflow : Workflow World)
    (plan : Plan World) : Prop where
  made : plan.MadeFor workflow
  models : plan.models = workflow.models
  filled : ∀ procedure ∈ workflow.procedures, procedure.name ≠ ""
  clear : ClearNames workflow.separator workflow.schemas
  inStep : ∀ procedure ∈ workflow.procedures, procedure.InStep relation workflow.models
  complete : ∀ name body next, .action name body next ∈ workflow.procedures →
    ∀ record world answer after, IsComplete workflow.schemas record →
      body workflow.models record world = (.ok answer, after) → IsComplete workflow.schemas answer

/-- A walk that finishes as another one, its index made and its lists sharp until then. -/
structure OnCourse (workflow : Workflow World) (left : Nat) (walk walked : Walk World) : Prop where
  indexed : walk.progress.index = Procedure.index workflow.procedures
  finished : Walk.run workflow.itinerary left walk = (.finished (), walked)
  sharp : ∀ patience,
    workflow.HasSharpLists (Walk.run workflow.itinerary patience walk).2.sections

/-- How many procedures a finished walk has dispatched, compared with the ceiling and with
how many checks are followed. -/
structure Affords (workflow : Workflow World) (patience : Nat) (walked : Walk World) : Prop where
  below : ∀ ceiling, workflow.options.ceiling = some ceiling →
    walked.progress.iteration < ceiling
  patient : walked.progress.iteration ≤ patience

/-- A walk beside the channels: they mirror its record, and the worlds belong together. -/
structure Abreast (relation : World → World → Prop) (workflow : Workflow World)
    (walk : Walk World) (nested : Flat.Nested) (flat : Flat) (state : World) : Prop where
  sections : walk.sections = .ofNested nested
  complete : HasFields workflow.schemas nested.get
  mirrors : Mirrors workflow.separator workflow.schemas nested.get flat
  worlds : relation walk.world state

/-- Where a walk stands when no check is next: nothing but its progress and its world has
changed on the way. -/
structure Arrives (workflow : Workflow World) (left rest : Nat)
    (walk walked moved : Walk World) (stop : Stop) : Prop where
  course : OnCourse workflow rest moved walked
  fewer : rest ≤ left
  counted : walk.progress.iteration ≤ moved.progress.iteration
  sections : moved.sections = walk.sections
  stop : Plan.routeAt workflow.procedures moved.progress.cursor = .straight stop

variable {relation : World → World → Prop} {workflow : Workflow World} {plan : Plan World}
  {left patience : Nat} {walk walked : Walk World} {nested : Flat.Nested} {flat : Flat}
  {state : World}

/-- A walk on its course stands nowhere or goes on from a dispatch. -/
theorem OnCourse.cases (course : OnCourse workflow left walk walked) :
    (walk.progress.cursor = none ∧ walked = walk) ∨
      ∃ rest position procedure moved, left = rest + 1 ∧
        walk.progress.cursor = some position ∧
        workflow.procedures[position]? = some procedure ∧
        walk.dispatch workflow.itinerary position procedure = (none, moved) ∧
        walk.progress.iteration + 1 = moved.progress.iteration ∧
        moved.progress.iteration ≤ walked.progress.iteration ∧
        (moved.progress.index = walk.progress.index → OnCourse workflow rest moved walked) := by
  rcases Walk.run_finished_cases workflow.itinerary left walk walked course.finished with
    ended | ⟨rest, position, procedure, moved, fuel, stands, there, dispatched, goesOn, later⟩
  · exact .inl ended
  · have counted := Walk.iteration_dispatch workflow.itinerary walk position procedure
    rw [dispatched] at counted
    refine .inr ⟨rest, position, procedure, moved, fuel, stands, there, dispatched, counted.symm,
      Walk.iteration_le_of_run _ _ _ _ goesOn, fun indexed => ⟨?_, goesOn, ?_⟩⟩
    · exact indexed.trans course.indexed
    · intro patience
      rw [← later patience]
      exact course.sharp (patience + 1)

/-- A walk on its course dispatches the procedure that it stands at. -/
theorem OnCourse.dispatches (course : OnCourse workflow left walk walked) (position : Nat)
    (stands : walk.progress.cursor = some position) (procedure : Procedure World)
    (there : workflow.procedures[position]? = some procedure) :
    ∃ rest moved, left = rest + 1 ∧
      walk.dispatch workflow.itinerary position procedure = (none, moved) ∧
      walk.progress.iteration + 1 = moved.progress.iteration ∧
      moved.progress.iteration ≤ walked.progress.iteration ∧
      (moved.progress.index = walk.progress.index → OnCourse workflow rest moved walked) := by
  rcases course.cases with
    ⟨nowhere, -⟩ | ⟨rest, _, _, moved, fuel, here, found, dispatched, counted, within, goesOn⟩
  · rw [stands] at nowhere
    cases nowhere
  · obtain rfl := Option.some.inj (stands.symm.trans here)
    obtain rfl := Option.some.inj (there.symm.trans found)
    exact ⟨rest, moved, fuel, dispatched, counted, within, goesOn⟩

/-- The checks that a walk dispatches one after the other are asked in one resolution, which
leads where the walk then stands.

Proof: by induction on the dispatches that the walk still may make. The walk counts each
check and stays below the ceiling, so the checks of one resolution do as well. -/
theorem Follows.askChecks (follows : Follows relation workflow plan)
    (affords : Affords workflow patience walked) (values : Value)
    (course : OnCourse workflow left walk walked) (position : Nat)
    (stands : walk.progress.cursor = some position) (name : String) (body : Body World)
    (there : workflow.procedures[position]? = some (.check name body))
    (related : walk.sections.toValue.Rearranged values) (worlds : relation walk.world state)
    (more asked : Nat) (few : asked ≤ walk.progress.iteration)
    (enough : walked.progress.iteration ≤ walk.progress.iteration + more) :
    ∃ stop next rest moved, plan.askChecks values more asked body state = (.finished stop, next) ∧
      Arrives workflow left rest walk walked moved stop ∧ relation moved.world next := by
  induction left generalizing walk position name body state more asked with
  | zero =>
    obtain ⟨_, _, impossible, -⟩ := course.dispatches position stands _ there
    cases impossible
  | succ left ih =>
    obtain ⟨rest, moved, fuel, dispatched, counted, within, goesOn⟩ :=
      course.dispatches position stands _ there
    obtain rfl := Nat.succ.inj fuel
    obtain ⟨answer, otherAnswer, after, next, answers, otherAnswers, answerRelated, nextWorlds⟩ :=
      follows.inStep _ (List.mem_of_getElem? there) _ values walk.world state related worlds
    have noCeiling : (plan.ceiling.filter fun ceiling => ceiling ≤ asked) = none := by
      rw [follows.made.ceiling, Option.filter_eq_none_iff]
      intro ceiling isCeiling
      have below := affords.below ceiling isCeiling
      simp only [decide_eq_true_eq]
      omega
    obtain ⟨more, rfl⟩ : ∃ fewer, more = fewer + 1 := ⟨more - 1, by omega⟩
    have asks : body plan.models values state = (.ok otherAnswer, next) := by
      rw [follows.models]
      exact otherAnswers
    have ends := endsRun_rearranged answer otherAnswer answerRelated
    rw [Plan.askChecks, noCeiling]
    dsimp only
    rw [asks]
    dsimp only
    rw [← ends]
    obtain ⟨events, ⟨isEnd, rfl⟩ | ⟨isNoEnd, key, isKey, rfl⟩⟩ :=
      Walk.dispatch_check workflow.itinerary walk position name body answer after answers moved
        dispatched
    · rw [if_pos isEnd]
      exact ⟨.finish, next, left, _, rfl,
        ⟨goesOn rfl, Nat.le_succ left, Nat.le_succ _, rfl, rfl⟩, nextWorlds⟩
    · obtain ⟨otherKey, isOtherKey, keyRelated⟩ := answerRelated.exists_key key isKey
      rw [if_neg (by rw [isNoEnd]; decide), isOtherKey]
      dsimp only
      rw [← keyRelated.text?_eq, follows.made.find?_of_key, ← course.indexed]
      cases reached : (key.text?.bind fun text => Entries.get? text walk.progress.index).bind
          fun position => workflow.procedures[position]? with
      | none =>
        refine ⟨.finish, next, left, _, rfl,
          ⟨goesOn rfl, Nat.le_succ left, Nat.le_succ _, rfl, ?_⟩, nextWorlds⟩
        rw [Plan.routeAt, reached]
      | some procedure =>
        cases procedure with
        | action nextName nextBody afterwards =>
          refine ⟨.node nextName, next, left, _, rfl,
            ⟨goesOn rfl, Nat.le_succ left, Nat.le_succ _, rfl, ?_⟩, nextWorlds⟩
          rw [Plan.routeAt, reached]
        | check nextName nextBody =>
          obtain ⟨nextPosition, standsNext, thereNext⟩ := Option.bind_eq_some_iff.mp reached
          obtain ⟨stop, last, rest, final, asked, arrives, lastWorlds⟩ :=
            ih (goesOn rfl) nextPosition standsNext nextName nextBody thereNext related nextWorlds
              more (asked + 1) (Nat.succ_le_succ few)
              (by simp only [Progress.dispatched] at counted ⊢; omega)
          refine ⟨stop, last, rest, final, asked, ⟨arrives.course, ?_, ?_, arrives.sections,
            arrives.stop⟩, lastWorlds⟩
          · exact Nat.le_succ_of_le arrives.fewer
          · exact Nat.le_trans (Nat.le_succ _) arrives.counted

/-- The route out of where a walk stands is resolved to where it stands when no check is
next. -/
theorem Follows.resolve (follows : Follows relation workflow plan)
    (affords : Affords workflow patience walked) (course : OnCourse workflow left walk walked)
    (abreast : Abreast relation workflow walk nested flat state) :
    ∃ stop next rest moved, plan.resolve patience flat
        (Plan.routeAt workflow.procedures walk.progress.cursor) state = (.finished stop, next) ∧
      Arrives workflow left rest walk walked moved stop ∧ relation moved.world next := by
  cases route : Plan.routeAt workflow.procedures walk.progress.cursor with
  | straight target =>
    exact ⟨target, state, left, walk, rfl,
      ⟨course, Nat.le_refl _, Nat.le_refl _, rfl, route⟩, abreast.worlds⟩
  | branch name body =>
    obtain ⟨position, stands, found⟩ := Plan.exists_of_routeAt_branch _ _ name body route
    obtain ⟨collected, decoded, related⟩ := abreast.mirrors.decode follows.clear abreast.complete
    rw [Plan.resolve, follows.made.channels, decoded]
    dsimp only
    apply follows.askChecks affords collected.toValue course position stands name body found
    · rw [abreast.sections]
      exact Flat.Nested.toValue_rearranged nested collected related
    · exact abreast.worlds
    · exact Nat.zero_le _
    · exact Nat.le_add_left_of_le affords.patient

/-- A record on its course has sharp lists. -/
theorem OnCourse.sharpLists (course : OnCourse workflow left walk walked)
    (sections : walk.sections = .ofNested nested) :
    SharpLists workflow.separator workflow.schemas nested.get := by
  have now := course.sharp 0
  rw [Walk.sections_run_zero, sections] at now
  intro side name declared list value present
  refine now side name declared list (nested.get side) value ?_ present
  cases side <;> rfl

/-- Where a walk dispatches an action, what the plan's node writes keeps the channels abreast
of the walk.

Proof: the bodies get records that are the same up to order, so they return such records.
The walk takes over the one; the other is spread over the channels, and what is written
makes them mirror it. -/
theorem Follows.dispatchAction (follows : Follows relation workflow plan)
    (course : OnCourse workflow left walk walked)
    (abreast : Abreast relation workflow walk nested flat state) (position : Nat)
    (stands : walk.progress.cursor = some position) (name : String) (body : Body World)
    (successor : Option String)
    (there : workflow.procedures[position]? = some (.action name body successor)) (times : Nat) :
    ∃ updates written next rest moved returned,
      Flow.nodeUpdates plan body times flat state = (.ok updates, next) ∧
      plan.channels.writeAll flat updates = .ok written ∧
      left = rest + 1 ∧ OnCourse workflow rest moved walked ∧
      moved.progress.iteration = walk.progress.iteration + 1 ∧
      moved.progress.cursor =
        Plan.cursorBehind workflow.procedures position (Successor.ofNext successor) ∧
      Abreast relation workflow moved returned written next := by
  obtain ⟨rest, moved, fuel, dispatched, counted, -, goesOn⟩ :=
    course.dispatches position stands _ there
  have member := List.mem_of_getElem? there
  -- Both bodies are given the same record up to order.
  obtain ⟨collected, decoded, related⟩ := abreast.mirrors.decode follows.clear abreast.complete
  have records : walk.sections.toValue.Rearranged collected.toValue := by
    rw [abreast.sections]
    exact Flat.Nested.toValue_rearranged nested collected related
  obtain ⟨answer, otherAnswer, after, next, answers, otherAnswers, answerRelated, worlds⟩ :=
    follows.inStep _ member _ _ _ _ records abreast.worlds
  have given : IsComplete workflow.schemas walk.sections.toValue := by
    rw [abreast.sections]
    exact abreast.complete.isComplete
  have complete := follows.complete name body successor member _ _ _ _ given answers
  have otherComplete := follows.complete name body successor member _ _ _ _
    (abreast.complete.of_rearranged related).isComplete otherAnswers
  obtain ⟨returned, otherRecord, otherReturned, fields, children, rfl, otherSections,
    returnedRelated⟩ := complete.exists_sections otherComplete answerRelated
  -- The walk takes over what was returned.
  obtain ⟨events, action⟩ := Walk.dispatch_action workflow.itinerary walk course.indexed position
    name body successor answer after answers _ _ (children .input) (children .output)
  rw [action] at dispatched
  obtain rfl := (Prod.mk.inj dispatched).2
  have goesOn := goesOn rfl
  have sharp : SharpLists workflow.separator workflow.schemas returned.get :=
    goesOn.sharpLists rfl
  -- The plan writes what was returned.
  obtain ⟨target, encoded, spread⟩ := Channels.spread_of_encode follows.clear otherSections
  obtain ⟨written, wrote, mirrors⟩ := abreast.mirrors.writeAll_updates follows.clear
    (course.sharpLists abreast.sections) spread (sharp.of_rearranged fields.named returnedRelated)
  refine ⟨plan.channels.updates flat target, written, next, rest, _, returned, ?_, ?_, fuel,
    goesOn, rfl, rfl, ?_⟩
  · rw [Flow.nodeUpdates, follows.made.channels, follows.clear.decodeAfter, decoded]
    dsimp only
    have returns : body workflow.models collected.toValue state =
      (.ok (.mapping otherRecord), next) := otherAnswers
    rw [follows.models, returns]
    dsimp only
    rw [encoded]
    rfl
  · rw [follows.made.channels]
    exact wrote
  · exact ⟨rfl, fields, mirrors.of_rearranged returned.get fields.named returnedRelated, worlds⟩

/-- Where a walk dispatches an action, a plan runs its node and resolves the route out of
it; the walk and the channels are then abreast where the next action or the end is. -/
theorem Follows.runNode (follows : Follows relation workflow plan)
    (affords : Affords workflow patience walked) (course : OnCourse workflow left walk walked)
    (flow : Flow World) (abreast : Abreast relation workflow walk nested flow.flat flow.world)
    (name : String)
    (stands : Plan.routeAt workflow.procedures walk.progress.cursor = .straight (.node name)) :
    ∃ stop next rest moved movedNested,
      Flow.runNode plan patience name flow = (.finished stop, next) ∧
      Flow.lastValues? next.chunks = some next.flat ∧
      OnCourse workflow rest moved walked ∧ rest < left ∧
      walk.progress.iteration < moved.progress.iteration ∧
      Plan.routeAt workflow.procedures moved.progress.cursor = .straight stop ∧
      Abreast relation workflow moved movedNested next.flat next.world := by
  obtain ⟨position, body, successor, here, found⟩ := Plan.exists_of_routeAt_node _ _ name stands
  obtain ⟨updates, written, next, rest, behind, returned, updated, wrote, rfl, goesOn, counted,
    cursor, alongside⟩ := follows.dispatchAction course abreast position here name body successor
      found (Flow.readsBehind plan flow.chunks)
  have node : Procedure.find? plan.procedures name = some (.action name body successor) := by
    rw [follows.made.procedures]
    exact Procedure.find?_of_mem _ (Procedure.nodup_names_of_validate _ follows.made.accepted)
      (.action name body successor) (List.mem_of_getElem? found)
  have route := follows.made.routeOf_eq_routeAt follows.filled position name body successor found
  obtain ⟨stop, last, fewer, final, resolved, arrives, lastWorlds⟩ :=
    follows.resolve affords goesOn alongside
  rw [cursor, ← route] at resolved
  refine ⟨stop, Flow.emit ⟨written, flow.chunks ++ [.updates name updates], last⟩
    (.values written), fewer, final, returned, ?_, ?_, arrives.course, ?_, ?_, arrives.stop, ?_⟩
  · rw [Flow.runNode, node]
    dsimp only
    rw [updated]
    dsimp only
    rw [wrote, Flow.emit]
    dsimp only
    rw [resolved]
  · exact Flow.lastValues?_emit _ written
  · exact Nat.lt_succ_of_le arrives.fewer
  · have later := arrives.counted
    omega
  · exact ⟨arrives.sections.trans alongside.sections, alongside.complete, alongside.mirrors,
      lastWorlds⟩

/-- From where a walk and the channels are abreast, both come to the end, and are abreast
there.

Proof: by induction on the dispatches that the walk still may make. Every node that the
plan runs is at least one more of them, so the limit on nodes is not reached either. -/
theorem Follows.runFrom (follows : Follows relation workflow plan)
    (affords : Affords workflow patience walked) (course : OnCourse workflow left walk walked)
    (flow : Flow World) (shown : Flow.lastValues? flow.chunks = some flow.flat)
    (abreast : Abreast relation workflow walk nested flow.flat flow.world) (stop : Stop)
    (stands : Plan.routeAt workflow.procedures walk.progress.cursor = .straight stop)
    (limit : Nat) (within : walked.progress.iteration < walk.progress.iteration + limit) :
    ∃ final last, Flow.runFrom plan patience limit stop flow = (.finished (), final) ∧
      Flow.lastValues? final.chunks = some final.flat ∧
      Abreast relation workflow walked last final.flat final.world := by
  induction left using Nat.strong_induction_on generalizing walk nested flow stop limit with
  | h left ih =>
    cases stop with
    | finish =>
      rcases course.cases with
        ⟨-, rfl⟩ | ⟨_, position, procedure, _, _, here, found, _⟩
      · exact ⟨flow, nested, by cases limit <;> rfl, shown, abreast⟩
      · exfalso
        rw [Plan.routeAt, here, Option.bind_some, found] at stands
        cases procedure <;> cases stands
    | node name =>
      obtain ⟨stop, next, rest, moved, movedNested, ran, nextShown, goesOn, fewer, counted,
        movedStands, movedAbreast⟩ := follows.runNode affords course flow abreast name stands
      have reached := Walk.iteration_le_of_run _ _ _ _ goesOn.finished
      obtain ⟨limit, rfl⟩ : ∃ smaller, limit = smaller + 1 := ⟨limit - 1, by omega⟩
      have more : limit ≠ 0 := by omega
      rw [Flow.runFrom, ran]
      dsimp only
      rw [if_neg more]
      exact ih rest fewer goesOn next nextShown movedAbreast stop movedStands limit (by omega)

/-- A run of the plan on a complete record comes to the end, abreast of a walk that does. -/
theorem Follows.run (follows : Follows relation workflow plan)
    (affords : Affords workflow patience walked) (course : OnCourse workflow left walk walked)
    (fresh : walk.progress = .start workflow.procedures)
    (sections : walk.sections = .ofNested nested) (complete : HasFields workflow.schemas nested.get)
    (worlds : relation walk.world state)
    (lists : ∀ side, ∀ name ∈ (workflow.schemas.of side).fieldNames,
      isListField workflow.separator workflow.schemas side name →
        ∃ items, Entries.get? (Key.text name) (nested.get side) = some (.list items))
    (within : walked.progress.iteration < workflow.options.ceiling.getD Flow.unboundedLimit)
    (initial : Flat)
    (spread : Channels.Spread workflow.separator workflow.schemas nested.get initial) :
    ∃ final last, Flow.run plan patience initial state = (.finished (), final) ∧
      Flow.lastValues? final.chunks = some final.flat ∧
      Abreast relation workflow walked last final.flat final.world := by
  obtain ⟨flat, written, mirrors⟩ :=
    Channels.mirrors_of_writeAll follows.clear initial spread lists
  have abreast : Abreast relation workflow walk nested flat state :=
    ⟨sections, complete, mirrors, worlds⟩
  obtain ⟨stop, next, rest, moved, resolved, arrives, movedWorlds⟩ :=
    follows.resolve affords course abreast
  have start : plan.start = Plan.routeAt workflow.procedures walk.progress.cursor := by
    rw [follows.made.start_eq_routeAt follows.filled, fresh]
  rw [Flow.run, follows.made.channels, written]
  dsimp only
  rw [start, resolved, follows.made.ceiling]
  dsimp only
  apply follows.runFrom affords arrives.course ⟨flat, [.values flat], next⟩ rfl
    ⟨arrives.sections.trans sections, complete, mirrors, movedWorlds⟩ stop arrives.stop
  omega

/-- A finished run of the plan replaces both sections by what is collected from its last
state, and ends as their output is accepted. -/
theorem closeFlow_of_decode (workflow : Workflow World) (plan : Plan World) (initial : Flat)
    (events : List Event) (flow : Flow World) (collected : Flat.Nested)
    (decoded : plan.channels.decodeAfter (Flow.readsBehind plan flow.chunks)
      ((Flow.lastValues? flow.chunks).getD initial) = .ok collected) :
    (workflow.closeFlow plan initial events flow).1 =
        .ofAttempt (workflow.accept .output (.mapping collected.output)) ∧
      (workflow.closeFlow plan initial events flow).2.workflow =
        { workflow with sections := .ofNested collected } ∧
      (workflow.closeFlow plan initial events flow).2.world = flow.world := by
  rw [closeFlow, decoded]
  dsimp only
  split
  · next why refused =>
    have outcome : workflow.accept .output (.mapping collected.output) = .error why := refused
    rw [outcome]
    exact ⟨rfl, rfl, rfl⟩
  · next result fits =>
    have outcome : workflow.accept .output (.mapping collected.output) = .ok result := fits
    rw [outcome]
    exact ⟨rfl, rfl, rfl⟩

/-- A run of the plan replaces both sections by those of a walk up to order, and ends as
their output is accepted. -/
theorem Follows.execute (follows : Follows relation workflow plan)
    (planned : workflow.plan = .ok plan) (affords : Affords workflow patience walked)
    (input data : Value) (accepted : workflow.accept .input input = .ok data) (world : World)
    (course : OnCourse workflow left (workflow.walkStart data world) walked)
    (sections : (workflow.walkStart data world).sections = .ofNested nested)
    (complete : HasFields workflow.schemas nested.get) (worlds : relation world state)
    (lists : ∀ side, ∀ name ∈ (workflow.schemas.of side).fieldNames,
      isListField workflow.separator workflow.schemas side name →
        ∃ items, Entries.get? (Key.text name) (nested.get side) = some (.list items))
    (within : walked.progress.iteration < workflow.options.ceiling.getD Flow.unboundedLimit) :
    ∃ last collected, walked.sections = .ofNested last ∧
      (∀ side, (Value.mapping (last.get side)).Rearranged (.mapping (collected.get side))) ∧
      (workflow.execute patience input state).2.workflow.sections = .ofNested collected ∧
      (workflow.execute patience input state).1 =
        .ofAttempt (workflow.accept .output (.mapping collected.output)) ∧
      relation walked.world (workflow.execute patience input state).2.world := by
  obtain ⟨initial, encoded, spread⟩ := Channels.spread_of_encode follows.clear
    (Channels.hasSections_toValue nested complete.named)
  obtain ⟨final, last, ran, shown, abreast⟩ :=
    follows.run affords course rfl sections complete worlds lists within initial spread
  obtain ⟨collected, decoded, related⟩ := abreast.mirrors.decode follows.clear abreast.complete
  refine ⟨last, collected, abreast.sections, related, ?_⟩
  obtain ⟨warnings, whole⟩ :=
    workflow.execute_eq_runPlan plan planned input data accepted patience state
  have entered : plan.channels.encode (workflow.withSection .input data).sections.toValue =
      .ok initial := by
    have same : (workflow.withSection .input data).sections = .ofNested nested := sections
    rw [same, follows.made.channels]
    exact encoded
  have closing : plan.channels.decodeAfter (Flow.readsBehind plan final.chunks)
      ((Flow.lastValues? final.chunks).getD initial) = .ok collected := by
    rw [shown, follows.made.channels, follows.clear.decodeAfter]
    exact decoded
  obtain ⟨ending, replaced, left⟩ := (workflow.withSection .input data).closeFlow_of_decode plan
    initial (warnings ++ (workflow.withSection .input data).stepEvents final.chunks) final
    collected closing
  rw [whole, runPlan, entered]
  dsimp only
  rw [ran]
  exact ⟨congrArg Workflow.sections replaced, ending, left ▸ abreast.worlds⟩

end Workflow
end Stepwise
