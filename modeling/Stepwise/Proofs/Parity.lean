import Stepwise.Proofs.Simulation

/-!
# A run of the plan calls what a walk calls

A walk that comes to its end and a run of the plan on the same record call the same bodies
in the same order, each with the same record up to order, and leave the same sections up to
order. This takes bodies that are functions of the record and do not look at orders,
actions that keep records complete, and lists in which equality tells values apart.

The calls are seen by recording them, which does not change a walk.
-/

namespace Stepwise

open Channels (HasFields ClearNames isListField)
open Entries (Named)

variable {World : Type}

/-- A body that answers every record, whatever the world, and alike to records that are the
same up to order. -/
def Procedure.IsSteady (models : Models) (procedure : Procedure World) : Prop :=
  ∃ answer : Value → Value,
    (∀ record world, (procedure.body models record world).1 = .ok (answer record)) ∧
    ∀ record other, record.Rearranged other → (answer record).Rearranged (answer other)

/-- Calls of one body with the same record up to order. -/
def Call.Rearranged (call other : Call) : Prop :=
  call.name = other.name ∧ call.models = other.models ∧ call.record.Rearranged other.record

/-- A steady body is in step in any worlds. -/
theorem Procedure.IsSteady.inStep {models : Models} {procedure : Procedure World}
    (steady : procedure.IsSteady models) : procedure.InStep (fun _ _ => True) models := by
  obtain ⟨answer, answers, alike⟩ := steady
  intro record other world state related _
  exact ⟨answer record, answer other, _, _, Prod.ext (answers record world) rfl,
    Prod.ext (answers other state) rfl, alike record other related, trivial⟩

/-- A steady body that notes its calls is in step where the calls so far were alike. -/
theorem Procedure.IsSteady.inStep_recorded {models : Models} {procedure : Procedure World}
    (steady : procedure.IsSteady models) :
    procedure.recorded.InStep (fun world state => List.Forall₂ Call.Rearranged world.2 state.2)
      models := by
  obtain ⟨answer, answers, alike⟩ := steady
  have recordedAnswers : ∀ record (world : World × List Call),
      (procedure.recorded.body models record world).1 = .ok (answer record) := by
    intro record world
    cases procedure <;> exact answers record world.1
  intro record other world state related soFar
  refine ⟨answer record, answer other, _, _, Prod.ext (recordedAnswers record world) rfl,
    Prod.ext (recordedAnswers other state) rfl, alike record other related, ?_⟩
  dsimp only
  rw [procedure.body_recorded, procedure.body_recorded]
  exact List.rel_append soFar (.cons ⟨rfl, rfl, related⟩ .nil)

/-- A plan of a workflow with one model gives the bodies what a walk gives them. -/
theorem Plan.MadeFor.models_eq {workflow : Workflow World} {plan : Plan World}
    (made : plan.MadeFor workflow) (model : Option Model)
    (single : workflow.models = .single model) : plan.models = workflow.models := by
  have selected := made.selected
  rw [single, Models.select, Except.ok.injEq] at selected
  rw [Plan.models, ← selected, single]

namespace Workflow

/-- A walk that comes to its end does so with recording. -/
theorem exists_walked_recorded (workflow : Workflow World) (patience : Nat) (data : Value)
    (world : World) (walked : Walk World)
    (finished : Walk.run workflow.itinerary patience (workflow.walkStart data world) =
      (.finished (), walked)) :
    ∃ recorded, Walk.run workflow.recorded.itinerary patience
        (workflow.recorded.walkStart data (world, [])) = (.finished (), recorded) ∧
      recorded.withoutCalls = walked := by
  have same := Walk.run_recorded workflow.itinerary patience
    (workflow.recorded.walkStart data (world, []))
  rw [walkStart_recorded, finished] at same
  obtain ⟨ending, left⟩ := Prod.mk.inj same
  exact ⟨_, Prod.ext ending rfl, left⟩

/-- A walk that comes to its end, ends as its output is accepted. -/
theorem walk_of_finished (workflow : Workflow World) (patience : Nat) (input data : Value)
    (world : World) (walked : Walk World)
    (listed : Procedure.validate workflow.procedures = .ok ())
    (accepted : workflow.accept .input input = .ok data)
    (finished : Walk.run workflow.itinerary patience (workflow.walkStart data world) =
      (.finished (), walked)) :
    (workflow.walk patience input world).1 =
      .ofAttempt (workflow.accept .output walked.sections.output) := by
  have entered : Walk.run (workflow.withSection .input data).itinerary patience
      ⟨(workflow.withSection .input data).sections, .start workflow.procedures, [], world⟩ =
        (.finished (), walked) := finished
  rw [walk, listed, accepted]
  dsimp only
  rw [entered]
  dsimp only
  rw [closeWalk]
  have sameCheck : (workflow.withSection .input data).accept .output walked.sections.output =
      workflow.accept .output walked.sections.output := rfl
  rw [sameCheck]
  cases workflow.accept .output walked.sections.output <;> rfl

variable {workflow : Workflow World} {plan : Plan World}

/-- What is asked of a workflow for its plan to call what a walk calls: one model, clear
names, steady bodies, and actions that keep records complete. -/
structure IsSteady (workflow : Workflow World) : Prop where
  model : ∃ model, workflow.models = .single model
  named : ∀ procedure ∈ workflow.procedures, procedure.name ≠ ""
  steady : ∀ procedure ∈ workflow.procedures, procedure.IsSteady workflow.models
  complete : ∀ name body next, .action name body next ∈ workflow.procedures →
    ∀ record world answer after, IsComplete workflow.schemas record →
      body workflow.models record world = (.ok answer, after) → IsComplete workflow.schemas answer

/-- The plan of a steady workflow may follow its walk, whatever the worlds. -/
theorem IsSteady.follows (steady : workflow.IsSteady) (planned : workflow.plan = .ok plan)
    (clear : ClearNames workflow.separator workflow.schemas) :
    Follows (fun _ _ => True) workflow plan := by
  have made := Plan.madeFor_of_plan workflow plan planned
  obtain ⟨model, single⟩ := steady.model
  exact ⟨made, made.models_eq model single, steady.named, clear,
    fun procedure member => (steady.steady procedure member).inStep, steady.complete⟩

/-- The plan of a steady workflow may follow its walk with recording; calls are then alike. -/
theorem IsSteady.follows_recorded (steady : workflow.IsSteady)
    (clear : ClearNames workflow.separator workflow.schemas) (recorded : Plan (World × List Call))
    (planned : workflow.recorded.plan = .ok recorded) :
    Follows (fun world state => List.Forall₂ Call.Rearranged world.2 state.2) workflow.recorded
      recorded := by
  have made := Plan.madeFor_of_plan workflow.recorded recorded planned
  obtain ⟨model, single⟩ := steady.model
  refine ⟨made, made.models_eq model single, ?_, clear, ?_, ?_⟩
  · intro procedure member
    obtain ⟨plain, inList, rfl⟩ := List.mem_map.mp member
    rw [plain.name_recorded]
    exact steady.named plain inList
  · intro procedure member
    obtain ⟨plain, inList, rfl⟩ := List.mem_map.mp member
    exact (steady.steady plain inList).inStep_recorded
  · intro name body next member record world answer after complete returns
    obtain ⟨plain, inList, same⟩ := List.mem_map.mp member
    cases plain with
    | check => cases same
    | action plainName plainBody plainNext =>
      cases same
      obtain ⟨outcome, -⟩ := Prod.mk.inj returns
      exact steady.complete name plainBody next inList record world.1 answer _ complete
        (Prod.ext outcome rfl)

/-- A walk that comes to its end, on a complete record with a list in every list field, with
sharp lists on the way and below the ceiling. -/
structure ComesToEnd (workflow : Workflow World) (input : Value) (world : World)
    (start : Flat.Nested) (patience : Nat) (walked : Walk World) : Prop where
  accepted : workflow.accept .input input = .ok (.mapping start.input)
  container : workflow.sections.output = .mapping start.output
  complete : HasFields workflow.schemas start.get
  lists : ∀ side, ∀ name ∈ (workflow.schemas.of side).fieldNames,
    isListField workflow.separator workflow.schemas side name →
      ∃ items, Entries.get? (Key.text name) (start.get side) = some (.list items)
  finished : Walk.run workflow.itinerary patience
    (workflow.walkStart (.mapping start.input) world) = (.finished (), walked)
  sharp : ∀ turns, workflow.HasSharpLists (Walk.run workflow.itinerary turns
    (workflow.walkStart (.mapping start.input) world)).2.sections
  within : walked.progress.iteration < workflow.options.ceiling.getD Flow.unboundedLimit

variable {input : Value} {world : World} {start : Flat.Nested} {patience checks : Nat}
  {walked : Walk World}

/-- A walk that comes to its end does so with recording. -/
theorem ComesToEnd.recorded (comes : ComesToEnd workflow input world start patience walked) :
    ∃ recorded, ComesToEnd workflow.recorded input (world, []) start patience recorded ∧
      recorded.withoutCalls = walked := by
  obtain ⟨recorded, finished, same⟩ := workflow.exists_walked_recorded patience
    (.mapping start.input) world walked comes.finished
  have sections : ∀ turns, (Walk.run workflow.recorded.itinerary turns
      (workflow.recorded.walkStart (.mapping start.input) (world, []))).2.sections =
        (Walk.run workflow.itinerary turns
          (workflow.walkStart (.mapping start.input) world)).2.sections := by
    intro turns
    rw [← workflow.walkStart_recorded]
    exact congrArg (fun result => result.2.sections) (Walk.run_recorded workflow.itinerary turns
      (workflow.recorded.walkStart (.mapping start.input) (world, [])))
  refine ⟨recorded, ⟨comes.accepted, comes.container, comes.complete, comes.lists, finished,
    ?_, ?_⟩, same⟩
  · intro turns
    rw [sections turns]
    exact comes.sharp turns
  · have counted : recorded.progress = walked.progress := congrArg Walk.progress same
    rw [counted]
    exact comes.within

/-- Where a walk comes to its end, a plan that may follow it comes there too. -/
theorem ComesToEnd.execute {relation : World → World → Prop}
    (comes : ComesToEnd workflow input world start patience walked)
    (follows : Follows relation workflow plan) (planned : workflow.plan = .ok plan)
    (worlds : relation world world) (enough : walked.progress.iteration ≤ checks) :
    ∃ last collected, walked.sections = .ofNested last ∧
      (∀ side, (Value.mapping (last.get side)).Rearranged (.mapping (collected.get side))) ∧
      (workflow.execute checks input world).2.workflow.sections = .ofNested collected ∧
      (workflow.execute checks input world).1 =
        .ofAttempt (workflow.accept .output (.mapping collected.output)) ∧
      relation walked.world (workflow.execute checks input world).2.world := by
  have affords : Affords workflow checks walked := by
    refine ⟨fun ceiling isCeiling => ?_, enough⟩
    have within := comes.within
    rwa [isCeiling, Option.getD_some] at within
  have course : OnCourse workflow patience (workflow.walkStart (.mapping start.input) world)
      walked := ⟨rfl, comes.finished, comes.sharp⟩
  have sections : (workflow.walkStart (.mapping start.input) world).sections =
      .ofNested start := by
    rw [walkStart, comes.container]
    rfl
  exact follows.execute planned affords input (.mapping start.input) comes.accepted world course
    sections comes.complete worlds comes.lists comes.within

/-- Where a walk comes to its end, a run of the plan calls the same bodies in the same
order, each with the same record up to order, leaves the same sections up to order, and
ends, like the walk, as its output is accepted.

Proof: the walk of the workflow whose bodies note their calls is the same walk, and the plan
of that workflow follows it; calls that were noted are alike from one dispatch to the next.
How the run ends is seen without recording. -/
theorem plan_calls_as_walk (workflow : Workflow World) (plan : Plan World)
    (planned : workflow.plan = .ok plan) (quiet : plan.channels.diagnostics = [])
    (filled : ∀ side, ∀ field ∈ (workflow.schemas.of side).fieldNames, field ≠ "")
    (free : ∀ side, ∀ field ∈ (workflow.schemas.of side).fieldNames,
      field ≠ Channels.overflowField)
    (steady : workflow.IsSteady) (input : Value) (world : World) (start : Flat.Nested)
    (patience : Nat) (walked : Walk World)
    (comes : ComesToEnd workflow input world start patience walked) (checks : Nat)
    (enough : walked.progress.iteration ≤ checks) :
    List.Forall₂ Call.Rearranged (workflow.walkCalls patience input world)
        (workflow.planCalls checks input world) ∧
      ∃ last collected, walked.sections = .ofNested last ∧
        (∀ side, (Value.mapping (last.get side)).Rearranged (.mapping (collected.get side))) ∧
        (workflow.execute checks input world).2.workflow.sections = .ofNested collected ∧
        (workflow.walk patience input world).1 =
          .ofAttempt (workflow.accept .output (.mapping last.output)) ∧
        (workflow.execute checks input world).1 =
          .ofAttempt (workflow.accept .output (.mapping collected.output)) := by
  have made := Plan.madeFor_of_plan workflow plan planned
  have clear : ClearNames workflow.separator workflow.schemas := by
    rw [made.channels, Channels.diagnostics_eq_nil_iff] at quiet
    exact ⟨quiet, filled, free⟩
  constructor
  · obtain ⟨recorded, recordedComes, same⟩ := comes.recorded
    obtain ⟨recordedPlan, recordedPlanned, recordedMade, -⟩ :=
      workflow.exists_plan_recorded plan planned
    have counted : recorded.progress = walked.progress := congrArg Walk.progress same
    obtain ⟨-, -, -, -, -, -, calls⟩ := recordedComes.execute
      (steady.follows_recorded clear recordedPlan recordedPlanned) recordedPlanned .nil
      (counted ▸ enough)
    have walkCalls : workflow.walkCalls patience input world = recorded.world.2 := by
      rw [Workflow.walkCalls, world_walk workflow.recorded patience input _ (world, [])
        recordedMade.accepted recordedComes.accepted, recordedComes.finished]
    rw [walkCalls]
    exact calls
  · obtain ⟨last, collected, sections, related, replaced, ending, -⟩ :=
      comes.execute (steady.follows planned clear) planned trivial enough
    refine ⟨last, collected, sections, related, replaced, ?_, ending⟩
    rw [workflow.walk_of_finished patience input _ world walked made.accepted comes.accepted
      comes.finished, sections]
    rfl

/-- A record with one field in the input and one in the output. -/
def pairRecord (a items : Value) : Flat.Nested := ⟨[(.text "a", a)], [(.text "items", items)]⟩

/-- An action that returns the same record whatever it is given. -/
def returning (name : String) (record : Flat.Nested) (next : Option String) : Procedure Unit :=
  .action name (fun _ _ world => (.ok record.toValue, world)) next

/-- A workflow of a field and a list field that starts with an empty list. -/
def startingEmpty (procedures : List (Procedure Unit)) : Workflow Unit :=
  (withList ⟨Channels.uniformSchema .any ["a"], Channels.uniformSchema (.list .any) ["items"]⟩
    (some 9) procedures).withSection .output (.mapping [(.text "items", .list [])])

/-- Which fields a workflow that starts empty has. -/
theorem field_startingEmpty (procedures : List (Procedure Unit)) (side : Section) (field : String)
    (declared : field ∈ ((startingEmpty procedures).schemas.of side).fieldNames) :
    side = .input ∧ field = "a" ∨ side = .output ∧ field = "items" := by
  cases side with
  | input =>
    have names : field ∈ (Channels.uniformSchema .any ["a"]).fieldNames := declared
    rw [Channels.fieldNames_uniformSchema] at names
    exact .inl ⟨rfl, List.mem_singleton.mp names⟩
  | output =>
    have names : field ∈ (Channels.uniformSchema (.list .any) ["items"]).fieldNames := declared
    rw [Channels.fieldNames_uniformSchema] at names
    exact .inr ⟨rfl, List.mem_singleton.mp names⟩

/-- A pair has all the fields of a workflow that starts empty. -/
theorem hasFields_pairRecord (procedures : List (Procedure Unit)) (a items : Value) :
    HasFields (startingEmpty procedures).schemas (pairRecord a items).get := by
  constructor
  · intro side
    cases side <;>
      exact ⟨by simp [pairRecord, Flat.Nested.get], by simp [pairRecord, Flat.Nested.get]⟩
  · intro side field declared
    rcases field_startingEmpty procedures side field declared with ⟨rfl, rfl⟩ | ⟨rfl, rfl⟩
    · exact ⟨a, rfl⟩
    · exact ⟨items, rfl⟩

/-- Actions that return pairs and checks that answer the same are steady. -/
theorem isSteady_startingEmpty (procedures : List (Procedure Unit))
    (fixed : ∀ procedure ∈ procedures, procedure.name ≠ "" ∧
      ((∃ name a items next, procedure = returning name (pairRecord a items) next) ∨
        ∃ name answer, procedure = .check name fun _ _ world => (.ok answer, world))) :
    (startingEmpty procedures).IsSteady := by
  refine ⟨⟨none, rfl⟩, fun procedure member => (fixed procedure member).1, ?_, ?_⟩
  · intro procedure member
    rcases (fixed procedure member).2 with ⟨name, a, items, next, rfl⟩ | ⟨name, answer, rfl⟩
    · exact ⟨fun _ => (pairRecord a items).toValue, fun _ _ => rfl, fun _ _ _ => .same _⟩
    · exact ⟨fun _ => answer, fun _ _ => rfl, fun _ _ _ => .same _⟩
  · intro name body next member record world answer after _ returns
    rcases (fixed _ member).2 with ⟨_, a, items, _, same⟩ | ⟨_, _, impossible⟩
    · cases same
      cases returns
      exact (hasFields_pairRecord procedures a items).isComplete
    · cases impossible

/-- The field in the input of a workflow that starts empty is no list. -/
theorem not_isListField_startingEmpty (procedures : List (Procedure Unit)) :
    ¬ isListField (startingEmpty procedures).separator (startingEmpty procedures).schemas .input
      "a" := by
  have plain : ¬ isListField .underscore
      ⟨Channels.uniformSchema .any ["a"], Channels.uniformSchema (.list .any) ["items"]⟩ .input
      "a" := by
    rw [isListField]
    decide +kernel
  exact plain

/-- A record with a list of integers has sharp lists. -/
theorem hasSharpLists_pairRecord (procedures : List (Procedure Unit)) (a : Value)
    (items : List Int) : (startingEmpty procedures).HasSharpLists
      (.ofNested (pairRecord a (.list (items.map .int)))) := by
  intro side field declared list entries value section' present
  rcases field_startingEmpty procedures side field declared with ⟨rfl, rfl⟩ | ⟨rfl, rfl⟩
  · exact absurd list (not_isListField_startingEmpty procedures)
  · cases section'
    obtain rfl : Value.list (items.map .int) = value := Option.some.inj present
    refine .list fun item member => ?_
    obtain ⟨n, -, rfl⟩ := List.mem_map.mp member
    exact .int n

/-- A workflow that puts one item into its list, asks where to go on, and adds another. -/
def growing : Workflow Unit :=
  startingEmpty
    [returning "first" (pairRecord (.int 5) (.list [.int 1])) (some "second"),
      .check "second" fun _ _ world => (.ok (.text "third"), world),
      returning "third" (pairRecord (.int 5) (.list [.int 1, .int 2])) (some endName)]

/-- Calls that are alike are of the same bodies. -/
theorem names_eq_of_forall₂ (calls others : List Call)
    (related : List.Forall₂ Call.Rearranged calls others) :
    calls.map Call.name = others.map Call.name := by
  induction related with
  | nil => rfl
  | cons here _ ih => rw [List.map_cons, List.map_cons, here.1, ih]

/-- A run of the plan of a workflow that puts items into its list calls the same bodies. -/
theorem plan_calls_as_walk_growing :
    (growing.walkCalls 3 (.mapping [(.text "a", .int 5)]) ()).map Call.name =
        ["first", "second", "third"] ∧
      (growing.planCalls 3 (.mapping [(.text "a", .int 5)]) ()).map Call.name =
        ["first", "second", "third"] := by
  have walked : (growing.walkCalls 3 (.mapping [(.text "a", .int 5)]) ()).map Call.name =
      ["first", "second", "third"] := by rfl
  have field : ∀ side, ∀ name ∈ (growing.schemas.of side).fieldNames,
      side = .input ∧ name = "a" ∨ side = .output ∧ name = "items" :=
    fun side name declared => field_startingEmpty _ side name declared
  have steady : growing.IsSteady := isSteady_startingEmpty _ (by
    intro procedure member
    simp only [List.mem_cons, List.not_mem_nil, or_false] at member
    rcases member with rfl | rfl | rfl
    · exact ⟨by decide, .inl ⟨_, _, _, _, rfl⟩⟩
    · exact ⟨by decide, .inr ⟨_, _, rfl⟩⟩
    · exact ⟨by decide, .inl ⟨_, _, _, _, rfl⟩⟩)
  have comes : ∃ walked, ComesToEnd growing (.mapping [(.text "a", .int 5)]) ()
      (pairRecord (.int 5) (.list [])) 3 walked ∧ walked.progress.iteration = 3 := by
    refine ⟨_, ⟨rfl, rfl, hasFields_pairRecord _ _ _, ?_, rfl, ?_, by decide⟩, rfl⟩
    · intro side name declared list
      rcases field side name declared with ⟨rfl, rfl⟩ | ⟨rfl, rfl⟩
      · exact absurd list (not_isListField_startingEmpty _)
      · exact ⟨[], rfl⟩
    · intro turns
      match turns with
      | 0 => exact hasSharpLists_pairRecord _ (.int 5) []
      | 1 => exact hasSharpLists_pairRecord _ (.int 5) [1]
      | 2 => exact hasSharpLists_pairRecord _ (.int 5) [1]
      | later + 3 =>
        have last : (Walk.run growing.itinerary (later + 3)
          (growing.walkStart (.mapping (pairRecord (.int 5) (.list [])).input) ())).2.sections =
            .ofNested (pairRecord (.int 5) (.list [.int 1, .int 2])) := by
          cases later <;> rfl
        rw [last]
        exact hasSharpLists_pairRecord _ (.int 5) [1, 2]
  obtain ⟨walk, comes, counted⟩ := comes
  refine ⟨walked, ?_⟩
  obtain ⟨calls, -⟩ := plan_calls_as_walk growing _ rfl (by decide +kernel)
    (by
      intro side name declared
      rcases field side name declared with ⟨-, rfl⟩ | ⟨-, rfl⟩ <;> decide)
    (by
      intro side name declared
      rcases field side name declared with ⟨-, rfl⟩ | ⟨-, rfl⟩ <;> decide)
    steady (.mapping [(.text "a", .int 5)]) () (pairRecord (.int 5) (.list [])) 3 walk comes 3
    (by rw [counted])
  rw [← walked]
  exact (names_eq_of_forall₂ _ _ calls).symm

/-- A workflow that hands the record on is steady. -/
theorem isSteady_handingOn (name : String) (filled : name ≠ "") (inputs outputs : List String) :
    (handingOn name inputs outputs).IsSteady := by
  refine ⟨⟨none, rfl⟩, ?_, ?_, ?_⟩
  · intro procedure member
    obtain rfl := List.mem_singleton.mp member
    exact filled
  · intro procedure member
    obtain rfl := List.mem_singleton.mp member
    exact ⟨id, fun _ _ => rfl, fun _ _ related => related⟩
  · intro name body next member record world answer after complete returns
    cases List.mem_singleton.mp member
    cases returns
    exact complete

/-- A walk over a field with an empty name comes to its end. -/
theorem comesToEnd_unnamed :
    ∃ walked, ComesToEnd (handingOn "first" [""] []) (.mapping [(.text "", .int 5)]) ()
      ⟨[(.text "", .int 5)], []⟩ 1 walked ∧ walked.progress.iteration = 1 := by
  have onlyName : ∀ side, ∀ name ∈ ((handingOn "first" [""] []).schemas.of side).fieldNames,
      side = .input ∧ name = "" := by
    intro side name declared
    rw [fieldNames_handingOn] at declared
    cases side with
    | input => exact ⟨rfl, List.mem_singleton.mp declared⟩
    | output => cases declared
  have notList : ¬ isListField (handingOn "first" [""] []).separator
      (handingOn "first" [""] []).schemas .input "" := by
    rw [isListField]
    decide +kernel
  refine ⟨_, ⟨rfl, rfl, ?_, ?_, rfl, ?_, by decide⟩, rfl⟩
  · constructor
    · intro side
      cases side <;> exact ⟨by simp [Flat.Nested.get], by simp [Flat.Nested.get]⟩
    · intro side name declared
      obtain ⟨rfl, rfl⟩ := onlyName side name declared
      exact ⟨.int 5, rfl⟩
  · intro side name declared list
    obtain ⟨rfl, rfl⟩ := onlyName side name declared
    exact absurd list notList
  · intro turns side name declared list
    obtain ⟨rfl, rfl⟩ := onlyName side name declared
    exact absurd list notList

/-- What a walk hands on in a field with an empty name, a run of the plan does not. -/
theorem not_rearranged_calls_unnamed :
    ¬ List.Forall₂ Call.Rearranged
      ((handingOn "first" [""] []).walkCalls 1 (.mapping [(.text "", .int 5)]) ())
      ((handingOn "first" [""] []).planCalls 1 (.mapping [(.text "", .int 5)]) ()) := by
  have walkCalls : (handingOn "first" [""] []).walkCalls 1 (.mapping [(.text "", .int 5)]) () =
      [⟨"first", .single none, Flat.Nested.toValue ⟨[(.text "", .int 5)], []⟩⟩] := by rfl
  have planCalls : (handingOn "first" [""] []).planCalls 1 (.mapping [(.text "", .int 5)]) () =
      [⟨"first", .single none, Flat.Nested.toValue ⟨[(.text "", .null)], []⟩⟩] := by rfl
  rw [walkCalls, planCalls]
  intro alike
  obtain ⟨-, -, records⟩ := (List.forall₂_cons.mp alike).1
  have inputs := Entries.get?_rearranged Section.input.name _ _ (by simp [Section.name]) records
  cases inputs with
  | some entries =>
    have fields := Entries.get?_rearranged "" _ _ (by simp) entries
    cases fields with
    | some values => cases values

/-- Whether the set that a record has in a field of its output is frozen. -/
def frozenOutput? (field : String) (record : Value) : Option Bool :=
  match (record.child (.text Section.output.name)).bind (·.child (.text field)) with
  | .ok (.set frozen _) => some frozen
  | _ => none

/-- Records that are the same up to order have sets of the same kind. -/
theorem frozenOutput?_rearranged (field : String) (nested : Flat.Nested)
    (named : Named nested.output) (other : Value) (related : nested.toValue.Rearranged other) :
    frozenOutput? field nested.toValue = frozenOutput? field other := by
  obtain ⟨entries, rfl⟩ := related.exists_mapping
  obtain ⟨part, there, parts⟩ := Entries.exists_get?_rearranged Section.output.name _ _
    (by simp [Section.name]) related (.mapping nested.output) rfl
  obtain ⟨others, rfl⟩ := parts.exists_mapping
  have fields := Entries.get?_rearranged field _ _ named.distinct parts
  have ownSection : nested.toValue.child (.text Section.output.name) =
      .ok (.mapping nested.output) := rfl
  have otherSection : (Value.mapping entries).child (.text Section.output.name) =
      .ok (.mapping others) := by
    simp only [Value.child, Value.key?, there]
  rw [frozenOutput?, frozenOutput?, ownSection, otherSection]
  simp only [Except.bind, Value.child, Value.key?]
  generalize Entries.get? (Key.text field) nested.output = own at fields ⊢
  generalize Entries.get? (Key.text field) others = next at fields ⊢
  cases fields with
  | none => rfl
  | some values => cases values <;> rfl

/-- A list field that is given a set and then the same set frozen: a walk hands on the frozen
one, a run of the plan takes them for equal and hands on the other. -/
def freezing : Workflow Unit :=
  startingEmpty
    [returning "first" (pairRecord (.int 5) (.set false [.int 1])) none,
      returning "second" (pairRecord (.int 5) (.set true [.int 1])) none,
      returning "third" (pairRecord (.int 5) (.list [])) none]

/-- A set that a walk hands on frozen, a run of the plan does not. -/
theorem not_rearranged_calls_freezing :
    ¬ List.Forall₂ Call.Rearranged
      (freezing.walkCalls 3 (.mapping [(.text "a", .int 5)]) ())
      (freezing.planCalls 3 (.mapping [(.text "a", .int 5)]) ()) := by
  intro alike
  have kinds : (freezing.planCalls 3 (.mapping [(.text "a", .int 5)]) ()).map
      (fun call => frozenOutput? "items" call.record) = [none, some false, some false] := by
    decide +kernel
  have walked : freezing.walkCalls 3 (.mapping [(.text "a", .int 5)]) () =
      [⟨"first", .single none, (pairRecord (.int 5) (.list [])).toValue⟩,
        ⟨"second", .single none, (pairRecord (.int 5) (.set false [.int 1])).toValue⟩,
        ⟨"third", .single none, (pairRecord (.int 5) (.set true [.int 1])).toValue⟩] := by rfl
  rw [walked] at alike
  generalize freezing.planCalls 3 (.mapping [(.text "a", .int 5)]) () = calls at alike kinds
  cases alike with
  | cons _ alike =>
    cases alike with
    | cons _ alike =>
      cases alike with
      | cons third _ =>
        obtain ⟨-, -, records⟩ := third
        have own : frozenOutput? "items" (pairRecord (.int 5) (.set true [.int 1])).toValue =
            some true := rfl
        have same := frozenOutput?_rearranged "items" _
          ⟨by simp [pairRecord], by simp [pairRecord]⟩ _ records
        rw [own] at same
        simp [← same] at kinds

/-- What an action makes of a field with an empty name is lost in the channels, and so is
that a set was frozen; calls then differ, although all that is asked of a workflow holds. -/
theorem calls_differ :
    ((handingOn "first" [""] []).plan.toOption.map (·.diagnostics) = some [] ∧
      (handingOn "first" [""] []).IsSteady ∧
      (∃ walked, ComesToEnd (handingOn "first" [""] []) (.mapping [(.text "", .int 5)]) ()
        ⟨[(.text "", .int 5)], []⟩ 1 walked ∧ walked.progress.iteration = 1) ∧
      ¬ List.Forall₂ Call.Rearranged
        ((handingOn "first" [""] []).walkCalls 1 (.mapping [(.text "", .int 5)]) ())
        ((handingOn "first" [""] []).planCalls 1 (.mapping [(.text "", .int 5)]) ())) ∧
    (freezing.plan.toOption.map (·.diagnostics) = some [] ∧ freezing.IsSteady ∧
      (∃ walked, Walk.run freezing.itinerary 3
          (freezing.walkStart (.mapping [(.text "a", .int 5)]) ()) = (.finished (), walked) ∧
        walked.progress.iteration = 3) ∧
      ¬ List.Forall₂ Call.Rearranged
        (freezing.walkCalls 3 (.mapping [(.text "a", .int 5)]) ())
        (freezing.planCalls 3 (.mapping [(.text "a", .int 5)]) ())) := by
  refine ⟨⟨by decide +kernel, isSteady_handingOn "first" (by decide) [""] [], comesToEnd_unnamed,
    not_rearranged_calls_unnamed⟩, by decide +kernel, ?_, ⟨_, rfl, rfl⟩,
    not_rearranged_calls_freezing⟩
  apply isSteady_startingEmpty
  intro procedure member
  simp only [List.mem_cons, List.not_mem_nil, or_false] at member
  rcases member with rfl | rfl | rfl <;> exact ⟨by decide, .inl ⟨_, _, _, _, rfl⟩⟩

end Workflow
end Stepwise
