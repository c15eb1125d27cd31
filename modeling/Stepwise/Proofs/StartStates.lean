import Stepwise.Proofs.Accepted
import Stepwise.Proofs.ChannelRoundTrip
import Stepwise.Proofs.Recording
import Stepwise.Proofs.Rereading
import Stepwise.Proofs.Writing

/-!
# What the first action is given

A walk gives its first action the record as it is. A run of the plan gives it the record
that the channels hold after the initial state was written into them. A plain channel
then holds the field's value; a list channel holds what becomes of the value when it is
written into an empty list, so that null becomes the empty list and any sequence the list
of its parts. Both actions are given the same exactly if the list fields start as lists.
-/

namespace Stepwise

open Entries (Named isExact_text isExact_of_lawful)

namespace Channels

variable {separator : Separator} {schemas : Schemas} {given : Section → List (Key × Value)}

/-- What a declared field's channel holds when the first node runs. -/
def startValue (separator : Separator) (schemas : Schemas)
    (given : Section → List (Key × Value)) (side : Section) (name : String) : Attempt Value :=
  (ofSchemas separator schemas).written (Flat.key separator side [name]) none
    ((Entries.get? (Key.text name) (given side)).getD .null)

/-- A plain field starts with its value, or null. -/
theorem startValue_of_plain (side : Section) (name : String)
    (plain : ¬ isListField separator schemas side name) :
    startValue separator schemas given side name =
      .ok ((Entries.get? (Key.text name) (given side)).getD .null) := by
  rw [isListField] at plain
  rw [startValue, written, if_neg plain]

/-- A list field starts with what its value becomes in an empty list. -/
theorem startValue_of_list (side : Section) (name : String)
    (list : isListField separator schemas side name) :
    startValue separator schemas given side name =
      writeList (.list []) ((Entries.get? (Key.text name) (given side)).getD .null) := by
  rw [isListField] at list
  rw [startValue, written, if_pos list, Option.getD_none]

/-- A field that cannot start is of the wrong kind. -/
theorem startValue_error (side : Section) (name : String) (why : Failure)
    (failed : startValue separator schemas given side name = .error why) : why = .wrongKind := by
  by_cases list : isListField separator schemas side name
  · rw [startValue_of_list side name list] at failed
    exact writeList_empty_error _ why failed
  · rw [startValue_of_plain side name list] at failed
    cases failed

/-- The record that the channels hold when the first node runs: fields with their start
values, and everything else as given. -/
structure Started (separator : Separator) (schemas : Schemas)
    (given : Section → List (Key × Value)) (nested : Flat.Nested) : Prop where
  named : ∀ side, Named (nested.get side)
  declared : ∀ side, ∀ name ∈ (schemas.of side).fieldNames, ∃ value,
    startValue separator schemas given side name = .ok value ∧
      Entries.get? (Key.text name) (nested.get side) = some value
  others : ∀ side name, name ∉ (schemas.of side).fieldNames →
    Entries.get? (Key.text name) (nested.get side) = Entries.get? (Key.text name) (given side)

/-- Every write of an initial state is that of a field's value or of an overflow. -/
theorem written_of_mem_spread (clear : ClearNames separator schemas) {initial : Flat}
    (spread : Spread separator schemas given initial) (update : String × Value)
    (member : update ∈ initial) :
    (∃ side, ∃ name ∈ (schemas.of side).fieldNames,
      update.1 = Flat.key separator side [name] ∧
      (ofSchemas separator schemas).written update.1 none update.2 =
        startValue separator schemas given side name) ∨
    (ofSchemas separator schemas).written update.1 none update.2 = .ok update.2 := by
  obtain ⟨key, value⟩ := update
  have read := Entries.get?_of_mem key (isExact_of_lawful key) value initial spread.distinct member
  have known := (spread.keys key).mp (List.mem_map_of_mem member)
  rcases (mem_keys_iff key).mp known with ⟨side, name, declared, rfl⟩ | ⟨side, rfl⟩
  · rw [spread.field side name declared, Option.some.injEq] at read
    exact .inl ⟨side, name, declared, rfl, by rw [startValue, read]⟩
  · right
    rw [written, isSequence_overflowKey clear side]
    rfl

/-- Where every field can start, the initial state is written: the channels of fields hold
what their values become, the overflow channels what is not declared. -/
theorem exists_writeAll_initial (clear : ClearNames separator schemas) (initial : Flat)
    (spread : Spread separator schemas given initial)
    (startable : ∀ side, ∀ name ∈ (schemas.of side).fieldNames, ∃ value,
      startValue separator schemas given side name = .ok value) :
    ∃ flat, (ofSchemas separator schemas).writeAll [] initial = .ok flat ∧
      (∀ side, ∀ name ∈ (schemas.of side).fieldNames, ∃ value,
        startValue separator schemas given side name = .ok value ∧
          Entries.get? (Flat.key separator side [name]) flat = some value) ∧
      ∀ side, Entries.get? ((ofSchemas separator schemas).overflowKey side) flat =
        some (.mapping ((given side).filter
          ((ofSchemas separator schemas).isUndeclared side))) := by
  have each : ∀ update ∈ initial, ∃ value, (ofSchemas separator schemas).written update.1
      (Entries.get? update.1 []) update.2 = .ok value := by
    intro update member
    rw [Entries.get?_nil]
    rcases written_of_mem_spread clear spread update member with
      ⟨side, name, declared, -, same⟩ | plain
    · rw [same]
      exact startable side name declared
    · exact ⟨update.2, plain⟩
  obtain ⟨flat, done, held⟩ := writeAll_ok _ initial spread.distinct [] each
  refine ⟨flat, done, fun side name declared => ?_, fun side => ?_⟩
  · have member := Entries.mem_of_get? _ (isExact_of_lawful _) _ initial
      (spread.field side name declared)
    obtain ⟨value, result, found⟩ := held _ member
    rw [Entries.get?_nil] at result
    exact ⟨value, result, found⟩
  · have member := Entries.mem_of_get? _ (isExact_of_lawful _) _ initial (spread.overflow side)
    obtain ⟨value, result, found⟩ := held _ member
    rw [Entries.get?_nil, written, isSequence_overflowKey clear side] at result
    rw [found, ← Except.ok.inj result]

/-- Where every field can start, the initial state is written and the record is collected
from it. -/
theorem started_of_writeAll (clear : ClearNames separator schemas) (initial : Flat)
    (spread : Spread separator schemas given initial) (named : ∀ side, Named (given side))
    (startable : ∀ side, ∀ name ∈ (schemas.of side).fieldNames, ∃ value,
      startValue separator schemas given side name = .ok value) :
    ∃ flat nested, (ofSchemas separator schemas).writeAll [] initial = .ok flat ∧
      (ofSchemas separator schemas).decode flat = .ok nested ∧
      Started separator schemas given nested := by
  obtain ⟨flat, done, fieldHeld, overflowHeld⟩ :=
    exists_writeAll_initial clear initial spread startable
  have filled : Filled separator schemas
      (fun side => (given side).filter ((ofSchemas separator schemas).isUndeclared side)) flat :=
    ⟨overflowHeld, (spread.filled named).named, (spread.filled named).undeclared⟩
  obtain ⟨nested, decoded, collected⟩ := collected_of_decode clear filled
  refine ⟨flat, nested, done, decoded, collected.named, ?_, ?_⟩
  · intro side name declared
    obtain ⟨value, starts, found⟩ := fieldHeld side name declared
    exact ⟨value, starts, by rw [collected.field side name declared, found, Option.getD_some]⟩
  · intro side name undeclared
    rw [← get?_filter_isUndeclared separator schemas side name undeclared _
      (collected.named side), collected.rest side,
      get?_filter_isUndeclared separator schemas side name undeclared _ (named side)]

/-- Where a field cannot start, the initial state is not written. -/
theorem writeAll_of_unstartable (clear : ClearNames separator schemas) (initial : Flat)
    (spread : Spread separator schemas given initial)
    (unstartable : ∃ side, ∃ name ∈ (schemas.of side).fieldNames, ∃ why,
      startValue separator schemas given side name = .error why) :
    (ofSchemas separator schemas).writeAll [] initial = .error .wrongKind := by
  apply writeAll_error _ .wrongKind initial spread.distinct
  · intro update member cause failed
    rw [Entries.get?_nil] at failed
    rcases written_of_mem_spread clear spread update member with ⟨side, name, -, -, same⟩ | plain
    · rw [same] at failed
      exact startValue_error side name cause failed
    · rw [plain] at failed
      cases failed
  · obtain ⟨side, name, declared, why, failed⟩ := unstartable
    have member := Entries.mem_of_get? _ (isExact_of_lawful _) _ initial
      (spread.field side name declared)
    refine ⟨_, member, why, ?_⟩
    rw [Entries.get?_nil]
    exact failed

/-- A started record is as given, declared fields added as null, exactly if every list
field was given as a list. -/
theorem Started.completes_iff {nested : Flat.Nested}
    (started : Started separator schemas given nested) :
    (∀ side, Completes (schemas.of side).fieldNames (given side) (nested.get side)) ↔
      ∀ side, ∀ name ∈ (schemas.of side).fieldNames, isListField separator schemas side name →
        ∃ items, Entries.get? (Key.text name) (given side) = some (.list items) := by
  constructor
  · intro completes side name declared list
    obtain ⟨value, starts, found⟩ := started.declared side name declared
    rw [(completes side).declared name declared, Option.some.injEq] at found
    rw [startValue_of_list side name list, ← found] at starts
    obtain ⟨items, isList⟩ := (writeList_empty_eq_self_iff _).mp starts
    refine ⟨items, ?_⟩
    cases there : Entries.get? (Key.text name) (given side) with
    | none =>
      rw [there] at isList
      cases isList
    | some held =>
      rw [there, Option.getD_some] at isList
      rw [isList]
  · intro lists side
    refine ⟨started.named side, fun name declared => ?_, started.others side⟩
    obtain ⟨value, starts, found⟩ := started.declared side name declared
    rw [found]
    by_cases list : isListField separator schemas side name
    · obtain ⟨items, held⟩ := lists side name declared list
      rw [startValue_of_list side name list, held, Option.getD_some] at starts
      rw [held, Option.getD_some, ← Except.ok.inj starts]
    · rw [startValue_of_plain side name list] at starts
      rw [Except.ok.inj starts]

end Channels

namespace Workflow

variable {World : Type}

/-- A walk as it starts on accepted input. -/
def walkStart (workflow : Workflow World) (data : Value) (world : World) : Walk World :=
  ⟨⟨data, workflow.sections.output⟩, .start workflow.procedures, [], world⟩

/-- Recording leaves a walk where it starts. -/
theorem walkStart_recorded (workflow : Workflow World) (data : Value) (world : World) :
    (workflow.recorded.walkStart data (world, [])).withoutCalls =
      workflow.walkStart data world := by
  have index : Procedure.index (workflow.procedures.map Procedure.recorded) =
      Procedure.index workflow.procedures := by
    simp [Procedure.index, List.zipIdx_map, Function.comp_def]
  have empty : (workflow.procedures.map Procedure.recorded).isEmpty =
      workflow.procedures.isEmpty := List.isEmpty_map
  have progress : Progress.start (workflow.procedures.map Procedure.recorded) =
      Progress.start workflow.procedures := by
    rw [Progress.start, Progress.start, index, empty]
  exact congrArg (fun progress => Walk.mk _ progress [] world) progress

/-- A walk of an accepted list on an accepted input leaves the world as its turns do. -/
theorem world_walk (workflow : Workflow World) (patience : Nat) (input data : Value)
    (world : World) (listed : Procedure.validate workflow.procedures = .ok ())
    (accepted : workflow.accept .input input = .ok data) :
    (workflow.walk patience input world).2.world =
      (Walk.run workflow.itinerary patience (workflow.walkStart data world)).2.world := by
  rw [walk, listed, accepted]
  dsimp only
  have same : (workflow.withSection .input data).itinerary = workflow.itinerary := rfl
  have start : Walk.mk (workflow.withSection .input data).sections
      (Progress.start workflow.procedures) [] world = workflow.walkStart data world := rfl
  rw [same, start]
  split
  · next finished =>
    rw [finished, closeWalk]
    split <;> rfl
  · next failed => rw [failed]
  · next unfinished => rw [unfinished]

/-- A walk keeps, from where the first body of its list leaves the world on, what every
body keeps. -/
theorem walk_keeps_from {relation : World → World → Prop} (chains : Chains relation)
    (workflow : Workflow World)
    (kept : ∀ procedure ∈ workflow.procedures, procedure.Keeps relation)
    (procedure : Procedure World) (rest : List (Procedure World))
    (starts : workflow.procedures = procedure :: rest)
    (listed : Procedure.validate workflow.procedures = .ok ())
    (started : workflow.options.ceiling ≠ some 0) (patience : Nat) (input data : Value)
    (accepted : workflow.accept .input input = .ok data) (world : World) :
    relation (procedure.body workflow.models
        (Sections.toValue ⟨data, workflow.sections.output⟩) world).2
      (workflow.walk (patience + 1) input world).2.world := by
  rw [world_walk workflow _ input data world listed accepted]
  refine Walk.run_keeps_from chains workflow.itinerary kept patience
    (workflow.walkStart data world) 0 procedure ?_
  have below : Walk.atCeiling workflow.itinerary.options
      (workflow.walkStart data world).progress = none := by
    rw [Walk.atCeiling, itinerary]
    cases ceiling : workflow.options.ceiling with
    | none => rfl
    | some limit =>
      have positive : limit ≠ 0 := fun zero => started (by rw [ceiling, zero])
      simp [Option.filter, walkStart, Progress.start, positive]
  have cursor : (workflow.walkStart data world).progress.cursor = some 0 := by
    simp [walkStart, Progress.start, starts]
  have found : workflow.itinerary.procedures[0]? = some procedure := by
    simp [itinerary, starts]
  rw [Walk.turn, cursor]
  dsimp only
  rw [below, found]

/-- A run of the plan on an accepted input is that of the plan on the record with the input
in it. -/
theorem execute_eq_runPlan (workflow : Workflow World) (plan : Plan World)
    (planned : workflow.plan = .ok plan) (input data : Value)
    (accepted : workflow.accept .input input = .ok data) (patience : Nat) (world : World) :
    ∃ warnings, workflow.execute patience input world =
      (workflow.withSection .input data).runPlan patience plan warnings world := by
  rw [execute, planned, accepted]
  exact ⟨_, rfl⟩

/-- A run of the plan leaves the world as its flow does. -/
theorem world_runPlan (workflow : Workflow World) (patience : Nat) (plan : Plan World)
    (events : List Event) (world : World) (initial : Flat)
    (encoded : plan.channels.encode workflow.sections.toValue = .ok initial) :
    (workflow.runPlan patience plan events world).2.world =
      (Flow.run plan patience initial world).2.world := by
  rw [runPlan, encoded]
  dsimp only
  split
  · rw [closeFlow]
    split
    · rfl
    · dsimp only
      split <;> rfl
  · rfl
  · rfl

/-- Where the initial state is refused, a run of the plan fails and leaves the world. -/
theorem runPlan_of_refused (workflow : Workflow World) (patience : Nat) (plan : Plan World)
    (events : List Event) (world : World) (initial : Flat)
    (encoded : plan.channels.encode workflow.sections.toValue = .ok initial)
    (refused : plan.channels.writeAll [] initial = .error .wrongKind) :
    (workflow.runPlan patience plan events world).1 = .failed .wrongKind ∧
      (workflow.runPlan patience plan events world).2.world = world := by
  have stopped : Flow.run plan patience initial world =
      (.failed .wrongKind, ⟨[], [], world⟩) := by
    rw [Flow.run, refused]
  rw [world_runPlan workflow patience plan events world initial encoded, stopped]
  refine ⟨?_, rfl⟩
  rw [runPlan, encoded]
  dsimp only
  rw [stopped]
  rfl

/-- A plan starts at the first action of its list. -/
theorem start_of_action (workflow : Workflow World) (plan : Plan World)
    (made : plan.MadeFor workflow) (name : String) (filled : name ≠ "") (body : Body World)
    (next : Option String) (rest : List (Procedure World))
    (starts : workflow.procedures = .action name body next :: rest) :
    plan.start = .straight (.node name) ∧
      Procedure.find? plan.procedures name = some (.action name body next) := by
  have found : Procedure.find? workflow.procedures name = some (.action name body next) := by
    have distinct := Procedure.nodup_names_of_validate _ made.accepted
    exact Procedure.find?_of_mem workflow.procedures distinct (.action name body next)
      (by rw [starts]; exact List.mem_cons_self)
  have first : (Procedure.names workflow.procedures).head? = some name := by
    rw [starts]
    rfl
  constructor
  · rw [made.start, first, Plan.routeTo, if_neg filled, found]
  · rw [made.procedures, found]

/-- A run of the plan keeps, from where the body of its first action leaves the world on,
what every body keeps. -/
theorem runPlan_keeps_from {relation : World → World → Prop} (chains : Chains relation)
    (workflow : Workflow World) (plan : Plan World) (made : plan.MadeFor workflow)
    (kept : ∀ procedure ∈ workflow.procedures, procedure.Keeps relation) (name : String)
    (filled : name ≠ "") (body : Body World) (next : Option String)
    (rest : List (Procedure World))
    (starts : workflow.procedures = .action name body next :: rest)
    (started : workflow.options.ceiling ≠ some 0) (entered : Workflow World) (patience : Nat)
    (events : List Event) (world : World) (initial flat : Flat) (nested : Flat.Nested)
    (encoded : plan.channels.encode entered.sections.toValue = .ok initial)
    (written : plan.channels.writeAll [] initial = .ok flat)
    (decoded : plan.channels.decode flat = .ok nested) :
    relation (body plan.models nested.toValue world).2
      (entered.runPlan patience plan events world).2.world := by
  obtain ⟨start, found⟩ := start_of_action workflow plan made name filled body next rest starts
  have planKept : ∀ procedure ∈ plan.procedures, procedure.Keeps relation := by
    rw [made.procedures]
    exact kept
  have branches : ∀ node name body, plan.routeOf node = .branch name body →
      .check name body ∈ plan.procedures := by
    intro node name body route
    rw [made.procedures]
    exact made.mem_of_branch name body (.inr ⟨node, route⟩)
  have positive : plan.ceiling.getD Flow.unboundedLimit ≠ 0 := by
    rw [made.ceiling]
    cases ceiling : workflow.options.ceiling with
    | none => simp [Flow.unboundedLimit]
    | some limit => exact fun zero => started (by rw [ceiling, Option.getD_some] at *; rw [zero])
  obtain ⟨limit, enough⟩ := Nat.exists_eq_add_one_of_ne_zero positive
  rw [world_runPlan entered patience plan events world initial encoded, Flow.run, written]
  dsimp only
  rw [start, Plan.resolve, enough]
  dsimp only
  have unread : Flow.readsBehind plan [.values flat] = 0 := congrArg Route.reads start
  have first := Flow.runNode_keeps_from chains plan planKept branches patience name name body next
    found ⟨flat, [.values flat], world⟩ nested (by rwa [unread, Channels.decodeAfter_zero])
  rw [Flow.runFrom]
  split
  · next moved =>
    rw [moved] at first
    split
    · exact first
    · exact chains.transitive _ _ _ first
        (Flow.runFrom_keeps chains plan planKept branches patience _ _ _)
  · next failed =>
    rw [failed] at first
    exact first
  · next unfinished =>
    rw [unfinished] at first
    exact first

/-- A prefix of one call is the first call. -/
theorem exists_later_of_callsGrow (call : Call) (before after : World × List Call)
    (single : before.2 = [call]) (grows : CallsGrow before after) :
    ∃ later, after.2 = call :: later := by
  obtain ⟨later, same⟩ := grows
  exact ⟨later, by rw [← same, single, List.singleton_append]⟩

/-- Calls grow by chains. -/
theorem chains_callsGrow : Chains (@CallsGrow World) :=
  ⟨fun world => List.prefix_refl world.2, fun _ _ _ first second => first.trans second⟩

/-- Every recording procedure only adds calls. -/
theorem recorded_keeps (workflow : Workflow World) :
    ∀ procedure ∈ workflow.recorded.procedures, procedure.Keeps CallsGrow := by
  intro procedure member
  obtain ⟨plain, -, rfl⟩ := List.mem_map.mp member
  exact plain.recorded_keeps

/-- A workflow whose list is accepted and starts with an action, on an accepted input. -/
structure StartsAt (workflow : Workflow World) (plan : Plan World) (name : String)
    (body : Body World) (next : Option String) (rest : List (Procedure World)) (input : Value)
    (start : Flat.Nested) : Prop where
  planned : workflow.plan = .ok plan
  starts : workflow.procedures = .action name body next :: rest
  filled : name ≠ ""
  limited : workflow.options.ceiling ≠ some 0
  accepted : workflow.accept .input input = .ok (.mapping start.input)
  container : workflow.sections.output = .mapping start.output
  named : ∀ side, Named (start.get side)
  clear : Channels.ClearNames workflow.separator workflow.schemas

variable {workflow : Workflow World} {plan : Plan World} {name : String} {body : Body World}
  {next : Option String} {rest : List (Procedure World)} {input : Value} {start : Flat.Nested}

/-- Recording leaves the first action first. -/
theorem StartsAt.recorded_starts
    (starts : StartsAt workflow plan name body next rest input start) :
    workflow.recorded.procedures =
      .action name (Body.recorded name body) next :: rest.map Procedure.recorded := by
  rw [Workflow.recorded, starts.starts]
  rfl

/-- The record with the accepted input in it. -/
theorem StartsAt.record (starts : StartsAt workflow plan name body next rest input start) :
    Sections.toValue ⟨.mapping start.input, workflow.sections.output⟩ = start.toValue := by
  rw [starts.container]
  rfl

/-- A walk gives the first action the record as it is. -/
theorem StartsAt.walkCalls (starts : StartsAt workflow plan name body next rest input start)
    (patience : Nat) (world : World) :
    ∃ later, workflow.walkCalls (patience + 1) input world =
      ⟨name, workflow.models, start.toValue⟩ :: later := by
  have made := Plan.madeFor_of_plan workflow plan starts.planned
  have listed : Procedure.validate workflow.recorded.procedures = .ok () :=
    (Procedure.validate_recorded _).trans made.accepted
  have grows := workflow.recorded.walk_keeps_from chains_callsGrow workflow.recorded_keeps _ _
    starts.recorded_starts listed starts.limited patience input _ starts.accepted (world, [])
  refine exists_later_of_callsGrow _ _ _ ?_ grows
  exact congrArg (fun value => [Call.mk name workflow.models value]) starts.record

/-- The initial state of the channels is encoded from the record with the input in it, with
recording as without. -/
theorem StartsAt.encoded (starts : StartsAt workflow plan name body next rest input start)
    {Other : Type} (other : Workflow Other) (otherPlan : Plan Other)
    (made : otherPlan.MadeFor other) (separators : other.separator = workflow.separator)
    (schemas : other.schemas = workflow.schemas) (sections : other.sections = workflow.sections) :
    ∃ initial, otherPlan.channels.encode
        (other.withSection .input (.mapping start.input)).sections.toValue = .ok initial ∧
      Channels.Spread workflow.separator workflow.schemas start.get initial := by
  obtain ⟨initial, encoded, spread⟩ := Channels.spread_of_encode starts.clear
    (Channels.hasSections_toValue start starts.named)
  refine ⟨initial, ?_, spread⟩
  have record : (other.withSection .input (.mapping start.input)).sections.toValue =
      start.toValue := by
    rw [← starts.record, withSection, sections]
    rfl
  rw [made.channels, separators, schemas, record]
  exact encoded

/-- Where a field cannot start, a run of the plan fails before any call. -/
theorem StartsAt.execute_unstartable
    (starts : StartsAt workflow plan name body next rest input start)
    (unstartable : ∃ side, ∃ field ∈ (workflow.schemas.of side).fieldNames, ∃ why,
      Channels.startValue workflow.separator workflow.schemas start.get side field = .error why)
    (checks : Nat) (world : World) :
    workflow.planCalls checks input world = [] ∧
      (workflow.execute checks input world).1 = .failed .wrongKind := by
  obtain ⟨recorded, recordedPlanned, recordedMade, -⟩ :=
    workflow.exists_plan_recorded plan starts.planned
  have made := Plan.madeFor_of_plan workflow plan starts.planned
  -- The same holds of both workflows; the one tells the ending, the other the calls.
  have stops : ∀ {Other : Type} (other : Workflow Other) (otherPlan : Plan Other) (state : Other),
      other.plan = .ok otherPlan → otherPlan.MadeFor other →
      other.separator = workflow.separator → other.schemas = workflow.schemas →
      other.sections = workflow.sections →
      other.accept .input input = .ok (.mapping start.input) →
      (other.execute checks input state).1 = .failed .wrongKind ∧
        (other.execute checks input state).2.world = state := by
    intro Other other otherPlan state planned otherMade separators schemas sections accepted
    obtain ⟨initial, encoded, spread⟩ :=
      starts.encoded other otherPlan otherMade separators schemas sections
    have refused : otherPlan.channels.writeAll [] initial = .error .wrongKind := by
      rw [otherMade.channels, separators, schemas]
      exact Channels.writeAll_of_unstartable starts.clear initial spread unstartable
    obtain ⟨warnings, run⟩ := other.execute_eq_runPlan otherPlan planned input _ accepted checks
      state
    rw [run]
    exact runPlan_of_refused _ checks otherPlan warnings state initial encoded refused
  have withCalls := stops workflow.recorded recorded (world, []) recordedPlanned recordedMade rfl
    rfl rfl starts.accepted
  have plain := stops workflow plan world starts.planned made rfl rfl rfl starts.accepted
  exact ⟨congrArg Prod.snd withCalls.2, plain.1⟩

/-- Where every field can start, a run of the plan gives the first action the record that
the channels hold at the start. -/
theorem StartsAt.planCalls_startable
    (starts : StartsAt workflow plan name body next rest input start)
    (startable : ∀ side, ∀ field ∈ (workflow.schemas.of side).fieldNames, ∃ value,
      Channels.startValue workflow.separator workflow.schemas start.get side field = .ok value)
    (checks : Nat) (world : World) :
    ∃ nested, (∃ later, workflow.planCalls checks input world =
        ⟨name, plan.models, nested.toValue⟩ :: later) ∧
      Channels.Started workflow.separator workflow.schemas start.get nested := by
  obtain ⟨recorded, recordedPlanned, recordedMade, sameSelection⟩ :=
    workflow.exists_plan_recorded plan starts.planned
  obtain ⟨initial, encoded, spread⟩ :=
    starts.encoded workflow.recorded recorded recordedMade rfl rfl rfl
  obtain ⟨flat, nested, done, decoded, startedRecord⟩ :=
    Channels.started_of_writeAll starts.clear initial spread starts.named startable
  obtain ⟨warnings, run⟩ := workflow.recorded.execute_eq_runPlan recorded recordedPlanned input
    _ starts.accepted checks (world, [])
  refine ⟨nested, ?_, startedRecord⟩
  have grows := workflow.recorded.runPlan_keeps_from chains_callsGrow recorded recordedMade
    workflow.recorded_keeps name starts.filled _ next _ starts.recorded_starts starts.limited
    (workflow.recorded.withSection .input (.mapping start.input)) checks warnings (world, [])
    initial flat nested encoded (recordedMade.channels ▸ done) (recordedMade.channels ▸ decoded)
  rw [planCalls, run]
  refine exists_later_of_callsGrow _ _ _ ?_ grows
  have sameModels : recorded.models = plan.models := by
    rw [Plan.models, Plan.models, sameSelection]
  exact congrArg (fun models => [Call.mk name models nested.toValue]) sameModels

/-- The first action of an accepted list is given the record as it is by a walk. A run of
the plan gives it the record with what becomes of its fields in the channels; where a list
field has a value that is refused, it fails before any call. Both records are the same,
declared fields that are missing read as null, exactly if the list fields start as lists.

Proof: both runs call the first action before anything else, and later calls only follow.
The walk reads the record, the run of the plan what is decoded from the channels after the
encoded record was written into them. -/
theorem first_calls (workflow : Workflow World) (plan : Plan World)
    (planned : workflow.plan = .ok plan) (quiet : plan.channels.diagnostics = [])
    (filled : ∀ side, ∀ field ∈ (workflow.schemas.of side).fieldNames, field ≠ "")
    (free : ∀ side, ∀ field ∈ (workflow.schemas.of side).fieldNames,
      field ≠ Channels.overflowField)
    (name : String) (nameFilled : name ≠ "") (body : Body World) (next : Option String)
    (rest : List (Procedure World))
    (starts : workflow.procedures = .action name body next :: rest)
    (started : workflow.options.ceiling ≠ some 0) (output : List (Key × Value))
    (container : workflow.sections.output = .mapping output) (outputNamed : Named output)
    (input data : Value) (accepted : workflow.accept .input input = .ok data)
    (patience checks : Nat) (world : World) :
    ∃ start : Flat.Nested, data = .mapping start.input ∧ start.output = output ∧
      (∃ later, workflow.walkCalls (patience + 1) input world =
        ⟨name, workflow.models, start.toValue⟩ :: later) ∧
      ((∃ side, ∃ field ∈ (workflow.schemas.of side).fieldNames, ∃ why,
          Channels.startValue workflow.separator workflow.schemas start.get side field =
            .error why) →
        workflow.planCalls checks input world = [] ∧
          (workflow.execute checks input world).1 = .failed .wrongKind) ∧
      ((∀ side, ∀ field ∈ (workflow.schemas.of side).fieldNames, ∃ value,
          Channels.startValue workflow.separator workflow.schemas start.get side field =
            .ok value) →
        ∃ nested, (∃ later, workflow.planCalls checks input world =
            ⟨name, plan.models, nested.toValue⟩ :: later) ∧
          Channels.Started workflow.separator workflow.schemas start.get nested ∧
          ((∀ side, Channels.Completes (workflow.schemas.of side).fieldNames (start.get side)
              (nested.get side)) ↔
            ∀ side, ∀ field ∈ (workflow.schemas.of side).fieldNames,
              Channels.isListField workflow.separator workflow.schemas side field →
                ∃ items, Entries.get? (Key.text field) (start.get side) =
                  some (.list items))) := by
  obtain ⟨entries, rfl, entriesNamed⟩ := workflow.accept_eq_mapping .input input data accepted
  have clear : Channels.ClearNames workflow.separator workflow.schemas := by
    rw [(Plan.madeFor_of_plan workflow plan planned).channels,
      Channels.diagnostics_eq_nil_iff] at quiet
    exact ⟨quiet, filled, free⟩
  have named : ∀ side, Named (Flat.Nested.get ⟨entries, output⟩ side) := by
    intro side
    cases side
    · exact entriesNamed
    · exact outputNamed
  have atStart : StartsAt workflow plan name body next rest input ⟨entries, output⟩ :=
    ⟨planned, starts, nameFilled, started, accepted, container, named, clear⟩
  refine ⟨⟨entries, output⟩, rfl, rfl, atStart.walkCalls patience world, ?_, ?_⟩
  · intro unstartable
    exact atStart.execute_unstartable unstartable checks world
  · intro startable
    obtain ⟨nested, calls, startedRecord⟩ := atStart.planCalls_startable startable checks world
    exact ⟨nested, calls, startedRecord, startedRecord.completes_iff⟩

/-- A workflow with a fresh record and a single model, of whose options only the ceiling is
chosen. -/
def withList (schemas : Schemas) (ceiling : Option Nat) (procedures : List (Procedure World)) :
    Workflow World :=
  setUp (.single none) procedures schemas
    ⟨.dev, "service", "agent", "INFO", ceiling, false, "default", .underscore⟩

@[simp] theorem procedures_withList (schemas : Schemas) (ceiling : Option Nat)
    (procedures : List (Procedure World)) :
    (withList schemas ceiling procedures).procedures = procedures := rfl

/-- Schemas without declared fields. -/
def noFields : Schemas := ⟨Channels.uniformSchema .any [], Channels.uniformSchema .any []⟩

/-- A workflow of one action that hands the record on. -/
def handingOn (name : String) (inputs outputs : List String) : Workflow Unit :=
  withList ⟨Channels.uniformSchema .any inputs, Channels.uniformSchema (.list .any) outputs⟩
    (some 9) [.action name (fun _ record world => (.ok record, world)) none]

/-- The names of a workflow that hands on. -/
theorem fieldNames_handingOn (name : String) (inputs outputs : List String) (side : Section) :
    ((handingOn name inputs outputs).schemas.of side).fieldNames =
      match side with
      | .input => inputs
      | .output => outputs := by
  cases side with
  | input => exact Channels.fieldNames_uniformSchema .any inputs
  | output => exact Channels.fieldNames_uniformSchema (.list .any) outputs

/-- A list field that starts as a tuple is handed on as a tuple by a walk and as a list by a
run of the plan. -/
theorem first_calls_tuple :
    let workflow := (handingOn "first" ["a"] ["items"]).withSection .output
      (.mapping [(.text "items", .tuple [.int 1, .int 2])])
    ∃ start nested : Flat.Nested,
      (workflow.walkCalls 1 (.mapping [(.text "a", .int 5)]) ()).head? =
        some ⟨"first", .single none, start.toValue⟩ ∧
      (workflow.planCalls 0 (.mapping [(.text "a", .int 5)]) ()).head? =
        some ⟨"first", .single none, nested.toValue⟩ ∧
      Entries.get? (Key.text "items") start.output = some (.tuple [.int 1, .int 2]) ∧
      Entries.get? (Key.text "items") nested.output = some (.list [.int 1, .int 2]) := by
  intro workflow
  have onlyNames : ∀ side, ∀ field ∈ (workflow.schemas.of side).fieldNames,
      side = .input ∧ field = "a" ∨ side = .output ∧ field = "items" := by
    intro side field declared
    have names := fieldNames_handingOn "first" ["a"] ["items"] side
    rw [show workflow.schemas = (handingOn "first" ["a"] ["items"]).schemas from rfl, names]
      at declared
    cases side <;> simp_all
  obtain ⟨start, entered, output, ⟨walked, walkCalls⟩, -, runs⟩ := first_calls workflow _ rfl
    (by decide +kernel)
    (by
      intro side field declared
      rcases onlyNames side field declared with ⟨-, rfl⟩ | ⟨-, rfl⟩ <;> decide)
    (by
      intro side field declared
      rcases onlyNames side field declared with ⟨-, rfl⟩ | ⟨-, rfl⟩ <;> decide)
    "first" (by decide) _ none [] rfl (by decide) [(.text "items", .tuple [.int 1, .int 2])] rfl
    ⟨by simp, by simp⟩ (.mapping [(.text "a", .int 5)]) (.mapping [(.text "a", .int 5)]) rfl 0 0 ()
  have isList : Channels.isListField workflow.separator workflow.schemas .output "items" := by
    rw [Channels.isListField]
    decide +kernel
  have isPlain : ¬ Channels.isListField workflow.separator workflow.schemas .input "a" := by
    rw [Channels.isListField]
    decide +kernel
  have given : Entries.get? (Key.text "items") (start.get .output) =
      some (.tuple [.int 1, .int 2]) := by
    rw [show start.get .output = start.output from rfl, output]
    rfl
  have becomes : Channels.startValue workflow.separator workflow.schemas start.get .output
      "items" = .ok (.list [.int 1, .int 2]) := by
    rw [Channels.startValue_of_list .output "items" isList, given]
    rfl
  obtain ⟨nested, ⟨run, planCalls⟩, starts, -⟩ := runs (by
    intro side field declared
    rcases onlyNames side field declared with ⟨rfl, rfl⟩ | ⟨rfl, rfl⟩
    · exact ⟨_, Channels.startValue_of_plain .input "a" isPlain⟩
    · exact ⟨_, becomes⟩)
  obtain ⟨value, same, held⟩ := starts.declared .output "items"
    ((fieldNames_handingOn "first" ["a"] ["items"] .output) ▸ List.mem_singleton.mpr rfl)
  rw [becomes] at same
  obtain rfl := Except.ok.inj same
  refine ⟨start, nested, ?_, ?_, given, held⟩
  · rw [walkCalls]
    rfl
  · rw [planCalls]
    rfl

/-- A list field of a fresh record is handed on as null by a walk and as the empty list by a
run of the plan. A field with an empty name is lost on the way into the channels, and an
action with an empty name is not run at all. None of this is said in diagnostics. -/
theorem first_calls_differ :
    ((handingOn "first" [] ["items"]).plan.toOption.map (·.diagnostics) = some [] ∧
      ∃ start nested : Flat.Nested,
        ((handingOn "first" [] ["items"]).walkCalls 1 (.mapping []) ()).head? =
          some ⟨"first", .single none, start.toValue⟩ ∧
        ((handingOn "first" [] ["items"]).planCalls 0 (.mapping []) ()).head? =
          some ⟨"first", .single none, nested.toValue⟩ ∧
        Entries.get? (Key.text "items") start.output = some .null ∧
        Entries.get? (Key.text "items") nested.output = some (.list [])) ∧
    ((handingOn "first" [""] []).plan.toOption.map (·.diagnostics) = some [] ∧
      (handingOn "first" [""] []).walkCalls 1 (.mapping [(.text "", .int 5)]) () =
        [⟨"first", .single none, Flat.Nested.toValue ⟨[(.text "", .int 5)], []⟩⟩] ∧
      (handingOn "first" [""] []).planCalls 0 (.mapping [(.text "", .int 5)]) () =
        [⟨"first", .single none, Flat.Nested.toValue ⟨[(.text "", .null)], []⟩⟩]) ∧
    ((handingOn "" [] []).plan.toOption.map (·.diagnostics) = some [] ∧
      (handingOn "" [] []).walkCalls 1 (.mapping []) () =
        [⟨"", .single none, Flat.Nested.toValue ⟨[], []⟩⟩] ∧
      (handingOn "" [] []).planCalls 0 (.mapping []) () = []) := by
  refine ⟨⟨by decide +kernel, ?_⟩, ⟨by decide +kernel, by rfl, by rfl⟩,
    ⟨by decide +kernel, by rfl, by rfl⟩⟩
  let start : Flat.Nested := ⟨[], [(.text "items", .null)]⟩
  have onlyName : ∀ side, ∀ field ∈
      ((handingOn "first" [] ["items"]).schemas.of side).fieldNames,
        side = .output ∧ field = "items" := by
    intro side field declared
    rw [fieldNames_handingOn] at declared
    cases side <;> simp_all
  have clear : Channels.ClearNames (handingOn "first" [] ["items"]).separator
      (handingOn "first" [] ["items"]).schemas := by
    refine ⟨?_, ?_, ?_⟩ <;> intro side field declared <;>
      obtain ⟨-, rfl⟩ := onlyName side field declared <;> decide
  have named : ∀ side, Named (start.get side) := by
    intro side
    cases side <;> exact ⟨by simp [start, Flat.Nested.get], by simp [start, Flat.Nested.get]⟩
  have atStart : StartsAt (handingOn "first" [] ["items"]) _ "first" _ none [] (.mapping [])
      start := ⟨rfl, rfl, by decide, by decide, rfl, rfl, named, clear⟩
  have isList : Channels.isListField (handingOn "first" [] ["items"]).separator
      (handingOn "first" [] ["items"]).schemas .output "items" := by
    rw [Channels.isListField]
    decide +kernel
  have becomes : Channels.startValue (handingOn "first" [] ["items"]).separator
      (handingOn "first" [] ["items"]).schemas start.get .output "items" = .ok (.list []) := by
    rw [Channels.startValue_of_list .output "items" isList]
    rfl
  obtain ⟨nested, ⟨later, planCalls⟩, starts⟩ := atStart.planCalls_startable (by
    intro side field declared
    obtain ⟨rfl, rfl⟩ := onlyName side field declared
    exact ⟨_, becomes⟩) 0 ()
  obtain ⟨value, same, held⟩ := starts.declared .output "items"
    ((fieldNames_handingOn "first" [] ["items"] .output) ▸ List.mem_singleton.mpr rfl)
  rw [becomes] at same
  obtain rfl := Except.ok.inj same
  obtain ⟨walked, walkCalls⟩ := atStart.walkCalls 0 ()
  refine ⟨start, nested, ?_, ?_, rfl, held⟩
  · rw [walkCalls]
    rfl
  · rw [planCalls]
    rfl

end Workflow
end Stepwise
