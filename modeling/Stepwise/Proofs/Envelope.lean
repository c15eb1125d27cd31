import Stepwise.Proofs.Ceiling
import Stepwise.Proofs.Passages

/-!
# The envelope of a walk

A walk is turned away, or it begins. It is turned away for its list, repeated names before
open ends, and then for its input; nothing is called then and nothing changed. Once it has
begun it is remembered as the last run, works on the checked input, and is completed exactly
if it has a result, failed exactly if it failed. Its result is what the output is read as,
which stays in the record as the last action returned it.

All this is said of one walk of whatever workflow, and so of every walk in a row of them on
one workflow: a walk leaves everything but the record and the last run.
-/

namespace Stepwise

variable {World : Type}

/-- Whether a list has a check, and an action that leaves its successor to the list. -/
def Procedure.HasOpenEnds (procedures : List (Procedure World)) : Prop :=
  (∃ procedure ∈ procedures, procedure.isCheck = true) ∧
    ∃ procedure ∈ procedures, procedure.leavesNextOpen = true

/-- A list is refused for the names that are repeated, or else for its open ends, or it is
accepted. -/
theorem Procedure.validate_cases (procedures : List (Procedure World)) :
    (¬ (names procedures).Nodup ∧ validate procedures =
      .error (ListFault.repeated (ListFault.repeatedNames [] [] (names procedures))).toFailure) ∨
    ((names procedures).Nodup ∧ HasOpenEnds procedures ∧ validate procedures =
      .error (ListFault.openEnded (names (procedures.filter (·.leavesNextOpen)))).toFailure) ∨
    ((names procedures).Nodup ∧ ¬ HasOpenEnds procedures ∧ validate procedures = .ok ()) := by
  have repeatedIff := ListFault.repeatedNames_eq_nil_iff (names procedures)
  have checksIff : procedures.any (·.isCheck) = true ↔
      ∃ procedure ∈ procedures, procedure.isCheck = true := List.any_eq_true
  have openIff : names (procedures.filter (·.leavesNextOpen)) ≠ [] ↔
      ∃ procedure ∈ procedures, procedure.leavesNextOpen = true := by
    simp [names, List.filter_eq_nil_iff]
  unfold validate ListFault.ofList? HasOpenEnds
  rw [← checksIff, ← openIff, ← repeatedIff]
  cases ListFault.repeatedNames [] [] (names procedures) with
  | cons name rest => exact .inl ⟨by simp, rfl⟩
  | nil =>
    right
    cases procedures.any (·.isCheck) with
    | false => exact .inr ⟨rfl, by simp, rfl⟩
    | true =>
      cases names (procedures.filter (·.leavesNextOpen)) with
      | nil => exact .inr ⟨rfl, by simp, rfl⟩
      | cons name rest => exact .inl ⟨rfl, by simp, rfl⟩

namespace Workflow

/-- Why a walk is turned away. Repeated names decide whatever else is wrong, open ends
whatever the input is. Of an accepted list an input is turned away that does not fit, or in
which something is read as a key that can change. -/
inductive TurnsAway (workflow : Workflow World) (input : Value) : Failure → Prop where
  | names (repeated : ¬ (Procedure.names workflow.procedures).Nodup) :
      TurnsAway workflow input (ListFault.repeated
        (ListFault.repeatedNames [] [] (Procedure.names workflow.procedures))).toFailure
  | chain (distinct : (Procedure.names workflow.procedures).Nodup)
      (openEnds : Procedure.HasOpenEnds workflow.procedures) :
      TurnsAway workflow input (ListFault.openEnded
        (Procedure.names (workflow.procedures.filter (·.leavesNextOpen)))).toFailure
  | mismatch (listed : Procedure.validate workflow.procedures = .ok ()) {findings : List Finding}
      (unfit : workflow.schemas.input.check input = .error (.findings findings)) :
      TurnsAway workflow input
        (.mismatch (mismatchSummary .input) (findings.map Finding.issue))
  | unread (listed : Procedure.validate workflow.procedures = .ok ()) {why : Failure}
      (failed : workflow.schemas.input.check input = .error (.failure why)) :
      TurnsAway workflow input why

/-- A walk is turned away exactly for what its list or its input is rejected for. -/
theorem turnsAway_iff_rejects (workflow : Workflow World) (input : Value) (why : Failure) :
    workflow.TurnsAway input why ↔ workflow.Rejects input why := by
  constructor
  · intro turned
    rcases Procedure.validate_cases workflow.procedures with
      ⟨repeated, unlisted⟩ | ⟨distinct, openEnds, unlisted⟩ | ⟨distinct, closed, listed⟩
    · cases turned with
      | names => exact .list unlisted
      | chain distinct => exact absurd distinct repeated
      | mismatch listed => rw [unlisted] at listed; cases listed
      | unread listed => rw [unlisted] at listed; cases listed
    · cases turned with
      | names repeated => exact absurd distinct repeated
      | chain => exact .list unlisted
      | mismatch listed => rw [unlisted] at listed; cases listed
      | unread listed => rw [unlisted] at listed; cases listed
    · cases turned with
      | names repeated => exact absurd distinct repeated
      | chain _ openEnds => exact absurd openEnds closed
      | mismatch _ unfit =>
        refine .input listed ?_
        have unfit : (workflow.schemas.of .input).check input = _ := unfit
        rw [accept, unfit]
        rfl
      | unread _ failed =>
        refine .input listed ?_
        have failed : (workflow.schemas.of .input).check input = _ := failed
        rw [accept, failed]
        rfl
  · rintro (unlisted | ⟨listed, unaccepted⟩)
    · rcases Procedure.validate_cases workflow.procedures with
        ⟨repeated, refused⟩ | ⟨distinct, openEnds, refused⟩ | ⟨-, -, listed⟩
      · obtain rfl := Except.error.inj (refused.symm.trans unlisted)
        exact .names repeated
      · obtain rfl := Except.error.inj (refused.symm.trans unlisted)
        exact .chain distinct openEnds
      · rw [listed] at unlisted
        cases unlisted
    · rw [accept] at unaccepted
      cases checked : (workflow.schemas.of .input).check input with
      | ok => rw [checked] at unaccepted; cases unaccepted
      | error rejection =>
        rw [checked] at unaccepted
        obtain rfl := Except.error.inj unaccepted
        cases rejection with
        | findings => exact .mismatch listed checked
        | failure => exact .unread listed checked

variable {workflow : Workflow World} {input data : Value}

/-- What is accepted is not turned away. -/
theorem Accepts.not_turnsAway (accepts : workflow.Accepts input data) (why : Failure) :
    ¬ workflow.TurnsAway input why := by
  rw [turnsAway_iff_rejects]
  rintro (unlisted | ⟨-, unaccepted⟩)
  · rw [accepts.listed] at unlisted
    cases unlisted
  · rw [accepts.accepted] at unaccepted
    cases unaccepted

/-- The status of a run by how it ended. -/
def statusOf {α : Type} : Ending α → Status
  | .finished _ => .completed
  | .failed _ => .failed
  | .unfinished => .running

/-- A walk that has begun, on checked data: its calls, how it ended, and what it left. -/
structure Begun (workflow : Workflow World) (data : Value) (world : World) (calls : List Call)
    (ending : Ending Value) (left : Workflow World) : Prop where
  /-- Nothing changes but the record and the last run. -/
  frame : left = { workflow with sections := left.sections, lastRun := left.lastRun }
  /-- The first body that is called gets the checked input beside the output as it was. -/
  entered : ∀ call ∈ calls.head?,
    call.record = Sections.toValue ⟨data, workflow.sections.output⟩
  /-- Where no body is called, just the input is replaced. -/
  unwalked : calls = [] → left.sections = ⟨data, workflow.sections.output⟩
  /-- The last run is this walk: what it has visited are the procedures called, and its
  status says how it ended. -/
  remembered : ∃ progress, left.lastRun = some progress ∧
    progress.index = Procedure.index workflow.procedures ∧
    progress.visited = calls.map Call.name ∧ progress.iteration = calls.length ∧
    (progress.status = .completed ↔ ∃ result, ending = .finished result) ∧
    (progress.status = .failed ↔ ∃ why, ending = .failed why) ∧
    (progress.status = .running ↔ ending = .unfinished)
  /-- A result is what the output is read as. That stays in the record as the last action
  returned it on the way of the walk, or as it was if there is none. -/
  result : ∀ result, ending = .finished result →
    workflow.accept .output left.sections.output = .ok result ∧
    ∃ passed here, Walk.Passage workflow.itinerary (workflow.walkStart data world) passed here ∧
      passed.map (·.procedure.name) = calls.map Call.name ∧ here.sections = left.sections ∧
      Walk.AsReturned passed ⟨data, workflow.sections.output⟩ left.sections

/-- Turns leave a workflow with the walk as its last run, in the status of the ending. -/
theorem workflow_afterTurns (workflow : Workflow World) (walked : Walk World)
    (ending : Ending Unit) :
    (workflow.afterTurns walked ending).2.workflow =
      workflow.afterWalk walked (statusOf (workflow.afterTurns walked ending).1) := by
  cases ending with
  | finished =>
    rw [afterTurns, closeWalk]
    split <;> rfl
  | failed => rfl
  | unfinished => rfl

/-- Turns have a result only if they finish, and then the output is read as it. -/
theorem result_afterTurns (workflow : Workflow World) (walked : Walk World)
    (ending : Ending Unit) (result : Value)
    (has : (workflow.afterTurns walked ending).1 = .finished result) :
    ending = .finished () ∧ workflow.accept .output walked.sections.output = .ok result := by
  cases ending with
  | finished =>
    rw [afterTurns, closeWalk] at has
    split at has
    · cases has
    · next accepted =>
      cases has
      exact ⟨rfl, accepted⟩
  | failed => cases has
  | unfinished => cases has

/-- The status of an ending tells which of the three it is. -/
theorem statusOf_iff {α : Type} (ending : Ending α) :
    (statusOf ending = .completed ↔ ∃ result, ending = .finished result) ∧
      (statusOf ending = .failed ↔ ∃ why, ending = .failed why) ∧
      (statusOf ending = .running ↔ ending = .unfinished) := by
  cases ending <;> simp [statusOf]

/-- The first call of a walk gets the record that it starts from. -/
theorem Accepts.record_of_head? (accepts : workflow.Accepts input data) (patience : Nat)
    (world : World) (call : Call) (first : call ∈ (workflow.walkCalls patience input world).head?) :
    call.record = Sections.toValue ⟨data, workflow.sections.output⟩ := by
  rw [accepts.walkCalls_eq] at first
  rcases next : Walk.turn workflow.itinerary.recorded
      (workflow.recorded.walkStart data (world, [])) with ⟨ending, final⟩ | ⟨position, procedure⟩
  · rw [Walk.run_of_over _ _ _ _ next, Walk.over_of_turn _ _ _ _ next] at first
    cases first
  · cases patience with
    | zero =>
      rw [Walk.run_zero_of_dispatch _ _ _ _ next] at first
      cases first
    | succ left =>
      have member := Walk.mem_of_turn _ _ _ _ next
      obtain ⟨plain, -, rfl⟩ := List.mem_map.mp member
      have grows := Walk.run_keeps_from chains_callsGrow workflow.itinerary.recorded
        (recorded_keeps workflow) left _ position plain.recorded next
      obtain ⟨later, calls⟩ := exists_later_of_callsGrow _ _ _ (plain.body_recorded _ _ _) grows
      rw [calls] at first
      cases first
      rfl

/-- A walk of an accepted list on accepted input has begun. -/
theorem Accepts.begun (accepts : workflow.Accepts input data) (patience : Nat) (world : World) :
    workflow.Begun data world (workflow.walkCalls patience input world)
      (workflow.walk patience input world).1 (workflow.walk patience input world).2.workflow := by
  obtain ⟨passed, here, passage, -, -, ends⟩ := Walk.exists_passage_of_run workflow.itinerary
    patience (workflow.walkStart data world)
  have named := accepts.names_walkCalls patience world
  have counted := accepts.length_walkCalls patience world
  have record := accepts.record_of_head? patience world
  have walks := accepts.walk_eq patience world
  generalize Walk.run workflow.itinerary patience (workflow.walkStart data world) = outcome
    at ends named counted walks
  obtain ⟨turns, walked⟩ := outcome
  have visited : here.progress.visited = passed.map (·.procedure.name) := passage.visited_eq
  rw [walks, workflow.workflow_afterTurns walked turns]
  refine ⟨rfl, record, fun silent => ?_, ?_, fun result has => ?_⟩
  · rw [silent, List.map_nil] at named
    rcases ends.visited_cases with ⟨sections, same⟩ | ⟨name, more⟩
    · obtain rfl : passed = [] :=
        List.map_eq_nil_iff.mp (visited.symm.trans (same.symm.trans named.symm))
      cases passage
      exact sections
    · rw [← named] at more
      simp at more
  · exact ⟨_, rfl, ends.index_eq.trans passage.progress_eq.1, named.symm, counted.symm,
      statusOf_iff _⟩
  · obtain ⟨rfl, accepted⟩ := workflow.result_afterTurns walked turns result has
    obtain ⟨-, rfl⟩ := ends.eq_of_finished
    exact ⟨accepted, passed, walked, passage, (named.trans visited).symm, rfl, passage.asReturned⟩

/-- What becomes of a walk: it is turned away and leaves everything as it was, or it begins. -/
inductive Envelope (workflow : Workflow World) (patience : Nat) (input : Value) (world : World) :
    Prop where
  | away (why : Failure) (turned : workflow.TurnsAway input why)
      (untouched : workflow.walk patience input world = (.failed why, ⟨workflow, [], world⟩))
      (silent : workflow.walkCalls patience input world = [])
  | begun (data : Value) (accepts : workflow.Accepts input data)
      (admitted : ∀ why, ¬ workflow.TurnsAway input why)
      (begun : workflow.Begun data world (workflow.walkCalls patience input world)
        (workflow.walk patience input world).1 (workflow.walk patience input world).2.workflow)

/-- Every walk is turned away or begins. -/
theorem envelope_walk (workflow : Workflow World) (patience : Nat) (input : Value)
    (world : World) : workflow.Envelope patience input world := by
  rcases workflow.accepts_or_rejects input with ⟨data, accepts⟩ | ⟨why, rejects⟩
  · exact .begun data accepts accepts.not_turnsAway (accepts.begun patience world)
  · exact .away why ((workflow.turnsAway_iff_rejects input why).mpr rejects)
      (rejects.walk_eq patience world) (rejects.walkCalls_eq patience world)

/-- Walks of a workflow on several inputs, one after the other. Each has to end, whatever
number of dispatches that takes, and leaves the workflow and the world to the next one. -/
inductive WalksOn : Workflow World → World → List Value → Workflow World → World → Prop where
  | nil (workflow : Workflow World) (world : World) : WalksOn workflow world [] workflow world
  | cons {workflow now : Workflow World} {world later : World} {input : Value}
      {inputs : List Value} (patience : Nat)
      (ended : (workflow.walk patience input world).1 ≠ .unfinished)
      (onward : WalksOn (workflow.walk patience input world).2.workflow
        (workflow.walk patience input world).2.world inputs now later) :
      WalksOn workflow world (input :: inputs) now later

/-- No walk that is remembered as the last run is still running. -/
def Settled (workflow : Workflow World) : Prop :=
  ∀ progress ∈ workflow.lastRun, progress.status ≠ .running

/-- A walk changes nothing of a workflow but its record and the last run. -/
theorem Envelope.frame {patience : Nat} {world : World}
    (envelope : workflow.Envelope patience input world) :
    (workflow.walk patience input world).2.workflow =
      { workflow with
        sections := (workflow.walk patience input world).2.workflow.sections
        lastRun := (workflow.walk patience input world).2.workflow.lastRun } := by
  cases envelope with
  | away why turned untouched => rw [untouched]
  | begun data accepts admitted begun => exact begun.frame

/-- A walk that ends leaves no walk running. -/
theorem Envelope.settled {patience : Nat} {world : World}
    (envelope : workflow.Envelope patience input world) (settled : workflow.Settled)
    (ended : (workflow.walk patience input world).1 ≠ .unfinished) :
    (workflow.walk patience input world).2.workflow.Settled := by
  cases envelope with
  | away why turned untouched =>
    rw [untouched]
    exact settled
  | begun data accepts admitted begun =>
    obtain ⟨progress, last, -, -, -, -, -, running⟩ := begun.remembered
    intro other isLast
    rw [last] at isLast
    obtain rfl := Option.some.inj isLast
    exact fun stillRunning => ended (running.mp stillRunning)

/-- After walks in a row a workflow is what it was but for its record and the last run, which
is not running. The next walk is turned away or begins on that workflow.

Proof: by induction on the walks; each keeps the frame and leaves nothing running. -/
theorem envelope_behind_walks {now : Workflow World} {world later : World} {inputs : List Value}
    (walks : WalksOn workflow world inputs now later) (settled : workflow.Settled) :
    now = { workflow with sections := now.sections, lastRun := now.lastRun } ∧ now.Settled ∧
      ∀ patience input, now.Envelope patience input later := by
  induction walks with
  | nil workflow world =>
    exact ⟨rfl, settled, fun patience input => workflow.envelope_walk patience input world⟩
  | @cons workflow now world later input inputs patience ended onward ih =>
    have first := workflow.envelope_walk patience input world
    obtain ⟨frame, settledNow, envelope⟩ := ih (first.settled settled ended)
    refine ⟨frame.trans ?_, settledNow, envelope⟩
    rw [first.frame]

/-- A workflow of one action that returns a fixed record, with a mapping from lists of numbers to
numbers for its input. -/
def fixedRecord : Workflow Unit :=
  withList { noFields with input := ⟨⟨"M", .ignore, false⟩,
      [(⟨"m", none, none, none, some (.mapping [])⟩, .mapping true (.list .int) .int)]⟩ } none
    [.action "first"
      (fun _ _ world => (.ok (.ofFields [("input", .mapping []), ("output", .mapping [])]), world))
      none]

/-- After an input that does not fit and one that does, the last run is a completed one, and the
next walk is turned away or begins. -/
theorem envelope_behind_two :
    ∃ now, WalksOn fixedRecord () [.int 1, .mapping []] now () ∧ now.Settled ∧
      (∃ progress, now.lastRun = some progress ∧ progress.status = .completed) ∧
      ∀ patience input, now.Envelope patience input () := by
  have refused : (fixedRecord.walk 0 (.int 1) ()).1 ≠ .unfinished := nofun
  have finished : (fixedRecord.walk 1 (.mapping []) ()).1 ≠ .unfinished := nofun
  have walks : WalksOn fixedRecord () [.int 1, .mapping []]
      (fixedRecord.walk 1 (.mapping []) ()).2.workflow () :=
    .cons 0 refused (.cons 1 finished (.nil _ _))
  have fresh : fixedRecord.Settled := fun _ isLast =>
    absurd isLast (by simp [fixedRecord, withList, setUp])
  obtain ⟨-, settled, envelope⟩ := envelope_behind_walks walks fresh
  exact ⟨_, walks, settled, ⟨_, rfl, rfl⟩, envelope⟩

/-- Every walk that fails otherwise than for names, the chain of procedures or a section that
does not fit is remembered as a failed one. -/
def RemembersFailures (workflow : Workflow World) : Prop :=
  ∀ (patience : Nat) (input : Value) (world : World) (why : Failure),
    (workflow.walk patience input world).1 = .failed why →
    why.family? ≠ some .names → why.family? ≠ some .chain → why.family? ≠ some .mismatch →
      ∃ progress, (workflow.walk patience input world).2.workflow.lastRun = some progress ∧
        progress.status = .failed

/-- An input in which a list is read where a key must stand is turned away with a failure of
another kind, and the walk is not remembered. -/
theorem not_remembersFailures : ¬ fixedRecord.RemembersFailures := by
  intro remembers
  obtain ⟨progress, last, -⟩ := remembers 0
    (.mapping [(.text "m", .mapping [(.tuple [.int 1], .int 2)])]) () .wrongKind rfl
    nofun nofun nofun
  cases last

end Workflow
end Stepwise
