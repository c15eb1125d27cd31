import Stepwise.Proofs.Accounts
import Stepwise.Proofs.StartStates

/-!
# The ceiling of a walk

A ceiling only cuts a walk off. As long as a walk without a ceiling stops within as many
dispatches as the ceiling says, however it stops, the walk under the ceiling is the same
walk. Otherwise it fails where the other goes on to one dispatch more, and has until then
done the same.

A walk that stands at a procedure stands in the list, since positions come from the index
or from the next in the list. So what is looked at first, the ceiling or the list, never
matters.
-/

namespace Stepwise

variable {World : Type}

/-- The options with another ceiling, or with none. -/
def Options.withCeiling (options : Options) (ceiling : Option Nat) : Options :=
  { options with ceiling }

/-- The itinerary with another ceiling, or with none. -/
def Itinerary.withCeiling (itinerary : Itinerary World) (ceiling : Option Nat) :
    Itinerary World :=
  { itinerary with options := itinerary.options.withCeiling ceiling }

/-- The workflow with another ceiling, or with none. -/
def Workflow.withCeiling (workflow : Workflow World) (ceiling : Option Nat) : Workflow World :=
  { workflow with options := workflow.options.withCeiling ceiling }

/-- What a run leaves, read under another ceiling. -/
def Aftermath.withCeiling (aftermath : Aftermath World) (ceiling : Option Nat) :
    Aftermath World :=
  { aftermath with workflow := aftermath.workflow.withCeiling ceiling }

namespace Walk

/-- A walk that stands nowhere or in the list, and whose index is that of the list. -/
structure OnList (procedures : List (Procedure World)) (walk : Walk World) : Prop where
  indexed : walk.progress.index = Procedure.index procedures
  stands : ∀ position, walk.progress.cursor = some position → position < procedures.length

/-- A name leads into the list. -/
theorem lt_of_get?_index (procedures : List (Procedure World))
    (distinct : (Procedure.names procedures).Nodup) (name : String) (position : Nat)
    (found : Entries.get? name (Procedure.index procedures) = some position) :
    position < procedures.length := by
  obtain ⟨procedure, there, -⟩ :=
    (Procedure.get?_index_iff procedures distinct name position).mp found
  exact (List.getElem?_eq_some_iff.mp there).1

/-- A walk starts in the list. -/
theorem onList_start (procedures : List (Procedure World)) (sections : Sections)
    (world : World) : OnList procedures ⟨sections, .start procedures, [], world⟩ := by
  refine ⟨rfl, ?_⟩
  intro position stands
  cases procedures with
  | nil => cases stands
  | cons procedure rest =>
    obtain rfl : 0 = position := Option.some.inj stands
    exact Nat.zero_lt_succ _

/-- Moving to a name leads into the list or nowhere. -/
theorem OnList.jump {procedures : List (Procedure World)} {walk : Walk World}
    (onList : OnList procedures walk) (distinct : (Procedure.names procedures).Nodup)
    (itinerary : Itinerary World) (name : Key) :
    OnList procedures (walk.jump itinerary name) := by
  obtain ⟨events, moved⟩ := jump_eq itinerary walk name
  rw [moved]
  refine ⟨onList.indexed, ?_⟩
  intro position stands
  obtain ⟨text, -, found⟩ := Option.bind_eq_some_iff.mp stands
  rw [onList.indexed] at found
  exact lt_of_get?_index procedures distinct text position found

/-- Moving on from an action leads into the list or nowhere. -/
theorem OnList.continueTo {itinerary : Itinerary World} {walk : Walk World}
    (onList : OnList itinerary.procedures walk)
    (distinct : (Procedure.names itinerary.procedures).Nodup) (position : Nat)
    (successor : Successor) :
    OnList itinerary.procedures (walk.continueTo itinerary position successor) := by
  cases successor with
  | finish =>
    refine ⟨onList.indexed, ?_⟩
    intro position stands
    cases stands
  | named name => exact onList.jump distinct itinerary (.text name)
  | following =>
    refine ⟨onList.indexed, ?_⟩
    intro next stands
    rw [Walk.continueTo, moveTo] at stands
    split at stands
    · next inside =>
      obtain rfl := Option.some.inj stands
      exact inside
    · cases stands

/-- Following an answer leads into the list or nowhere. -/
theorem OnList.follow {itinerary : Itinerary World} {walk : Walk World}
    (onList : OnList itinerary.procedures walk)
    (distinct : (Procedure.names itinerary.procedures).Nodup) (answer : Value) :
    OnList itinerary.procedures (walk.follow itinerary answer).2 := by
  rw [Walk.follow]
  split
  · refine ⟨onList.indexed, ?_⟩
    intro position stands
    cases stands
  · split
    · exact onList.jump distinct itinerary _
    · exact onList

/-- A walk stays in the list when its progress does not change. -/
theorem OnList.of_progress {procedures : List (Procedure World)} {walk other : Walk World}
    (onList : OnList procedures walk) (same : other.progress = walk.progress) :
    OnList procedures other := by
  obtain ⟨indexed, stands⟩ := onList
  rw [← same] at indexed stands
  exact ⟨indexed, stands⟩

/-- A dispatch leads into the list or nowhere. -/
theorem OnList.dispatch {itinerary : Itinerary World} {walk : Walk World}
    (onList : OnList itinerary.procedures walk)
    (distinct : (Procedure.names itinerary.procedures).Nodup) (position : Nat)
    (procedure : Procedure World) :
    OnList itinerary.procedures (walk.dispatch itinerary position procedure).2 := by
  apply dispatch_preserves
  · exact ⟨onList.indexed, onList.stands⟩
  · intro moved returned onList
    exact onList.of_progress (progress_adopt moved returned)
  · intro moved successor onList
    exact onList.continueTo distinct position successor
  · intro moved answer onList
    exact onList.follow distinct answer

/-- The event that says that the ceiling was reached. -/
def limitEvent (limit : Nat) : Event :=
  ⟨.warning, "iteration_limit_reached", [("max_iterations", .int limit)]⟩

/-- The ceiling does not matter for what a dispatch does. -/
theorem dispatch_withCeiling (itinerary : Itinerary World) (ceiling : Option Nat)
    (walk : Walk World) (position : Nat) (procedure : Procedure World) :
    walk.dispatch (itinerary.withCeiling ceiling) position procedure =
      walk.dispatch itinerary position procedure := by
  cases procedure <;> rfl

/-- A walk in the list is over under any ceiling, or dispatches the same procedure, unless
the ceiling is reached. -/
theorem OnList.turn_cases {itinerary : Itinerary World} {walk : Walk World}
    (onList : OnList itinerary.procedures walk) :
    (walk.progress.cursor = none ∧
      ∀ ceiling, turn (itinerary.withCeiling ceiling) walk = .over (.finished ()) walk) ∨
    ∃ position procedure,
      turn (itinerary.withCeiling none) walk = .dispatch position procedure ∧
      ∀ limit, turn (itinerary.withCeiling (some limit)) walk =
        if limit ≤ walk.progress.iteration then
          .over (.failed (.iterationLimit limit)) (walk.log itinerary (limitEvent limit))
        else .dispatch position procedure := by
  cases cursor : walk.progress.cursor with
  | none =>
    left
    refine ⟨rfl, fun ceiling => ?_⟩
    rw [turn, cursor]
  | some position =>
    right
    have inside := onList.stands position cursor
    refine ⟨position, itinerary.procedures[position], ?_, fun limit => ?_⟩
    · have found : (itinerary.withCeiling none).procedures[position]? =
          some itinerary.procedures[position] := List.getElem?_eq_getElem inside
      rw [turn, cursor]
      dsimp only
      have noCeiling : atCeiling (itinerary.withCeiling none).options walk.progress = none := rfl
      rw [noCeiling, found]
    · have found : (itinerary.withCeiling (some limit)).procedures[position]? =
          some itinerary.procedures[position] := List.getElem?_eq_getElem inside
      rw [turn, cursor]
      dsimp only
      by_cases reached : limit ≤ walk.progress.iteration
      · have ceiling : atCeiling (itinerary.withCeiling (some limit)).options walk.progress =
            some limit := by
          rw [atCeiling]
          exact Option.filter_some_pos (by simpa using reached)
        rw [ceiling, if_pos reached]
        rfl
      · have ceiling : atCeiling (itinerary.withCeiling (some limit)).options walk.progress =
            none := by
          rw [atCeiling]
          exact Option.filter_some_neg (by simpa using reached)
        rw [ceiling, found, if_neg reached]

/-- A walk that dispatches has counted more in the end. -/
theorem iteration_lt_run (itinerary : Itinerary World) (walk : Walk World) (position : Nat)
    (procedure : Procedure World) (next : turn itinerary walk = .dispatch position procedure)
    (left : Nat) :
    walk.progress.iteration < (run itinerary (left + 1) walk).2.progress.iteration := by
  have counted := iteration_dispatch itinerary walk position procedure
  cases dispatched : walk.dispatch itinerary position procedure with
  | mk failure moved =>
    rw [dispatched] at counted
    cases failure with
    | some why =>
      rw [run_of_failed itinerary walk moved position procedure next why dispatched]
      exact Nat.lt_of_succ_le counted.ge
    | none =>
      rw [run_of_moved itinerary walk moved position procedure next dispatched]
      have onward := iteration_le_run itinerary left moved
      exact Nat.lt_of_lt_of_le (Nat.lt_of_succ_le counted.ge) onward

/-- A walk without a ceiling beside one that may make `left` dispatches more: either the free
one stops within these, and the bounded one is the same; or it goes on, and the bounded one
fails where the free one stands then.

Proof: by induction on the dispatches that are left. Both look at the same procedure as long
as there are any; when there are none, the free one goes on exactly if it stands somewhere. -/
theorem OnList.run_cases {itinerary : Itinerary World} {walk : Walk World}
    (onList : OnList itinerary.procedures walk)
    (distinct : (Procedure.names itinerary.procedures).Nodup) (left more limit : Nat)
    (ceiling : limit = walk.progress.iteration + left) :
    (∃ ending final, ending ≠ .unfinished ∧ final.progress.iteration ≤ limit ∧
      (∀ later, run (itinerary.withCeiling none) (left + later) walk = (ending, final)) ∧
      run (itinerary.withCeiling (some limit)) (left + more) walk = (ending, final)) ∨
    ∃ final, final.progress.iteration = limit ∧
      run (itinerary.withCeiling none) left walk = (.unfinished, final) ∧
      (∀ later, limit <
        (run (itinerary.withCeiling none) (left + 1 + later) walk).2.progress.iteration) ∧
      run (itinerary.withCeiling (some limit)) (left + more) walk =
        (.failed (.iterationLimit limit), final.log itinerary (limitEvent limit)) := by
  induction left generalizing walk with
  | zero =>
    rcases onList.turn_cases with ⟨-, isOver⟩ | ⟨position, procedure, next, bounded⟩
    · refine .inl ⟨.finished (), walk, by simp, by omega, fun later => ?_, ?_⟩
      · exact run_of_over _ walk walk _ (isOver none) _
      · exact run_of_over _ walk walk _ (isOver (some limit)) _
    · refine .inr ⟨walk, by omega, run_zero_of_dispatch _ walk position procedure next,
        fun later => ?_, ?_⟩
      · have counted := iteration_lt_run _ walk position procedure next later
        rw [Nat.zero_add, Nat.add_comm 1 later]
        omega
      · have reached := bounded limit
        rw [if_pos (by omega)] at reached
        exact run_of_over _ walk _ _ reached _
  | succ left ih =>
    rcases onList.turn_cases with ⟨-, isOver⟩ | ⟨position, procedure, next, bounded⟩
    · refine .inl ⟨.finished (), walk, by simp, by omega, fun later => ?_, ?_⟩
      · exact run_of_over _ walk walk _ (isOver none) _
      · exact run_of_over _ walk walk _ (isOver (some limit)) _
    · have below := bounded limit
      rw [if_neg (by omega)] at below
      have counted := iteration_dispatch itinerary walk position procedure
      have kept := onList.dispatch distinct position procedure
      cases dispatched : walk.dispatch itinerary position procedure with
      | mk failure moved =>
        rw [dispatched] at counted kept
        have same : ∀ ceiling, walk.dispatch (itinerary.withCeiling ceiling) position procedure =
            (failure, moved) :=
          fun ceiling => (dispatch_withCeiling itinerary ceiling walk position procedure).trans
            dispatched
        dsimp only at counted kept
        cases failure with
        | some why =>
          refine .inl ⟨.failed why, moved, by simp, by omega, fun later => ?_, ?_⟩
          · rw [Nat.succ_add_eq_add_succ]
            exact run_of_failed _ walk moved position procedure next why (same none) _
          · rw [Nat.succ_add_eq_add_succ]
            exact run_of_failed _ walk moved position procedure below why (same _) _
        | none =>
          have free : ∀ later, run (itinerary.withCeiling none) (later + 1) walk =
              run (itinerary.withCeiling none) later moved :=
            run_of_moved _ walk moved position procedure next (same none)
          have limited : ∀ later, run (itinerary.withCeiling (some limit)) (later + 1) walk =
              run (itinerary.withCeiling (some limit)) later moved :=
            run_of_moved _ walk moved position procedure below (same _)
          have shift : ∀ later, left + 1 + later = left + later + 1 :=
            fun later => Nat.succ_add left later
          rw [shift more, limited, free left]
          rcases ih kept (by omega) with
            ⟨ending, final, stopped, within, freeRun, boundedRun⟩ |
            ⟨final, reached, freeRun, goesOn, boundedRun⟩
          · refine .inl ⟨ending, final, stopped, within, fun later => ?_, boundedRun⟩
            rw [shift later, free]
            exact freeRun later
          · refine .inr ⟨final, reached, freeRun, fun later => ?_, boundedRun⟩
            rw [Nat.add_right_comm (left + 1) 1 later, shift later, free,
              Nat.add_right_comm left later 1]
            exact goesOn later

end Walk

namespace Workflow

/-- The list and the input are accepted, the input as the given data. -/
structure Accepts (workflow : Workflow World) (input data : Value) : Prop where
  listed : Procedure.validate workflow.procedures = .ok ()
  accepted : workflow.accept .input input = .ok data

/-- The list is not accepted, or it is and the input is not. -/
inductive Rejects (workflow : Workflow World) (input : Value) (why : Failure) : Prop where
  | list (unlisted : Procedure.validate workflow.procedures = .error why)
  | input (listed : Procedure.validate workflow.procedures = .ok ())
      (unaccepted : workflow.accept .input input = .error why)

/-- A list and an input are accepted, or rejected for some reason. -/
theorem accepts_or_rejects (workflow : Workflow World) (input : Value) :
    (∃ data, workflow.Accepts input data) ∨ ∃ why, workflow.Rejects input why := by
  cases listed : Procedure.validate workflow.procedures with
  | error why => exact .inr ⟨why, .list listed⟩
  | ok _ =>
    cases accepted : workflow.accept .input input with
    | ok data => exact .inl ⟨data, listed, accepted⟩
    | error why => exact .inr ⟨why, .input listed accepted⟩

/-- Whether a list and an input are rejected does not depend on the ceiling. -/
theorem Rejects.withCeiling {workflow : Workflow World} {input : Value} {why : Failure}
    (rejects : workflow.Rejects input why) (ceiling : Option Nat) :
    (workflow.withCeiling ceiling).Rejects input why := by
  cases rejects with
  | list unlisted => exact .list unlisted
  | input listed unaccepted => exact .input listed unaccepted

/-- What is rejected is not walked. -/
theorem Rejects.walk_eq {workflow : Workflow World} {input : Value} {why : Failure}
    (rejects : workflow.Rejects input why) (patience : Nat) (world : World) :
    workflow.walk patience input world = (.failed why, ⟨workflow, [], world⟩) := by
  cases rejects with
  | list unlisted => rw [walk, unlisted]
  | input listed unaccepted =>
    rw [walk, listed]
    dsimp only
    rw [unaccepted]

/-- What is rejected calls no body. -/
theorem Rejects.walkCalls_eq {workflow : Workflow World} {input : Value} {why : Failure}
    (rejects : workflow.Rejects input why) (patience : Nat) (world : World) :
    workflow.walkCalls patience input world = [] := by
  have sameList := Procedure.validate_recorded workflow.procedures
  have recorded : workflow.recorded.Rejects input why := by
    cases rejects with
    | list unlisted => exact .list (sameList.trans unlisted)
    | input listed unaccepted => exact .input (sameList.trans listed) unaccepted
  rw [walkCalls, recorded.walk_eq]

/-- What a walk of an accepted list on accepted input leaves, given how its turns ended. -/
def afterTurns (workflow : Workflow World) (walked : Walk World) :
    Ending Unit → Ending Value × Aftermath World
  | .finished () => workflow.closeWalk walked
  | .failed why => (.failed why, ⟨workflow.afterWalk walked .failed, walked.events, walked.world⟩)
  | .unfinished =>
    (.unfinished, ⟨workflow.afterWalk walked .running, walked.events, walked.world⟩)

variable {workflow : Workflow World} {input data : Value}

/-- A walk leaves what its turns leave. -/
theorem Accepts.walk_eq (accepts : workflow.Accepts input data) (patience : Nat)
    (world : World) : workflow.walk patience input world =
      workflow.afterTurns
        (Walk.run workflow.itinerary patience (workflow.walkStart data world)).2
        (Walk.run workflow.itinerary patience (workflow.walkStart data world)).1 := by
  have entered : Walk.run (workflow.withSection .input data).itinerary patience
      ⟨(workflow.withSection .input data).sections, .start workflow.procedures, [], world⟩ =
        Walk.run workflow.itinerary patience (workflow.walkStart data world) := rfl
  rw [walk, accepts.listed]
  dsimp only
  rw [accepts.accepted]
  dsimp only
  rw [entered]
  rcases Walk.run workflow.itinerary patience (workflow.walkStart data world) with ⟨ending, walked⟩
  cases ending <;> rfl

/-- The calls of a walk are those that its turns noted. -/
theorem Accepts.walkCalls_eq (accepts : workflow.Accepts input data) (patience : Nat)
    (world : World) : workflow.walkCalls patience input world =
      (Walk.run workflow.itinerary.recorded patience
        (workflow.recorded.walkStart data (world, []))).2.world.2 := by
  rw [walkCalls, world_walk workflow.recorded patience input data (world, [])
    ((Procedure.validate_recorded _).trans accepts.listed) accepts.accepted]
  rfl

/-- A walk with its calls noted makes the turns of the plain one. -/
theorem run_walkStart_recorded (workflow : Workflow World) (data : Value) (patience : Nat)
    (world : World) : Walk.run workflow.itinerary patience (workflow.walkStart data world) =
      Prod.map id Walk.withoutCalls (Walk.run workflow.itinerary.recorded patience
        (workflow.recorded.walkStart data (world, []))) := by
  rw [Walk.run_recorded, walkStart_recorded]

/-- The bodies called are those of the procedures visited. -/
theorem Accepts.names_walkCalls (accepts : workflow.Accepts input data) (patience : Nat)
    (world : World) : (workflow.walkCalls patience input world).map Call.name =
      (Walk.run workflow.itinerary patience
        (workflow.walkStart data world)).2.progress.visited := by
  rw [accepts.walkCalls_eq, run_walkStart_recorded]
  exact Walk.visited_run_recorded workflow.itinerary patience _ rfl

/-- However far a walk goes, its account is true. -/
theorem accounts_run (workflow : Workflow World) (data : Value) (patience : Nat)
    (world : World) :
    (Walk.run workflow.itinerary patience (workflow.walkStart data world)).2.Accounts :=
  (Walk.accounts_start _ _ _).run workflow.itinerary patience

/-- As many bodies are called as dispatches are counted. -/
theorem Accepts.length_walkCalls (accepts : workflow.Accepts input data) (patience : Nat)
    (world : World) : (workflow.walkCalls patience input world).length =
      (Walk.run workflow.itinerary patience
        (workflow.walkStart data world)).2.progress.iteration := by
  rw [(workflow.accounts_run data patience world).counted, ← accepts.names_walkCalls,
    List.length_map]

/-- What a walk that has begun leaves tells as many dispatches as names, announces these with
their numbers, and the calls are of just these. -/
def Accounted (aftermath : Aftermath World) (calls : List Call) : Prop :=
  ∃ progress, aftermath.workflow.lastRun = some progress ∧
    progress.iteration = progress.visited.length ∧
    announced aftermath.events = numbered progress.visited ∧
    calls.map Call.name = progress.visited

/-- What turns leave is accounted for as the turns are, however they ended. -/
theorem accounted_afterTurns (workflow : Workflow World) (walked : Walk World)
    (ending : Ending Unit) (calls : List Call) (accounts : walked.Accounts)
    (called : calls.map Call.name = walked.progress.visited) :
    Accounted (workflow.afterTurns walked ending).2 calls := by
  cases ending with
  | finished =>
    have closed : announced (walked.events ++ [(walkedEvent walked.progress).on
        (workflow.options.bound none)]) = announced walked.events := by
      rw [announced_append]
      exact List.append_nil _
    rw [afterTurns, closeWalk]
    split
    · exact ⟨_, rfl, accounts.counted, accounts.announced, called⟩
    · exact ⟨_, rfl, accounts.counted, closed.trans accounts.announced, called⟩
  | failed => exact ⟨_, rfl, accounts.counted, accounts.announced, called⟩
  | unfinished => exact ⟨_, rfl, accounts.counted, accounts.announced, called⟩

/-- What turns leave does not depend on the ceiling. -/
theorem afterTurns_withCeiling (workflow : Workflow World) (ceiling other : Option Nat)
    (walked : Walk World) (ending : Ending Unit) :
    (workflow.withCeiling ceiling).afterTurns walked ending =
      Prod.map id (Aftermath.withCeiling · ceiling)
        ((workflow.withCeiling other).afterTurns walked ending) := by
  cases ending with
  | finished =>
    have sameCheck : ∀ ceiling, (workflow.withCeiling ceiling).accept .output
        walked.sections.output = workflow.accept .output walked.sections.output := fun _ => rfl
    rw [afterTurns, closeWalk, sameCheck, afterTurns, closeWalk, sameCheck]
    cases workflow.accept .output walked.sections.output <;> rfl
  | failed => rfl
  | unfinished => rfl

/-- A walk that stops, in whatever way, within so many dispatches: going further changes
nothing. -/
structure StopsWithin (workflow : Workflow World) (limit : Nat) (input : Value) (world : World) :
    Prop where
  stopped : (workflow.walk limit input world).1 ≠ .unfinished
  settled : ∀ later,
    workflow.walk (limit + later) input world = workflow.walk limit input world
  few : (workflow.walkCalls limit input world).length ≤ limit

/-- A walk that makes so many dispatches and then one more. -/
structure GoesBeyond (workflow : Workflow World) (limit : Nat) (input : Value) (world : World) :
    Prop where
  unfinished : (workflow.walk limit input world).1 = .unfinished
  reached : (workflow.walkCalls limit input world).length = limit
  more : ∀ later, limit < (workflow.walkCalls (limit + 1 + later) input world).length

/-- What is left of a walk that fails by its ceiling where another one stands: the other's
record and world, its progress as that of a failed walk, and one event more. -/
structure CutOff (limit : Nat) (free : Aftermath World)
    (bounded : Ending Value × Aftermath World) : Prop where
  ending : bounded.1 = .failed (.iterationLimit limit)
  sections : bounded.2.workflow.sections = free.workflow.sections
  world : bounded.2.world = free.world
  progress : bounded.2.workflow.lastRun =
    free.workflow.lastRun.map fun progress => { progress with status := .failed }
  events : bounded.2.events = free.events ++
    [(Walk.limitEvent limit).on (bounded.2.workflow.options.bound none)]

/-- Whether a list and an input are accepted does not depend on the ceiling. -/
theorem Accepts.withCeiling (accepts : workflow.Accepts input data) (ceiling : Option Nat) :
    (workflow.withCeiling ceiling).Accepts input data :=
  ⟨accepts.listed, accepts.accepted⟩

/-- The turns of a walk with its calls noted, under a ceiling or without one. -/
def notedTurns (workflow : Workflow World) (data : Value) (world : World)
    (ceiling : Option Nat) (patience : Nat) : Ending Unit × Walk (World × List Call) :=
  Walk.run (workflow.itinerary.recorded.withCeiling ceiling) patience
    (workflow.recorded.walkStart data (world, []))

/-- A walk under a ceiling leaves what its turns leave. -/
theorem Accepts.walk_notedTurns (accepts : workflow.Accepts input data) (ceiling : Option Nat)
    (patience : Nat) (world : World) :
    (workflow.withCeiling ceiling).walk patience input world =
      (workflow.withCeiling ceiling).afterTurns
        (workflow.notedTurns data world ceiling patience).2.withoutCalls
        (workflow.notedTurns data world ceiling patience).1 := by
  rw [(accepts.withCeiling ceiling).walk_eq, run_walkStart_recorded]
  rfl

/-- The calls of a walk under a ceiling are those that its turns noted. -/
theorem Accepts.walkCalls_notedTurns (accepts : workflow.Accepts input data)
    (ceiling : Option Nat) (patience : Nat) (world : World) :
    (workflow.withCeiling ceiling).walkCalls patience input world =
      (workflow.notedTurns data world ceiling patience).2.world.2 :=
  (accepts.withCeiling ceiling).walkCalls_eq patience world

/-- As many bodies are called as the turns count dispatches. -/
theorem Accepts.length_notedTurns (accepts : workflow.Accepts input data)
    (ceiling : Option Nat) (patience : Nat) (world : World) :
    ((workflow.withCeiling ceiling).walkCalls patience input world).length =
      (workflow.notedTurns data world ceiling patience).2.progress.iteration := by
  rw [(accepts.withCeiling ceiling).length_walkCalls, run_walkStart_recorded]
  rfl

/-- Only turns that did not end leave a walk unfinished. -/
theorem afterTurns_ne_unfinished (workflow : Workflow World) (walked : Walk World)
    (ending : Ending Unit) (ended : ending ≠ .unfinished) :
    (workflow.afterTurns walked ending).1 ≠ .unfinished := by
  cases ending with
  | finished =>
    rw [afterTurns, closeWalk]
    split <;> simp
  | failed why => simp [afterTurns]
  | unfinished => exact absurd rfl ended

/-- A walk whose turns stop in time is the same under the ceiling. -/
theorem Accepts.under_ceiling_of_stopped (accepts : workflow.Accepts input data)
    (limit more : Nat) (world : World) (ending : Ending Unit) (final : Walk (World × List Call))
    (ended : ending ≠ .unfinished) (within : final.progress.iteration ≤ limit)
    (free : ∀ later, workflow.notedTurns data world none (limit + later) = (ending, final))
    (bounded : workflow.notedTurns data world (some limit) (limit + more) = (ending, final)) :
    (workflow.withCeiling none).StopsWithin limit input world ∧
      (workflow.withCeiling (some limit)).walk (limit + more) input world =
        Prod.map id (Aftermath.withCeiling · (some limit))
          ((workflow.withCeiling none).walk limit input world) := by
  have settled : ∀ later, (workflow.withCeiling none).walk (limit + later) input world =
      (workflow.withCeiling none).afterTurns final.withoutCalls ending := by
    intro later
    rw [accepts.walk_notedTurns, free later]
  have stopped : (workflow.withCeiling none).walk limit input world =
      (workflow.withCeiling none).afterTurns final.withoutCalls ending := settled 0
  refine ⟨⟨?_, fun later => (settled later).trans stopped.symm, ?_⟩, ?_⟩
  · rw [stopped]
    exact afterTurns_ne_unfinished _ _ _ ended
  · have turns : workflow.notedTurns data world none limit = (ending, final) := free 0
    rw [accepts.length_notedTurns, turns]
    exact within
  · rw [accepts.walk_notedTurns, bounded, stopped]
    exact afterTurns_withCeiling workflow (some limit) none _ _

/-- A walk whose turns go on is cut off by the ceiling. -/
theorem Accepts.cut_off_of_unfinished (accepts : workflow.Accepts input data)
    (limit more : Nat) (world : World) (final : Walk (World × List Call))
    (reached : final.progress.iteration = limit)
    (free : workflow.notedTurns data world none limit = (.unfinished, final))
    (goesOn : ∀ later, limit <
      (workflow.notedTurns data world none (limit + 1 + later)).2.progress.iteration)
    (bounded : workflow.notedTurns data world (some limit) (limit + more) =
      (.failed (.iterationLimit limit),
        final.log workflow.itinerary.recorded (Walk.limitEvent limit))) :
    (workflow.withCeiling none).GoesBeyond limit input world ∧
      CutOff limit ((workflow.withCeiling none).walk limit input world).2
        ((workflow.withCeiling (some limit)).walk (limit + more) input world) := by
  have freeWalk := accepts.walk_notedTurns none limit world
  have boundedWalk := accepts.walk_notedTurns (some limit) (limit + more) world
  rw [free] at freeWalk
  rw [bounded] at boundedWalk
  refine ⟨⟨?_, ?_, fun later => ?_⟩, ?_⟩
  · rw [freeWalk]
    rfl
  · rw [accepts.length_notedTurns, free]
    exact reached
  · rw [accepts.length_notedTurns]
    exact goesOn later
  · rw [freeWalk, boundedWalk]
    exact ⟨rfl, rfl, rfl, rfl, rfl⟩

/-- What a walk of an accepted list on accepted input leaves is accounted for. -/
theorem Accepts.accounted (accepts : workflow.Accepts input data) (patience : Nat)
    (world : World) : Accounted (workflow.walk patience input world).2
      (workflow.walkCalls patience input world) := by
  rw [accepts.walk_eq]
  exact accounted_afterTurns workflow _ _ _ (workflow.accounts_run data patience world)
    (accepts.names_walkCalls patience world)

/-- The turns of a walk either stop in time, and are the same under the ceiling, or go on. -/
theorem Accepts.notedTurns_cases (accepts : workflow.Accepts input data) (limit more : Nat)
    (world : World) :
    (∃ ending final, ending ≠ .unfinished ∧ final.progress.iteration ≤ limit ∧
      (∀ later, workflow.notedTurns data world none (limit + later) = (ending, final)) ∧
      workflow.notedTurns data world (some limit) (limit + more) = (ending, final)) ∨
    ∃ final, final.progress.iteration = limit ∧
      workflow.notedTurns data world none limit = (.unfinished, final) ∧
      (∀ later, limit <
        (workflow.notedTurns data world none (limit + 1 + later)).2.progress.iteration) ∧
      workflow.notedTurns data world (some limit) (limit + more) =
        (.failed (.iterationLimit limit),
          final.log workflow.itinerary.recorded (Walk.limitEvent limit)) := by
  have onList : Walk.OnList workflow.itinerary.recorded.procedures
      (workflow.recorded.walkStart data (world, [])) := Walk.onList_start _ _ _
  have listed : Procedure.validate workflow.itinerary.recorded.procedures = .ok () :=
    (Procedure.validate_recorded workflow.procedures).trans accepts.listed
  exact onList.run_cases (Procedure.nodup_names_of_validate _ listed) limit more limit
    (Nat.zero_add limit).symm

/-- A walk under a ceiling is that without one, if this stops within so many dispatches;
otherwise it is cut off after exactly as many. It calls the same bodies, and under every
ceiling and at every point of a walk, also while a body runs, the account is true.

Proof: the turns of both are compared with their calls noted. What the plain walks leave is
read from these turns. -/
theorem walk_under_ceiling (workflow : Workflow World) (limit more : Nat) (input : Value)
    (world : World) :
    ((workflow.withCeiling none).StopsWithin limit input world ∧
        (workflow.withCeiling (some limit)).walk (limit + more) input world =
          Prod.map id (Aftermath.withCeiling · (some limit))
            ((workflow.withCeiling none).walk limit input world) ∨
      (workflow.withCeiling none).GoesBeyond limit input world ∧
        CutOff limit ((workflow.withCeiling none).walk limit input world).2
          ((workflow.withCeiling (some limit)).walk (limit + more) input world)) ∧
    (workflow.withCeiling (some limit)).walkCalls (limit + more) input world =
      (workflow.withCeiling none).walkCalls limit input world ∧
    ∀ ceiling patience,
      ((∃ why, (workflow.withCeiling ceiling).walk patience input world =
            (.failed why, ⟨workflow.withCeiling ceiling, [], world⟩)) ∧
          (workflow.withCeiling ceiling).walkCalls patience input world = [] ∨
        Accounted ((workflow.withCeiling ceiling).walk patience input world).2
          ((workflow.withCeiling ceiling).walkCalls patience input world)) ∧
      ∀ data procedure,
        ((Walk.run (workflow.withCeiling ceiling).itinerary patience
          ((workflow.withCeiling ceiling).walkStart data world)).2.announcing
            (workflow.withCeiling ceiling).itinerary procedure).Accounts := by
  have unmoved : ∀ ceiling patience data procedure,
      ((Walk.run (workflow.withCeiling ceiling).itinerary patience
        ((workflow.withCeiling ceiling).walkStart data world)).2.announcing
          (workflow.withCeiling ceiling).itinerary procedure).Accounts := by
    intro ceiling patience data procedure
    exact ((workflow.withCeiling ceiling).accounts_run data patience world).announcing _ procedure
  rcases workflow.accepts_or_rejects input with ⟨data, accepts⟩ | ⟨why, rejects⟩
  · have accounted : ∀ ceiling patience,
        Accounted ((workflow.withCeiling ceiling).walk patience input world).2
          ((workflow.withCeiling ceiling).walkCalls patience input world) :=
      fun ceiling patience => (accepts.withCeiling ceiling).accounted patience world
    refine ⟨?_, ?_, fun ceiling patience =>
      ⟨.inr (accounted ceiling patience), unmoved ceiling patience⟩⟩
    · rcases accepts.notedTurns_cases limit more world with
        ⟨ending, final, ended, within, free, bounded⟩ | ⟨final, reached, free, goesOn, bounded⟩
      · exact .inl (accepts.under_ceiling_of_stopped limit more world ending final ended within
          free bounded)
      · exact .inr (accepts.cut_off_of_unfinished limit more world final reached free goesOn
          bounded)
    · rw [accepts.walkCalls_notedTurns, accepts.walkCalls_notedTurns]
      rcases accepts.notedTurns_cases limit more world with
        ⟨ending, final, -, -, free, bounded⟩ | ⟨final, -, free, -, bounded⟩
      · have stopped : workflow.notedTurns data world none limit = (ending, final) := free 0
        rw [bounded, stopped]
      · rw [bounded, free]
        rfl
  · have failed : ∀ ceiling patience, (workflow.withCeiling ceiling).walk patience input world =
        (.failed why, ⟨workflow.withCeiling ceiling, [], world⟩) :=
      fun ceiling patience => (rejects.withCeiling ceiling).walk_eq patience world
    have silent : ∀ ceiling patience,
        (workflow.withCeiling ceiling).walkCalls patience input world = [] :=
      fun ceiling patience => (rejects.withCeiling ceiling).walkCalls_eq patience world
    refine ⟨.inl ⟨⟨?_, fun later => ?_, ?_⟩, ?_⟩, ?_, fun ceiling patience =>
      ⟨.inl ⟨⟨why, failed ceiling patience⟩, silent ceiling patience⟩, unmoved ceiling patience⟩⟩
    · rw [failed]
      simp
    · rw [failed, failed]
    · rw [silent]
      exact Nat.zero_le limit
    · rw [failed, failed]
      rfl
    · rw [silent, silent]

end Workflow
end Stepwise
