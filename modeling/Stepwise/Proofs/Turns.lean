import Stepwise.Proofs.Routes

/-!
# What a turn of a walk does

A walk that finishes either stands nowhere or dispatches the procedure where it stands and
goes on from there. A dispatch counts one more procedure and leaves everything but the
sections, the cursor and the world; an action puts in the sections that it returned, a
check moves the cursor only.
-/

namespace Stepwise.Walk

variable {World : Type}

/-- Moving to a name moves the cursor only; a name that is not in the index is logged. -/
theorem jump_eq (itinerary : Itinerary World) (walk : Walk World) (name : Key) :
    ∃ events, walk.jump itinerary name = ⟨walk.sections,
      { walk.progress with
        cursor := name.text?.bind fun text => Entries.get? text walk.progress.index },
      events, walk.world⟩ := by
  unfold jump
  dsimp only
  split
  · next position found =>
    rw [found]
    exact ⟨_, rfl⟩
  · next missing =>
    rw [missing]
    exact ⟨_, rfl⟩

/-- Moving on from an action moves the cursor only. -/
theorem continueTo_eq (itinerary : Itinerary World) (walk : Walk World)
    (indexed : walk.progress.index = Procedure.index itinerary.procedures) (position : Nat)
    (successor : Successor) :
    ∃ events, walk.continueTo itinerary position successor = ⟨walk.sections,
      { walk.progress with
        cursor := Plan.cursorBehind itinerary.procedures position successor },
      events, walk.world⟩ := by
  cases successor with
  | finish => exact ⟨walk.events, rfl⟩
  | named name =>
    obtain ⟨events, moved⟩ := jump_eq itinerary walk (.text name)
    refine ⟨events, ?_⟩
    rw [continueTo, moved, indexed]
    rfl
  | following => exact ⟨walk.events, rfl⟩

/-- An action that returns both sections has them put in. -/
theorem dispatch_action (itinerary : Itinerary World) (walk : Walk World)
    (indexed : walk.progress.index = Procedure.index itinerary.procedures) (position : Nat)
    (name : String) (body : Body World) (next : Option String) (returned : Value)
    (after : World)
    (returns : body itinerary.models walk.sections.toValue walk.world = (.ok returned, after))
    (input output : Value)
    (hasInput : returned.child (.text Section.input.name) = .ok input)
    (hasOutput : returned.child (.text Section.output.name) = .ok output) :
    ∃ events, walk.dispatch itinerary position (.action name body next) =
      (none, ⟨⟨input, output⟩,
        { walk.progress.dispatched name with
          cursor := Plan.cursorBehind itinerary.procedures position (Successor.ofNext next) },
        events, after⟩) := by
  unfold dispatch
  dsimp only
  rw [returns]
  dsimp only
  unfold adopt
  rw [hasInput]
  dsimp only
  rw [hasOutput]
  dsimp only
  obtain ⟨events, moved⟩ := continueTo_eq itinerary
    ⟨⟨input, output⟩, walk.progress.dispatched name, _, after⟩ indexed position
    (Successor.ofNext next)
  exact ⟨events, congrArg (Prod.mk none) moved⟩

/-- A walk while the body of the procedure that it dispatches runs: the dispatch is noted and
announced, and nothing has come of it yet. -/
def announcing (itinerary : Itinerary World) (walk : Walk World) (procedure : Procedure World) :
    Walk World :=
  log itinerary { walk with progress := walk.progress.dispatched procedure.name }
    (dispatchEvent itinerary.options (walk.progress.dispatched procedure.name) procedure)

/-- A dispatch fails as the body that it calls. -/
theorem dispatch_raised (itinerary : Itinerary World) (walk : Walk World) (position : Nat)
    (procedure : Procedure World) (why : Failure) (after : World)
    (raises : procedure.body itinerary.models walk.sections.toValue walk.world =
      (.error why, after)) :
    ∃ stopped, walk.dispatch itinerary position procedure = (some why, stopped) := by
  cases procedure with
  | action name body next =>
    have raises : body itinerary.models walk.sections.toValue walk.world = _ := raises
    rw [dispatch, raises]
    exact ⟨_, rfl⟩
  | check name body =>
    have raises : body itinerary.models walk.sections.toValue walk.world = _ := raises
    rw [dispatch, raises]
    exact ⟨_, rfl⟩

/-- A check that answers moves the cursor where the answer points. An answer that cannot be
looked up fails. -/
theorem dispatch_answered (itinerary : Itinerary World) (walk : Walk World) (position : Nat)
    (name : String) (body : Body World) (answer : Value) (after : World)
    (answers : body itinerary.models walk.sections.toValue walk.world = (.ok answer, after)) :
    ∃ events, (endsRun answer = true ∧
        walk.dispatch itinerary position (.check name body) = (none, ⟨walk.sections,
          { walk.progress.dispatched name with cursor := none }, events, after⟩)) ∨
      (endsRun answer = false ∧ ∃ key, answer.key? = some key ∧
        walk.dispatch itinerary position (.check name body) = (none, ⟨walk.sections,
          { walk.progress.dispatched name with
            cursor := key.text?.bind fun text => Entries.get? text walk.progress.index },
          events, after⟩)) ∨
      (endsRun answer = false ∧ answer.key? = none ∧ ∃ stopped,
        walk.dispatch itinerary position (.check name body) = (some .wrongKind, stopped)) := by
  unfold dispatch
  dsimp only
  rw [answers]
  dsimp only
  unfold follow
  cases ends : endsRun answer with
  | true => exact ⟨_, .inl ⟨rfl, rfl⟩⟩
  | false =>
    rw [if_neg (by decide)]
    cases isKey : answer.key? with
    | none => exact ⟨[], .inr (.inr ⟨rfl, rfl, _, rfl⟩)⟩
    | some key =>
      dsimp only
      obtain ⟨events, jumped⟩ := jump_eq itinerary ⟨walk.sections, walk.progress.dispatched name,
        (walk.announcing itinerary (.check name body)).events, after⟩ key
      exact ⟨events, .inr (.inl ⟨rfl, key, rfl, congrArg (Prod.mk none) jumped⟩)⟩

/-- A check that answers and does not fail moves the cursor where the answer points. -/
theorem dispatch_check (itinerary : Itinerary World) (walk : Walk World) (position : Nat)
    (name : String) (body : Body World) (answer : Value) (after : World)
    (answers : body itinerary.models walk.sections.toValue walk.world = (.ok answer, after))
    (moved : Walk World)
    (dispatched : walk.dispatch itinerary position (.check name body) = (none, moved)) :
    ∃ events, (endsRun answer = true ∧ moved = ⟨walk.sections,
        { walk.progress.dispatched name with cursor := none }, events, after⟩) ∨
      (endsRun answer = false ∧ ∃ key, answer.key? = some key ∧ moved = ⟨walk.sections,
        { walk.progress.dispatched name with
          cursor := key.text?.bind fun text => Entries.get? text walk.progress.index },
        events, after⟩) := by
  obtain ⟨events, ⟨ends, whole⟩ | ⟨goesOn, key, isKey, whole⟩ | ⟨-, -, stopped, whole⟩⟩ :=
    dispatch_answered itinerary walk position name body answer after answers
  · rw [dispatched] at whole
    exact ⟨events, .inl ⟨ends, (Prod.mk.inj whole).2⟩⟩
  · rw [dispatched] at whole
    exact ⟨events, .inr ⟨goesOn, key, isKey, (Prod.mk.inj whole).2⟩⟩
  · rw [dispatched] at whole
    cases whole

/-- Moving on from an action moves the cursor only, whatever the index is. -/
theorem progress_continueTo (itinerary : Itinerary World) (walk : Walk World) (position : Nat)
    (successor : Successor) : ∃ cursor,
      (walk.continueTo itinerary position successor).progress = { walk.progress with cursor } := by
  cases successor with
  | finish => exact ⟨none, rfl⟩
  | named name =>
    obtain ⟨events, moved⟩ := jump_eq itinerary walk (.text name)
    rw [continueTo, moved]
    exact ⟨_, rfl⟩
  | following => exact ⟨_, rfl⟩

/-- Taking over a returned record leaves the progress. -/
theorem progress_adopt (walk : Walk World) (returned : Value) :
    (walk.adopt returned).2.progress = walk.progress := by
  rw [adopt]
  split
  · rfl
  · dsimp only
    split <;> rfl

/-- Following an answer moves the cursor only. -/
theorem progress_follow (itinerary : Itinerary World) (walk : Walk World) (answer : Value) :
    ∃ cursor, (walk.follow itinerary answer).2.progress = { walk.progress with cursor } := by
  rw [follow]
  split
  · exact ⟨none, rfl⟩
  · split
    · next key _ =>
      obtain ⟨events, moved⟩ := jump_eq itinerary walk key
      rw [moved]
      exact ⟨_, rfl⟩
    · exact ⟨walk.progress.cursor, rfl⟩

/-- What holds when a body has run, and is kept by what may come of it, holds after a
dispatch, also if the dispatch fails. -/
theorem dispatch_preserves (itinerary : Itinerary World) (walk : Walk World) (position : Nat)
    (procedure : Procedure World) (holds : Walk World → Prop)
    (running : holds { walk.announcing itinerary procedure with
      world := (procedure.body itinerary.models walk.sections.toValue walk.world).2 })
    (adopted : ∀ walk returned, holds walk → holds (walk.adopt returned).2)
    (continued : ∀ walk successor, holds walk →
      holds (walk.continueTo itinerary position successor))
    (followed : ∀ walk answer, holds walk → holds (walk.follow itinerary answer).2) :
    holds (walk.dispatch itinerary position procedure).2 := by
  unfold dispatch
  cases procedure with
  | action name body next =>
    simp only [Procedure.body] at running
    dsimp only
    split
    · next ran =>
      rw [ran] at running
      exact running
    · next returned world ran =>
      rw [ran] at running
      have entered := adopted _ returned running
      split
      · next failed =>
        have failed : adopt { walk.announcing itinerary (.action name body next) with world }
            returned = _ := failed
        rw [failed] at entered
        exact entered
      · next taken =>
        have taken : adopt { walk.announcing itinerary (.action name body next) with world }
            returned = _ := taken
        rw [taken] at entered
        exact continued _ _ entered
  | check name body =>
    simp only [Procedure.body] at running
    dsimp only
    split
    · next ran =>
      rw [ran] at running
      exact running
    · next ran =>
      rw [ran] at running
      exact followed _ _ running

/-- A dispatch is noted, and then moves the cursor only, also if it fails. -/
theorem progress_dispatch (itinerary : Itinerary World) (walk : Walk World) (position : Nat)
    (procedure : Procedure World) : ∃ cursor,
      (walk.dispatch itinerary position procedure).2.progress =
        { walk.progress.dispatched procedure.name with cursor } := by
  apply dispatch_preserves itinerary walk position procedure fun moved => ∃ cursor,
    moved.progress = { walk.progress.dispatched procedure.name with cursor }
  · exact ⟨walk.progress.cursor, rfl⟩
  · intro moved returned noted
    rwa [progress_adopt]
  · rintro moved successor ⟨_, noted⟩
    obtain ⟨cursor, progress⟩ := progress_continueTo itinerary moved position successor
    exact ⟨cursor, by rw [progress, noted]⟩
  · rintro moved answer ⟨_, noted⟩
    obtain ⟨cursor, progress⟩ := progress_follow itinerary moved answer
    exact ⟨cursor, by rw [progress, noted]⟩

/-- A dispatch counts one more procedure. -/
theorem iteration_dispatch (itinerary : Itinerary World) (walk : Walk World) (position : Nat)
    (procedure : Procedure World) :
    (walk.dispatch itinerary position procedure).2.progress.iteration =
      walk.progress.iteration + 1 := by
  obtain ⟨cursor, progress⟩ := progress_dispatch itinerary walk position procedure
  rw [progress]
  rfl

/-- A walk that is over has changed in nothing but what was logged. -/
theorem over_of_turn (itinerary : Itinerary World) (walk final : Walk World)
    (ending : Ending Unit) (isOver : turn itinerary walk = .over ending final) :
    final = { walk with events := final.events } := by
  unfold turn at isOver
  split at isOver
  · cases isOver
    rfl
  · split at isOver
    · cases isOver
      rfl
    · split at isOver
      · cases isOver
      · cases isOver
        rfl

/-- A walk dispatches the procedure at the position where it stands. -/
theorem stands_of_turn (itinerary : Itinerary World) (walk : Walk World) (position : Nat)
    (procedure : Procedure World) (next : turn itinerary walk = .dispatch position procedure) :
    walk.progress.cursor = some position ∧ itinerary.procedures[position]? = some procedure := by
  unfold turn at next
  split at next
  · cases next
  · next stands =>
    split at next
    · cases next
    · split at next
      · next found =>
        cases next
        exact ⟨stands, found⟩
      · cases next

/-- A walk dispatches only procedures of its list. -/
theorem mem_of_turn (itinerary : Itinerary World) (walk : Walk World) (position : Nat)
    (procedure : Procedure World) (next : turn itinerary walk = .dispatch position procedure) :
    procedure ∈ itinerary.procedures :=
  List.mem_of_getElem? (stands_of_turn itinerary walk position procedure next).2

/-- A walk that is over is over however far it may go. -/
theorem run_of_over (itinerary : Itinerary World) (walk final : Walk World)
    (ending : Ending Unit) (isOver : turn itinerary walk = .over ending final) (left : Nat) :
    run itinerary left walk = (ending, final) := by
  cases left <;> rw [run, isOver]

/-- A walk that may make no dispatch stays before the next one. -/
theorem run_zero_of_dispatch (itinerary : Itinerary World) (walk : Walk World) (position : Nat)
    (procedure : Procedure World) (next : turn itinerary walk = .dispatch position procedure) :
    run itinerary 0 walk = (.unfinished, walk) := by
  rw [run, next]

/-- A walk ends with a dispatch that fails. -/
theorem run_of_failed (itinerary : Itinerary World) (walk stopped : Walk World) (position : Nat)
    (procedure : Procedure World) (next : turn itinerary walk = .dispatch position procedure)
    (why : Failure)
    (failed : walk.dispatch itinerary position procedure = (some why, stopped)) (left : Nat) :
    run itinerary (left + 1) walk = (.failed why, stopped) := by
  rw [run, next]
  dsimp only
  rw [failed]

/-- A walk goes on from a dispatch that does not fail. -/
theorem run_of_moved (itinerary : Itinerary World) (walk moved : Walk World) (position : Nat)
    (procedure : Procedure World) (next : turn itinerary walk = .dispatch position procedure)
    (dispatched : walk.dispatch itinerary position procedure = (none, moved)) (left : Nat) :
    run itinerary (left + 1) walk = run itinerary left moved := by
  rw [run, next]
  dsimp only
  rw [dispatched]

/-- What holds of a walk, is kept by every dispatch, and does not depend on what is logged
beside dispatches, holds however far the walk goes. -/
theorem run_preserves (itinerary : Itinerary World) (holds : Walk World → Prop)
    (isOver : ∀ walk ending final, holds walk → turn itinerary walk = .over ending final →
      holds final)
    (dispatched : ∀ walk position procedure, holds walk →
      turn itinerary walk = .dispatch position procedure →
        holds (walk.dispatch itinerary position procedure).2)
    (left : Nat) (walk : Walk World) (now : holds walk) :
    holds (run itinerary left walk).2 := by
  induction left generalizing walk with
  | zero =>
    rw [run]
    split
    · next ended => exact isOver _ _ _ now ended
    · exact now
  | succ left ih =>
    rw [run]
    split
    · next ended => exact isOver _ _ _ now ended
    · next position procedure next =>
      have behind := dispatched walk position procedure now next
      split
      · next failed =>
        rw [failed] at behind
        exact behind
      · next moved =>
        rw [moved] at behind
        exact ih _ behind

/-- A walk that finishes stands nowhere or goes on from a dispatch. -/
theorem run_finished_cases (itinerary : Itinerary World) (left : Nat) (walk walked : Walk World)
    (finished : run itinerary left walk = (.finished (), walked)) :
    (walk.progress.cursor = none ∧ walked = walk) ∨
      ∃ rest position procedure moved, left = rest + 1 ∧
        walk.progress.cursor = some position ∧
        itinerary.procedures[position]? = some procedure ∧
        walk.dispatch itinerary position procedure = (none, moved) ∧
        run itinerary rest moved = (.finished (), walked) ∧
        ∀ patience, run itinerary (patience + 1) walk = run itinerary patience moved := by
  rcases next : turn itinerary walk with ⟨ending, final⟩ | ⟨position, procedure⟩
  · have ended : run itinerary left walk = (ending, final) := by
      cases left <;> rw [run, next]
    rw [finished] at ended
    obtain ⟨rfl, rfl⟩ := Prod.mk.inj ended
    left
    unfold turn at next
    split at next
    · next nowhere =>
      cases next
      exact ⟨nowhere, rfl⟩
    · split at next
      · cases next
      · split at next <;> cases next
  · right
    have here := stands_of_turn itinerary walk position procedure next
    cases left with
    | zero =>
      rw [run, next] at finished
      cases finished
    | succ rest =>
      rw [run, next] at finished
      dsimp only at finished
      cases dispatched : walk.dispatch itinerary position procedure with
      | mk failure moved =>
        rw [dispatched] at finished
        cases failure with
        | some why => cases finished
        | none =>
          refine ⟨rest, position, procedure, moved, rfl, here.1, here.2, dispatched, finished, ?_⟩
          intro patience
          rw [run, next]
          dsimp only
          rw [dispatched]

/-- However far a walk goes, it counts no fewer procedures in the end. -/
theorem iteration_le_run (itinerary : Itinerary World) (left : Nat) (walk : Walk World) :
    walk.progress.iteration ≤ (run itinerary left walk).2.progress.iteration := by
  apply run_preserves itinerary fun later =>
    walk.progress.iteration ≤ later.progress.iteration
  · intro later ending final counted isOver
    rwa [over_of_turn itinerary later final ending isOver]
  · intro later position procedure counted _
    rw [iteration_dispatch]
    exact Nat.le_succ_of_le counted
  · exact Nat.le_refl _

/-- A walk that finishes has counted no fewer procedures in the end. -/
theorem iteration_le_of_run (itinerary : Itinerary World) (left : Nat) (walk walked : Walk World)
    (finished : run itinerary left walk = (.finished (), walked)) :
    walk.progress.iteration ≤ walked.progress.iteration := by
  have counted := iteration_le_run itinerary left walk
  rwa [finished] at counted

/-- Looking at the next turn leaves the sections. -/
theorem sections_run_zero (itinerary : Itinerary World) (walk : Walk World) :
    (run itinerary 0 walk).2.sections = walk.sections := by
  rw [run, turn]
  split
  · next ended =>
    split at ended
    · cases ended
      rfl
    · split at ended
      · cases ended
        rfl
      · split at ended
        · cases ended
        · cases ended
          rfl
  · rfl

end Stepwise.Walk
