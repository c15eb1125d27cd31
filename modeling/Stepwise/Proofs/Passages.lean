import Stepwise.Proofs.Worlds

/-!
# The way of a walk

A walk makes its way through dispatches that do not fail, one after the other, until it is
over, a dispatch fails, or it is followed no further. Every point between two dispatches is
reached by such a way, and a walk from the start is the walk from that point on.

Behind a way the sections are those that the last action on it returned, or those of its
start if there is no action on it. A dispatch that fails leaves the sections as they were,
unless an action returned a value that has an input and no output: then that input has been
taken over already.
-/

namespace Stepwise.Walk

variable {World : Type} {itinerary : Itinerary World} {walk moved here : Walk World}

/-- A dispatch that did not fail: the procedure, and what its body returned. -/
structure Dispatched (World : Type) where
  procedure : Procedure World
  returned : Value

/-- The way of a walk through dispatches that do not fail. -/
inductive Passage (itinerary : Itinerary World) :
    Walk World → List (Dispatched World) → Walk World → Prop where
  | here (walk : Walk World) : Passage itinerary walk [] walk
  | on {walk moved final : Walk World} {position : Nat} {procedure : Procedure World}
      {returned : Value} {after : World} {passed : List (Dispatched World)}
      (next : turn itinerary walk = .dispatch position procedure)
      (answered : procedure.body itinerary.models walk.sections.toValue walk.world =
        (.ok returned, after))
      (dispatched : walk.dispatch itinerary position procedure = (none, moved))
      (onward : Passage itinerary moved passed final) :
      Passage itinerary walk (⟨procedure, returned⟩ :: passed) final

/-- How a walk ends at a point of its way: it is over, the dispatch there fails, or it is
followed no further. -/
inductive EndsAt (itinerary : Itinerary World) (here : Walk World) :
    Ending Unit → Walk World → Prop where
  | ended {ending : Ending Unit} {final : Walk World}
      (isOver : turn itinerary here = .over ending final) : EndsAt itinerary here ending final
  | failed {position : Nat} {procedure : Procedure World} {why : Failure} {stopped : Walk World}
      (next : turn itinerary here = .dispatch position procedure)
      (failed : here.dispatch itinerary position procedure = (some why, stopped)) :
      EndsAt itinerary here (.failed why) stopped
  | unfinished {position : Nat} {procedure : Procedure World}
      (next : turn itinerary here = .dispatch position procedure) :
      EndsAt itinerary here .unfinished here

/-- The body of a dispatch that does not fail has returned something. -/
theorem exists_returned (position : Nat) (procedure : Procedure World)
    (dispatched : walk.dispatch itinerary position procedure = (none, moved)) :
    ∃ returned after,
      procedure.body itinerary.models walk.sections.toValue walk.world = (.ok returned, after) := by
  cases answered : procedure.body itinerary.models walk.sections.toValue walk.world with
  | mk outcome after =>
    cases outcome with
    | ok returned => exact ⟨returned, after, rfl⟩
    | error why =>
      obtain ⟨stopped, failed⟩ :=
        dispatch_raised itinerary walk position procedure why after answered
      rw [dispatched] at failed
      cases failed

/-- A walk that is over stands nowhere and finishes as it is, or it fails. -/
theorem over_cases {ending : Ending Unit} {final : Walk World}
    (isOver : turn itinerary walk = .over ending final) :
    (walk.progress.cursor = none ∧ ending = .finished () ∧ final = walk) ∨
      ∃ why, ending = .failed why := by
  unfold turn at isOver
  split at isOver
  · next nowhere =>
    cases isOver
    exact .inl ⟨nowhere, rfl, rfl⟩
  · split at isOver
    · cases isOver
      exact .inr ⟨_, rfl⟩
    · split at isOver
      · cases isOver
      · cases isOver
        exact .inr ⟨_, rfl⟩

/-- A walk makes a way of so many dispatches at most, and ends at a point of it. A walk that
is followed no further has made as many as it may.

Proof: by induction on the dispatches that it may make. -/
theorem exists_passage_of_run (itinerary : Itinerary World) (left : Nat) (walk : Walk World) :
    ∃ passed here, Passage itinerary walk passed here ∧ passed.length ≤ left ∧
      ((run itinerary left walk).1 = .unfinished → passed.length = left) ∧
      EndsAt itinerary here (run itinerary left walk).1 (run itinerary left walk).2 := by
  induction left generalizing walk with
  | zero =>
    rcases next : turn itinerary walk with ⟨ending, final⟩ | ⟨position, procedure⟩
    · rw [run_of_over itinerary walk final ending next]
      exact ⟨[], walk, .here walk, Nat.le_refl 0, fun _ => rfl, .ended next⟩
    · rw [run_zero_of_dispatch itinerary walk position procedure next]
      exact ⟨[], walk, .here walk, Nat.le_refl 0, fun _ => rfl, .unfinished next⟩
  | succ left ih =>
    rcases next : turn itinerary walk with ⟨ending, final⟩ | ⟨position, procedure⟩
    · have stays : ending ≠ .unfinished := by
        rcases over_cases next with ⟨-, rfl, -⟩ | ⟨why, rfl⟩ <;> simp
      rw [run_of_over itinerary walk final ending next]
      exact ⟨[], walk, .here walk, Nat.zero_le _, fun same => absurd same stays, .ended next⟩
    · cases dispatched : walk.dispatch itinerary position procedure with
      | mk failure moved =>
        cases failure with
        | some why =>
          rw [run_of_failed itinerary walk moved position procedure next why dispatched]
          exact ⟨[], walk, .here walk, Nat.zero_le _, by simp, .failed next dispatched⟩
        | none =>
          obtain ⟨returned, after, answered⟩ := exists_returned position procedure dispatched
          obtain ⟨passed, here, passage, few, all, ends⟩ := ih moved
          rw [run_of_moved itinerary walk moved position procedure next dispatched]
          exact ⟨_, here, .on next answered dispatched passage, Nat.succ_le_succ few,
            fun unfinished => congrArg (· + 1) (all unfinished), ends⟩

/-- A walk that finishes stands nowhere, and ends as it is there. -/
theorem EndsAt.eq_of_finished {final : Walk World}
    (ends : EndsAt itinerary here (.finished ()) final) :
    here.progress.cursor = none ∧ final = here := by
  cases ends with
  | ended isOver =>
    rcases over_cases isOver with ⟨nowhere, -, same⟩ | ⟨why, fails⟩
    · exact ⟨nowhere, same⟩
    · cases fails

/-- A walk ends with the sections and the visits of the point where it ends, unless a dispatch
fails there, which counts as a visit. -/
theorem EndsAt.visited_cases {ending : Ending Unit} {final : Walk World}
    (ends : EndsAt itinerary here ending final) :
    (final.sections = here.sections ∧ final.progress.visited = here.progress.visited) ∨
      ∃ name, final.progress.visited = here.progress.visited ++ [name] := by
  cases ends with
  | ended isOver =>
    rw [over_of_turn itinerary here final ending isOver]
    exact .inl ⟨rfl, rfl⟩
  | @failed position procedure why stopped next failed =>
    obtain ⟨cursor, progress⟩ := progress_dispatch itinerary here position procedure
    rw [failed] at progress
    exact .inr ⟨procedure.name, by rw [progress]; rfl⟩
  | unfinished => exact .inl ⟨rfl, rfl⟩

/-- However a walk ends, it has the index of the point where it ends. -/
theorem EndsAt.index_eq {ending : Ending Unit} {final : Walk World}
    (ends : EndsAt itinerary here ending final) :
    final.progress.index = here.progress.index := by
  cases ends with
  | ended isOver => rw [over_of_turn itinerary here final ending isOver]
  | @failed position procedure why stopped next failed =>
    obtain ⟨cursor, progress⟩ := progress_dispatch itinerary here position procedure
    rw [failed] at progress
    rw [progress]
    rfl
  | unfinished => rfl

namespace Passage

variable {passed : List (Dispatched World)}

/-- A walk goes on from every point of its way. -/
theorem run_eq (passage : Passage itinerary walk passed here) (more : Nat) :
    run itinerary (passed.length + more) walk = run itinerary more here := by
  induction passage with
  | here => rw [List.length_nil, Nat.zero_add]
  | on next answered dispatched onward ih =>
    rw [List.length_cons, Nat.add_right_comm, run_of_moved _ _ _ _ _ next dispatched, ih]

/-- The procedures dispatched on a way are those that are visited on it. -/
theorem visited_eq (passage : Passage itinerary walk passed here) :
    here.progress.visited = walk.progress.visited ++ passed.map (·.procedure.name) := by
  induction passage with
  | here => simp
  | @on walk moved final position procedure returned after passed next answered dispatched
      onward ih =>
    obtain ⟨cursor, progress⟩ := progress_dispatch itinerary walk position procedure
    rw [dispatched] at progress
    have noted : moved.progress.visited = walk.progress.visited ++ [procedure.name] := by
      rw [progress]
      rfl
    rw [ih, noted, List.append_assoc, List.map_cons, List.singleton_append]

/-- A way keeps the index of the names and the status, and counts its dispatches. -/
theorem progress_eq (passage : Passage itinerary walk passed here) :
    here.progress.index = walk.progress.index ∧ here.progress.status = walk.progress.status ∧
      here.progress.iteration = walk.progress.iteration + passed.length := by
  induction passage with
  | here => exact ⟨rfl, rfl, rfl⟩
  | @on walk moved final position procedure returned after passed next answered dispatched
      onward ih =>
    obtain ⟨cursor, progress⟩ := progress_dispatch itinerary walk position procedure
    rw [dispatched] at progress
    obtain ⟨index, status, iteration⟩ := ih
    rw [index, status, iteration, progress]
    exact ⟨rfl, rfl, Nat.add_right_comm _ 1 _⟩

end Passage

/-- Moving to a name leaves the sections. -/
theorem sections_jump (itinerary : Itinerary World) (walk : Walk World) (name : Key) :
    (walk.jump itinerary name).sections = walk.sections := by
  obtain ⟨events, moved⟩ := jump_eq itinerary walk name
  rw [moved]

/-- Moving on from an action leaves the sections. -/
theorem sections_continueTo (itinerary : Itinerary World) (walk : Walk World) (position : Nat)
    (successor : Successor) :
    (walk.continueTo itinerary position successor).sections = walk.sections := by
  cases successor with
  | finish => rfl
  | named name => exact sections_jump itinerary walk _
  | following => rfl

/-- Following an answer leaves the sections. -/
theorem sections_follow (itinerary : Itinerary World) (walk : Walk World) (answer : Value) :
    (walk.follow itinerary answer).2.sections = walk.sections := by
  rw [follow]
  split
  · rfl
  · split
    · exact sections_jump itinerary walk _
    · rfl

/-- Taking over a returned value puts in both sections, or fails: without an input nothing
changes, without an output the input is put in. -/
theorem adopt_cases (walk : Walk World) (returned : Value) :
    (∃ input output, returned.child (.text Section.input.name) = .ok input ∧
      returned.child (.text Section.output.name) = .ok output ∧
      walk.adopt returned = (none, { walk with sections := ⟨input, output⟩ })) ∨
    (∃ why, returned.child (.text Section.input.name) = .error why ∧
      walk.adopt returned = (some why, walk)) ∨
    ∃ input why, returned.child (.text Section.input.name) = .ok input ∧
      returned.child (.text Section.output.name) = .error why ∧
      walk.adopt returned =
        (some why, { walk with sections := ⟨input, walk.sections.output⟩ }) := by
  unfold adopt
  cases returned.child (.text Section.input.name) with
  | error why => exact .inr (.inl ⟨why, rfl, rfl⟩)
  | ok input =>
    dsimp only
    cases returned.child (.text Section.output.name) with
    | error why => exact .inr (.inr ⟨input, why, rfl, rfl, rfl⟩)
    | ok output => exact .inl ⟨input, output, rfl, rfl, rfl⟩

/-- A dispatch fails with its body, and leaves all but the world as announced. -/
theorem dispatch_of_raised (position : Nat) (procedure : Procedure World) {why : Failure}
    {after : World}
    (raises : procedure.body itinerary.models walk.sections.toValue walk.world =
      (.error why, after)) :
    walk.dispatch itinerary position procedure =
      (some why, { walk.announcing itinerary procedure with world := after }) := by
  cases procedure with
  | action name body next =>
    have raises : body itinerary.models walk.sections.toValue walk.world = _ := raises
    rw [dispatch, raises]
    rfl
  | check name body =>
    have raises : body itinerary.models walk.sections.toValue walk.world = _ := raises
    rw [dispatch, raises]
    rfl

/-- What an action returned is taken over, and then the walk moves on if that does not
fail. -/
theorem dispatch_of_action (position : Nat) {name : String} {body : Body World}
    {next : Option String} {returned : Value} {after : World}
    (answered : (Procedure.action name body next).body itinerary.models walk.sections.toValue
      walk.world = (.ok returned, after)) :
    walk.dispatch itinerary position (.action name body next) =
      match adopt { walk.announcing itinerary (.action name body next) with world := after }
        returned with
      | (some why, entered) => (some why, entered)
      | (none, entered) =>
        (none, entered.continueTo itinerary position (Successor.ofNext next)) := by
  have answered : body itinerary.models walk.sections.toValue walk.world = _ := answered
  rw [dispatch, answered]
  rfl

/-- The answer of a check is followed. -/
theorem dispatch_of_check (position : Nat) {name : String} {body : Body World}
    {answer : Value} {after : World}
    (answered : (Procedure.check name body).body itinerary.models walk.sections.toValue
      walk.world = (.ok answer, after)) :
    walk.dispatch itinerary position (.check name body) =
      follow itinerary { walk.announcing itinerary (.check name body) with world := after }
        answer := by
  have answered : body itinerary.models walk.sections.toValue walk.world = _ := answered
  rw [dispatch, answered]
  rfl

/-- A dispatch that does not fail puts in the sections that an action returned; a check
leaves them. -/
theorem sections_of_dispatched {position : Nat} {procedure : Procedure World} {returned : Value}
    {after : World}
    (answered : procedure.body itinerary.models walk.sections.toValue walk.world =
      (.ok returned, after))
    (dispatched : walk.dispatch itinerary position procedure = (none, moved)) :
    (procedure.isAction = true ∧ ∃ input output,
      returned.child (.text Section.input.name) = .ok input ∧
      returned.child (.text Section.output.name) = .ok output ∧
      moved.sections = ⟨input, output⟩) ∨
    (procedure.isAction = false ∧ moved.sections = walk.sections) := by
  cases procedure with
  | action name body next =>
    rw [dispatch_of_action position answered] at dispatched
    rcases adopt_cases { walk.announcing itinerary (.action name body next) with world := after }
        returned with ⟨input, output, hasInput, hasOutput, taken⟩ | ⟨why, -, failed⟩ |
        ⟨input, why, -, -, failed⟩
    · rw [taken] at dispatched
      cases dispatched
      exact .inl ⟨rfl, input, output, hasInput, hasOutput, sections_continueTo _ _ _ _⟩
    · rw [failed] at dispatched
      cases dispatched
    · rw [failed] at dispatched
      cases dispatched
  | check name body =>
    rw [dispatch_of_check position answered] at dispatched
    have left := sections_follow itinerary
      { walk.announcing itinerary (.check name body) with world := after } returned
    rw [dispatched] at left
    exact .inr ⟨rfl, left⟩

/-- The last action on a way, with what it returned. -/
def lastAction? (passed : List (Dispatched World)) : Option (Dispatched World) :=
  passed.reverse.find? (·.procedure.isAction)

/-- Sections as the last action on a way returned them, or as they were before if there is no
action on it. -/
def AsReturned (passed : List (Dispatched World)) (before behind : Sections) : Prop :=
  match lastAction? passed with
  | none => behind = before
  | some last => ∀ side : Section, last.returned.child (.text side.name) = .ok (behind.get side)

/-- The last action on a way is the last one behind its first dispatch, or else that. -/
theorem lastAction?_cons (first : Dispatched World) (passed : List (Dispatched World)) :
    lastAction? (first :: passed) =
      (lastAction? passed).or (if first.procedure.isAction then some first else none) := by
  rw [lastAction?, List.reverse_cons, List.find?_append, lastAction?, List.find?_singleton]

/-- The sections behind a way are those that its last action returned.

Proof: by induction on the way. An action behind the first dispatch decides; if there is
none, the sections are as the first dispatch left them. -/
theorem Passage.asReturned {passed : List (Dispatched World)}
    (passage : Passage itinerary walk passed here) :
    AsReturned passed walk.sections here.sections := by
  induction passage with
  | here => rfl
  | @on walk moved final position procedure returned after passed next answered dispatched
      onward ih =>
    unfold AsReturned at ih ⊢
    rw [lastAction?_cons]
    cases later : lastAction? passed with
    | some last =>
      rw [later] at ih
      exact ih
    | none =>
      rw [later] at ih
      dsimp only at ih
      rcases sections_of_dispatched answered dispatched with
        ⟨isAction, input, output, hasInput, hasOutput, sections⟩ | ⟨isCheck, sections⟩
      · rw [if_pos isAction, ih, sections]
        rintro (_ | _)
        · exact hasInput
        · exact hasOutput
      · rw [isCheck, ih, sections]
        rfl

/-- An action returned a value that has an input and no output. -/
def ReturnsHalf (itinerary : Itinerary World) (walk : Walk World) (procedure : Procedure World)
    (input : Value) : Prop :=
  procedure.isAction = true ∧ ∃ returned,
    (procedure.body itinerary.models walk.sections.toValue walk.world).1 = .ok returned ∧
      returned.child (.text Section.input.name) = .ok input ∧
      ∃ why, returned.child (.text Section.output.name) = .error why

/-- A dispatch that fails leaves the sections, unless an action returned an input and no
output: then the input is what it returned. -/
theorem sections_of_failed {position : Nat} {procedure : Procedure World} {why : Failure}
    {stopped : Walk World}
    (failed : walk.dispatch itinerary position procedure = (some why, stopped)) :
    (stopped.sections = walk.sections ∧ ∀ input, ¬ ReturnsHalf itinerary walk procedure input) ∨
      ∃ input, ReturnsHalf itinerary walk procedure input ∧
        stopped.sections = ⟨input, walk.sections.output⟩ := by
  cases answered : procedure.body itinerary.models walk.sections.toValue walk.world with
  | mk outcome after =>
    cases outcome with
    | error cause =>
      rw [dispatch_of_raised position procedure answered] at failed
      cases failed
      refine .inl ⟨rfl, ?_⟩
      rintro input ⟨-, returned, answer, -⟩
      rw [answered] at answer
      cases answer
    | ok returned =>
      cases procedure with
      | check name body =>
        rw [dispatch_of_check position answered] at failed
        have left := sections_follow itinerary
          { walk.announcing itinerary (.check name body) with world := after } returned
        rw [failed] at left
        refine .inl ⟨left, ?_⟩
        rintro input ⟨isAction, -⟩
        cases isAction
      | action name body next =>
        rw [dispatch_of_action position answered] at failed
        rcases adopt_cases
            { walk.announcing itinerary (.action name body next) with world := after } returned
          with ⟨input, output, -, -, taken⟩ | ⟨cause, noInput, refused⟩ |
            ⟨input, cause, hasInput, noOutput, refused⟩
        · rw [taken] at failed
          cases failed
        · rw [refused] at failed
          cases failed
          refine .inl ⟨rfl, ?_⟩
          rintro input ⟨-, other, answer, hasInput, -⟩
          rw [answered] at answer
          obtain rfl := Except.ok.inj answer
          rw [noInput] at hasInput
          cases hasInput
        · rw [refused] at failed
          cases failed
          exact .inr ⟨input, ⟨rfl, returned, by rw [answered], hasInput, _, noOutput⟩, rfl⟩

end Stepwise.Walk
