import Stepwise.Proofs.Recording
import Stepwise.Proofs.Turns

/-!
# The account that a walk gives of itself

A walk counts its dispatches, keeps the names of the procedures it visits, and announces
every dispatch with its number and its name. All three say the same at every point of a
walk, and the procedures visited are those whose bodies were called: a dispatch is noted
before its body runs, so also a body that fails is among them.

What is shown here holds of a walk from one dispatch to the next, whatever a dispatch
leads to; the run then follows by one induction.
-/

namespace Stepwise

variable {World : Type}

/-- The number and the name that an event tells, if it announces a dispatch. -/
def Event.dispatch? (event : Event) : Option (Option Value × Option Value) :=
  if event.name = "procedure_dispatch" then
    some (Entries.get? "iteration" event.fields, Entries.get? "procedure" event.fields)
  else none

/-- The dispatches that events announce, in their order. -/
def announced (events : List Event) : List (Option Value × Option Value) :=
  events.filterMap Event.dispatch?

/-- Names as dispatches are announced: numbered from one. -/
def numbered (names : List String) : List (Option Value × Option Value) :=
  names.zipIdx.map fun (name, position) => (some (.int (position + 1 : Nat)), some (.text name))

/-- One more name gets the next number. -/
theorem numbered_append (names : List String) (name : String) :
    numbered (names ++ [name]) =
      numbered names ++ [(some (.int (names.length + 1 : Nat)), some (.text name))] := by
  simp [numbered, List.zipIdx_append]

/-- Events in a row announce what each part does. -/
theorem announced_append (events more : List Event) :
    announced (events ++ more) = announced events ++ announced more :=
  List.filterMap_append

/-- An event of another name announces nothing, whatever fields are put under it. -/
theorem announced_on_other (level : Level) (name : String) (fields : List (String × Value))
    (bound : Bound) (other : name ≠ "procedure_dispatch") :
    announced [Event.on ⟨level, name, fields⟩ bound] = [] := by
  simp [announced, Event.dispatch?, Event.on, other]

namespace Walk

/-- An account of a walk that is true: as many dispatches are counted as names are kept, and
just these are announced, with their numbers. -/
structure Accounts (walk : Walk World) : Prop where
  counted : walk.progress.iteration = walk.progress.visited.length
  announced : Stepwise.announced walk.events = numbered walk.progress.visited

/-- A walk gives a true account when it starts. -/
theorem accounts_start (procedures : List (Procedure World)) (sections : Sections)
    (world : World) : Accounts ⟨sections, .start procedures, [], world⟩ :=
  ⟨rfl, rfl⟩

/-- The account is true while the body of a procedure runs. -/
theorem Accounts.announcing {walk : Walk World} (accounts : Accounts walk)
    (itinerary : Itinerary World) (procedure : Procedure World) :
    Accounts (walk.announcing itinerary procedure) := by
  constructor
  · have one : (walk.progress.visited ++ [procedure.name]).length =
        walk.progress.visited.length + 1 := List.length_append
    exact (congrArg (· + 1) accounts.counted).trans one.symm
  · have told : Stepwise.announced [(dispatchEvent itinerary.options
        (walk.progress.dispatched procedure.name) procedure).on (itinerary.options.bound none)] =
          [(some (.int (walk.progress.iteration + 1 : Nat)), some (.text procedure.name))] := rfl
    have added : (walk.announcing itinerary procedure).events =
        walk.events ++ [(dispatchEvent itinerary.options
          (walk.progress.dispatched procedure.name) procedure).on
            (itinerary.options.bound none)] := rfl
    rw [added, announced_append, told, accounts.announced, accounts.counted]
    exact (numbered_append walk.progress.visited procedure.name).symm

/-- A walk that says no more of dispatches than another one does. -/
def SaysNoMore (walk moved : Walk World) : Prop :=
  ∃ events, moved.events = walk.events ++ events ∧ announced events = []

/-- Moving to a name says nothing of dispatches. -/
theorem saysNoMore_jump (itinerary : Itinerary World) (walk : Walk World) (name : Key) :
    walk.SaysNoMore (walk.jump itinerary name) := by
  unfold jump
  dsimp only
  split
  · exact ⟨[], (List.append_nil _).symm, rfl⟩
  · exact ⟨_, rfl, announced_on_other _ _ _ _ (by decide)⟩

/-- Moving on from an action says nothing of dispatches. -/
theorem saysNoMore_continueTo (itinerary : Itinerary World) (walk : Walk World)
    (position : Nat) (successor : Successor) :
    walk.SaysNoMore (walk.continueTo itinerary position successor) := by
  cases successor with
  | finish => exact ⟨[], (List.append_nil _).symm, rfl⟩
  | named name => exact saysNoMore_jump itinerary walk (.text name)
  | following => exact ⟨[], (List.append_nil _).symm, rfl⟩

/-- Taking over a returned record is not logged. -/
theorem events_adopt (walk : Walk World) (returned : Value) :
    (walk.adopt returned).2.events = walk.events := by
  rw [adopt]
  split
  · rfl
  · dsimp only
    split <;> rfl

/-- Following an answer says nothing of dispatches. -/
theorem saysNoMore_follow (itinerary : Itinerary World) (walk : Walk World) (answer : Value) :
    walk.SaysNoMore (walk.follow itinerary answer).2 := by
  rw [follow]
  split
  · exact ⟨[], (List.append_nil _).symm, rfl⟩
  · split
    · next key _ => exact saysNoMore_jump itinerary walk key
    · exact ⟨[], (List.append_nil _).symm, rfl⟩

/-- Saying no more twice is saying no more. -/
theorem SaysNoMore.trans {first second third : Walk World} (before : first.SaysNoMore second)
    (behind : second.SaysNoMore third) : first.SaysNoMore third := by
  obtain ⟨events, added, quiet⟩ := before
  obtain ⟨more, addedMore, quietMore⟩ := behind
  refine ⟨events ++ more, ?_, ?_⟩
  · rw [addedMore, added, List.append_assoc]
  · rw [announced_append, quiet, quietMore, List.append_nil]

/-- After a dispatch is announced nothing more is said of it, also if it fails. -/
theorem saysNoMore_dispatch (itinerary : Itinerary World) (walk : Walk World) (position : Nat)
    (procedure : Procedure World) : (walk.announcing itinerary procedure).SaysNoMore
      (walk.dispatch itinerary position procedure).2 := by
  apply dispatch_preserves
  · exact ⟨[], (List.append_nil _).symm, rfl⟩
  · intro moved returned quiet
    exact quiet.trans ⟨[], by rw [events_adopt, List.append_nil], rfl⟩
  · intro moved successor quiet
    exact quiet.trans (saysNoMore_continueTo itinerary moved position successor)
  · intro moved answer quiet
    exact quiet.trans (saysNoMore_follow itinerary moved answer)

/-- A dispatch leaves the account true, also if it fails. -/
theorem Accounts.dispatch {walk : Walk World} (accounts : Accounts walk)
    (itinerary : Itinerary World) (position : Nat) (procedure : Procedure World) :
    Accounts (walk.dispatch itinerary position procedure).2 := by
  obtain ⟨counted, told⟩ := accounts.announcing itinerary procedure
  obtain ⟨cursor, progress⟩ := progress_dispatch itinerary walk position procedure
  obtain ⟨events, added, quiet⟩ := saysNoMore_dispatch itinerary walk position procedure
  constructor
  · rw [progress]
    exact counted
  · rw [progress, added, announced_append, quiet, List.append_nil]
    exact told

/-- A walk that is over says nothing more of dispatches. -/
theorem saysNoMore_of_turn (itinerary : Itinerary World) (walk final : Walk World)
    (ending : Ending Unit) (isOver : turn itinerary walk = .over ending final) :
    walk.SaysNoMore final := by
  unfold turn at isOver
  split at isOver
  · cases isOver
    exact ⟨[], (List.append_nil _).symm, rfl⟩
  · split at isOver
    · cases isOver
      exact ⟨_, rfl, announced_on_other _ _ _ _ (by decide)⟩
    · split at isOver
      · cases isOver
      · cases isOver
        exact ⟨[], (List.append_nil _).symm, rfl⟩

/-- However far a walk goes, its account is true. -/
theorem Accounts.run {walk : Walk World} (accounts : Accounts walk)
    (itinerary : Itinerary World) (left : Nat) : Accounts (run itinerary left walk).2 := by
  apply run_preserves itinerary Accounts _ _ left walk accounts
  · intro walk ending final accounts ended
    obtain ⟨events, added, quiet⟩ := saysNoMore_of_turn itinerary walk final ending ended
    have progress : final.progress = walk.progress := by
      rw [over_of_turn itinerary walk final ending ended]
    constructor
    · rw [progress]
      exact accounts.counted
    · rw [progress, added, announced_append, quiet, List.append_nil]
      exact accounts.announced
  · intro walk position procedure accounts _
    exact accounts.dispatch itinerary position procedure

/-- However far a walk goes whose bodies note their calls, the procedures visited are those
called. -/
theorem visited_run_recorded (itinerary : Itinerary World) (left : Nat)
    (walk : Walk (World × List Call))
    (now : walk.world.2.map Call.name = walk.progress.visited) :
    (run itinerary.recorded left walk).2.world.2.map Call.name =
      (run itinerary.recorded left walk).2.progress.visited := by
  apply run_preserves itinerary.recorded
    (fun walk => walk.world.2.map Call.name = walk.progress.visited) _ _ left walk now
  · intro walk ending final now ended
    rw [over_of_turn itinerary.recorded walk final ending ended]
    exact now
  · intro walk position procedure now next
    obtain ⟨plain, -, rfl⟩ :=
      List.mem_map.mp (mem_of_turn itinerary.recorded walk position procedure next)
    obtain ⟨cursor, progress⟩ := progress_dispatch itinerary.recorded walk position plain.recorded
    rw [world_dispatch, plain.body_recorded, progress, List.map_append, now, Progress.dispatched,
      plain.name_recorded]
    rfl

end Walk
end Stepwise
