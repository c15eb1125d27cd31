import Stepwise.Proofs.Ceiling
import Stepwise.Proofs.Passages

/-!
# What a failed dispatch leaves of the record

Where a dispatch of a walk fails, the walk fails, and its record is left as the dispatch
leaves it. Both sections are then as they were before the dispatch, with one exception: of a
value that an action returned the input is taken over before the output is looked up, so a
value without an output has its input in the record when the walk fails.
-/

namespace Stepwise.Workflow

variable {World : Type} {workflow : Workflow World} {input data : Value}

/-- A walk whose dispatch fails fails so, however far it may go, and its record is as the
dispatch left it. The sections are as before the dispatch, unless an action returned an input
and no output: then just the input is what it returned. -/
theorem failed_dispatch_leaves (accepts : workflow.Accepts input data) (world : World)
    {passed : List (Walk.Dispatched World)} {here stopped : Walk World} {position : Nat}
    {procedure : Procedure World} {why : Failure}
    (reached : Walk.Passage workflow.itinerary (workflow.walkStart data world) passed here)
    (next : Walk.turn workflow.itinerary here = .dispatch position procedure)
    (failed : here.dispatch workflow.itinerary position procedure = (some why, stopped)) :
    (∀ later, workflow.walk (passed.length + 1 + later) input world =
      (.failed why, ⟨workflow.afterWalk stopped .failed, stopped.events, stopped.world⟩)) ∧
    ((stopped.sections = here.sections ∧
        ∀ half, ¬ Walk.ReturnsHalf workflow.itinerary here procedure half) ∨
      ∃ half, Walk.ReturnsHalf workflow.itinerary here procedure half ∧
        stopped.sections = ⟨half, here.sections.output⟩) := by
  refine ⟨fun later => ?_, Walk.sections_of_failed failed⟩
  have more : passed.length + 1 + later = passed.length + (later + 1) := by omega
  rw [accepts.walk_eq, more, reached.run_eq,
    Walk.run_of_failed _ here stopped position procedure next why failed]
  rfl

/-- A workflow of two actions without declared fields: the first returns what it is given, the
second a fixed value. -/
def handingOnThen (returned : Value) : Workflow Unit :=
  withList noFields none
    [.action "first" (fun _ record world => (.ok record, world)) none,
      .action "second" (fun _ _ world => (.ok returned, world)) none]

/-- A number in the place of a record leaves the record behind the first action, and an input
alone becomes the input. -/
theorem failed_dispatch_leaves_second :
    (∃ stopped, (handingOnThen (.int 5)).walk 2 (.mapping []) () =
        (.failed .wrongKind, ⟨(handingOnThen (.int 5)).afterWalk stopped .failed,
          stopped.events, stopped.world⟩) ∧
      stopped.sections = ⟨.mapping [], .mapping []⟩) ∧
    ∃ stopped, (handingOnThen (.ofFields [("input", .int 5)])).walk 2 (.mapping []) () =
        (.failed (.keyAbsent (.text "output")),
          ⟨(handingOnThen (.ofFields [("input", .int 5)])).afterWalk stopped .failed,
            stopped.events, stopped.world⟩) ∧
      stopped.sections = ⟨.int 5, .mapping []⟩ := by
  have accepts : ∀ returned, (handingOnThen returned).Accepts (.mapping []) (.mapping []) :=
    fun _ => ⟨rfl, rfl⟩
  constructor
  · obtain ⟨walked, ⟨sections, -⟩ | ⟨half, ⟨-, returned, answer, hasInput, -⟩, -⟩⟩ :=
      failed_dispatch_leaves (accepts (.int 5)) () (.on rfl rfl rfl (.here _)) rfl rfl
    · exact ⟨_, walked 0, sections⟩
    · obtain rfl := Except.ok.inj answer
      cases hasInput
  · obtain ⟨walked, ⟨-, whole⟩ | ⟨half, ⟨-, returned, answer, hasInput, -⟩, sections⟩⟩ :=
      failed_dispatch_leaves (accepts (.ofFields [("input", .int 5)])) ()
        (.on rfl rfl rfl (.here _)) rfl rfl
    · exact absurd ⟨rfl, _, rfl, rfl, _, rfl⟩ (whole (.int 5))
    · obtain rfl := Except.ok.inj answer
      obtain rfl := Except.ok.inj hasInput
      exact ⟨_, walked 0, sections⟩

/-- Every dispatch that fails, at every point that a walk reaches, leaves both sections. -/
def KeepsSections (workflow : Workflow World) : Prop :=
  ∀ (input data : Value) (world : World) (passed : List (Walk.Dispatched World))
    (here stopped : Walk World) (position : Nat) (procedure : Procedure World) (why : Failure),
    workflow.Accepts input data →
    Walk.Passage workflow.itinerary (workflow.walkStart data world) passed here →
    Walk.turn workflow.itinerary here = .dispatch position procedure →
    here.dispatch workflow.itinerary position procedure = (some why, stopped) →
      stopped.sections = here.sections

/-- An action that returns an input and no output fails, and has replaced the input. -/
theorem not_keepsSections :
    ¬ (handingOnThen (.ofFields [("input", .int 5)])).KeepsSections := by
  intro keeps
  have same := keeps (.mapping []) (.mapping []) () _ _ _ _ _ _ ⟨rfl, rfl⟩
    (.on rfl rfl rfl (.here _)) rfl rfl
  have input := congrArg Sections.input same
  cases input

end Stepwise.Workflow
