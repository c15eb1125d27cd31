import Stepwise.Failure

/-!
# Endings

How a run ends. Without a ceiling a run may go on for ever, so it is followed for a
given number of steps; that these did not suffice is an ending of its own and never
taken for a failure.
-/

namespace Stepwise

/-- How a run ends. -/
inductive Ending (α : Type) where
  | finished (result : α)
  | failed (why : Failure)
  | unfinished

namespace Ending

/-- The ending of something that either has a result or fails. -/
def ofAttempt {α : Type} : Attempt α → Ending α
  | .ok result => .finished result
  | .error why => .failed why

/-- Go on with a result. -/
def andThen {α β : Type} (ending : Ending α) (next : α → Ending β) : Ending β :=
  match ending with
  | .finished result => next result
  | .failed why => .failed why
  | .unfinished => .unfinished

/-- Whether a run that is over has a result. -/
def hasResult? {α : Type} : Ending α → Option Bool
  | .finished _ => some true
  | .failed _ => some false
  | .unfinished => none

/-- A run that has a result is finished. -/
theorem exists_result {α : Type} (ending : Ending α) (has : ending.hasResult? = some true) :
    ∃ result, ending = .finished result := by
  cases ending with
  | finished result => exact ⟨result, rfl⟩
  | failed => cases has
  | unfinished => cases has

/-- A run that is over without a result has failed. -/
theorem exists_failure {α : Type} (ending : Ending α) (has : ending.hasResult? = some false) :
    ∃ why, ending = .failed why := by
  cases ending with
  | finished => cases has
  | failed why => exact ⟨why, rfl⟩
  | unfinished => cases has

end Ending
end Stepwise
