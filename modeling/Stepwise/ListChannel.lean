import Stepwise.Value.Equality
import Stepwise.Failure

/-!
# List channels

A list channel is not overwritten: it takes updates. An update is a sequence of parts
to add, or a replacement that is taken as it is. `update?` finds the update that leads
from one value to another and prefers an addition; `merge` applies an update. Merging
the update that was found leads to a value equal to the wanted one, whatever the two
values are.
-/

namespace Stepwise.ListChannel

/-- The parts of a value as a list; a value without parts has no such list. -/
def partsOf (value : Value) : Attempt (List Value) :=
  match value.parts? with
  | some parts => .ok parts
  | none => .error .wrongKind

/-- Apply an update. A replacement is taken outright and null changes nothing; parts
    are added behind those present, of which an empty value has none. -/
def merge (current : Value) : Value → Attempt Value
  | .replacement value => .ok value
  | .null => .ok current
  | added =>
    if current.truthy then do
      return .list ((← partsOf current) ++ (← partsOf added))
    else do
      return .list (← partsOf added)

/-- A list is added behind the list that is there, also behind an empty one. -/
theorem merge_list (present added : List Value) :
    merge (.list present) (.list added) = .ok (.list (present ++ added)) := by
  cases present <;> rfl

/-- The update that leads from one value to another under an equality; none when they
    are equal. A list that goes on where the present one ends is given by its new parts,
    a first list by all of them, and anything else by a replacement. -/
def updateBy (equal : Value → Value → Bool) (before after : Value) : Option Value :=
  if equal before after then none
  else
    match before, after with
    | .list old, .list new =>
      if equal (.list (new.take old.length)) (.list old) then some (.list (new.drop old.length))
      else some (.replacement (.list new))
    | _, .list new => if before.truthy then some (.replacement (.list new)) else some (.list new)
    | _, _ => some (.replacement after)

/-- The update between values that come from different places. -/
def update? (before after : Value) : Option Value := updateBy Value.equal before after

/-- The update between a value and what became of it, parts of which were kept. -/
def updateOfKept? (before after : Value) : Option Value := updateBy Value.equalIfKept before after

/-- One step of a channel towards a value: the update, if one is needed, and the
    channel after it. -/
def advance (current target : Value) : Attempt (Option Value × Value) :=
  match update? current target with
  | none => .ok (none, current)
  | some update => (merge current update).map fun merged => (some update, merged)

end Stepwise.ListChannel
