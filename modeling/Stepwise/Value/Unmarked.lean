import Stepwise.Failure
import Stepwise.Value.Members

/-!
# Values without marks

Where a checked value is handed out, a replacement mark is spelled as a mapping that
holds what is marked. A mark inside a key or a set's member has no such spelling,
because a mapping is no key: there the value cannot be handed out.

Entries are spelled before they are written, so one that a later entry replaces must be
spelled as well. A set is made again from its members.
-/

namespace Stepwise

namespace Key

mutual

/-- Whether a mark stands anywhere in a key. -/
def isMarked : Key → Bool
  | .tuple items => anyMarked items
  | .set members => anyMarked members
  | .replacement _ => true
  | _ => false

/-- Whether a mark stands anywhere in one of several keys. -/
def anyMarked : List Key → Bool
  | [] => false
  | key :: rest => isMarked key || anyMarked rest

end

end Key

namespace Value

/-- The name under which a mark's spelling holds what is marked. -/
def markField : String := "value"

mutual

/-- A value with every mark spelled as a mapping. -/
def unmarked : Value → Attempt Value
  | .list items => (allUnmarked items).map .list
  | .tuple items => (allUnmarked items).map .tuple
  | .set frozen members =>
    if Key.anyMarked members then .error .wrongKind
    else .ok (.set frozen (Key.inSetOrder members))
  | .mapping entries =>
    (entriesUnmarked entries).map fun spelled => .mapping (Entries.ofWrites spelled)
  | .replacement held => (unmarked held).map fun spelled => .ofFields [(markField, spelled)]
  | value => .ok value

/-- Values with every mark spelled as a mapping. -/
def allUnmarked : List Value → Attempt (List Value)
  | [] => .ok []
  | value :: rest => do
    let spelled ← unmarked value
    let others ← allUnmarked rest
    return spelled :: others

/-- Entries with every mark in their values spelled as a mapping. -/
def entriesUnmarked : List (Key × Value) → Attempt (List (Key × Value))
  | [] => .ok []
  | (key, value) :: rest => do
    if key.isMarked then .error .wrongKind
    else
      let spelled ← unmarked value
      let others ← entriesUnmarked rest
      return (key, spelled) :: others

end

end Value
end Stepwise
