import Stepwise.Value

/-!
# Values made anew

A value that is made has NaNs of its own. `renewed` counts on from the number of
payloads in use and gives each NaN in a value the next one, so that none of them is the
same as a NaN that was there before. Everything else stays as it is.
-/

namespace Stepwise

/-- A number made anew. -/
def Binary64.renewed : Binary64 → StateM Nat Binary64
  | .nan _ => fun used => (.nan used, used + 1)
  | x => pure x

namespace Key

mutual

/-- A key made anew. -/
def renewed : Key → StateM Nat Key
  | .real x => do return .real (← x.renewed)
  | .tuple items => do return .tuple (← allRenewed items)
  | .set members => do return .set (← allRenewed members)
  | .replacement held => do return .replacement (← renewed held)
  | key => pure key

/-- Keys made anew, in order. -/
def allRenewed : List Key → StateM Nat (List Key)
  | [] => pure []
  | key :: rest => do
    let made ← renewed key
    let others ← allRenewed rest
    return made :: others

end

end Key

namespace Value

mutual

/-- A value made anew. -/
def renewed : Value → StateM Nat Value
  | .real x => do return .real (← x.renewed)
  | .list items => do return .list (← allRenewed items)
  | .tuple items => do return .tuple (← allRenewed items)
  | .set frozen members => do return .set frozen (← Key.allRenewed members)
  | .mapping entries => do return .mapping (← entriesRenewed entries)
  | .replacement held => do return .replacement (← renewed held)
  | value => pure value

/-- Values made anew, in order. -/
def allRenewed : List Value → StateM Nat (List Value)
  | [] => pure []
  | value :: rest => do
    let made ← renewed value
    let others ← allRenewed rest
    return made :: others

/-- Entries made anew, each with its key before its value. -/
def entriesRenewed : List (Key × Value) → StateM Nat (List (Key × Value))
  | [] => pure []
  | (key, value) :: rest => do
    let madeKey ← key.renewed
    let made ← renewed value
    let others ← entriesRenewed rest
    return (madeKey, made) :: others

end

end Value
end Stepwise
