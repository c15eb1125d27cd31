import Stepwise.Failure

/-!
# Places inside values

A place is a path of steps, each a value itself: a mapping is entered by key, a list by
position. A negative position counts from the end. Reading, writing and removing at a
place fail in the same ways: a key that is absent, a position that does not exist, and
everything else that cannot be entered so.
-/

namespace Stepwise.Value

/-- The whole number that a step counts positions by; truth values count as one and
    zero. -/
def position? : Value → Option Int
  | .int n => some n
  | .bool b => some (if b then 1 else 0)
  | _ => none

/-- The index that a position means among `length` items. -/
def index? (length : Nat) (position : Int) : Option Nat :=
  if 0 ≤ position then
    if position < length then some position.toNat else none
  else if 0 ≤ position + length then some (position + length).toNat
  else none

/-- The item at a position. -/
def itemAt (items : List Value) (step : Value) : Attempt Value :=
  match step.position? with
  | none => .error .wrongKind
  | some position =>
    match (index? items.length position).bind fun index => items[index]? with
    | some item => .ok item
    | none => .error .outOfRange

/-- The part of a value that one step leads to. -/
def child (value step : Value) : Attempt Value :=
  match value with
  | .mapping entries =>
    match step.key? with
    | none => .error .wrongKind
    | some key =>
      match Entries.get? key entries with
      | some part => .ok part
      | none => .error (.keyAbsent key)
  | .list items => itemAt items step
  | .tuple items => itemAt items step
  | .text s => itemAt (s.toList.map fun c => .text (String.singleton c)) step
  | _ => .error .wrongKind

/-- The part of a value that a path leads to. -/
def read (value : Value) : List Value → Attempt Value
  | [] => .ok value
  | step :: rest => (value.child step).bind fun part => part.read rest

/-- Put an item in place of the one at a position. -/
def setItem (items : List Value) (step item : Value) : Attempt (List Value) :=
  match step.position? with
  | none => .error .wrongKind
  | some position =>
    match index? items.length position with
    | some index => .ok (items.set index item)
    | none => .error .outOfRange

/-- Assign a part: a mapping takes any key, a list only a position that it has. -/
def assign (value step part : Value) : Attempt Value :=
  match value with
  | .mapping entries =>
    match step.key? with
    | none => .error .wrongKind
    | some key => .ok (.mapping (Entries.insert key part entries))
  | .list items => (setItem items step part).map .list
  | _ => .error .wrongKind

/-- Exchange a part that was changed where it stands, which a tuple allows too. -/
def exchange (value step part : Value) : Attempt Value :=
  match value with
  | .tuple items => (setItem items step part).map .tuple
  | _ => value.assign step part

/-- Change a value at the last step of a path by `last`, given the value that holds it
    and the step. -/
def changeAt (last : Value → Value → Attempt Value) : List Value → Value → Attempt Value
  | [], _ => .error .outOfRange
  | [step], value => last value step
  | step :: rest, value => do
    let part ← value.child step
    let changed ← changeAt last rest part
    value.exchange step changed

/-- Assign at a path. -/
def write (value : Value) (path : List Value) (part : Value) : Attempt Value :=
  changeAt (fun holder step => holder.assign step part) path value

/-- Remove a part: an entry of a mapping or an item of a list. -/
def removePart (value step : Value) : Attempt Value :=
  match value with
  | .mapping entries =>
    match step.key? with
    | none => .error .wrongKind
    | some key =>
      if Entries.has key entries then .ok (.mapping (Entries.erase key entries))
      else .error (.keyAbsent key)
  | .list items =>
    match step.position? with
    | none => .error .wrongKind
    | some position =>
      match index? items.length position with
      | some index => .ok (.list (items.eraseIdx index))
      | none => .error .outOfRange
  | _ => .error .wrongKind

/-- Remove at a path. -/
def remove (value : Value) (path : List Value) : Attempt Value :=
  changeAt removePart path value

/-- Add an item behind those of a list; nothing else has this operation. The item is not
    asked for before there is a list to take it. -/
def push (value : Value) (item : Attempt Value) : Attempt Value :=
  match value with
  | .list items => item.map fun made => .list (items ++ [made])
  | _ => .error .noOperation

/-- Add an item to the list at a path. -/
def append (value : Value) (path : List Value) (item : Attempt Value) : Attempt Value :=
  match path with
  | [] => value.push item
  | _ => changeAt (fun holder step => do
      let part ← holder.child step
      let grown ← part.push item
      holder.exchange step grown) path value

end Stepwise.Value
