import Stepwise.Binary64
import Stepwise.Entries

/-!
# Values

The data that sections, channels and settings hold. A mapping's keys are values that
never change once made, so they have a type of their own; sets hold such values too.
A frozen set is one that can never change and is therefore a key itself.

`replacement` is the mark that a list channel's new value is given outright instead of
as an addition; it travels as a value because updates do. A mark can change exactly if
what it holds can.

Mappings are those that can be written into. Views of mappings that cannot be written
into and values that cannot be copied are left out. A copy is the same value; that the
members of a copied set may be gone through in another order is left out too.
-/

namespace Stepwise

/-- A value that can stand as a mapping's key or a set's member. -/
inductive Key where
  | null
  | bool (b : Bool)
  | int (n : Int)
  | real (x : Binary64)
  | text (s : String)
  | tuple (items : List Key)
  | set (members : List Key)
  | replacement (held : Key)

/-- A value. Mappings keep their entries in insertion order. -/
inductive Value where
  | null
  | bool (b : Bool)
  | int (n : Int)
  | real (x : Binary64)
  | text (s : String)
  | list (items : List Value)
  | tuple (items : List Value)
  | set (frozen : Bool) (members : List Key)
  | mapping (entries : List (Key × Value))
  | replacement (held : Value)

namespace Key

/-- The number that a key is. Truth values count as one and zero. -/
def number? : Key → Option Number
  | .bool b => some (.int (if b then 1 else 0))
  | .int n => some (.int n)
  | .real x => some (.real x)
  | _ => none

/-- Whether two numbers are equal, NaN being equal to NaN of the same payload exactly
    when `nanIsEqual` holds. -/
def numbersAlike (nanIsEqual : Bool) (a b : Number) : Bool :=
  a.compare b = .equal || (nanIsEqual && a.payload?.isSome && a.payload? = b.payload?)

mutual

/-- Equality of keys by exact value, with NaN equal to itself or not. -/
def alike (nanIsEqual : Bool) : Key → Key → Bool
  | .null, .null => true
  | .text s, .text t => s == t
  | .tuple xs, .tuple ys => allAlike nanIsEqual xs ys
  | .set xs, .set ys => xs.length == ys.length && allAmong nanIsEqual xs ys
  | .replacement x, .replacement y => alike nanIsEqual x y
  | a, b =>
    match a.number?, b.number? with
    | some n, some m => numbersAlike nanIsEqual n m
    | _, _ => false

/-- Equality of sequences of keys, part by part. -/
def allAlike (nanIsEqual : Bool) : List Key → List Key → Bool
  | [], [] => true
  | x :: xs, y :: ys => alike nanIsEqual x y && allAlike nanIsEqual xs ys
  | _, _ => false

/-- Every key of the first list has its equal in the second. -/
def allAmong (nanIsEqual : Bool) : List Key → List Key → Bool
  | [], _ => true
  | x :: xs, ys => (ys.any fun y => alike nanIsEqual x y) && allAmong nanIsEqual xs ys

end

/-- Keys are one if they are equal by exact value; NaN is no key twice. -/
instance : BEq Key := ⟨alike false⟩

/-- The value that a key is. -/
def toValue : Key → Value
  | .null => .null
  | .bool b => .bool b
  | .int n => .int n
  | .real x => .real x
  | .text s => .text s
  | .tuple items => .tuple (toValues items)
  | .set members => .set true members
  | .replacement held => .replacement (toValue held)
where
  /-- The values that keys are. -/
  toValues : List Key → List Value
    | [] => []
    | key :: rest => toValue key :: toValues rest

/-- The text that a key is, if it is one. -/
def text? : Key → Option String
  | .text s => some s
  | _ => none

@[simp] theorem text_beq_text (s t : String) : ((Key.text s) == (Key.text t)) = (s == t) := by
  simp [BEq.beq, alike]

/-- Only a text is the same key as a text. -/
theorem beq_text_iff (key : Key) (s : String) : (key == Key.text s) = true ↔ key = Key.text s := by
  cases key <;> simp [BEq.beq, alike, number?, -text_beq_text]

end Key

namespace Value

/-- The mapping with the given texts as keys. -/
def ofFields (fields : List (String × Value)) : Value :=
  .mapping (fields.map fun field => (.text field.1, field.2))

/-- The entries of a mapping. -/
def entries? : Value → Option (List (Key × Value))
  | .mapping entries => some entries
  | _ => none

/-- The number that a value is. Truth values count as one and zero. -/
def number? : Value → Option Number
  | .bool b => some (.int (if b then 1 else 0))
  | .int n => some (.int n)
  | .real x => some (.real x)
  | _ => none

/-- A value counts as true unless it is null, false, zero or empty. -/
def truthy : Value → Bool
  | .null => false
  | .bool b => b
  | .int n => n ≠ 0
  | .real x => !(Number.real x).isZero
  | .text s => s ≠ ""
  | .list items => !items.isEmpty
  | .tuple items => !items.isEmpty
  | .set _ members => !members.isEmpty
  | .mapping entries => !entries.isEmpty
  | .replacement _ => true

/-- The parts that a value yields when it is gone through: a text its characters, a
    mapping its keys. Null, numbers and marks yield nothing. -/
def parts? : Value → Option (List Value)
  | .text s => some (s.toList.map fun c => .text (String.singleton c))
  | .list items => some items
  | .tuple items => some items
  | .set _ members => some (members.map Key.toValue)
  | .mapping entries => some (entries.map fun entry => entry.1.toValue)
  | _ => none

/-- The number of parts of a value. -/
def size? (value : Value) : Option Nat := value.parts?.map List.length

mutual

/-- The key that a value is; a value with a part that can change is none. -/
def key? : Value → Option Key
  | .null => some .null
  | .bool b => some (.bool b)
  | .int n => some (.int n)
  | .real x => some (.real x)
  | .text s => some (.text s)
  | .tuple items => (keys? items).map .tuple
  | .set true members => some (.set members)
  | .replacement held => (key? held).map .replacement
  | _ => none

/-- The keys that values are, if all of them are. -/
def keys? : List Value → Option (List Key)
  | [] => some []
  | item :: rest =>
    match key? item, keys? rest with
    | some key, some keys => some (key :: keys)
    | _, _ => none

end

end Value
end Stepwise
