import Stepwise.Value

/-!
# Shapes

A shape says what values are admitted, in the words that schemas are written in. Two
ways of writing a shape that admit the same values stay two shapes: a sequence whose
items are not spoken of is not one whose items may be anything, and a mapping of any
kind is not the plain kind. What shapes have to do with values is in `Schema.Check`.
-/

namespace Stepwise

/-- What happens to entries that belong to no field. -/
inductive Extras where
  | ignore
  | allow
  | forbid
deriving DecidableEq

/-- A scalar that a choice offers. -/
inductive Choice where
  | text (s : String)
  | int (n : Int)
deriving DecidableEq

/-- An option as a key. -/
def Choice.toKey : Choice → Key
  | .text s => .text s
  | .int n => .int n

/-- The names of a field, and the value it takes when none is given. Without a default
    a value must be given, also where the shape admits null. -/
structure FieldRules where
  name : String
  alias? : Option String
  readAlias? : Option String
  writeAlias? : Option String
  default? : Option Value

/-- How a record of fields is read as a whole. -/
structure RecordRules where
  name : String
  extras : Extras
  byName : Bool

/-- The shape of a value. `unstated` stands where a sequence's items or a mapping's
    keys and values are not spoken of; `plain` tells the usual kind of mapping from
    any kind. -/
inductive Shape where
  | any
  | unstated
  | null
  | truth
  | int
  | real
  | text
  | choice (options : List Choice)
  | list (item : Shape)
  | tuple (item : Shape)
  | set (frozen : Bool) (item : Shape)
  | mapping (plain : Bool) (key value : Shape)
  | optional (shape : Shape)
  | union (shapes : List Shape)
  | record (rules : RecordRules) (fields : List (FieldRules × Shape))

namespace FieldRules

/-- The name under which the field is looked for. -/
def readName (field : FieldRules) : String := (field.readAlias?.or field.alias?).getD field.name

/-- The name under which the field is written, whatever it is. -/
def writeName (field : FieldRules) : String := (field.writeAlias?.or field.alias?).getD field.name

/-- The name by which the field is declared. An empty name given for writing or as an
    alias declares nothing. -/
def declaredName (field : FieldRules) : String :=
  ([field.writeAlias?, field.alias?].findSome? fun name? => name?.filter (· ≠ "")).getD field.name

/-- The names under which the field is found, the preferred one first. -/
def readNames (field : FieldRules) (byName : Bool) : List String :=
  if byName ∧ field.readName ≠ field.name then [field.readName, field.name] else [field.readName]

end FieldRules
end Stepwise
