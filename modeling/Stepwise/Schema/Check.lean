import Stepwise.Schema
import Stepwise.Schema.Scalar
import Stepwise.Value.Members
import Stepwise.Value.Unmarked

/-!
# Checking values against schemas

A value that fits is returned as the schema reads it, with each record's fields in the
order of their declaration under their written names and admitted extras behind them,
and without marks. A value that does not fit is answered with all findings, those of a
record's fields in the order of the fields and those of extras in the order of the
input. Where a mapping's key is read as something that can change there is neither:
checking fails.
-/

namespace Stepwise

/-- A key as a part of a dotted path. Truth values count as numbers there. -/
def Key.pathText : Key → String
  | .bool b => if b then "1" else "0"
  | key => key.plain

namespace Shape

/-- The items of a value that is read as a sequence. -/
def items? : Value → Option (List Value)
  | .list items => some items
  | .tuple items => some items
  | .set _ members => some (members.map Key.toValue)
  | _ => none

/-- Check each item by itself, with its position as its place. -/
def checkItems {α : Type} (check : Value → Checked α) (items : List Value) : Checked (List α) :=
  Checked.all <| items.zipIdx.map fun (item, position) =>
    (check item).under [toString position]

/-- Check a member of a set; what it is read as must be a key. -/
def checkMember (check : Value → Checked Value) (item : Value) : Checked Key := do
  match (← check item).key? with
  | some key => return key
  | none => Checked.complain .memberCanChange

/-- Check a key, which counts as part of its entry. -/
def checkKey (check : Value → Checked Value) (key : Key) : Checked Value :=
  (check key.toValue).under [key.pathText, "[key]"]

/-- Check an entry, the key before the value. Once both are read, the key must still be
    a key. -/
def checkEntry (checkKeyValue checkValue : Value → Checked Value) (entry : Key × Value) :
    Checked (Key × Value) := do
  let (key, value) ← Checked.both (checkKey checkKeyValue entry.1)
    ((checkValue entry.2).under [entry.1.pathText])
  match key.key? with
  | some key => return (key, value)
  | none => .error (.failure .wrongKind)

/-- Check each entry of a mapping. -/
def checkEntries (checkKeyValue checkValue : Value → Checked Value)
    (entries : List (Key × Value)) : Checked (List (Key × Value)) :=
  (Checked.all (entries.map (checkEntry checkKeyValue checkValue))).map Entries.ofWrites

/-- The entry under the first of several names that is present. -/
def lookUp (names : List String) (entries : List (Key × Value)) : Option (String × Value) :=
  names.findSome? fun name => (Entries.get? (Key.text name) entries).map fun value => (name, value)

/-- Check the entries that belong to no field. -/
def checkExtras (extras : Extras) (used : List String) (entries : List (Key × Value)) :
    Checked (List (Key × Value)) :=
  match extras with
  | .ignore => .ok []
  | _ =>
    (Checked.all <| entries.map fun (key, value) =>
      match key with
      | .text name =>
        if used.contains name then .ok []
        else
          match extras with
          | .forbid => Checked.complainAt [name] .unexpected
          | _ => .ok [(key, value)]
      | _ => Checked.complainAt [key.pathText] .keyNotText).map List.flatten

/-- The names under which the fields of a record were found. -/
def usedNames (rules : RecordRules) (fields : List (FieldRules × Shape))
    (entries : List (Key × Value)) : List String :=
  fields.filterMap fun field =>
    (lookUp (field.1.readNames rules.byName) entries).map Prod.fst

/-- A record from its checked fields and the entries that no field used, in the order in
    which they are written. Fields that share a written name are settled when the record
    is handed out. -/
def withExtras (rules : RecordRules) (used : List String) (entries : List (Key × Value))
    (fields : Checked (List (Key × Value))) : Checked Value :=
  (Checked.both fields (checkExtras rules.extras used entries)).map
    fun (read, extras) => .mapping (read ++ extras)

mutual

/-- Check a value against a shape. -/
def check : Shape → Value → Checked Value
  | .any, value => .ok value
  | .unstated, value => .ok value
  | .null, value =>
    match value with
    | .null => .ok .null
    | _ => Checked.complain .notNull
  | .truth, value => Checked.ofReading ((Scalar.readTruth value).map .bool)
  | .int, value => Checked.ofReading ((Scalar.readInt value).map .int)
  | .real, value => Checked.ofReading ((Scalar.readReal value).map .real)
  | .text, value => Checked.ofReading ((Scalar.readText value).map .text)
  | .choice options, value =>
    Checked.ofReading ((Scalar.readChoice options value).map fun option => option.toKey.toValue)
  | .list item, value =>
    match items? value with
    | some items => (checkItems (check item) items).map .list
    | none => Checked.complain .notList
  | .tuple item, value =>
    match items? value with
    | some items => (checkItems (check item) items).map .tuple
    | none => Checked.complain .notTuple
  | .set frozen item, value =>
    match items? value with
    | some items =>
      (checkItems (checkMember (check item)) items).map fun keys =>
        .set frozen (Key.membersOf keys)
    | none => Checked.complain (.notSet frozen)
  | .mapping _ key shape, value =>
    match value with
    | .mapping entries => (checkEntries (check key) (check shape) entries).map .mapping
    | _ => Checked.complain .notMapping
  | .optional shape, value =>
    match value with
    | .null => .ok .null
    | _ => check shape value
  | .union shapes, value =>
    match value, offersNull (.union shapes) with
    | .null, true => .ok .null
    | _, _ =>
      if (othersThanNull (.union shapes)).length ≤ 1 then checkFirst shapes value
      else checkAny shapes value []
  | .record rules fields, value =>
    match value with
    | .mapping entries =>
      withExtras rules (usedNames rules fields entries) entries (checkFields rules fields entries)
    | _ => Checked.complain (.notRecord rules.name)

/-- Check a value against the first of several shapes that offers more than null. The
    others are the same shape written again. -/
def checkFirst : List Shape → Value → Checked Value
  | [], _ => Checked.complain .notNull
  | shape :: rest, value =>
    if shape.othersThanNull.isEmpty then checkFirst rest value else check shape value

/-- Check a value against several shapes; the first that it fits decides, and a failure
    ends the search. -/
def checkAny : List Shape → Value → List Finding → Checked Value
  | [], _, findings => .error (.findings findings)
  | shape :: rest, value, findings =>
    match check shape value with
    | .ok read => .ok read
    | .error (.findings more) => checkAny rest value (findings ++ more)
    | .error (.failure why) => .error (.failure why)

/-- Check the fields of a record in order; an absent field takes its default as it
    is. -/
def checkFields (rules : RecordRules) : List (FieldRules × Shape) → List (Key × Value) →
    Checked (List (Key × Value))
  | [], _ => .ok []
  | (field, shape) :: rest, entries =>
    let first : Checked Value :=
      match lookUp (field.readNames rules.byName) entries with
      | some (name, value) => (check shape value).under [name]
      | none =>
        match field.default? with
        | some value => .ok value
        | none => Checked.complainAt [field.readName] .missing
    (Checked.both first (checkFields rules rest entries)).map
      fun (value, others) => (Key.text field.writeName, value) :: others

end

end Shape

namespace Schema

/-- What a schema reads a value as, marks left in it and shared names not settled. -/
def read (schema : Schema) (value : Value) : Checked Value :=
  (Shape.record schema.rules schema.fields).check value

/-- Check a value against a schema. -/
def check (schema : Schema) (value : Value) : Checked Value := do
  Checked.ofAttempt (← schema.read value).unmarked

/-- The given value of a field, under its alias or its name. -/
def given? (entries : List (Key × Value)) (field : FieldRules) : Option Value :=
  (Shape.lookUp [field.readName, field.name] entries).map Prod.snd

/-- The entries of a record made without any check, in the order in which they are
    written: declared fields as given, others with their default if they have one, and
    behind them what belongs to no field, where that is admitted. -/
def constructed (schema : Schema) (entries : List (Key × Value)) : List (Key × Value) :=
  let fields := schema.fields.filterMap fun (field, _) =>
    ((given? entries field).or field.default?).map fun value => (Key.text field.writeName, value)
  let known := schema.fields.flatMap fun (field, _) => [field.readName, field.name]
  let others := entries.filter fun entry =>
    match entry.1 with
    | .text name => !known.contains name
    | _ => true
  if schema.rules.extras = .allow then fields ++ others else fields

/-- A record made without any check, marks spelled out. Only a mapping whose keys are
    texts can be taken for one. -/
def construct (schema : Schema) : Value → Attempt Value
  | .mapping entries =>
    if entries.all fun entry => entry.1.text?.isSome then
      (Value.mapping (schema.constructed entries)).unmarked
    else .error .wrongKind
  | _ => .error .wrongKind

end Schema
end Stepwise
