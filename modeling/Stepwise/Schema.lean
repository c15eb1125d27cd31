import Stepwise.Shape.Alternatives

/-!
# Schemas

A schema names the fields of a section and gives each a shape. A field can be read
under one name, written under another and declared by a third. What a schema says of
its fields as such, apart from checking values, is here; `Schema.Check` holds the
checking.
-/

namespace Stepwise

/-- A schema: the fields of a record, in the order of their declaration. -/
structure Schema where
  rules : RecordRules
  fields : List (FieldRules × Shape)

/-- A declared field as the flat form of a record sees it: its name and the kind of its
    values. -/
structure DeclaredField where
  name : String
  isSequence : Bool
  isMapping : Bool
  isRecord : Bool

namespace Schema

/-- The declared fields, in order. -/
def declared (schema : Schema) : List DeclaredField :=
  schema.fields.map fun field =>
    ⟨field.1.declaredName, field.2.isSequence, field.2.isMapping, field.2.isRecord⟩

/-- The declared names of the fields, in order. -/
def fieldNames (schema : Schema) : List String := schema.declared.map (·.name)

/-- Every declared field with null. -/
def template (schema : Schema) : List (Key × Value) :=
  Entries.ofWrites (schema.fieldNames.map fun name => (Key.text name, Value.null))

/-- The fields whose mappings have keys that are not known ahead. -/
def freeForm (schema : Schema) : List String :=
  (schema.declared.filter (·.isMapping)).map (·.name)

end Schema
end Stepwise
