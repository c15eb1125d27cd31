import Stepwise.Schema.Check
import Stepwise.Flat
import Stepwise.Value.Place

/-!
# The record of a workflow

A workflow works on one record with an input and an output section, each with a
schema. What the sections hold is not tied to the schemas: it is checked only when a
run enters and leaves. Before anything is set, every declared field is null.
-/

namespace Stepwise

/-- The schemas of both sections. -/
structure Schemas where
  input : Schema
  output : Schema

/-- What the sections hold. -/
structure Sections where
  input : Value
  output : Value

namespace Schemas

/-- The schema of a section. -/
def of (schemas : Schemas) : Section → Schema
  | .input => schemas.input
  | .output => schemas.output

/-- The schema of the section of a name. -/
def ofName (schemas : Schemas) (name : String) : Attempt Schema :=
  match Section.ofName? name with
  | some side => .ok (schemas.of side)
  | none => .error (.refused (.unknownSection name))

/-- Both sections with every declared field null. -/
def template (schemas : Schemas) : Flat.Nested :=
  ⟨schemas.input.template, schemas.output.template⟩

end Schemas

namespace Sections

/-- Sections of nested entries. -/
def ofNested (nested : Flat.Nested) : Sections := ⟨.mapping nested.input, .mapping nested.output⟩

/-- What a new record holds. -/
def fresh (schemas : Schemas) : Sections := ofNested schemas.template

/-- What a section holds. -/
def get (sections : Sections) : Section → Value
  | .input => sections.input
  | .output => sections.output

/-- The sections with one of them replaced. -/
def set (sections : Sections) (side : Section) (value : Value) : Sections :=
  match side with
  | .input => { sections with input := value }
  | .output => { sections with output := value }

/-- The record as a value. -/
def toValue (sections : Sections) : Value :=
  .ofFields [(Section.input.name, sections.input), (Section.output.name, sections.output)]

/-- A record as a value has its sections under their names. -/
theorem child_toValue (sections : Sections) (side : Section) :
    sections.toValue.child (.text side.name) = .ok (sections.get side) := by
  cases side <;> rfl

/-- Assign at a path inside a section. A path of one step names a section, which cannot
    be assigned so: nothing changes. A path of no step leads nowhere. -/
def put (sections : Sections) (path : List Value) (value : Value) : Attempt Sections :=
  match path with
  | [] => .error .outOfRange
  | [_] => .ok sections
  | _ => do
    let written ← sections.toValue.write path value
    let input ← written.child (.text Section.input.name)
    let output ← written.child (.text Section.output.name)
    return ⟨input, output⟩

end Sections
end Stepwise
