import Stepwise.Separator

/-!
# Flat records

A record of nested sections can be spelled as one flat list of entries whose keys are
the section's name and the names on the way to a leaf, joined by a separator. A leaf
is a value that is no mapping, an empty mapping, or a mapping that is to stay whole.

Reading a flat record back assigns each value at the names that its key splits into,
one entry after the other. A later entry wins: it replaces what stands at its place,
and where it has to go below a value that is no mapping it replaces that value by a
mapping. Keys that do not start with a section's name and the separator, or that end
there, are left out.

A mapping that an entry holds is itself put at the entry's place, so what is assigned
below that place later is written into the entry's own mapping.
-/

namespace Stepwise

/-- A flat record: values under text keys, in insertion order. -/
abbrev Flat : Type := List (String × Value)

namespace Flat

mutual

/-- The leaves of a value with the names that lead to them, after those in `path`.
    `whole` tells which mappings stay whole. -/
def leaves (whole : List String → Bool) (path : List String) : Value → List (List String × Value)
  | .mapping entries =>
    if entries.isEmpty || whole path then [(path, .mapping entries)]
    else leavesOfEntries whole path entries
  | value => [(path, value)]

/-- The leaves of a mapping's entries, in their order. -/
def leavesOfEntries (whole : List String → Bool) (path : List String) :
    List (Key × Value) → List (List String × Value)
  | [] => []
  | (key, value) :: rest =>
    leaves whole (path ++ [key.plain]) value ++ leavesOfEntries whole path rest

end

/-- The key of a place in a section. -/
def key (separator : Separator) (side : Section) (path : List String) : String :=
  separator.join (side.name :: path)

/-- The entries that one section contributes. A section that is no mapping has none. -/
def ofSection (separator : Separator) (whole : List String) (side : Section) :
    Value → Flat
  | .mapping entries =>
    (leavesOfEntries (fun path => whole.contains (key separator side path)) [] entries).map
      fun leaf => (key separator side leaf.1, leaf.2)
  | _ => []

/-- The value of a section in a record, null when the record has none. -/
def sectionOf (record : List (Key × Value)) (side : Section) : Value :=
  (Entries.get? (Key.text side.name) record).getD .null

/-- A nested record as a flat one. `whole` lists the keys whose mappings stay whole.
    Two leaves of one key leave a single entry, with the later value. -/
def ofRecord (separator : Separator) (whole : List String) (record : List (Key × Value)) :
    Flat :=
  Entries.ofWrites <|
    Section.all.flatMap fun side => ofSection separator whole side (sectionOf record side)

/-- A value as a flat record; only a mapping is a record. -/
def ofValue (separator : Separator) (whole : List String) : Value → Attempt Flat
  | .mapping record => .ok (ofRecord separator whole record)
  | _ => .error .noOperation

/-- Write a value at a non-empty path of names, making mappings on the way where there
    are none. -/
def assign : List String → Value → List (Key × Value) → List (Key × Value)
  | [], _, entries => entries
  | [last], value, entries => Entries.insert (Key.text last) value entries
  | name :: rest, value, entries =>
    let below := ((Entries.get? (Key.text name) entries).bind Value.entries?).getD []
    Entries.insert (Key.text name) (.mapping (assign rest value below)) entries

/-- What follows the section's name and the separator in a key, if something does. -/
def afterSection? (separator : Separator) (side : Section) (key : String) :
    Option (List Char) :=
  let start := side.name.toList ++ separator.chars
  if start.isPrefixOf key.toList then
    let rest := key.toList.drop start.length
    if rest.isEmpty then none else some rest
  else none

/-- The section and the names that a key stands for, if it is valid. -/
def place? (separator : Separator) (key : String) : Option (Section × List String) :=
  Section.all.findSome? fun side =>
    (afterSection? separator side key).map fun rest =>
      (side, (separator.splitChars rest).map String.ofList)

/-- The places in a section that the entries of a flat record lead to, with their
    values. -/
def placed (separator : Separator) (side : Section) (flat : Flat) :
    List (List String × Value) :=
  flat.filterMap fun entry => (place? separator entry.1).bind fun place =>
    if place.1 = side then some (place.2, entry.2) else none

/-- What becomes of a mapping that was assigned at a path by the assignments after it.
    Those below the path go into it, until one at the path or above it takes it away. -/
def leftAt (path : List String) : List (List String × Value) → List (Key × Value) →
    List (Key × Value)
  | [], entries => entries
  | (written, value) :: later, entries =>
    if written.isPrefixOf path then entries
    else if path.isPrefixOf written then
      leftAt path later (assign (written.drop path.length) value entries)
    else leftAt path later entries

/-- What becomes of the value of an entry that is nested before others. -/
def leftBehind (separator : Separator) (key : String) (value : Value) (later : Flat) : Value :=
  match value, place? separator key with
  | .mapping entries, some (side, path) =>
    .mapping (leftAt path (placed separator side later) entries)
  | value, _ => value

/-- What becomes of the value under a key while a flat record is nested. -/
def leftUnder? (separator : Separator) (key : String) : Flat → Option Value
  | [] => none
  | (name, value) :: later =>
    if name = key then some (leftBehind separator key value later)
    else leftUnder? separator key later

/-- The nested entries of both sections. -/
structure Nested where
  input : List (Key × Value)
  output : List (Key × Value)

namespace Nested

/-- Two empty sections. -/
def empty : Nested := ⟨[], []⟩

/-- The entries of one section. -/
def get (nested : Nested) : Section → List (Key × Value)
  | .input => nested.input
  | .output => nested.output

/-- The sections with one of them changed. -/
def modify (nested : Nested) (side : Section)
    (change : List (Key × Value) → List (Key × Value)) : Nested :=
  match side with
  | .input => { nested with input := change nested.input }
  | .output => { nested with output := change nested.output }

@[simp] theorem get_empty (side : Section) : empty.get side = [] := by
  cases side <;> rfl

@[simp] theorem get_modify_self (nested : Nested) (side : Section)
    (change : List (Key × Value) → List (Key × Value)) :
    (nested.modify side change).get side = change (nested.get side) := by
  cases side <;> rfl

/-- Changing one section leaves the other as it was. -/
theorem get_modify_of_ne (nested : Nested) {side other : Section} (distinct : other ≠ side)
    (change : List (Key × Value) → List (Key × Value)) :
    (nested.modify side change).get other = nested.get other := by
  cases side <;> cases other
  · exact absurd rfl distinct
  · rfl
  · rfl
  · exact absurd rfl distinct

/-- The record that holds both sections. -/
def toValue (nested : Nested) : Value :=
  .ofFields [(Section.input.name, .mapping nested.input),
    (Section.output.name, .mapping nested.output)]

end Nested

/-- Assign one entry of a flat record. -/
def place (separator : Separator) (nested : Nested) (entry : String × Value) : Nested :=
  match place? separator entry.1 with
  | some (side, path) => nested.modify side (assign path entry.2)
  | none => nested

/-- A flat record as a nested one. -/
def toNested (separator : Separator) (flat : Flat) : Nested :=
  flat.foldl (place separator) .empty

/-- The flat record that entries are; a key that is no text is refused. -/
def ofEntries : List (Key × Value) → Attempt Flat
  | [] => .ok []
  | (.text name, value) :: rest => (ofEntries rest).map fun flat => (name, value) :: flat
  | _ :: _ => .error .noOperation

/-- Read a value as a flat record and nest it. -/
def nestValue (separator : Separator) : Value → Attempt Nested
  | .mapping entries => (ofEntries entries).map (toNested separator)
  | _ => .error .noOperation

end Flat
end Stepwise
