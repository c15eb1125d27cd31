import Stepwise.Record
import Stepwise.ListChannel

/-!
# Channels

The graph form of a workflow keeps the record in flat channels: one for each declared
field, whose value is never taken apart, and one for each section that holds the
entries the schema does not declare. `encode` spreads a record over the channels and
`decode` collects it again, on top of the template in which every declared field is
null.

A field whose name contains the separator is not collected where it was; such fields
are named in diagnostics.
-/

namespace Stepwise

/-- The channel of a declared field. -/
structure Channel where
  side : Section
  field : String
  key : String
  isSequence : Bool

/-- The channels of a workflow. -/
structure Channels where
  separator : Separator
  template : Flat.Nested
  declared : List Channel

namespace Channels

/-- The name under which the undeclared entries of a section are kept. -/
def overflowField : String := "__extra__"

/-- The channels for a pair of schemas. -/
def ofSchemas (separator : Separator) (schemas : Schemas) : Channels where
  separator := separator
  template := schemas.template
  declared := Section.all.flatMap fun side =>
    (schemas.of side).declared.map fun field =>
      ⟨side, field.name, Flat.key separator side [field.name], field.isSequence⟩

/-- The keys of the declared fields' channels, in the order of declaration. -/
def fieldKeys (channels : Channels) : List String := channels.declared.map (·.key)

/-- The key of a section's overflow channel. -/
def overflowKey (channels : Channels) (side : Section) : String :=
  Flat.key channels.separator side [overflowField]

/-- The keys of all channels. -/
def keys (channels : Channels) : List String :=
  channels.fieldKeys ++ Section.all.map channels.overflowKey

/-- Whether a channel takes additions. -/
def isSequence (channels : Channels) (key : String) : Bool :=
  channels.declared.any fun channel => channel.isSequence && channel.key == key

/-- Whether a section declares a field. -/
def declares (channels : Channels) (side : Section) (name : String) : Bool :=
  channels.declared.any fun channel => channel.side == side && channel.field == name

/-- Whether an entry of a section is left to the overflow channel. -/
def isUndeclared (channels : Channels) (side : Section) (entry : Key × Value) : Bool :=
  match entry.1 with
  | .text name => !channels.declares side name
  | _ => true

/-- The entries of a section for its overflow channel. An empty value counts as an
    empty section; any other value that is no mapping has no entries. -/
def undeclaredEntries (channels : Channels) (side : Section) (value : Value) :
    Attempt (List (Key × Value)) :=
  if !value.truthy then .ok []
  else
    match value with
    | .mapping entries => .ok (entries.filter (channels.isUndeclared side))
    | _ => .error .noOperation

/-- The values that the channels take from a record. A field that the record lacks is
    null. -/
def encodeRecord (channels : Channels) (record : List (Key × Value)) : Attempt Flat := do
  let flat := Flat.ofRecord channels.separator channels.fieldKeys record
  let fields := channels.fieldKeys.map fun key => (key, (Entries.get? key flat).getD .null)
  let overflow ← Section.all.mapM fun side => do
    let entries ← channels.undeclaredEntries side (Flat.sectionOf record side)
    return (channels.overflowKey side, Value.mapping entries)
  return Entries.ofWrites (fields ++ overflow)

/-- The values that the channels take from a value; only a mapping is a record. -/
def encode (channels : Channels) : Value → Attempt Flat
  | .mapping record => channels.encodeRecord record
  | _ => .error .noOperation

/-- One element of a sequence of pairs. -/
def pairOf (position : Nat) (element : Value) : Attempt (Key × Value) :=
  match element.parts? with
  | none => .error .wrongKind
  | some [key, value] =>
    match key.key? with
    | some key => .ok (key, value)
    | none => .error .wrongKind
  | some parts => .error (.refused (.unevenPair position parts.length))

/-- The entries that a value adds to a mapping: its own, or the pairs that it lists. An
    empty value adds none. -/
def addedEntries (value : Value) : Attempt (List (Key × Value)) :=
  if !value.truthy then .ok []
  else
    match value with
    | .mapping entries => .ok entries
    | _ =>
      match value.parts? with
      | none => .error .wrongKind
      | some elements => elements.zipIdx.mapM fun (element, position) => pairOf position element

/-- What there is under the keys of the declared fields' channels, in the order of
    declaration. -/
def declaredIn {α : Type} (channels : Channels) (flat : List (String × α)) :
    List (String × α) :=
  Entries.ofWrites <| channels.fieldKeys.filterMap fun key =>
    (Entries.get? key flat).map fun value => (key, value)

/-- One section of the record: the nested fields over the template, and over both the
    entries that the overflow adds. -/
def collectSection (channels : Channels) (nested : Flat.Nested) (overflow : Value)
    (side : Section) : Attempt (List (Key × Value)) :=
  (addedEntries overflow).map fun added =>
    Entries.merge (Entries.merge (channels.template.get side) (nested.get side)) added

/-- The record of nested fields and the overflow of each section. -/
def collect (channels : Channels) (nested : Flat.Nested) (overflow : Section → Value) :
    Attempt Flat.Nested := do
  let input ← channels.collectSection nested (overflow .input) .input
  let output ← channels.collectSection nested (overflow .output) .output
  return ⟨input, output⟩

/-- What a section's overflow channel holds once the fields were nested. If a field is
    declared under its key, it was nested itself and other fields may have gone into it. -/
def overflowLeft (channels : Channels) (flat : Flat) (side : Section) : Value :=
  let key := channels.overflowKey side
  ((Flat.leftUnder? channels.separator key (channels.declaredIn flat)).or
    (Entries.get? key flat)).getD .null

/-- The record that the channels hold. A channel without a value leaves its field to the
    template. -/
def decode (channels : Channels) (flat : Flat) : Attempt Flat.Nested :=
  channels.collect (Flat.toNested channels.separator (channels.declaredIn flat))
    (channels.overflowLeft flat)

/-- Whether a value that is no mapping seems to hold a channel: a text that contains
    its key, or a value with the key among its parts. -/
def seemsToHold (value : Value) (key : String) : Bool :=
  match value with
  | .text s => (Separator.cut key.toList s.toList).isSome
  | _ => (value.parts?.getD []).any fun part => part.equal (.text key)

/-- The record in a value that is taken for the channels. Entries under other keys than
    texts are left out; anything but a mapping fails on the first access to it. -/
def decodeValue (channels : Channels) (value : Value) : Attempt Flat.Nested :=
  match value with
  | .mapping entries =>
    channels.decode (entries.filterMap fun entry => entry.1.text?.map fun name => (name, entry.2))
  | _ =>
    if channels.declared.isEmpty then .error .noOperation
    else if value.parts?.isNone ∨ channels.fieldKeys.any (seemsToHold value) then .error .wrongKind
    else .error .noOperation

/-- The updates that lead the channels from one state to another. A list channel is
    left out when it does not change; every other one is written. -/
def updates (channels : Channels) (before after : Flat) : Flat :=
  Entries.ofWrites <| channels.keys.filterMap fun key =>
    let new := (Entries.get? key after).getD .null
    if channels.isSequence key then
      (ListChannel.updateOfKept? ((Entries.get? key before).getD .null) new).map
        fun update => (key, update)
    else some (key, new)

/-- The name that tells of a mapping written into a list channel that it stands for a
    value to be taken outright. -/
def overwriteName : String := "__overwrite__"

/-- Whether a mapping is of the type of that name. -/
def isOverwriteType (entries : List (Key × Value)) : Bool :=
  (Entries.get? (Key.text "type") entries).any fun type => type.equal (.text overwriteName)

/-- The value to be taken outright that a mapping stands for: its entry `value` beside a
    `type` of the overwriting name, whatever else it holds, or its only entry under that
    name. -/
def overwriting? : Value → Option Value
  | .mapping entries =>
    let stated := if isOverwriteType entries then Entries.get? (Key.text "value") entries else none
    match stated, entries with
    | some value, _ => some value
    | none, [(key, value)] => if key == .text overwriteName then some value else none
    | none, _ => none
  | _ => none

/-- A list channel with an update written into it. -/
def writeList (current update : Value) : Attempt Value :=
  match overwriting? update with
  | some value => .ok value
  | none => ListChannel.merge current update

/-- Write one update into the channels. A list channel that was never written is an
    empty list. -/
def write (channels : Channels) (flat : Flat) (update : String × Value) : Attempt Flat :=
  if channels.isSequence update.1 then
    (writeList ((Entries.get? update.1 flat).getD (.list [])) update.2).map fun written =>
      Entries.insert update.1 written flat
  else .ok (Entries.insert update.1 update.2 flat)

/-- Write updates into the channels, one after the other. -/
def writeAll (channels : Channels) (flat : Flat) (updates : Flat) : Attempt Flat :=
  updates.foldlM channels.write flat

/-- What is said of a field whose name contains the separator. -/
def separatorDiagnostic (separator : Separator) (channel : Channel) : String :=
  "Field \"" ++ channel.side.name ++ "." ++ channel.field ++
    "\" contains the state separator \"" ++ separator.text ++
    "\"; it will not decode back to the same path."

/-- What is said of the fields that are not collected where they were. -/
def diagnostics (channels : Channels) : List String :=
  (channels.declared.filter fun channel => channels.separator.occursIn channel.field).map
    (separatorDiagnostic channels.separator)

end Channels
end Stepwise
