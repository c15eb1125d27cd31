import Stepwise.Proofs.ChannelRoundTrip
import Stepwise.Proofs.LastWrites

/-!
# Fields of which nothing is said

The diagnostics name each field whose name contains the separator. A field that they do
not name is spread over its own channel as it stands in the record, whatever the other
fields are called. Collecting the channels assigns it at its name, after the fields that
are declared before it and before those that are declared behind it.

So it comes back unless the name of a later field starts with its name and the separator,
which makes that one a named field: its value then goes below the name, and a mapping
stands there. The empty name is never assigned, and its field is null unless some other
field goes below it.

One thing more can happen to it. If a field has the name of the overflow channels, the
overflow's mapping is assigned like the value of a field, and a later field may go into it.
What it holds then overwrites the collected fields, under whatever names.
-/

namespace Stepwise

namespace Flat

open Entries (Named isExact_text)

/-! ## One name through assignments -/

/-- An assignment at a path with another first name leaves what is read under a name. -/
theorem get?_assign_other (name : String) (path : List String) (filled : path ≠ [])
    (apart : path.head? ≠ some name) (value : Value) (entries : List (Key × Value)) :
    Entries.get? (Key.text name) (assign path value entries) =
      Entries.get? (Key.text name) entries := by
  obtain ⟨first, rest, rfl⟩ := List.exists_cons_of_ne_nil filled
  have otherKey : Key.text first ≠ Key.text name := by
    simpa using apart
  obtain ⟨written, made⟩ := exists_assign_eq first rest value entries
  rw [made, Entries.get?_insert_other _ _ (isExact_text first) (isExact_text name) otherKey]

/-- Assignments at paths with other first names leave what is read under a name. -/
theorem get?_assignAll_other (name : String) (writes : List (List String × Value))
    (filled : ∀ write ∈ writes, write.1 ≠ []) (apart : ∀ write ∈ writes, write.1.head? ≠ some name)
    (built : List (Key × Value)) :
    Entries.get? (Key.text name) (assignAll built writes) =
      Entries.get? (Key.text name) built := by
  induction writes generalizing built with
  | nil => rfl
  | cons write rest ih =>
    have first := get?_assign_other name write.1 (filled write List.mem_cons_self)
      (apart write List.mem_cons_self) write.2 built
    have later := ih (fun other member => filled other (List.mem_cons_of_mem _ member))
      (fun other member => apart other (List.mem_cons_of_mem _ member))
      (assign write.1 write.2 built)
    exact later.trans first

/-- A mapping with something in it stands under a name. -/
def Branches (name : String) (entries : List (Key × Value)) : Prop :=
  ∃ inner, inner ≠ [] ∧ Entries.get? (Key.text name) entries = some (.mapping inner)

/-- An assignment below a name leaves a mapping there. -/
theorem branches_assign (name : String) (rest : List String) (filled : rest ≠ [])
    (value : Value) (entries : List (Key × Value)) :
    Branches name (assign (name :: rest) value entries) := by
  rw [assign_cons name rest filled]
  exact ⟨_, assign_ne_nil rest filled value _, Entries.get?_insert_same _ (isExact_text name) _ _⟩

/-- A mapping under a name goes only by an assignment at that very name. -/
theorem Branches.assign {name : String} {entries : List (Key × Value)}
    (branches : Branches name entries) (path : List String) (filled : path ≠ [])
    (apart : path ≠ [name]) (value : Value) : Branches name (assign path value entries) := by
  by_cases starts : path.head? = some name
  · obtain ⟨rest, rfl⟩ := List.head?_eq_some_iff.mp starts
    apply branches_assign name rest
    rintro rfl
    exact apart rfl
  · obtain ⟨inner, some', read⟩ := branches
    exact ⟨inner, some', (get?_assign_other name path filled starts value entries).trans read⟩

/-- A mapping under a name stays through assignments elsewhere. -/
theorem Branches.assignAll {name : String} (writes : List (List String × Value))
    (filled : ∀ write ∈ writes, write.1 ≠ []) (apart : ∀ write ∈ writes, write.1 ≠ [name])
    {built : List (Key × Value)} (branches : Branches name built) :
    Branches name (assignAll built writes) := by
  induction writes generalizing built with
  | nil => exact branches
  | cons write rest ih =>
    exact ih (fun other member => filled other (List.mem_cons_of_mem _ member))
      (fun other member => apart other (List.mem_cons_of_mem _ member))
      (branches.assign write.1 (filled write List.mem_cons_self)
        (apart write List.mem_cons_self) write.2)

/-- Assignments of which one goes below a name, and none is at it, leave a mapping there. -/
theorem branches_assignAll (name : String) (writes : List (List String × Value))
    (filled : ∀ write ∈ writes, write.1 ≠ []) (apart : ∀ write ∈ writes, write.1 ≠ [name])
    (below : ∃ write ∈ writes, write.1.head? = some name) (built : List (Key × Value)) :
    Branches name (assignAll built writes) := by
  obtain ⟨⟨path, value⟩, member, starts⟩ := below
  obtain ⟨rest, rfl⟩ := List.head?_eq_some_iff.mp starts
  have further : rest ≠ [] := by
    rintro rfl
    exact apart _ member rfl
  obtain ⟨before, after, rfl⟩ := List.append_of_mem member
  have parts : assignAll built (before ++ (name :: rest, value) :: after) =
      assignAll (assign (name :: rest) value (assignAll built before)) after := by
    simp [assignAll]
  rw [parts]
  apply Branches.assignAll after
  · exact fun write later => filled write (by simp [later])
  · exact fun write later => apart write (by simp [later])
  · exact branches_assign name rest further value _

/-- Named entries stay named through an assignment. -/
theorem named_assign (path : List String) (filled : path ≠ []) (value : Value)
    (entries : List (Key × Value)) (named : Named entries) : Named (assign path value entries) := by
  obtain ⟨name, rest, rfl⟩ := List.exists_cons_of_ne_nil filled
  obtain ⟨written, made⟩ := exists_assign_eq name rest value entries
  rw [made]
  exact named.insert name written

/-- Named entries stay named through assignments. -/
theorem named_assignAll (writes : List (List String × Value))
    (filled : ∀ write ∈ writes, write.1 ≠ []) (built : List (Key × Value)) (named : Named built) :
    Named (assignAll built writes) := by
  induction writes generalizing built with
  | nil => exact named
  | cons write rest ih =>
    exact ih (fun other member => filled other (List.mem_cons_of_mem _ member)) _
      (named_assign write.1 (filled write List.mem_cons_self) write.2 built named)

/-! ## Where single names lead -/

variable {separator : Separator}

/-- A path where something is placed can be restored. -/
theorem restorable_of_mem_placed (side : Section) (flat : Flat) (place : List String × Value)
    (member : place ∈ placed separator side flat) :
    place.1 ≠ [] ∧ Restorable separator place.1 := by
  obtain ⟨key, -, leads⟩ := (mem_placed_iff separator side flat place).mp member
  have leadsTo := (place?_eq_some_iff separator key side place.1).mp leads
  exact ⟨leadsTo.filled, leadsTo.restorable⟩

end Flat

namespace Channels

open Entries (Named isExact_text isExact_of_lawful)

/-- One of several names goes below another one, and is assigned after it: it splits into that
name and further ones, and is listed behind it. The empty name is never assigned. -/
def Overlays (separator : Separator) (names : List String) (other name : String) : Prop :=
  (name = "" ∨ names.idxOf name < names.idxOf other) ∧
    ∃ rest, rest ≠ [] ∧ separator.split other = name :: rest

/-- One of several names goes into the overflow at another one: the overflow's name is among them
too and is assigned before it, and it splits into the names that the overflow's splits into, the
other name, and possibly further ones. -/
def FallsInto (separator : Separator) (names : List String) (other name : String) : Prop :=
  overflowField ∈ names ∧ names.idxOf overflowField < names.idxOf other ∧
    ∃ rest, separator.split other = separator.split overflowField ++ name :: rest

variable {separator : Separator} {schemas : Schemas} {flat : Flat}
  {given extras : Section → List (Key × Value)}

/-- Of a field whose name contains the separator something is said. -/
theorem mem_diagnostics (channel : Channel)
    (declared : channel ∈ (ofSchemas separator schemas).declared)
    (inside : separator.occursIn channel.field = true) :
    separatorDiagnostic separator channel ∈ (ofSchemas separator schemas).diagnostics :=
  List.mem_map.mpr ⟨channel, List.mem_filter.mpr ⟨declared, inside⟩, rfl⟩

/-- The separator is in a name that goes below another one. -/
theorem Overlays.occursIn {names : List String} {other name : String}
    (overlays : Overlays separator names other name) : separator.occursIn other = true := by
  obtain ⟨-, rest, further, parts⟩ := overlays
  by_contra apart
  have single := (Separator.split_single_iff separator other).mpr (by simpa using apart)
  rw [single, List.cons.injEq] at parts
  exact further parts.2.symm

/-- The separator is in a name that goes into the overflow. -/
theorem FallsInto.occursIn {names : List String} {other name : String}
    (falls : FallsInto separator names other name) : separator.occursIn other = true := by
  obtain ⟨-, -, rest, parts⟩ := falls
  by_contra apart
  have single := (Separator.split_single_iff separator other).mpr (by simpa using apart)
  have two := congrArg List.length (single.symm.trans parts)
  have one := List.length_pos_iff.mpr (separator.split_ne_nil overflowField)
  simp only [List.length_append, List.length_cons, List.length_nil] at two
  omega

/-- What is placed behind a field whose name the separator is not in: the fields that are
listed behind it, at the names that theirs split into. -/
theorem placed_behind_field (side : Section) (name : String)
    (declared : name ∈ (schemas.of side).fieldNames) (apart : separator.occursIn name = false)
    (filled : name ≠ "") (value : Value)
    (found : Entries.get? (Flat.key separator side [name]) flat = some value) :
    ∃ earlier later, Flat.placed separator side ((ofSchemas separator schemas).declaredIn flat) =
        earlier ++ ([name], value) :: later ∧
      ∀ place, place ∈ later ↔ ∃ other ∈ (schemas.of side).fieldNames,
        other ≠ "" ∧ place.1 = separator.split other ∧
          (schemas.of side).fieldNames.idxOf name < (schemas.of side).fieldNames.idxOf other ∧
            Entries.get? (Flat.key separator side [other]) flat = some place.2 := by
  obtain ⟨earlier, later, parts, known⟩ := declaredIn_around side name declared value found
  have leads : Flat.place? separator (Flat.key separator side [name]) = some (side, [name]) := by
    rw [place?_key_single, if_neg filled, (separator.split_single_iff name).mpr apart]
  refine ⟨Flat.placed separator side earlier, Flat.placed separator side later, ?_, fun place => ?_⟩
  · have single : Flat.placed separator side
        [(Flat.key separator side [name], value)] = [([name], value)] := by
      simp [Flat.placed, leads]
    rw [parts, ← List.singleton_append, Flat.placed_append, Flat.placed_append, single]
    rfl
  · rw [mem_placed_fields_iff later (keyed_of_mem_declaredIn fun entry member =>
      parts ▸ List.mem_append_right _ (List.mem_cons_of_mem _ member)) side]
    constructor
    · rintro ⟨other, isDeclared, nonempty, path, inLater⟩
      exact ⟨other, isDeclared, nonempty, path, ((known other place.2).mp inLater).2⟩
    · rintro ⟨other, isDeclared, nonempty, path, behind⟩
      exact ⟨other, isDeclared, nonempty, path, (known other place.2).mpr ⟨isDeclared, behind⟩⟩

/-- The fields of a section are collected in two parts around a name that the separator is not
in: after the first the name holds what its channel holds, of which an empty name gets nothing;
the second assigns the fields that are listed behind it, or all, at the names that theirs split
into. -/
theorem collectedFields_around (side : Section) (name : String)
    (declared : name ∈ (schemas.of side).fieldNames) (apart : separator.occursIn name = false)
    (value : Value) (found : Entries.get? (Flat.key separator side [name]) flat = some value) :
    ∃ built later, collectedFields separator schemas flat side = Flat.assignAll built later ∧
      Entries.get? (Key.text name) built = (if name = "" then none else some value) ∧
      ∀ place, place ∈ later ↔ ∃ other ∈ (schemas.of side).fieldNames,
        other ≠ "" ∧ place.1 = separator.split other ∧ (name = "" ∨
          (schemas.of side).fieldNames.idxOf name < (schemas.of side).fieldNames.idxOf other) ∧
            Entries.get? (Flat.key separator side [other]) flat = some place.2 := by
  rw [collectedFields, Flat.get_toNested]
  by_cases bare : name = ""
  · refine ⟨[], _, rfl, by rw [if_pos bare, Entries.get?_nil], fun place => ?_⟩
    rw [mem_placed_declaredIn_iff]
    simp only [bare, true_or, true_and]
  · obtain ⟨earlier, later, parts, known⟩ :=
      placed_behind_field side name declared apart bare value found
    refine ⟨Flat.assign [name] value (Flat.assignAll [] earlier), later, ?_, ?_, fun place => ?_⟩
    · rw [parts]
      simp [Flat.assignAll]
    · rw [if_neg bare, Flat.assign, Entries.get?_insert_same _ (isExact_text name)]
    · simp only [known place, bare, false_or]

/-- What is collected under a name that the separator is not in: a mapping if some field goes
below the name after it, and otherwise what its channel holds, of which an empty name gets
nothing. -/
theorem get?_collectedFields_of_held (held : ∀ key ∈ (ofSchemas separator schemas).fieldKeys,
      ∃ value, Entries.get? key flat = some value)
    (side : Section) (name : String) (declared : name ∈ (schemas.of side).fieldNames)
    (apart : separator.occursIn name = false) :
    ((∃ other ∈ (schemas.of side).fieldNames,
        Overlays separator (schemas.of side).fieldNames other name) →
      Flat.Branches name (collectedFields separator schemas flat side)) ∧
    ((∀ other ∈ (schemas.of side).fieldNames,
        ¬ Overlays separator (schemas.of side).fieldNames other name) →
      Entries.get? (Key.text name) (collectedFields separator schemas flat side) =
        if name = "" then none
        else Entries.get? (Flat.key separator side [name]) flat) := by
  obtain ⟨value, found⟩ := held _ ((mem_fieldKeys_single_iff separator side name).mpr declared)
  obtain ⟨built, later, collected, read, known⟩ :=
    collectedFields_around side name declared apart value found
  have filled : ∀ place ∈ later, place.1 ≠ [] := by
    intro place member
    obtain ⟨other, -, -, path, -⟩ := (known place).mp member
    rw [path]
    exact separator.split_ne_nil other
  have elsewhere : ∀ place ∈ later, place.1 ≠ [name] := by
    intro place member here
    obtain ⟨other, -, nonempty, path, behind, -⟩ := (known place).mp member
    have same : other = name := by
      rw [← separator.join_split other, ← path, here, join_single]
    rcases behind with bare | less
    · exact nonempty (same.trans bare)
    · rw [same] at less
      exact Nat.lt_irrefl _ less
  rw [collected, found]
  constructor
  · rintro ⟨other, isDeclared, behind, rest, further, parts⟩
    have nonempty : other ≠ "" := by
      rintro rfl
      have single := (separator.split_single_iff "").mpr
        (by simp [Separator.occursIn, Separator.cut])
      rw [single, List.cons.injEq] at parts
      exact further parts.2.symm
    obtain ⟨there, otherFound⟩ :=
      held _ ((mem_fieldKeys_single_iff separator side other).mpr isDeclared)
    have member : (separator.split other, there) ∈ later :=
      (known _).mpr ⟨other, isDeclared, nonempty, rfl, behind, otherFound⟩
    apply Flat.branches_assignAll name later filled elsewhere
    exact ⟨_, member, by rw [parts, List.head?_cons]⟩
  · intro none
    rw [Flat.get?_assignAll_other name later filled, read]
    intro place member starts
    obtain ⟨other, isDeclared, -, path, behind, -⟩ := (known place).mp member
    obtain ⟨rest, parts⟩ := List.head?_eq_some_iff.mp starts
    refine none other isDeclared ⟨behind, rest, ?_, path ▸ parts⟩
    rintro rfl
    exact elsewhere place member parts

/-- The collected fields of a section are named. -/
theorem named_collectedFields_of_any (separator : Separator) (schemas : Schemas) (flat : Flat)
    (side : Section) : Named (collectedFields separator schemas flat side) := by
  rw [collectedFields, Flat.get_toNested]
  apply Flat.named_assignAll _ _ [] Entries.named_nil
  exact fun place member => (Flat.restorable_of_mem_placed side _ place member).1

/-- The entries that are left in the overflow are named. -/
theorem named_leftExtras (filled : Filled separator schemas extras flat) (side : Section) :
    Named (leftExtras separator schemas flat side) := by
  obtain ⟨below, left, known⟩ := exists_leftExtras_eq filled side
  rw [left]
  exact Flat.named_assignAll below (fun write member => (known write member).1) _
    (filled.named side)

/-- A declared name is not among the entries that are left in the overflow, unless another field
falls into the overflow there. -/
theorem get?_leftExtras (filled : Filled separator schemas extras flat) (side : Section)
    (name : String) (declared : name ∈ (schemas.of side).fieldNames)
    (none : ∀ other ∈ (schemas.of side).fieldNames,
      ¬ FallsInto separator (schemas.of side).fieldNames other name) :
    Entries.get? (Key.text name) (leftExtras separator schemas flat side) = .none := by
  obtain ⟨below, left, known⟩ := exists_leftExtras_eq filled side
  rw [left, Flat.get?_assignAll_other name below fun write member => (known write member).1]
  · rw [Entries.get?_eq_none_exact _ (isExact_text name)]
    exact filled.undeclared side name declared
  · intro write member first
    obtain ⟨-, isField, other, isDeclared, behind, path⟩ := known write member
    obtain ⟨rest, parts⟩ := List.head?_eq_some_iff.mp first
    exact none other isDeclared ⟨isField, behind, rest, by rw [path, parts]⟩

/-- In a held section a declared field is as it was collected, or null, unless another field
falls into the overflow there. -/
theorem get?_heldSection (filled : Filled separator schemas extras flat) (side : Section)
    (name : String) (declared : name ∈ (schemas.of side).fieldNames)
    (none : ∀ other ∈ (schemas.of side).fieldNames,
      ¬ FallsInto separator (schemas.of side).fieldNames other name) :
    Entries.get? (Key.text name) (heldSection separator schemas flat side) =
      some ((Entries.get? (Key.text name)
        (collectedFields separator schemas flat side)).getD .null) := by
  have named := named_collectedFields_of_any separator schemas flat side
  have left := named_leftExtras filled side
  rw [heldSection, Entries.get?_merge_distinct _ (isExact_text name) _ _ left.allExact
      left.distinct, get?_leftExtras filled side name declared none, Option.none_or,
    fieldsOf, Entries.get?_merge_distinct _ (isExact_text name) _ _ named.allExact named.distinct,
    get?_template side name declared]
  cases Entries.get? (Key.text name) (collectedFields separator schemas flat side) <;> rfl

/-- Of a record that is spread over the channels and collected again, a field whose name the
separator is not in, and at whose name no field falls into the overflow, is found as follows: as a
mapping if some field of its section goes below its name after it; and otherwise as the record has
it, or null if the name is empty.

Proof: the field's channel holds what the record has, and what is collected under the name
depends on the assignments behind its own. -/
theorem exists_decode_encode (separator : Separator) (schemas : Schemas)
    {record : List (Key × Value)} (sections : HasSections record given) :
    ∃ flat nested, (ofSchemas separator schemas).encode (.mapping record) = .ok flat ∧
      (ofSchemas separator schemas).decode flat = .ok nested ∧
      ∀ side, ∀ name ∈ (schemas.of side).fieldNames, separator.occursIn name = false →
        (∀ other ∈ (schemas.of side).fieldNames,
          ¬ FallsInto separator (schemas.of side).fieldNames other name) →
        ((∃ other ∈ (schemas.of side).fieldNames,
            Overlays separator (schemas.of side).fieldNames other name) →
          Flat.Branches name (nested.get side)) ∧
        ((∀ other ∈ (schemas.of side).fieldNames,
            ¬ Overlays separator (schemas.of side).fieldNames other name) →
          name ≠ overflowField → Entries.get? (Key.text name) (nested.get side) =
            some (if name = "" then .null
              else (Entries.get? (Key.text name) (given side)).getD .null)) := by
  have filled := filled_of_overflow sections.named
    (get?_encoded_overflow (ofSchemas separator schemas) record _)
  obtain ⟨nested, decoded, heldSections⟩ := decode_of_filled filled
  refine ⟨_, nested, encode_eq_ok separator schemas sections, decoded, ?_⟩
  intro side name declared apart stays
  have held : ∀ key ∈ (ofSchemas separator schemas).fieldKeys,
      ∃ value, Entries.get? key ((ofSchemas separator schemas).encoded record fun side =>
        (given side).filter ((ofSchemas separator schemas).isUndeclared side)) = some value := by
    intro key isKey
    apply (Entries.get?_isSome_exact key (isExact_of_lawful key) _).mpr
    exact (mem_keys_encoded_iff _ _ _ key).mpr (List.mem_append_left _ isKey)
  obtain ⟨overlaid, untouched⟩ := get?_collectedFields_of_held held side name declared apart
  have read := get?_heldSection filled side name declared stays
  rw [heldSections side]
  constructor
  · intro some'
    obtain ⟨inner, nonempty, found⟩ := overlaid some'
    exact ⟨inner, nonempty, by rw [read, found, Option.getD_some]⟩
  · intro none free
    rw [read, untouched none, get?_encoded_field sections side name declared apart free _]
    split_ifs <;> rfl

/-- A channel belongs to a declared name. -/
theorem field_mem_fieldNames (channel : Channel)
    (declared : channel ∈ (ofSchemas separator schemas).declared) :
    channel.field ∈ (schemas.of channel.side).fieldNames := by
  obtain ⟨field, inSchema, same⟩ := (mem_declared_iff channel).mp declared
  rw [same]
  exact List.mem_map_of_mem inSchema

/-- A record with two sections is spread over the channels and collected again, and a field of
which no diagnostic tells, and which has not the name of the overflow channels, is found as
follows. If another field of its section goes below its name after it, or goes into the overflow
there, then a diagnostic tells of that one. If none goes into the overflow there, a mapping stands
under the name in the first case; and where no field goes below the name either, what the record
has stands there, or null if the name is empty. -/
theorem decode_encode_undiagnosed (separator : Separator) (schemas : Schemas)
    (record : List (Key × Value)) (given : Section → List (Key × Value))
    (sections : HasSections record given) :
    ∃ flat nested, (ofSchemas separator schemas).encode (.mapping record) = .ok flat ∧
      (ofSchemas separator schemas).decode flat = .ok nested ∧
      ∀ channel ∈ (ofSchemas separator schemas).declared,
        separatorDiagnostic separator channel ∉ (ofSchemas separator schemas).diagnostics →
        let names := (schemas.of channel.side).fieldNames
        (∀ other ∈ (ofSchemas separator schemas).declared,
          Overlays separator names other.field channel.field ∨
              FallsInto separator names other.field channel.field →
            separatorDiagnostic separator other ∈ (ofSchemas separator schemas).diagnostics) ∧
        ((∀ name ∈ names, ¬ FallsInto separator names name channel.field) →
          ((∃ name ∈ names, Overlays separator names name channel.field) →
            Flat.Branches channel.field (nested.get channel.side)) ∧
          ((∀ name ∈ names, ¬ Overlays separator names name channel.field) →
            channel.field ≠ overflowField →
            Entries.get? (Key.text channel.field) (nested.get channel.side) =
              some (if channel.field = "" then .null
                else (Entries.get? (Key.text channel.field)
                  (given channel.side)).getD .null))) := by
  obtain ⟨flat, nested, encodes, decodes, found⟩ :=
    exists_decode_encode separator schemas sections
  refine ⟨flat, nested, encodes, decodes, fun channel declared silent => ?_⟩
  have apart : separator.occursIn channel.field = false := by
    by_contra inside
    exact silent (mem_diagnostics channel declared (by simpa using inside))
  refine ⟨?_, found channel.side channel.field (field_mem_fieldNames channel declared) apart⟩
  rintro other isOther (overlays | falls)
  · exact mem_diagnostics other isOther overlays.occursIn
  · exact mem_diagnostics other isOther falls.occursIn

/-- The record of two fields in its input. -/
def twoFields (first second : String) : Section → List (Key × Value)
  | .input => [(.text first, .int 1), (.text second, .int 2)]
  | .output => []

/-- A record of two fields has them in its sections. -/
theorem hasSections_twoFields (first second : String) (apart : first ≠ second) :
    HasSections [(.text "input", .mapping (twoFields first second .input)),
      (.text "output", .mapping [])] (twoFields first second) := by
  refine ⟨fun side => .inl (by cases side <;> rfl), fun side => ?_⟩
  cases side with
  | input => exact ⟨by simp [twoFields], by simp [twoFields, apart]⟩
  | output => exact Entries.named_nil

/-- Behind a field of which a diagnostic tells one comes back whose name it starts with. -/
theorem decode_encode_undiagnosed_behind :
    let schemas : Schemas := ⟨uniformSchema .any ["a_b", "a"], uniformSchema .any []⟩
    let record := [(Key.text "input", Value.mapping (twoFields "a_b" "a" .input)),
      (.text "output", .mapping [])]
    HasSections record (twoFields "a_b" "a") ∧ (ofSchemas .underscore schemas).diagnostics ≠ [] ∧
      ∃ flat nested, (ofSchemas .underscore schemas).encode (.mapping record) = .ok flat ∧
        (ofSchemas .underscore schemas).decode flat = .ok nested ∧
        Entries.get? (Key.text "a") nested.input = some (.int 2) := by
  intro schemas record
  have sections := hasSections_twoFields "a_b" "a" (by decide)
  obtain ⟨flat, nested, encodes, decodes, found⟩ :=
    decode_encode_undiagnosed .underscore schemas record _ sections
  refine ⟨sections, by decide, flat, nested, encodes, decodes, ?_⟩
  let channel : Channel := ⟨.input, "a", "input_a", false⟩
  have isChannel : channel ∈ (ofSchemas .underscore schemas).declared := .tail _ (.head _)
  have names : (schemas.of channel.side).fieldNames = ["a_b", "a"] :=
    fieldNames_uniformSchema .any _
  obtain ⟨-, stays⟩ := found channel isChannel (by decide)
  rw [names] at stays
  refine (stays fun name _ falls => ?_).2 (fun name isName overlays => ?_) (by decide)
  · exact absurd falls.1 (by decide)
  · have behind := overlays.1
    rcases List.mem_pair.mp isName with rfl | rfl <;> revert behind <;> decide

/-- The output of a record with a field of the overflow's name among others. -/
def aroundOverflow : Section → List (Key × Value)
  | .input => []
  | .output => [(.text "x", .int 1), (.text "__extra__", .int 2), (.text "__extra___x", .int 3)]

/-- A field whose name goes on from the overflow's is assigned in the overflow, and so over the
field that has the rest of its name. -/
theorem decode_encode_fallen :
    let schemas : Schemas :=
      ⟨uniformSchema .any [], uniformSchema .any ["x", "__extra__", "__extra___x"]⟩
    let record := [(Key.text "input", Value.mapping []),
      (.text "output", .mapping (aroundOverflow .output))]
    HasSections record aroundOverflow ∧
      ∃ flat nested, (ofSchemas .underscore schemas).encode (.mapping record) = .ok flat ∧
        (ofSchemas .underscore schemas).decode flat = .ok nested ∧
        Entries.get? (Key.text "x") nested.output = some (.int 3) := by
  intro schemas record
  have sections : HasSections record aroundOverflow := by
    refine ⟨fun side => .inl (by cases side <;> rfl), fun side => ?_⟩
    cases side with
    | input => exact Entries.named_nil
    | output => exact ⟨by simp [aroundOverflow], by simp [aroundOverflow]⟩
  let fields : Flat :=
    [("output_x", .int 1), ("output___extra__", .mapping []), ("output___extra___x", .int 3)]
  let flat : Flat := fields ++ [("input___extra__", .mapping [])]
  have encodes : (ofSchemas .underscore schemas).encode (.mapping record) = .ok flat := by rfl
  have filled : Filled .underscore schemas (fun _ => []) flat :=
    ⟨fun side => by cases side <;> rfl, fun _ => Entries.named_nil, by simp⟩
  obtain ⟨nested, decoded, held⟩ := decode_of_filled filled
  have reserved : Flat.place? .underscore "output___extra__" =
      some (.output, ["", "", "extra", "", ""]) := by decide +kernel
  have below : Flat.place? .underscore "output___extra___x" =
      some (.output, ["", "", "extra", "", "", "x"]) := by decide +kernel
  have nests : Flat.leftUnder? .underscore "output___extra__" fields =
      some (.mapping [(.text "x", .int 3)]) := by
    simp [fields, Flat.leftUnder?, Flat.leftBehind, reserved, Flat.placed, below, Flat.leftAt,
      Flat.assign, Entries.insert]
  have left : leftExtras .underscore schemas flat .output = [(.text "x", .int 3)] := by
    have declared : (ofSchemas .underscore schemas).declaredIn flat = fields := by rfl
    have key : (ofSchemas .underscore schemas).overflowKey .output = "output___extra__" := rfl
    have separators : (ofSchemas .underscore schemas).separator = .underscore := rfl
    rw [leftExtras, overflowLeft, declared, separators, key, nests]
    rfl
  refine ⟨sections, flat, nested, encodes, decoded, ?_⟩
  have read := congrArg (Entries.get? (Key.text "x")) (held .output)
  rwa [heldSection, left, Entries.merge, List.foldl_cons, List.foldl_nil,
    Entries.get?_insert_same _ (isExact_text "x")] at read

/-- Two fields of which nothing is said do not come back: one behind which another is assigned
below its name, and one at whose name another falls into the overflow. -/
theorem decode_encode_overlaid :
    (let schemas : Schemas := ⟨uniformSchema .any ["a", "a_b"], uniformSchema .any []⟩
    let record := [(Key.text "input", Value.mapping (twoFields "a" "a_b" .input)),
      (.text "output", .mapping [])]
    let channel : Channel := ⟨.input, "a", "input_a", false⟩
    HasSections record (twoFields "a" "a_b") ∧
      channel ∈ (ofSchemas .underscore schemas).declared ∧
      separatorDiagnostic .underscore channel ∉ (ofSchemas .underscore schemas).diagnostics ∧
      ∃ flat nested, (ofSchemas .underscore schemas).encode (.mapping record) = .ok flat ∧
        (ofSchemas .underscore schemas).decode flat = .ok nested ∧
        Entries.get? (Key.text "a") nested.input ≠
          Entries.get? (Key.text "a") (twoFields "a" "a_b" .input)) ∧
    (let schemas : Schemas :=
      ⟨uniformSchema .any [], uniformSchema .any ["x", "__extra__", "__extra___x"]⟩
    let record := [(Key.text "input", Value.mapping []),
      (.text "output", .mapping (aroundOverflow .output))]
    let channel : Channel := ⟨.output, "x", "output_x", false⟩
    HasSections record aroundOverflow ∧
      channel ∈ (ofSchemas .underscore schemas).declared ∧
      separatorDiagnostic .underscore channel ∉ (ofSchemas .underscore schemas).diagnostics ∧
      (∀ name ∈ schemas.output.fieldNames,
        ¬ Overlays .underscore schemas.output.fieldNames name "x") ∧
      ∃ flat nested, (ofSchemas .underscore schemas).encode (.mapping record) = .ok flat ∧
        (ofSchemas .underscore schemas).decode flat = .ok nested ∧
        Entries.get? (Key.text "x") nested.output ≠
          Entries.get? (Key.text "x") (aroundOverflow .output)) := by
  constructor
  · intro schemas record channel
    have sections := hasSections_twoFields "a" "a_b" (by decide)
    have overlays : Overlays .underscore (schemas.of .input).fieldNames "a_b" "a" :=
      ⟨by decide, ["b"], by simp, by decide +kernel⟩
    have stays : ∀ name ∈ (schemas.of .input).fieldNames,
        ¬ FallsInto .underscore (schemas.of .input).fieldNames name "a" :=
      fun name _ falls => absurd falls.1 (by decide)
    obtain ⟨flat, nested, encodes, decodes, found⟩ :=
      exists_decode_encode .underscore schemas sections
    refine ⟨sections, .head _, by decide, flat, nested, encodes, decodes, ?_⟩
    obtain ⟨inner, -, mapping⟩ :=
      (found .input "a" (by decide) (by decide) stays).1 ⟨"a_b", by decide, overlays⟩
    have read : Entries.get? (Key.text "a") nested.input = some (.mapping inner) := mapping
    rw [read]
    simp [twoFields, Entries.get?]
  · intro schemas record channel
    obtain ⟨sections, flat, nested, encodes, decodes, read⟩ := decode_encode_fallen
    refine ⟨sections, .head _, by decide, ?_, flat, nested, encodes, decodes, ?_⟩
    · have names : schemas.output.fieldNames = ["x", "__extra__", "__extra___x"] :=
        fieldNames_uniformSchema .any _
      rw [names]
      rintro name isName ⟨-, rest, further, parts⟩
      have first : (Separator.underscore.split name).head? = some "x" := by rw [parts]; rfl
      have many : (Separator.underscore.split name).length ≠ 1 := by
        rw [parts]
        simpa using further
      simp only [List.mem_cons, List.not_mem_nil, or_false] at isName
      rcases isName with rfl | rfl | rfl <;> revert first many <;> decide +kernel
    · rw [read]
      simp [aroundOverflow, Entries.get?]

end Channels

end Stepwise
