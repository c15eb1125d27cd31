import Stepwise.Proofs.FieldOrder

/-!
# Collecting a record from channels

What is read in the record that the channels hold: every declared field as its channel
has it, null where it has nothing, and behind them the entries of the overflow. Each
channel of a clear name leads back to its field alone, so the order of the channels does
not matter.
-/

namespace Stepwise.Channels

open Entries (Named isExact_text isExact_of_lawful)

/-- Channels whose overflow holds named entries, none of them declared. -/
structure Filled (separator : Separator) (schemas : Schemas)
    (extras : Section → List (Key × Value)) (flat : Flat) : Prop where
  overflow : ∀ side, Entries.get? ((ofSchemas separator schemas).overflowKey side) flat =
    some (.mapping (extras side))
  named : ∀ side, Named (extras side)
  undeclared : ∀ side, ∀ name ∈ (schemas.of side).fieldNames,
    Key.text name ∉ Entries.keys (extras side)

/-- Sections that hold the declared fields as the channels have them, and further entries,
none of them declared. -/
structure Collected (separator : Separator) (schemas : Schemas) (flat : Flat)
    (extras : Section → List (Key × Value)) (nested : Flat.Nested) : Prop where
  named : ∀ side, Named (nested.get side)
  field : ∀ side, ∀ name ∈ (schemas.of side).fieldNames,
    Entries.get? (Key.text name) (nested.get side) =
      some ((Entries.get? (Flat.key separator side [name]) flat).getD .null)
  rest : ∀ side, (nested.get side).filter ((ofSchemas separator schemas).isUndeclared side) =
    extras side

variable {separator : Separator} {schemas : Schemas} {flat : Flat}
  {extras : Section → List (Key × Value)}

/-- A named entry is undeclared when its name is not declared. -/
theorem isUndeclared_text_iff (separator : Separator) (schemas : Schemas) (side : Section)
    (name : String) (value : Value) :
    (ofSchemas separator schemas).isUndeclared side (.text name, value) = true ↔
      name ∉ (schemas.of side).fieldNames := by
  rw [← declares_iff separator schemas side name]
  simp [isUndeclared]

/-- Undeclared names are read in the undeclared entries as in all of them. -/
theorem get?_filter_isUndeclared (separator : Separator) (schemas : Schemas) (side : Section)
    (name : String) (undeclared : name ∉ (schemas.of side).fieldNames)
    (entries : List (Key × Value)) (named : Named entries) :
    Entries.get? (Key.text name)
        (entries.filter ((ofSchemas separator schemas).isUndeclared side)) =
      Entries.get? (Key.text name) entries := by
  induction entries with
  | nil => rfl
  | cons entry rest ih =>
    obtain ⟨key, value⟩ := entry
    obtain ⟨other, rfl⟩ := named.texts key List.mem_cons_self
    by_cases same : other = name
    · subst same
      have kept := (isUndeclared_text_iff separator schemas side other value).mpr undeclared
      rw [List.filter_cons_of_pos kept, Entries.get?_cons_same _ (isExact_text other),
        Entries.get?_cons_same _ (isExact_text other)]
    · have apart : Key.text other ≠ Key.text name := fun equal => same (Key.text.inj equal)
      rw [Entries.get?_cons_other _ (isExact_text name) _ apart, ← ih named.tail]
      by_cases kept : (ofSchemas separator schemas).isUndeclared side (.text other, value) = true
      · rw [List.filter_cons_of_pos kept, Entries.get?_cons_other _ (isExact_text name) _ apart]
      · rw [List.filter_cons_of_neg kept]

/-- The undeclared ones of named entries are named. -/
theorem named_filter_isUndeclared (separator : Separator) (schemas : Schemas) (side : Section)
    (entries : List (Key × Value)) (named : Named entries) :
    Named (entries.filter ((ofSchemas separator schemas).isUndeclared side)) := by
  have kept : (Entries.keys (entries.filter
      ((ofSchemas separator schemas).isUndeclared side))).Sublist (Entries.keys entries) :=
    List.filter_sublist.map Prod.fst
  exact ⟨fun key member => named.texts key (kept.subset member), named.distinct.sublist kept⟩

/-- No declared name is among undeclared entries. -/
theorem get?_filter_isUndeclared_of_declared (separator : Separator) (schemas : Schemas)
    (side : Section) (name : String) (declared : name ∈ (schemas.of side).fieldNames)
    (entries : List (Key × Value)) :
    Entries.get? (Key.text name)
      (entries.filter ((ofSchemas separator schemas).isUndeclared side)) = none := by
  rw [Entries.get?_eq_none_exact _ (isExact_text name)]
  intro present
  obtain ⟨⟨key, value⟩, member, same⟩ := List.mem_map.mp present
  obtain rfl : key = .text name := same
  exact (isUndeclared_text_iff separator schemas side name value).mp
    (List.mem_filter.mp member).2 declared

/-- With clear names the fields are placed at their names. -/
theorem mem_placed_of_clear (clear : ClearNames separator schemas) (side : Section)
    (place : List String × Value) :
    place ∈ Flat.placed separator side ((ofSchemas separator schemas).declaredIn flat) ↔
      ∃ name ∈ (schemas.of side).fieldNames, place.1 = [name] ∧
        Entries.get? (Flat.key separator side [name]) flat = some place.2 := by
  have single : ∀ name ∈ (schemas.of side).fieldNames, separator.split name = [name] :=
    fun name declared => (separator.split_single_iff name).mpr (clear.apart side name declared)
  rw [mem_placed_declaredIn_iff]
  constructor
  · rintro ⟨name, declared, -, path, read⟩
    exact ⟨name, declared, path.trans (single name declared), read⟩
  · rintro ⟨name, declared, path, read⟩
    exact ⟨name, declared, clear.filled side name declared,
      path.trans (single name declared).symm, read⟩

/-- The declared fields of a section that the channels have, as entries. -/
def collectedFields (separator : Separator) (schemas : Schemas) (flat : Flat) (side : Section) :
    List (Key × Value) :=
  (Flat.toNested separator ((ofSchemas separator schemas).declaredIn flat)).get side

/-- The collected fields of a section are writes under declared names. -/
theorem collectedFields_eq_merge (clear : ClearNames separator schemas) (side : Section) :
    ∃ writes : List (Key × Value), collectedFields separator schemas flat side =
        Entries.merge [] writes ∧
      ∀ entry, entry ∈ writes ↔ ∃ name ∈ (schemas.of side).fieldNames,
        entry.1 = .text name ∧
          Entries.get? (Flat.key separator side [name]) flat = some entry.2 := by
  let places := Flat.placed separator side ((ofSchemas separator schemas).declaredIn flat)
  have known : ∀ place, place ∈ places ↔ ∃ name ∈ (schemas.of side).fieldNames,
      place.1 = [name] ∧ Entries.get? (Flat.key separator side [name]) flat = some place.2 :=
    mem_placed_of_clear clear side
  refine ⟨places.map Flat.plainWrite, ?_, ?_⟩
  · rw [collectedFields, Flat.get_toNested]
    apply Flat.assignAll_of_single
    intro place member
    obtain ⟨name, -, path, -⟩ := (known place).mp member
    exact ⟨name, path⟩
  · intro entry
    rw [List.mem_map]
    constructor
    · rintro ⟨⟨path, value⟩, member, rfl⟩
      obtain ⟨name, declared, rfl, read⟩ := (known _).mp member
      exact ⟨name, declared, rfl, read⟩
    · obtain ⟨key, value⟩ := entry
      rintro ⟨name, declared, rfl, read⟩
      exact ⟨([name], value), (known _).mpr ⟨name, declared, rfl, read⟩, rfl⟩

/-- The collected fields of a section are named, and every name is declared. -/
theorem named_collectedFields (clear : ClearNames separator schemas) (side : Section) :
    Named (collectedFields separator schemas flat side) ∧
      ∀ key ∈ Entries.keys (collectedFields separator schemas flat side),
        ∃ name ∈ (schemas.of side).fieldNames, key = .text name := by
  obtain ⟨writes, same, known⟩ := collectedFields_eq_merge clear side
  have texts : ∀ key ∈ Entries.keys writes, ∃ name ∈ (schemas.of side).fieldNames,
      key = .text name := by
    intro key member
    obtain ⟨entry, inWrites, rfl⟩ := List.mem_map.mp member
    obtain ⟨name, declared, text, -⟩ := (known entry).mp inWrites
    exact ⟨name, declared, text⟩
  rw [same]
  refine ⟨Entries.named_nil.merge fun key member => ?_, fun key member => ?_⟩
  · obtain ⟨name, -, text⟩ := texts key member
    exact ⟨name, text⟩
  · have inWrites := (Entries.mem_keys_merge key [] writes fun other present => by
      obtain ⟨name, -, rfl⟩ := texts other present
      exact isExact_text name).mp member
    exact texts key (by simpa using inWrites)

/-- A declared field is collected as its channel has it, if the channel has anything. -/
theorem get?_collectedFields (clear : ClearNames separator schemas) (side : Section)
    (name : String) (declared : name ∈ (schemas.of side).fieldNames) :
    Entries.get? (Key.text name) (collectedFields separator schemas flat side) =
      Entries.get? (Flat.key separator side [name]) flat := by
  obtain ⟨writes, same, known⟩ := collectedFields_eq_merge clear side
  have exact : Entries.AllExact writes := by
    intro key member
    obtain ⟨entry, inWrites, rfl⟩ := List.mem_map.mp member
    obtain ⟨other, -, text, -⟩ := (known entry).mp inWrites
    exact text ▸ isExact_text other
  have own : ∀ value, (Key.text name, value) ∈ writes →
      Entries.get? (Flat.key separator side [name]) flat = some value := by
    intro value member
    obtain ⟨other, -, text, read⟩ := (known _).mp member
    exact Key.text.inj text ▸ read
  rw [same]
  cases there : Entries.get? (Flat.key separator side [name]) flat with
  | none =>
    rw [Entries.get?_merge_of_not_mem _ (isExact_text name) [] writes exact, Entries.get?_nil]
    intro present
    obtain ⟨⟨key, value⟩, member, rfl⟩ := List.mem_map.mp present
    rw [own value member] at there
    cases there
  | some value =>
    apply Entries.get?_merge_of_mem _ (isExact_text name) value [] writes exact
    · exact (known _).mpr ⟨name, declared, rfl, there⟩
    · intro other member
      have read := own other member
      rw [there] at read
      exact (Option.some.inj read).symm

/-- The declared fields of a section, over the template. -/
def fieldsOf (separator : Separator) (schemas : Schemas) (flat : Flat) (side : Section) :
    List (Key × Value) :=
  Entries.merge (schemas.of side).template (collectedFields separator schemas flat side)

/-- The fields of a section are its declared names, each once. -/
theorem named_fieldsOf (clear : ClearNames separator schemas) (side : Section) :
    Named (fieldsOf separator schemas flat side) ∧
      ∀ key ∈ Entries.keys (fieldsOf separator schemas flat side),
        ∃ name ∈ (schemas.of side).fieldNames, key = .text name := by
  obtain ⟨named, declared⟩ := named_collectedFields clear side
  refine ⟨(named_template side).merge named.texts, ?_⟩
  intro key member
  rw [fieldsOf, Entries.mem_keys_merge _ _ _ named.allExact, mem_keys_template_iff] at member
  rcases member with collected | inTemplate
  · exact declared key collected
  · exact inTemplate

/-- A declared field is as its channel has it, or null. -/
theorem get?_fieldsOf (clear : ClearNames separator schemas) (side : Section) (name : String)
    (declared : name ∈ (schemas.of side).fieldNames) :
    Entries.get? (Key.text name) (fieldsOf separator schemas flat side) =
      some ((Entries.get? (Flat.key separator side [name]) flat).getD .null) := by
  obtain ⟨named, -⟩ := named_collectedFields clear side
  rw [fieldsOf, Entries.get?_merge_distinct _ (isExact_text name) _ _ named.allExact
    named.distinct, get?_collectedFields clear side name declared, get?_template side name declared]
  cases Entries.get? (Flat.key separator side [name]) flat <;> rfl

/-- No declared field is among the entries of the overflow. -/
theorem fieldsOf_disjoint (clear : ClearNames separator schemas)
    (filled : Filled separator schemas extras flat) (side : Section) (key : Key)
    (inExtras : key ∈ Entries.keys (extras side)) :
    key ∉ Entries.keys (fieldsOf separator schemas flat side) := by
  intro inFields
  obtain ⟨name, declared, rfl⟩ := (named_fieldsOf clear side).2 key inFields
  exact filled.undeclared side name declared inExtras

/-! ## What nesting the fields leaves in the overflow -/

/-- The entries that the overflow of a section holds once the fields were nested. -/
def leftExtras (separator : Separator) (schemas : Schemas) (flat : Flat) (side : Section) :
    List (Key × Value) :=
  (((ofSchemas separator schemas).overflowLeft flat side).entries?).getD []

/-- The key of the overflow channel leads to the names that the overflow's name splits into. -/
theorem place?_overflowKey (separator : Separator) (schemas : Schemas) (side : Section) :
    Flat.place? separator ((ofSchemas separator schemas).overflowKey side) =
      some (side, separator.split overflowField) :=
  (place?_key_single side overflowField).trans (if_neg (by decide))

/-- If no field is declared under the overflow's name, its channel is not nested. -/
theorem overflowLeft_of_undeclared (filled : Filled separator schemas extras flat)
    (side : Section) (undeclared : overflowField ∉ (schemas.of side).fieldNames) :
    (ofSchemas separator schemas).overflowLeft flat side = .mapping (extras side) := by
  have unread : Flat.leftUnder? separator ((ofSchemas separator schemas).overflowKey side)
      ((ofSchemas separator schemas).declaredIn flat) = none := by
    rw [Flat.leftUnder?_eq_none_iff]
    intro present
    obtain ⟨entry, member, same⟩ := List.mem_map.mp present
    obtain ⟨origin, name, declared, key, -⟩ := (mem_declaredIn_iff entry).mp member
    obtain ⟨rfl, rfl⟩ := key_single_injective side origin overflowField name (same.symm.trans key)
    exact undeclared declared
  have separators : (ofSchemas separator schemas).separator = separator := rfl
  rw [overflowLeft, separators, unread, Option.none_or, filled.overflow, Option.getD_some]

/-- If a field is declared under the overflow's name, the overflow takes what is assigned below
that name by the fields behind it. -/
theorem overflowLeft_of_declared (filled : Filled separator schemas extras flat)
    (side : Section) (declared : overflowField ∈ (schemas.of side).fieldNames) :
    ∃ below, (ofSchemas separator schemas).overflowLeft flat side =
        .mapping (Flat.assignAll (extras side) below) ∧
      ∀ write ∈ below, write.1 ≠ [] ∧ ∃ name ∈ (schemas.of side).fieldNames,
        (schemas.of side).fieldNames.idxOf overflowField <
            (schemas.of side).fieldNames.idxOf name ∧
          separator.split name = separator.split overflowField ++ write.1 := by
  have key : Flat.key separator side [overflowField] =
      (ofSchemas separator schemas).overflowKey side := rfl
  have found : Entries.get? (Flat.key separator side [overflowField]) flat =
      some (.mapping (extras side)) := filled.overflow side
  obtain ⟨earlier, later, parts, known⟩ := declaredIn_around side overflowField declared _ found
  have fresh : (ofSchemas separator schemas).overflowKey side ∉ Entries.keys earlier := by
    have distinct := nodup_keys_declaredIn (ofSchemas separator schemas) flat
    rw [parts, Entries.keys, List.map_append, List.map_cons, List.nodup_append] at distinct
    exact fun member => distinct.2.2 _ member _ List.mem_cons_self rfl
  obtain ⟨below, left, writes⟩ := Flat.exists_leftAt_eq (separator.split overflowField)
    (Flat.placed separator side later) (extras side)
  refine ⟨below, ?_, fun write member => ⟨(writes write member).1, ?_⟩⟩
  · have separators : (ofSchemas separator schemas).separator = separator := rfl
    rw [overflowLeft, separators, parts, key, Flat.leftUnder?_around _ _ _ _ _ fresh,
      Option.some_or, Option.getD_some,
      Flat.leftBehind_mapping _ _ _ _ (place?_overflowKey separator schemas side), left]
  · have fields := keyed_of_mem_declaredIn fun entry (member : entry ∈ later) =>
      parts ▸ List.mem_append_right earlier (List.mem_cons_of_mem _ member)
    obtain ⟨name, isName, -, path, inLater⟩ :=
      (mem_placed_fields_iff later fields side _).mp (writes write member).2
    exact ⟨name, isName, ((known name write.2).mp inLater).2.1, path.symm⟩

/-- The overflow of filled channels holds entries once the fields were nested. -/
theorem overflowLeft_of_filled (filled : Filled separator schemas extras flat) (side : Section) :
    (ofSchemas separator schemas).overflowLeft flat side =
      .mapping (leftExtras separator schemas flat side) := by
  by_cases declared : overflowField ∈ (schemas.of side).fieldNames
  · obtain ⟨below, left, -⟩ := overflowLeft_of_declared filled side declared
    rw [leftExtras, left]
    rfl
  · rw [leftExtras, overflowLeft_of_undeclared filled side declared]
    rfl

/-- What nesting the fields leaves in the overflow is assigned there by fields that are listed
behind one of the overflow's name, and whose names go on from that name. -/
theorem exists_leftExtras_eq (filled : Filled separator schemas extras flat) (side : Section) :
    ∃ below, leftExtras separator schemas flat side = Flat.assignAll (extras side) below ∧
      ∀ write ∈ below, write.1 ≠ [] ∧ overflowField ∈ (schemas.of side).fieldNames ∧
        ∃ name ∈ (schemas.of side).fieldNames,
          (schemas.of side).fieldNames.idxOf overflowField <
              (schemas.of side).fieldNames.idxOf name ∧
            separator.split name = separator.split overflowField ++ write.1 := by
  by_cases declared : overflowField ∈ (schemas.of side).fieldNames
  · obtain ⟨below, left, known⟩ := overflowLeft_of_declared filled side declared
    refine ⟨below, ?_, fun write member =>
      ⟨(known write member).1, declared, (known write member).2⟩⟩
    rw [leftExtras, left]
    rfl
  · refine ⟨[], ?_, by simp⟩
    rw [leftExtras, overflowLeft_of_undeclared filled side declared]
    rfl

/-- Where no field has the overflow's name, nothing is assigned in the overflow. -/
theorem leftExtras_of_free (filled : Filled separator schemas extras flat) (side : Section)
    (undeclared : overflowField ∉ (schemas.of side).fieldNames) :
    leftExtras separator schemas flat side = extras side := by
  rw [leftExtras, overflowLeft_of_undeclared filled side undeclared]
  rfl

/-! ## Collecting -/

/-- The entries of one section of the record that filled channels hold. -/
def heldSection (separator : Separator) (schemas : Schemas) (flat : Flat) (side : Section) :
    List (Key × Value) :=
  Entries.merge (fieldsOf separator schemas flat side) (leftExtras separator schemas flat side)

/-- A section is collected from its fields, with the entries of a mapping written over them. -/
theorem collectSection_mapping (side : Section) (entries : List (Key × Value)) :
    (ofSchemas separator schemas).collectSection
        (Flat.toNested separator ((ofSchemas separator schemas).declaredIn flat))
        (.mapping entries) side =
      .ok (Entries.merge (fieldsOf separator schemas flat side) entries) := by
  have added : addedEntries (.mapping entries) = .ok entries := by
    cases entries <;> simp [addedEntries, Value.truthy]
  have template : (ofSchemas separator schemas).template.get side =
      (schemas.of side).template := by
    cases side <;> rfl
  rw [collectSection, added, template]
  rfl

/-- Filled channels hold a record: in each section its fields, and the overflow written over
them. -/
theorem decode_of_filled (filled : Filled separator schemas extras flat) :
    ∃ nested, (ofSchemas separator schemas).decode flat = .ok nested ∧
      ∀ side, nested.get side = heldSection separator schemas flat side := by
  have separators : (ofSchemas separator schemas).separator = separator := rfl
  refine ⟨⟨heldSection separator schemas flat .input, heldSection separator schemas flat .output⟩,
    ?_, fun side => ?_⟩
  · simp only [decode, collect, separators, overflowLeft_of_filled filled, collectSection_mapping]
    rfl
  · cases side <;> rfl

/-- With clear names the overflow stands behind the fields. -/
theorem heldSection_of_clear (clear : ClearNames separator schemas)
    (filled : Filled separator schemas extras flat) (side : Section) :
    heldSection separator schemas flat side =
      fieldsOf separator schemas flat side ++ extras side := by
  rw [heldSection, leftExtras_of_free filled side fun declared => clear.free side _ declared rfl]
  exact Entries.merge_of_disjoint _ _ (filled.named side).allExact (filled.named side).distinct
    (fieldsOf_disjoint clear filled side)

/-- Filled channels hold a record, and it is collected from them. -/
theorem collected_of_decode (clear : ClearNames separator schemas)
    (filled : Filled separator schemas extras flat) :
    ∃ nested, (ofSchemas separator schemas).decode flat = .ok nested ∧
      Collected separator schemas flat extras nested := by
  obtain ⟨nested, decoded, held⟩ := decode_of_filled filled
  refine ⟨nested, decoded, ?_⟩
  have parts : ∀ side, nested.get side = fieldsOf separator schemas flat side ++ extras side :=
    fun side => (held side).trans (heldSection_of_clear clear filled side)
  refine ⟨fun side => ?_, fun side name declared => ?_, fun side => ?_⟩
  · rw [parts side]
    obtain ⟨named, -⟩ := named_fieldsOf clear side
    exact named.append (filled.named side) (fieldsOf_disjoint clear filled side)
  · rw [parts side, Entries.get?_append, get?_fieldsOf clear side name declared, Option.some_or]
  · have noFields : (fieldsOf separator schemas flat side).filter
        ((ofSchemas separator schemas).isUndeclared side) = [] := by
      rw [List.filter_eq_nil_iff]
      rintro ⟨key, value⟩ member
      obtain ⟨name, declared, rfl⟩ :=
        (named_fieldsOf clear side).2 key (List.mem_map_of_mem member)
      rw [isUndeclared_text_iff]
      exact not_not.mpr declared
    have allExtras : (extras side).filter ((ofSchemas separator schemas).isUndeclared side) =
        extras side := by
      rw [List.filter_eq_self]
      rintro ⟨key, value⟩ member
      have present : key ∈ Entries.keys (extras side) := List.mem_map_of_mem member
      obtain ⟨name, rfl⟩ := (filled.named side).texts key present
      rw [isUndeclared_text_iff]
      intro declared
      exact filled.undeclared side name declared present
    rw [parts side, List.filter_append, noFields, allExtras, List.nil_append]

end Stepwise.Channels
