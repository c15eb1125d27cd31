import Stepwise.Proofs.Layout

/-!
# Spreading a record over channels

What the channels take from a record with clear names: every declared field's value, or
null, and of each section the entries that are not declared. The record is made flat for
that, and the entries of undeclared mappings are made flat with it; but none of them has
the key of a declared field, and a declared field's mapping stays whole under its key.
-/

namespace Stepwise

namespace Channels

open Entries (Named isExact_text isExact_of_lawful)

/-- What the two sections of a record hold: named entries, or nothing where a section is
missing or null. -/
structure HasSections (record : List (Key × Value))
    (given : Section → List (Key × Value)) : Prop where
  reads : ∀ side, Flat.sectionOf record side = .mapping (given side) ∨
    Flat.sectionOf record side = .null ∧ given side = []
  named : ∀ side, Named (given side)

/-- Channels that hold the declared fields of both sections, null where there is none, and
all other entries in the overflow. -/
structure Spread (separator : Separator) (schemas : Schemas)
    (given : Section → List (Key × Value)) (flat : Flat) : Prop where
  distinct : (Entries.keys flat).Nodup
  keys : ∀ key, key ∈ Entries.keys flat ↔ key ∈ (ofSchemas separator schemas).keys
  field : ∀ side, ∀ name ∈ (schemas.of side).fieldNames,
    Entries.get? (Flat.key separator side [name]) flat =
      some ((Entries.get? (Key.text name) (given side)).getD .null)
  overflow : ∀ side, Entries.get? ((ofSchemas separator schemas).overflowKey side) flat =
    some (.mapping ((given side).filter ((ofSchemas separator schemas).isUndeclared side)))

variable {separator : Separator} {schemas : Schemas} {record : List (Key × Value)}
  {given : Section → List (Key × Value)}

/-- The leaves of a section are written under the keys of their places. -/
theorem mem_ofSection_iff (sections : HasSections record given) (whole : List String)
    (side : Section) (entry : String × Value) :
    entry ∈ Flat.ofSection separator whole side (Flat.sectionOf record side) ↔
      ∃ leaf ∈ Flat.leavesOf separator whole side (given side),
        entry = (Flat.key separator side leaf.1, leaf.2) := by
  rcases sections.reads side with present | ⟨missing, nothing⟩
  · rw [present, Flat.ofSection_mapping, List.mem_map]
    simp only [eq_comm]
  · rw [missing, nothing]
    simp [Flat.ofSection, Flat.leavesOf, Flat.leavesOfEntries]

/-- A section's declared field is written with its value and with no other, if the separator
is not in its name. -/
theorem mem_flatMap_ofSection_iff (sections : HasSections record given) (side : Section)
    (name : String) (declared : name ∈ (schemas.of side).fieldNames)
    (apart : separator.occursIn name = false) (value : Value) :
    (Flat.key separator side [name], value) ∈ Section.all.flatMap (fun other =>
        Flat.ofSection separator (ofSchemas separator schemas).fieldKeys other
          (Flat.sectionOf record other)) ↔
      Entries.get? (Key.text name) (given side) = some value := by
  have stays : Flat.staysWhole separator (ofSchemas separator schemas).fieldKeys side [name] =
      true := by
    rw [Flat.staysWhole, List.contains_iff_mem, mem_fieldKeys_iff]
    exact ⟨side, name, declared, rfl⟩
  rw [List.mem_flatMap, ← Flat.mem_leavesOfEntries_single _ _ (sections.named side) name stays]
  constructor
  · rintro ⟨other, -, member⟩
    obtain ⟨leaf, inLeaves, same⟩ := (mem_ofSection_iff sections _ other _).mp member
    obtain ⟨sameKey, sameValue⟩ := Prod.mk.inj same
    obtain ⟨_, _, inner, -, -, under⟩ :=
      Flat.exists_entry_of_mem_leavesOfEntries _ _ (sections.named other) leaf inLeaves
    have filled : leaf.1 ≠ [] := by
      rw [under]
      simp [Flat.underName]
    obtain rfl := side_eq_of_key_eq side other _ _ (by simp) filled sameKey
    have path := path_eq_of_key_eq side leaf.1 filled name apart sameKey.symm
    rw [← path, sameValue]
    exact inLeaves
  · intro inLeaves
    refine ⟨side, side.mem_all, ?_⟩
    exact (mem_ofSection_iff sections _ side _).mpr ⟨_, inLeaves, rfl⟩

/-- A declared field is found in the flat record as it stands in its section, if the separator
is not in its name. -/
theorem get?_ofRecord (sections : HasSections record given) (side : Section) (name : String)
    (declared : name ∈ (schemas.of side).fieldNames)
    (apart : separator.occursIn name = false) :
    Entries.get? (Flat.key separator side [name])
        (Flat.ofRecord separator (ofSchemas separator schemas).fieldKeys record) =
      Entries.get? (Key.text name) (given side) := by
  have written := mem_flatMap_ofSection_iff sections side name declared apart
  rw [Flat.ofRecord, Entries.ofWrites]
  cases found : Entries.get? (Key.text name) (given side) with
  | none =>
    rw [Entries.get?_merge_of_not_mem _ (isExact_of_lawful _) _ _
      (fun key _ => isExact_of_lawful key), Entries.get?_nil]
    intro present
    obtain ⟨entry, member, same⟩ := List.mem_map.mp present
    have read := (written entry.2).mp (same ▸ member)
    rw [found] at read
    cases read
  | some value =>
    apply Entries.get?_merge_of_mem _ (isExact_of_lawful _) value _ _
      (fun key _ => isExact_of_lawful key)
    · exact (written value).mpr found
    · intro other member
      have read := (written other).mp member
      rw [found] at read
      exact (Option.some.inj read).symm

/-- The entries that a section leaves to the overflow are those not declared. -/
theorem undeclaredEntries_of_sections (separator : Separator) (schemas : Schemas)
    (sections : HasSections record given) (side : Section) :
    (ofSchemas separator schemas).undeclaredEntries side (Flat.sectionOf record side) =
      .ok ((given side).filter ((ofSchemas separator schemas).isUndeclared side)) := by
  rcases sections.reads side with present | ⟨missing, nothing⟩
  · rw [present, undeclaredEntries]
    cases given side <;> simp [Value.truthy]
  · rw [missing, nothing]
    rfl

/-- What the fields' channels take from a record. -/
def fieldWrites (channels : Channels) (record : List (Key × Value)) : Flat :=
  channels.fieldKeys.map fun key =>
    (key, (Entries.get? key (Flat.ofRecord channels.separator channels.fieldKeys record)).getD
      .null)

/-- What the overflow channels take, given the entries that each section leaves to its own. -/
def overflowWrites (channels : Channels) (extras : Section → List (Key × Value)) : Flat :=
  Section.all.map fun side => (channels.overflowKey side, .mapping (extras side))

/-- The channels of a record: its fields, and the overflow written behind them. -/
def encoded (channels : Channels) (record : List (Key × Value))
    (extras : Section → List (Key × Value)) : Flat :=
  Entries.merge (Entries.ofWrites (channels.fieldWrites record)) (channels.overflowWrites extras)

/-- A record is encoded exactly if both sections have entries for their overflow channels. -/
theorem encode_eq_ok_iff (channels : Channels) (record : List (Key × Value)) (flat : Flat) :
    channels.encode (.mapping record) = .ok flat ↔ ∃ extras,
      (∀ side, channels.undeclaredEntries side (Flat.sectionOf record side) = .ok (extras side)) ∧
        flat = channels.encoded record extras := by
  have parts : ∀ extras, channels.encoded record extras =
      Entries.ofWrites (channels.fieldWrites record ++ channels.overflowWrites extras) := by
    simp [encoded, Entries.ofWrites, Entries.merge]
  simp only [parts, encode, encodeRecord, Section.all, List.mapM_cons, List.mapM_nil]
  constructor
  · intro encodes
    cases input : channels.undeclaredEntries .input (Flat.sectionOf record .input) with
    | error why =>
      rw [input] at encodes
      cases encodes
    | ok inputExtras =>
      cases output : channels.undeclaredEntries .output (Flat.sectionOf record .output) with
      | error why =>
        rw [input, output] at encodes
        cases encodes
      | ok outputExtras =>
        rw [input, output] at encodes
        refine ⟨fun side => if side = .input then inputExtras else outputExtras, ?_, ?_⟩
        · intro side
          cases side
          · exact input
          · exact output
        · exact (Except.ok.inj encodes).symm
  · rintro ⟨extras, undeclared, rfl⟩
    rw [undeclared .input, undeclared .output]
    rfl

/-- The channels of a record are all of them. -/
theorem mem_keys_encoded_iff (channels : Channels) (record : List (Key × Value))
    (extras : Section → List (Key × Value)) (key : String) :
    key ∈ Entries.keys (channels.encoded record extras) ↔ key ∈ channels.keys := by
  have fields : Entries.keys (channels.fieldWrites record) = channels.fieldKeys := by
    simp [fieldWrites, Entries.keys, Function.comp_def]
  have overflow : Entries.keys (channels.overflowWrites extras) =
      Section.all.map channels.overflowKey := by
    simp [overflowWrites, Entries.keys, Function.comp_def]
  rw [encoded, Entries.mem_keys_merge _ _ _ fun other _ => isExact_of_lawful other,
    Entries.ofWrites, Entries.mem_keys_merge _ _ _ fun other _ => isExact_of_lawful other,
    fields, overflow, keys, List.mem_append, Entries.keys_nil, or_comm]
  simp

/-- The overflow channels hold the entries that are left to them. -/
theorem get?_encoded_overflow (channels : Channels) (record : List (Key × Value))
    (extras : Section → List (Key × Value)) (side : Section) :
    Entries.get? (channels.overflowKey side) (channels.encoded record extras) =
      some (.mapping (extras side)) := by
  apply Entries.get?_merge_of_mem _ (isExact_of_lawful _) _ _ _
    (fun key _ => isExact_of_lawful key)
  · exact List.mem_map.mpr ⟨side, side.mem_all, rfl⟩
  · intro other member
    obtain ⟨origin, -, same⟩ := List.mem_map.mp member
    obtain ⟨sameKey, rfl⟩ := Prod.mk.inj same
    obtain ⟨rfl, -⟩ := key_single_injective origin side _ _ sameKey
    rfl

/-- A record with two sections is always encoded. -/
theorem encode_eq_ok (separator : Separator) (schemas : Schemas)
    (sections : HasSections record given) :
    (ofSchemas separator schemas).encode (.mapping record) =
      .ok ((ofSchemas separator schemas).encoded record fun side =>
        (given side).filter ((ofSchemas separator schemas).isUndeclared side)) :=
  (encode_eq_ok_iff _ record _).mpr
    ⟨_, undeclaredEntries_of_sections separator schemas sections, rfl⟩

/-- The channel of a declared field holds what the flat record has under its key, if the name is
not that of the overflow channels.

Proof: every write of the key has that value, and no overflow channel has the key. -/
theorem get?_encoded_of_ne (record : List (Key × Value)) (side : Section) (name : String)
    (declared : name ∈ (schemas.of side).fieldNames) (free : name ≠ overflowField)
    (extras : Section → List (Key × Value)) :
    Entries.get? (Flat.key separator side [name])
        ((ofSchemas separator schemas).encoded record extras) =
      some ((Entries.get? (Flat.key separator side [name])
        (Flat.ofRecord separator (ofSchemas separator schemas).fieldKeys record)).getD .null) := by
  have exact : ∀ writes : Flat, Entries.AllExact writes := fun _ key _ => isExact_of_lawful key
  have notOverflow : Flat.key separator side [name] ∉
      Entries.keys ((ofSchemas separator schemas).overflowWrites extras) := by
    intro present
    obtain ⟨entry, member, same⟩ := List.mem_map.mp present
    obtain ⟨origin, -, rfl⟩ := List.mem_map.mp member
    exact free (key_single_injective origin side overflowField name same).2.symm
  rw [encoded, Entries.get?_merge_of_not_mem _ (isExact_of_lawful _) _ _ (exact _) notOverflow]
  apply Entries.get?_merge_of_mem _ (isExact_of_lawful _) _ [] _ (exact _)
  · exact List.mem_map.mpr ⟨_, (mem_fieldKeys_iff _).mpr ⟨side, name, declared, rfl⟩, rfl⟩
  · intro other member
    obtain ⟨key, -, same⟩ := List.mem_map.mp member
    obtain ⟨rfl, rfl⟩ := Prod.mk.inj same
    rfl

/-- The channel of a declared field holds what stands in its section, if the separator is not
in its name and the name is not that of the overflow channels. -/
theorem get?_encoded_field (sections : HasSections record given) (side : Section) (name : String)
    (declared : name ∈ (schemas.of side).fieldNames) (apart : separator.occursIn name = false)
    (free : name ≠ overflowField) (extras : Section → List (Key × Value)) :
    Entries.get? (Flat.key separator side [name])
        ((ofSchemas separator schemas).encoded record extras) =
      some ((Entries.get? (Key.text name) (given side)).getD .null) := by
  rw [get?_encoded_of_ne record side name declared free extras,
    get?_ofRecord sections side name declared apart]

/-- An encoded record is spread over the channels. -/
theorem spread_of_encode (clear : ClearNames separator schemas)
    (sections : HasSections record given) :
    ∃ flat, (ofSchemas separator schemas).encode (.mapping record) = .ok flat ∧
      Spread separator schemas given flat := by
  refine ⟨_, encode_eq_ok separator schemas sections, ?_, mem_keys_encoded_iff _ _ _, ?_, ?_⟩
  · apply Entries.nodup_keys_merge _ _ fun key _ => isExact_of_lawful key
    exact Entries.nodup_keys_merge [] _ (fun key _ => isExact_of_lawful key) (by simp)
  · intro side name declared
    exact get?_encoded_field sections side name declared (clear.apart side name declared)
      (clear.free side name declared) _
  · exact get?_encoded_overflow _ record _

end Channels
end Stepwise
