import Stepwise.Proofs.Encoding

/-!
# The fields in their order

The channels list the fields of a section one behind the other, as the schema declares
them, and they are nested in this order. So the list can be taken apart at one field: the
fields that the schema declares before it stand before it, and those that it declares
after it stand behind it.
-/

namespace Stepwise.Channels

open Entries (isExact_of_lawful)

variable {separator : Separator} {schemas : Schemas} {flat : Flat}

/-! ## One member of a list -/

/-- A list around the first occurrence of a member: before it stand those that occur first
before it. -/
theorem exists_around (names : List String) (name : String) (member : name ∈ names) :
    ∃ before after, names = before ++ name :: after ∧
      ∀ other, other ∈ before ↔ names.idxOf other < names.idxOf name := by
  obtain ⟨before, after, rfl, fresh⟩ := List.eq_append_cons_of_mem member
  refine ⟨before, after, rfl, fun other => ?_⟩
  have here : (before ++ name :: after).idxOf name = before.length := by
    simp [List.idxOf_append_of_notMem fresh]
  rw [here]
  by_cases isBefore : other ∈ before
  · rw [List.idxOf_append_of_mem isBefore]
    simp [isBefore, List.idxOf_lt_length_iff]
  · rw [List.idxOf_append_of_notMem isBefore]
    simp [isBefore]

/-! ## The fields' keys -/

/-- The keys of a section's fields stand together, and none of them before the others. -/
theorem exists_fieldKeys_eq (separator : Separator) (schemas : Schemas) (side : Section) :
    ∃ front back, (ofSchemas separator schemas).fieldKeys = front ++
        (schemas.of side).fieldNames.map (fun name => Flat.key separator side [name]) ++ back ∧
      ∀ name, Flat.key separator side [name] ∉ front := by
  have sections : (ofSchemas separator schemas).fieldKeys =
      (schemas.input.fieldNames.map fun name => Flat.key separator .input [name]) ++
        schemas.output.fieldNames.map fun name => Flat.key separator .output [name] := by
    simp [fieldKeys, ofSchemas, Section.all, Schema.fieldNames, Schemas.of, Function.comp_def]
  rw [sections]
  cases side with
  | input => exact ⟨[], _, rfl, by simp⟩
  | output =>
    refine ⟨_, [], (List.append_nil _).symm, ?_⟩
    intro name member
    obtain ⟨other, -, same⟩ := List.mem_map.mp member
    cases (key_single_injective _ _ _ _ same).1

/-- The keys of a section's fields belong to its names. -/
theorem mem_fieldKeys_single_iff (separator : Separator) (side : Section) (name : String) :
    Flat.key separator side [name] ∈ (ofSchemas separator schemas).fieldKeys ↔
      name ∈ (schemas.of side).fieldNames := by
  rw [mem_fieldKeys_iff]
  constructor
  · rintro ⟨origin, other, declared, same⟩
    obtain ⟨rfl, rfl⟩ := key_single_injective side origin name other same
    exact declared
  · intro declared
    exact ⟨side, name, declared, rfl⟩

/-- The fields' keys around the first one of a name: of its section's keys, those of the names
that are listed before it stand before it. -/
theorem fieldKeys_around (separator : Separator) (schemas : Schemas) (side : Section)
    (name : String) (declared : name ∈ (schemas.of side).fieldNames) :
    ∃ before after, (ofSchemas separator schemas).fieldKeys =
        before ++ Flat.key separator side [name] :: after ∧
      ∀ other, Flat.key separator side [other] ∈ before ↔
        (schemas.of side).fieldNames.idxOf other < (schemas.of side).fieldNames.idxOf name := by
  obtain ⟨front, back, keysOf, foreign⟩ := exists_fieldKeys_eq separator schemas side
  obtain ⟨first, last, names, known⟩ := exists_around _ name declared
  rw [names, List.map_append, List.map_cons] at keysOf
  refine ⟨front ++ first.map fun field => Flat.key separator side [field],
    (last.map fun field => Flat.key separator side [field]) ++ back, ?_, fun other => ?_⟩
  · rw [keysOf]
    simp
  · rw [← known other, List.mem_append, List.mem_map]
    constructor
    · rintro (inFront | ⟨field, member, same⟩)
      · exact absurd inFront (foreign other)
      · obtain ⟨-, rfl⟩ := key_single_injective side side field other same
        exact member
    · intro member
      exact .inr ⟨other, member, rfl⟩

/-! ## The fields that channels have -/

/-- An entry of a declared field is what the channels have for it. -/
theorem mem_declaredIn_iff (entry : String × Value) :
    entry ∈ (ofSchemas separator schemas).declaredIn flat ↔
      ∃ side, ∃ name ∈ (schemas.of side).fieldNames, entry.1 = Flat.key separator side [name] ∧
        Entries.get? entry.1 flat = some entry.2 := by
  rw [declaredIn, Entries.mem_ofWrites_filterMap, mem_fieldKeys_iff]
  constructor
  · rintro ⟨⟨side, name, declared, same⟩, read⟩
    exact ⟨side, name, declared, same, read⟩
  · rintro ⟨side, name, declared, same, read⟩
    exact ⟨⟨side, name, declared, same⟩, read⟩

/-- Writes among those that channels have are made under keys of declared fields. -/
theorem keyed_of_mem_declaredIn {writes : Flat}
    (among : ∀ entry ∈ writes, entry ∈ (ofSchemas separator schemas).declaredIn flat) :
    ∀ entry ∈ writes, ∃ side, ∃ name ∈ (schemas.of side).fieldNames,
      entry.1 = Flat.key separator side [name] := by
  intro entry member
  obtain ⟨side, name, declared, same, -⟩ := (mem_declaredIn_iff entry).mp (among entry member)
  exact ⟨side, name, declared, same⟩

/-- The keys of the fields that channels have are pairwise distinct. -/
theorem nodup_keys_declaredIn {α : Type} (channels : Channels) (flat : List (String × α)) :
    (Entries.keys (channels.declaredIn flat)).Nodup :=
  Entries.nodup_keys_merge [] _ (fun key _ => isExact_of_lawful key) (by simp)

/-- Entries of fields are placed in the sections of the fields, at the names that theirs
split into. -/
theorem mem_placed_fields_iff (entries : Flat)
    (fields : ∀ entry ∈ entries, ∃ origin, ∃ name ∈ (schemas.of origin).fieldNames,
      entry.1 = Flat.key separator origin [name]) (side : Section)
    (place : List String × Value) :
    place ∈ Flat.placed separator side entries ↔ ∃ name ∈ (schemas.of side).fieldNames,
      name ≠ "" ∧ place.1 = separator.split name ∧
        (Flat.key separator side [name], place.2) ∈ entries := by
  rw [Flat.mem_placed_iff]
  constructor
  · rintro ⟨key, member, leads⟩
    obtain ⟨origin, name, declared, rfl⟩ := fields _ member
    rw [place?_key_single] at leads
    split_ifs at leads with bare
    obtain ⟨rfl, path⟩ := Prod.mk.inj (Option.some.inj leads)
    exact ⟨name, declared, bare, path.symm, member⟩
  · rintro ⟨name, declared, filled, path, member⟩
    exact ⟨_, member, by rw [place?_key_single, if_neg filled, path]⟩

/-- What the fields that channels have are placed at: the names that theirs split into. -/
theorem mem_placed_declaredIn_iff (side : Section) (place : List String × Value) :
    place ∈ Flat.placed separator side ((ofSchemas separator schemas).declaredIn flat) ↔
      ∃ name ∈ (schemas.of side).fieldNames, name ≠ "" ∧ place.1 = separator.split name ∧
        Entries.get? (Flat.key separator side [name]) flat = some place.2 := by
  rw [mem_placed_fields_iff _ (keyed_of_mem_declaredIn fun _ member => member)]
  constructor
  · rintro ⟨name, declared, filled, path, member⟩
    obtain ⟨-, -, -, -, read⟩ := (mem_declaredIn_iff _).mp member
    exact ⟨name, declared, filled, path, read⟩
  · rintro ⟨name, declared, filled, path, read⟩
    have member := (mem_declaredIn_iff (Flat.key separator side [name], place.2)).mpr
      ⟨side, name, declared, rfl, read⟩
    exact ⟨name, declared, filled, path, member⟩

/-- The fields that channels have are written by a rule, under those keys that there is
something under. -/
theorem declaredIn_eq_of_rule (channels : Channels) (flat : Flat) :
    channels.declaredIn flat = Entries.ofWrites
      ((channels.fieldKeys.filter fun key => Entries.has key flat).map fun key =>
        (key, (Entries.get? key flat).getD .null)) := by
  rw [declaredIn, ← List.filterMap_eq_map, List.filterMap_filter]
  congr 1
  apply List.filterMap_congr
  intro key _
  cases found : Entries.get? key flat <;> simp [Entries.has, found]

/-- The fields that channels have, around one of them: of its section's fields, those that are
listed behind it stand behind it. -/
theorem declaredIn_around (side : Section) (name : String)
    (declared : name ∈ (schemas.of side).fieldNames) (value : Value)
    (found : Entries.get? (Flat.key separator side [name]) flat = some value) :
    ∃ earlier later, (ofSchemas separator schemas).declaredIn flat =
        earlier ++ (Flat.key separator side [name], value) :: later ∧
      ∀ other held, (Flat.key separator side [other], held) ∈ later ↔
        other ∈ (schemas.of side).fieldNames ∧
          (schemas.of side).fieldNames.idxOf name < (schemas.of side).fieldNames.idxOf other ∧
            Entries.get? (Flat.key separator side [other]) flat = some held := by
  obtain ⟨before, after, keysOf, known⟩ := fieldKeys_around separator schemas side name declared
  let present := fun key => Entries.has key flat
  have here : present (Flat.key separator side [name]) = true := by
    simp [present, Entries.has, found]
  have filtered : (ofSchemas separator schemas).fieldKeys.filter present =
      before.filter present ++ Flat.key separator side [name] :: after.filter present := by
    rw [keysOf, List.filter_append, List.filter_cons_of_pos here]
  have fresh : Flat.key separator side [name] ∉ before.filter present := by
    intro member
    exact Nat.lt_irrefl _ ((known name).mp (List.mem_filter.mp member).1)
  obtain ⟨earlier, later, written, laterKnown⟩ := Entries.ofWrites_of_rule
    (fun key => (Entries.get? key flat).getD .null) _ (after.filter present) _ fresh
  rw [found, Option.getD_some] at written
  refine ⟨earlier, later, ?_, fun other held => ?_⟩
  · rw [declaredIn_eq_of_rule, filtered, written]
  · rw [laterKnown]
    constructor
    · rintro ⟨inAfter, notBefore, otherKey, read⟩
      obtain ⟨member, isPresent⟩ := List.mem_filter.mp inAfter
      obtain ⟨_, there⟩ := Option.isSome_iff_exists.mp isPresent
      have isKey : Flat.key separator side [other] ∈ (ofSchemas separator schemas).fieldKeys := by
        rw [keysOf]
        exact List.mem_append_right _ (List.mem_cons_of_mem _ member)
      have isName := (mem_fieldKeys_single_iff separator side other).mp isKey
      have notLess := mt (fun less => List.mem_filter.mpr ⟨(known other).mpr less, isPresent⟩)
        notBefore
      have different : (schemas.of side).fieldNames.idxOf name ≠
          (schemas.of side).fieldNames.idxOf other := by
        intro same
        obtain rfl := (List.idxOf_inj declared).mp same
        exact otherKey rfl
      refine ⟨isName, by omega, ?_⟩
      rw [there, Option.getD_some] at read
      exact there.trans (congrArg some read.symm)
    · rintro ⟨isName, behind, read⟩
      have isPresent : present (Flat.key separator side [other]) = true := by
        simp [present, Entries.has, read]
      have notBefore : Flat.key separator side [other] ∉ before := by
        rw [known other]
        omega
      have otherKey : Flat.key separator side [other] ≠ Flat.key separator side [name] := by
        intro same
        obtain ⟨-, rfl⟩ := key_single_injective side side other name same
        exact Nat.lt_irrefl _ behind
      have isKey := (mem_fieldKeys_single_iff separator side other).mpr isName
      rw [keysOf, List.mem_append, List.mem_cons] at isKey
      have inAfter := (isKey.resolve_left notBefore).resolve_left otherKey
      exact ⟨List.mem_filter.mpr ⟨inAfter, isPresent⟩,
        fun member => notBefore (List.mem_filter.mp member).1, otherKey, by rw [read]; rfl⟩

end Stepwise.Channels
