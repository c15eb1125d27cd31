import Stepwise.Proofs.ChannelRoundTrip

/-!
# Channels that shadow one another

Keys of single names are told apart by section and name. So two keys of a layout are the same
only if a name is declared twice in a section, or if a field is declared by the name of the
overflow channels. The name of a field cannot be that one where names do not begin with an
underscore; but an alias, or the name that is given for writing, can.

What a record is spread over tells where this matters: every declared field has in its channel
what the flat record has under its key, but a field of the overflow's name has the undeclared
entries of its section there instead of its value.
-/

namespace Stepwise

namespace FieldRules

/-- A field is declared by its name or by one of the names that are given for writing it. -/
theorem declaredName_cases (field : FieldRules) : field.declaredName = field.name ∨
    field.writeAlias? = some field.declaredName ∨ field.alias? = some field.declaredName := by
  obtain ⟨name, alias?, readAlias?, writeAlias?, default?⟩ := field
  cases writeAlias? with
  | none =>
    cases alias? with
    | none => exact .inl rfl
    | some plain => by_cases empty : plain = "" <;> simp [declaredName, Option.filter, empty]
  | some write =>
    by_cases bare : write = ""
    · cases alias? with
      | none => simp [declaredName, Option.filter, bare]
      | some plain =>
        by_cases empty : plain = "" <;> simp [declaredName, Option.filter, bare, empty]
    · simp [declaredName, Option.filter, bare]

end FieldRules

namespace Channels

variable {separator : Separator} {schemas : Schemas}

/-- The sections and names that a layout has channels for: the declared fields, and behind
them the overflow of each section. -/
def places (schemas : Schemas) : List (Section × String) :=
  Section.all.flatMap (fun side => (schemas.of side).fieldNames.map fun name => (side, name)) ++
    Section.all.map fun side => (side, overflowField)

/-- The keys of a layout are those of its places. -/
theorem keys_eq_map_places (separator : Separator) (schemas : Schemas) :
    (ofSchemas separator schemas).keys =
      (places schemas).map fun place => Flat.key separator place.1 [place.2] := by
  simp [keys, fieldKeys, ofSchemas, places, overflowKey, Section.all, Schemas.of,
    Schema.fieldNames, Function.comp_def]

/-- Places are told apart by their keys. -/
theorem key_place_injective (separator : Separator) :
    Function.Injective fun place : Section × String => Flat.key separator place.1 [place.2] := by
  rintro ⟨side, name⟩ ⟨other, otherName⟩ same
  obtain ⟨sameSide, sameName⟩ := key_single_injective side other name otherName same
  exact Prod.ext sameSide sameName

/-- The places of the declared fields are distinct exactly if the names of each section are. -/
theorem nodup_fieldPlaces_iff (schemas : Schemas) :
    (Section.all.flatMap fun side => (schemas.of side).fieldNames.map fun name =>
      (side, name)).Nodup ↔ ∀ side, (schemas.of side).fieldNames.Nodup := by
  rw [List.nodup_flatMap]
  constructor
  · rintro ⟨each, -⟩ side
    exact (each side side.mem_all).of_map
  · intro distinct
    refine ⟨fun side _ => (distinct side).map fun name other same => (Prod.mk.inj same).2, ?_⟩
    simp [Section.all, Function.onFun, List.Disjoint]

/-- No place occurs twice exactly if no name is declared twice in a section, and none of them is
that of the overflow channels. -/
theorem nodup_places_iff (schemas : Schemas) : (places schemas).Nodup ↔
    ∀ side, (schemas.of side).fieldNames.Nodup ∧
      overflowField ∉ (schemas.of side).fieldNames := by
  rw [places, List.nodup_append', nodup_fieldPlaces_iff, forall_and]
  refine and_congr_right fun _ => ⟨?_, fun free => ⟨by simp [Section.all], ?_⟩⟩
  · rintro ⟨-, disjoint⟩ side declared
    exact disjoint (List.mem_flatMap.mpr ⟨side, side.mem_all, List.mem_map_of_mem declared⟩)
      (List.mem_map_of_mem side.mem_all)
  · rintro ⟨side, name⟩ isField isOverflow
    obtain ⟨origin, -, declared⟩ := List.mem_flatMap.mp isField
    obtain ⟨field, isName, same⟩ := List.mem_map.mp declared
    obtain ⟨other, -, reserved⟩ := List.mem_map.mp isOverflow
    obtain ⟨rfl, rfl⟩ := Prod.mk.inj same
    obtain ⟨-, rfl⟩ := Prod.mk.inj reserved
    exact free origin isName

/-- The channel of a declared field holds what the flat record has under its key, or, if it is
the overflow channel, the undeclared entries of its section. -/
theorem get?_encoded_declared (record : List (Key × Value)) (side : Section) (name : String)
    (declared : name ∈ (schemas.of side).fieldNames) (extras : Section → List (Key × Value)) :
    Entries.get? (Flat.key separator side [name])
        ((ofSchemas separator schemas).encoded record extras) =
      some (if name = overflowField then .mapping (extras side)
        else (Entries.get? (Flat.key separator side [name])
          (Flat.ofRecord separator (ofSchemas separator schemas).fieldKeys
            record)).getD .null) := by
  split_ifs with reserved
  · subst reserved
    exact get?_encoded_overflow (ofSchemas separator schemas) record extras side
  · exact get?_encoded_of_ne record side name declared reserved extras

/-- The keys of a layout are pairwise distinct exactly if no name is declared twice in a section
and no field is declared by the name of the overflow channels. Where the names of fields do not
begin with an underscore, such a field has that name as an alias or for writing. Of a record
that is spread, every declared field has in its channel what the flat record has under its key,
but a field of the overflow's name has the undeclared entries of its section there. -/
theorem nodup_keys_iff (separator : Separator) (schemas : Schemas) :
    ((ofSchemas separator schemas).keys.Nodup ↔
      ∀ side, (schemas.of side).fieldNames.Nodup ∧
        overflowField ∉ (schemas.of side).fieldNames) ∧
    (∀ side, ∀ field ∈ (schemas.of side).fields, field.1.declaredName = overflowField →
      field.1.name.toList.head? ≠ some '_' →
        field.1.writeAlias? = some overflowField ∨ field.1.alias? = some overflowField) ∧
    ∀ record flat, (ofSchemas separator schemas).encode (.mapping record) = .ok flat →
      ∃ extras : Section → List (Key × Value),
        (∀ side, (ofSchemas separator schemas).undeclaredEntries side
          (Flat.sectionOf record side) = .ok (extras side)) ∧
        ∀ side, ∀ name ∈ (schemas.of side).fieldNames,
          Entries.get? (Flat.key separator side [name]) flat =
            some (if name = overflowField then .mapping (extras side)
              else (Entries.get? (Flat.key separator side [name]) (Flat.ofRecord separator
                (ofSchemas separator schemas).fieldKeys record)).getD .null) := by
  refine ⟨?_, fun side field _ reserved plain => ?_, fun record flat encodes => ?_⟩
  · rw [keys_eq_map_places, List.nodup_map_iff (key_place_injective separator),
      nodup_places_iff]
  · have origin := field.1.declaredName_cases
    rw [reserved] at origin
    refine origin.resolve_left fun same => plain ?_
    rw [← same]
    rfl
  · obtain ⟨extras, undeclared, rfl⟩ := (encode_eq_ok_iff _ record flat).mp encodes
    exact ⟨extras, undeclared, fun side name declared =>
      get?_encoded_declared record side name declared extras⟩

/-- Names that hold the separator, that make up the key of another section's field, or that both
sections declare, shadow nothing. -/
theorem nodup_keys_close :
    let schemas : Schemas :=
      ⟨uniformSchema .any ["a", "a_b", "output_a"], uniformSchema .any ["a", "extra__"]⟩
    (ofSchemas .underscore schemas).keys.Nodup :=
  (nodup_keys_iff .underscore _).1.mpr fun side => by cases side <;> decide

/-- A schema of one field with an alias. -/
def aliasedSchema (name other : String) : Schema :=
  ⟨⟨"M", .ignore, false⟩, [(⟨name, some other, none, none, none⟩, .int)]⟩

/-- A field with the overflow's name as its alias shadows an overflow channel, although it has a
plain name of its own and is alone: its value is lost to the entries of the overflow. -/
theorem keys_shadowed :
    let separator : Separator := ⟨['.'], by simp⟩
    let schemas : Schemas := ⟨uniformSchema .any [], aliasedSchema "x" "__extra__"⟩
    (∀ side, (schemas.of side).fieldNames.Nodup) ∧
      ¬ (ofSchemas separator schemas).keys.Nodup ∧
      (ofSchemas separator schemas).encode (.mapping [(.text "input", .mapping []),
          (.text "output", .mapping [(.text "__extra__", .int 5)])]) =
        .ok [("output.__extra__", .mapping []), ("input.__extra__", .mapping [])] := by
  intro separator schemas
  refine ⟨fun side => by cases side <;> decide, by decide, by rfl⟩

end Channels
end Stepwise
