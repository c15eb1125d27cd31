import Stepwise.Proofs.Decoding

/-!
# Records and channels hold the same

With clear names, spreading a record over the channels and collecting it again changes
nothing but that declared fields which were missing are null; and channels that hold
something under each of their keys come back from the record that is collected from them.
The values do not matter: mappings of declared fields are never taken apart, and those of
undeclared ones are kept whole in the overflow.

An empty name is not clear. Its key ends behind the separator, and such keys are left out
when a flat record is nested.
-/

namespace Stepwise.Channels

open Entries (Named isExact_text isExact_of_lawful)

/-- The declared names are all there, as given or null, every other name is as given, and
there is nothing else. -/
structure Completes (names : List String) (given full : List (Key × Value)) : Prop where
  named : Named full
  declared : ∀ name ∈ names, Entries.get? (Key.text name) full =
    some ((Entries.get? (Key.text name) given).getD .null)
  others : ∀ name, name ∉ names → Entries.get? (Key.text name) full =
    Entries.get? (Key.text name) given

variable {separator : Separator} {schemas : Schemas} {record : List (Key × Value)}
  {given extras : Section → List (Key × Value)} {flat : Flat}

/-- Channels whose overflow holds the undeclared entries of named sections are filled with
them. -/
theorem filled_of_overflow (named : ∀ side, Named (given side))
    (overflow : ∀ side, Entries.get? ((ofSchemas separator schemas).overflowKey side) flat =
      some (.mapping ((given side).filter ((ofSchemas separator schemas).isUndeclared side)))) :
    Filled separator schemas
      (fun side => (given side).filter ((ofSchemas separator schemas).isUndeclared side)) flat := by
  refine ⟨overflow,
    fun side => named_filter_isUndeclared separator schemas side _ (named side), ?_⟩
  intro side name declared
  rw [← Entries.get?_eq_none_exact _ (isExact_text name)]
  exact get?_filter_isUndeclared_of_declared separator schemas side name declared _

/-- Channels that a record is spread over are filled with its undeclared entries. -/
theorem Spread.filled (spread : Spread separator schemas given flat)
    (named : ∀ side, Named (given side)) :
    Filled separator schemas
      (fun side => (given side).filter ((ofSchemas separator schemas).isUndeclared side)) flat :=
  filled_of_overflow named spread.overflow

/-- What is collected completes the entries of a section that the channels hold. -/
theorem Collected.completes_of_fields {nested : Flat.Nested}
    (collected : Collected separator schemas flat
      (fun side => (given side).filter ((ofSchemas separator schemas).isUndeclared side)) nested)
    (side : Section) (named : Named (given side))
    (fields : ∀ name ∈ (schemas.of side).fieldNames,
      Entries.get? (Flat.key separator side [name]) flat =
        some ((Entries.get? (Key.text name) (given side)).getD .null)) :
    Completes (schemas.of side).fieldNames (given side) (nested.get side) := by
  refine ⟨collected.named side, fun name declared => ?_, fun name undeclared => ?_⟩
  · rw [collected.field side name declared, fields name declared, Option.getD_some]
  · rw [← get?_filter_isUndeclared separator schemas side name undeclared _
      (collected.named side), collected.rest side,
      get?_filter_isUndeclared separator schemas side name undeclared _ named]

/-- What is collected after spreading completes what was given. -/
theorem Collected.completes {nested : Flat.Nested}
    (collected : Collected separator schemas flat
      (fun side => (given side).filter ((ofSchemas separator schemas).isUndeclared side)) nested)
    (spread : Spread separator schemas given flat) (named : ∀ side, Named (given side))
    (side : Section) :
    Completes (schemas.of side).fieldNames (given side) (nested.get side) :=
  collected.completes_of_fields side (named side) (spread.field side)

/-- A nested record has its two sections. -/
theorem hasSections_toValue (nested : Flat.Nested) (named : ∀ side, Named (nested.get side)) :
    HasSections [(Key.text Section.input.name, Value.mapping nested.input),
      (Key.text Section.output.name, .mapping nested.output)] nested.get := by
  refine ⟨fun side => .inl ?_, named⟩
  cases side <;> rfl

/-- Channels that a collected record is spread over hold what they held before. -/
theorem perm_of_spread_collected {nested : Flat.Nested} {again : Flat}
    (distinct : (Entries.keys flat).Nodup)
    (complete : ∀ key, key ∈ Entries.keys flat ↔ key ∈ (ofSchemas separator schemas).keys)
    (filled : Filled separator schemas extras flat)
    (collected : Collected separator schemas flat extras nested)
    (spread : Spread separator schemas nested.get again) : again.Perm flat := by
  apply Entries.perm_of_get? again flat (fun key _ => isExact_of_lawful key)
    (fun key _ => isExact_of_lawful key) spread.distinct distinct
  intro key _
  by_cases known : key ∈ (ofSchemas separator schemas).keys
  · rcases (mem_keys_iff key).mp known with ⟨side, name, declared, rfl⟩ | ⟨side, rfl⟩
    · obtain ⟨value, held⟩ := (Entries.get?_isSome_exact _ (isExact_of_lawful _) flat).mpr
        ((complete _).mpr known)
      rw [spread.field side name declared, collected.field side name declared, held]
      rfl
    · rw [spread.overflow side, filled.overflow side, collected.rest side]
  · have notAgain := (Entries.get?_eq_none_exact key (isExact_of_lawful key) again).mpr
      (mt (spread.keys key).mp known)
    have notBefore := (Entries.get?_eq_none_exact key (isExact_of_lawful key) flat).mpr
      (mt (complete key).mp known)
    rw [notAgain, notBefore]

/-- With clear names, a record that is spread over the channels is collected again with
every declared field in it, and channels whose record is collected hold the same when it
is spread over them again.

Proof: collecting reads each declared field from its own channel and everything else from
the overflow; spreading writes both there. So in either order each name is read where it
was written. -/
theorem encode_decode_inverse (separator : Separator) (schemas : Schemas)
    (clear : ClearNames separator schemas) :
    (∀ record given, HasSections record given → ∃ flat nested,
      (ofSchemas separator schemas).encode (.mapping record) = .ok flat ∧
      (ofSchemas separator schemas).decode flat = .ok nested ∧
      ∀ side, Completes (schemas.of side).fieldNames (given side) (nested.get side)) ∧
    (∀ flat extras, (Entries.keys flat).Nodup →
      (∀ key, key ∈ Entries.keys flat ↔ key ∈ (ofSchemas separator schemas).keys) →
      Filled separator schemas extras flat → ∃ nested again,
        (ofSchemas separator schemas).decode flat = .ok nested ∧
        (ofSchemas separator schemas).encode nested.toValue = .ok again ∧ again.Perm flat) := by
  constructor
  · intro record given sections
    obtain ⟨flat, encoded, spread⟩ := spread_of_encode clear sections
    obtain ⟨nested, decoded, collected⟩ :=
      collected_of_decode clear (spread.filled sections.named)
    exact ⟨flat, nested, encoded, decoded, collected.completes spread sections.named⟩
  · intro flat extras distinct complete filled
    obtain ⟨nested, decoded, collected⟩ := collected_of_decode clear filled
    obtain ⟨again, encoded, spread⟩ :=
      spread_of_encode clear (hasSections_toValue nested collected.named)
    exact ⟨nested, again, decoded, encoded,
      perm_of_spread_collected distinct complete filled collected spread⟩

/-- A schema of required fields of one shape. -/
def uniformSchema (shape : Shape) (names : List String) : Schema :=
  ⟨⟨"M", .ignore, false⟩, names.map fun name => (⟨name, none, none, none, none⟩, shape)⟩

/-- The fields of a uniform schema are those it is made for. -/
theorem fieldNames_uniformSchema (shape : Shape) (names : List String) :
    (uniformSchema shape names).fieldNames = names := by
  have named : ∀ name, FieldRules.declaredName ⟨name, none, none, none, none⟩ = name :=
    fun name => rfl
  simp [uniformSchema, Schema.fieldNames, Schema.declared, named, Function.comp_def]

/-- A record with a field, with an undeclared mapping whose names hold the separator and
without an output comes back with the missing field. -/
theorem encode_decode_inverse_undeclared :
    let schemas : Schemas := ⟨uniformSchema .any ["a"], uniformSchema .any ["b"]⟩
    ClearNames .underscore schemas ∧ ∃ flat nested,
      (ofSchemas .underscore schemas).encode (.mapping
        [(.text "input", .mapping [(.text "x", .mapping [(.text "a_b", .int 5)])])]) = .ok flat ∧
      (ofSchemas .underscore schemas).decode flat = .ok nested ∧
      Entries.get? (Key.text "a") nested.input = some .null ∧
      Entries.get? (Key.text "x") nested.input = some (.mapping [(.text "a_b", .int 5)]) := by
  intro schemas
  have onlyName : ∀ side, ∀ name ∈ (schemas.of side).fieldNames, name = "a" ∨ name = "b" := by
    intro side name declared
    cases side <;> simp_all [schemas, Schemas.of, fieldNames_uniformSchema]
  have clear : ClearNames .underscore schemas := by
    refine ⟨?_, ?_, ?_⟩ <;> intro side name declared <;>
      rcases onlyName side name declared with rfl | rfl <;> decide
  let entries := [(Key.text "x", Value.mapping [(.text "a_b", .int 5)])]
  have sections : HasSections [(.text "input", .mapping entries)]
      fun side => if side = .input then entries else [] := by
    refine ⟨fun side => ?_, fun side => ?_⟩
    · cases side
      · exact .inl rfl
      · exact .inr ⟨rfl, rfl⟩
    · cases side
      · exact ⟨by simp [entries], by simp [entries]⟩
      · exact Entries.named_nil
  obtain ⟨flat, nested, encoded, decoded, completes⟩ :=
    (encode_decode_inverse .underscore schemas clear).1 _ _ sections
  refine ⟨clear, flat, nested, encoded, decoded, ?_, ?_⟩
  · exact (completes .input).declared "a" (by simp [schemas, Schemas.of, fieldNames_uniformSchema])
  · exact (completes .input).others "x" (by simp [schemas, Schemas.of, fieldNames_uniformSchema])

/-- A field with an empty name is lost, although neither the separator nor the name of the
overflow channels is in the way. -/
theorem decode_encode_empty_name :
    let schemas : Schemas := ⟨uniformSchema .any [""], uniformSchema .any []⟩
    (∀ side, ∀ name ∈ (schemas.of side).fieldNames,
      Separator.underscore.occursIn name = false ∧ name ≠ overflowField) ∧
    ∃ flat nested,
      (ofSchemas .underscore schemas).encode (.mapping
        [(.text "input", .mapping [(.text "", .int 5)]), (.text "output", .mapping [])]) =
          .ok flat ∧
      (ofSchemas .underscore schemas).decode flat = .ok nested ∧
      ¬ Completes (schemas.of .input).fieldNames [(.text "", .int 5)] (nested.get .input) := by
  intro schemas
  refine ⟨?_, [("input_", .int 5), ("input___extra__", .mapping []),
    ("output___extra__", .mapping [])], ⟨[(.text "", .null)], []⟩, by rfl, by rfl, ?_⟩
  · intro side name declared
    cases side with
    | input =>
      obtain rfl : name = "" := by
        simpa [schemas, Schemas.of, fieldNames_uniformSchema] using declared
      decide
    | output => simp [schemas, Schemas.of, fieldNames_uniformSchema] at declared
  · intro completes
    have lost := completes.declared "" (by simp [schemas, Schemas.of, fieldNames_uniformSchema])
    simp [Flat.Nested.get, Entries.get?] at lost

end Stepwise.Channels
