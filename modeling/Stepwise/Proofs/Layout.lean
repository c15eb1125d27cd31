import Stepwise.Channels
import Stepwise.Proofs.Placing

/-!
# The layout of channels

Which keys the channels of a pair of schemas have. Keys of single names are told apart
by section and name, whatever the names are; so every declared field has a channel of
its own, and the overflow channels are none of these as long as no field has their name.

Names are clear when none is empty, holds the separator or is the name of the overflow
channels. The path of a clear name is restorable, and no longer path has its key.
-/

namespace Stepwise.Channels

open Entries (Named isExact_text isExact_of_lawful)

/-- Every declared name can be read back from its key, and none is taken. -/
structure ClearNames (separator : Separator) (schemas : Schemas) : Prop where
  apart : ∀ side, ∀ name ∈ (schemas.of side).fieldNames, separator.occursIn name = false
  filled : ∀ side, ∀ name ∈ (schemas.of side).fieldNames, name ≠ ""
  free : ∀ side, ∀ name ∈ (schemas.of side).fieldNames, name ≠ overflowField

variable {separator : Separator} {schemas : Schemas}

/-- A channel belongs to a declared field of its section. -/
theorem mem_declared_iff (channel : Channel) :
    channel ∈ (ofSchemas separator schemas).declared ↔
      ∃ field ∈ (schemas.of channel.side).declared, channel =
        ⟨channel.side, field.name, Flat.key separator channel.side [field.name],
          field.isSequence⟩ := by
  simp only [ofSchemas, List.mem_flatMap, List.mem_map]
  constructor
  · rintro ⟨side, -, field, member, rfl⟩
    exact ⟨field, member, rfl⟩
  · rintro ⟨field, member, same⟩
    exact ⟨channel.side, channel.side.mem_all, field, member, same.symm⟩

/-- Every declared field has a channel. -/
theorem mem_declared (separator : Separator) (side : Section) (field : DeclaredField)
    (inSchema : field ∈ (schemas.of side).declared) :
    ⟨side, field.name, Flat.key separator side [field.name], field.isSequence⟩ ∈
      (ofSchemas separator schemas).declared :=
  (mem_declared_iff _).mpr ⟨field, inSchema, rfl⟩

/-- The channels declare what the schemas declare. -/
theorem declares_iff (separator : Separator) (schemas : Schemas) (side : Section)
    (name : String) :
    (ofSchemas separator schemas).declares side name = true ↔
      name ∈ (schemas.of side).fieldNames := by
  simp only [declares, List.any_eq_true, Bool.and_eq_true, beq_iff_eq, Schema.fieldNames,
    List.mem_map]
  constructor
  · rintro ⟨channel, member, rfl, rfl⟩
    obtain ⟨field, inSchema, same⟩ := (mem_declared_iff channel).mp member
    exact ⟨field, inSchema, by rw [same]⟩
  · rintro ⟨field, inSchema, rfl⟩
    exact ⟨_, mem_declared separator side field inSchema, rfl, rfl⟩

/-- The keys of fields are the keys of their names. -/
theorem mem_fieldKeys_iff (key : String) :
    key ∈ (ofSchemas separator schemas).fieldKeys ↔
      ∃ side, ∃ name ∈ (schemas.of side).fieldNames, key = Flat.key separator side [name] := by
  simp only [fieldKeys, List.mem_map, Schema.fieldNames]
  constructor
  · rintro ⟨channel, member, rfl⟩
    obtain ⟨field, inSchema, same⟩ := (mem_declared_iff channel).mp member
    exact ⟨channel.side, field.name, ⟨field, inSchema, rfl⟩, by rw [same]⟩
  · rintro ⟨side, name, ⟨field, inSchema, rfl⟩, rfl⟩
    exact ⟨_, mem_declared separator side field inSchema, rfl⟩

/-- The channels are those of the fields and one more for each section. -/
theorem mem_keys_iff (key : String) :
    key ∈ (ofSchemas separator schemas).keys ↔
      (∃ side, ∃ name ∈ (schemas.of side).fieldNames, key = Flat.key separator side [name]) ∨
        ∃ side, key = (ofSchemas separator schemas).overflowKey side := by
  rw [keys, List.mem_append, mem_fieldKeys_iff]
  have sections : key ∈ Section.all.map (ofSchemas separator schemas).overflowKey ↔
      ∃ side, key = (ofSchemas separator schemas).overflowKey side := by
    simp only [Section.all, List.map_cons, List.map_nil, List.mem_cons, List.not_mem_nil, or_false]
    constructor
    · rintro (first | second)
      · exact ⟨.input, first⟩
      · exact ⟨.output, second⟩
    · rintro ⟨side, same⟩
      cases side
      · exact .inl same
      · exact .inr same
  rw [sections]

/-- The keys of both sections differ in their first characters. -/
theorem side_eq_of_key_eq (side other : Section) (path rest : List String) (filled : path ≠ [])
    (restFilled : rest ≠ []) (same : Flat.key separator side path = Flat.key separator other rest) :
    side = other := by
  have texts := congrArg String.toList same
  rw [Flat.toList_key separator side path filled,
    Flat.toList_key separator other rest restFilled] at texts
  cases side <;> cases other <;> simp [Section.name] at texts ⊢

/-- The key of a place determines the joined path. -/
theorem join_eq_of_key_eq (side : Section) (path rest : List String) (filled : path ≠ [])
    (restFilled : rest ≠ []) (same : Flat.key separator side path = Flat.key separator side rest) :
    separator.join path = separator.join rest := by
  have texts := congrArg String.toList same
  rw [Flat.toList_key separator side path filled,
    Flat.toList_key separator side rest restFilled] at texts
  exact String.toList_inj.mp (List.append_cancel_left texts)

/-- A joined single name is that name. -/
theorem join_single (name : String) : separator.join [name] = name := by
  simp [Separator.join, Separator.joinChars]

/-- The key of a single name leads to the names that it splits into, and nowhere if it is
empty. -/
theorem place?_key_single (side : Section) (name : String) :
    Flat.place? separator (Flat.key separator side [name]) =
      if name = "" then none else some (side, separator.split name) := by
  simp [Flat.place?_key, join_single]

/-- Single names with one key are one name of one section. -/
theorem key_single_injective (side other : Section) (name otherName : String)
    (same : Flat.key separator side [name] = Flat.key separator other [otherName]) :
    side = other ∧ name = otherName := by
  obtain rfl := side_eq_of_key_eq side other _ _ (by simp) (by simp) same
  have joined := join_eq_of_key_eq side _ _ (by simp) (by simp) same
  rw [join_single, join_single] at joined
  exact ⟨rfl, joined⟩

/-- No field has an overflow channel. -/
theorem key_ne_overflowKey (clear : ClearNames separator schemas) (side other : Section)
    (name : String) (declared : name ∈ (schemas.of side).fieldNames) :
    Flat.key separator side [name] ≠ (ofSchemas separator schemas).overflowKey other := by
  intro same
  exact clear.free side name declared (key_single_injective side other _ _ same).2

/-- Only the path of that very name has the key of a name that the separator is not in. -/
theorem path_eq_of_key_eq (side : Section) (path : List String) (filled : path ≠ [])
    (name : String) (apart : separator.occursIn name = false)
    (same : Flat.key separator side path = Flat.key separator side [name]) : path = [name] := by
  have joined := join_eq_of_key_eq side path [name] filled (by simp) same
  rw [join_single] at joined
  cases path with
  | nil => exact absurd rfl filled
  | cons first rest =>
    cases rest with
    | nil =>
      rw [join_single] at joined
      rw [joined]
    | cons next more =>
      exfalso
      have whole : name.toList = first.toList ++ separator.chars ++
          separator.joinChars ((next :: more).map String.toList) := by
        rw [← joined, Separator.join, String.toList_ofList, List.map_cons,
          Separator.joinChars_cons separator _ _ (by simp)]
      have occurs : separator.chars <:+: name.toList := ⟨_, _, whole.symm⟩
      have notIn : Separator.cut separator.chars name.toList = none := by
        rw [← Option.isNone_iff_eq_none]
        simpa [Separator.occursIn] using apart
      exact (Separator.cut_eq_none_iff separator.nonempty _).mp notIn occurs

/-- The keys of a section's template are its declared names. -/
theorem mem_keys_template_iff (side : Section) (key : Key) :
    key ∈ Entries.keys (schemas.of side).template ↔
      ∃ name ∈ (schemas.of side).fieldNames, key = .text name := by
  rw [Schema.template, Entries.ofWrites, Entries.mem_keys_merge]
  · simp [Entries.keys, eq_comm]
  · intro key member
    obtain ⟨name, -, rfl⟩ := by simpa [Entries.keys] using member
    exact isExact_text name

/-- The template of a section is named. -/
theorem named_template (side : Section) : Named (schemas.of side).template := by
  rw [Schema.template, Entries.ofWrites]
  apply Entries.named_nil.merge
  intro key member
  obtain ⟨name, -, rfl⟩ := by simpa [Entries.keys] using member
  exact ⟨name, rfl⟩

/-- The template of a section gives every declared field null. -/
theorem get?_template (side : Section) (name : String)
    (declared : name ∈ (schemas.of side).fieldNames) :
    Entries.get? (Key.text name) (schemas.of side).template = some .null := by
  rw [Schema.template, Entries.ofWrites]
  apply Entries.get?_merge_of_mem _ (isExact_text name)
  · intro key member
    obtain ⟨other, -, rfl⟩ := by simpa [Entries.keys] using member
    exact isExact_text other
  · exact List.mem_map.mpr ⟨name, declared, rfl⟩
  · intro other member
    obtain ⟨_, -, same⟩ := List.mem_map.mp member
    exact (Prod.mk.inj same).2.symm

/-- There is nothing to say of the fields exactly when the separator is in none of their
names. -/
theorem diagnostics_eq_nil_iff :
    (ofSchemas separator schemas).diagnostics = [] ↔
      ∀ side, ∀ name ∈ (schemas.of side).fieldNames, separator.occursIn name = false := by
  rw [diagnostics, List.map_eq_nil_iff, List.filter_eq_nil_iff]
  constructor
  · intro quiet side name declared
    obtain ⟨field, inSchema, rfl⟩ := List.mem_map.mp declared
    simpa [ofSchemas] using quiet _ (mem_declared separator side field inSchema)
  · intro quiet channel member
    obtain ⟨field, inSchema, same⟩ := (mem_declared_iff channel).mp member
    have silent := quiet channel.side field.name (List.mem_map_of_mem inSchema)
    rw [same]
    simpa [ofSchemas] using silent

end Stepwise.Channels
