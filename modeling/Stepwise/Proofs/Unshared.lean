import Stepwise.Proofs.LeftBehind
import Stepwise.Proofs.NestedAgain

/-!
# Flat records whose mappings are not shared

A flat record of leaves is nested by last writes as long as no mapping is held under two of its
keys, and the nested record then has a flat form from which it is nested again. What is written
below a mapping that is held under two keys is found under both of them.

Nesting leaves in the mappings of a flat record what was written below them. So even where none
is shared, the same flat record may be nested to something else the next time.
-/

namespace Stepwise

/-- The address of the mapping that an item is. -/
def Item.address? : Item → Option Nat
  | .plain _ => none
  | .held address => some address

namespace Store

open Flat (IsLeafValue WalkedEntries LeafAt Stands LeadsTo PrefixFree below? nestValue ofValue)

variable {store : Store} {flat : List (String × Item)}

/-- An item that a walk does not go into: a value that is no mapping, or an empty mapping. -/
def IsLeaf (store : Store) : Item → Prop
  | .plain value => value.entries? = none
  | .held address => store[address]? = some []

/-- A flat record of leaves that holds no mapping under two keys. -/
structure Unshared (store : Store) (flat : List (String × Item)) : Prop where
  leaves : ∀ entry ∈ flat, store.IsLeaf entry.2
  apart : (flat.filterMap fun entry => entry.2.address?).Nodup

/-- A held flat record with its values. -/
def valuesOf (store : Store) (flat : List (String × Item)) : Flat :=
  flat.map fun entry => (entry.1, store.value entry.2)

/-- A value that is no mapping is read as it is. -/
theorem value_plain (store : Store) (value : Value) : store.value (.plain value) = value := by
  rw [Store.value]
  cases store.length <;> rfl

/-- An empty mapping is read as one. -/
theorem value_of_empty (store : Store) (address : Nat) (empty : store[address]? = some []) :
    store.value (.held address) = .mapping [] := by
  rw [value]
  cases store.length with
  | zero => rfl
  | succ depth => rw [valueTo, mappingAt, empty, Option.getD_some, List.map_nil]

/-- What a leaf is read as is a leaf. -/
theorem isLeafValue_of_isLeaf (item : Item) (isLeaf : store.IsLeaf item) :
    IsLeafValue (store.value item) := by
  intro entries same
  cases item with
  | plain value =>
    have whole : value.entries? = none := isLeaf
    rw [value_plain] at same
    rw [same] at whole
    cases whole
  | held address =>
    rw [store.value_of_empty address isLeaf] at same
    exact (Value.mapping.inj same).symm

/-- Leaves are located where they are held.

Proof: by induction on the entries. A mapping among them is empty, so it brings one address. -/
theorem exists_located_of_leaves (store : Store) (flat : List (String × Item))
    (leaves : ∀ entry ∈ flat, store.IsLeaf entry.2) :
    ∃ located, flat = heldItems located ∧ store.valuesOf flat = flatValues located ∧
      Stored store (flatNodes located) ∧
      addresses (flatNodes located) = flat.filterMap fun entry => entry.2.address? := by
  induction flat with
  | nil => exact ⟨[], rfl, rfl, by simp [flatNodes, Stored], rfl⟩
  | cons entry rest ih =>
    obtain ⟨key, item⟩ := entry
    obtain ⟨isLeaf, others⟩ := List.forall_mem_cons.mp leaves
    obtain ⟨located, rfl, values, stored, held⟩ := ih others
    cases item with
    | plain value =>
      refine ⟨(key, .plain value isLeaf) :: located, rfl, ?_, stored, held⟩
      rw [valuesOf, List.map_cons, store.value_plain]
      exact congrArg _ values
    | held address =>
      have empty : store[address]? = some [] := isLeaf
      refine ⟨(key, .mapping address []) :: located, rfl, ?_, ?_, ?_⟩
      · rw [valuesOf, List.map_cons, store.value_of_empty address empty]
        exact congrArg _ values
      · exact stored_cons_iff.mpr ⟨empty, stored⟩
      · exact congrArg (address :: ·) held

/-- Where no mapping is shared a flat record of leaves is nested in the store as its values
are. -/
theorem Unshared.nested_nest (unshared : store.Unshared flat) (separator : Separator) :
    (store.nest separator flat).nested store.length =
      Flat.toNested separator (store.valuesOf flat) := by
  obtain ⟨located, rfl, values, stored, held⟩ :=
    store.exists_located_of_leaves flat unshared.leaves
  have forest : Forest store (flatNodes located ++ []) := by
    rw [List.append_nil]
    exact ⟨stored, held ▸ unshared.apart⟩
  rw [forest.nested_nest separator located, values]

/-- The values of leaves are leaves. -/
theorem Unshared.leafValues (unshared : store.Unshared flat) :
    ∀ entry ∈ store.valuesOf flat, IsLeafValue entry.2 := by
  intro entry member
  obtain ⟨⟨key, item⟩, inFlat, rfl⟩ := List.mem_map.mp member
  exact isLeafValue_of_isLeaf item (unshared.leaves _ inFlat)

/-- Nesting a flat record of leaves none of whose mappings is shared leaves both sections. Their
leaves are the entries that no later one of the section has touched, each with its value;
nothing is found in a section but on the way to such an entry.

Proof: nothing is written below a mapping but through the one key that it is held under, so the
record is nested as its values are. -/
theorem leaves_of_nest (separator : Separator) (store : Store) (flat : List (String × Item))
    (unshared : store.Unshared flat) :
    ∃ nested, (store.nest separator flat).nested store.length = nested ∧
      nestValue separator (.ofFields (store.valuesOf flat)) = .ok nested ∧
      (∀ side, below? [side.name] nested.toValue = some (.mapping (nested.get side))) ∧
      (∀ side, WalkedEntries (nested.get side)) ∧
      (∀ side path value, LeafAt (nested.get side) path value ↔
        Stands separator (store.valuesOf flat) side path value) ∧
      ∀ side path found, path ≠ [] → below? path (.mapping (nested.get side)) = some found →
        ∃ rest value, Stands separator (store.valuesOf flat) side (path ++ rest) value := by
  obtain ⟨nested, made, rest⟩ :=
    Flat.leaves_by_last_writes separator (store.valuesOf flat) unshared.leafValues
  refine ⟨nested, ?_, made, rest⟩
  rw [Flat.nestValue_ofFields] at made
  rw [unshared.nested_nest separator, Except.ok.inj made]

/-- An entry above another one takes its place, and an empty mapping gives way to what is
written below it. -/
theorem leaves_of_nest_colliding :
    let store : Store := [[]]
    let flat : List (String × Item) := [("input_a_b", .plain (.int 1)), ("input_c", .held 0),
      ("input_a", .plain (.int 2)), ("input_c__d", .plain (.int 3)), ("input_", .plain (.int 4))]
    let nested := (store.nest .underscore flat).nested store.length
    store.Unshared flat ∧ LeafAt (nested.get .input) ["a"] (.int 2) ∧
      LeafAt (nested.get .input) ["c", "", "d"] (.int 3) ∧
      ∀ value, ¬ LeafAt (nested.get .input) ["a", "b"] value := by
  intro store flat nested
  have unshared : store.Unshared flat :=
    ⟨by simp [flat, store, IsLeaf, Value.entries?], by simp [flat, Item.address?]⟩
  obtain ⟨_, rfl, -, -, -, leaf_iff, -⟩ := leaves_of_nest .underscore store flat unshared
  have values : store.valuesOf flat = [("input_a_b", .int 1), ("input_c", .mapping []),
      ("input_a", .int 2), ("input_c__d", .int 3), ("input_", .int 4)] := rfl
  have nowhere : ∀ other, ¬ LeadsTo .underscore "input_" .input other := by
    intro other leads
    have found := (Flat.place?_eq_some_iff _ _ _ _).mpr leads
    rw [show Flat.place? .underscore "input_" = none by decide +kernel] at found
    cases found
  have deeper : ∀ other, LeadsTo .underscore "input_c__d" .input other →
      other = ["c", "", "d"] := by
    intro other leads
    have found := (Flat.place?_eq_some_iff _ _ _ _).mpr leads
    rw [show Flat.place? .underscore "input_c__d" = some (.input, ["c", "", "d"])
      by decide +kernel] at found
    simp_all
  have second : LeafAt (nested.get .input) ["a"] (.int 2) := by
    rw [leaf_iff, values]
    refine ⟨[("input_a_b", .int 1), ("input_c", .mapping [])], "input_a",
      [("input_c__d", .int 3), ("input_", .int 4)], rfl, by decide +kernel, ?_⟩
    intro later member other leads
    rcases List.mem_pair.mp member with rfl | rfl
    · obtain rfl := deeper other leads
      exact ⟨by decide, by decide⟩
    · exact absurd leads (nowhere other)
  refine ⟨unshared, second, ?_, ?_⟩
  · rw [leaf_iff, values]
    refine ⟨[("input_a_b", .int 1), ("input_c", .mapping []), ("input_a", .int 2)],
      "input_c__d", [("input_", .int 4)], rfl, by decide +kernel, ?_⟩
    intro later member other leads
    obtain rfl := List.mem_singleton.mp member
    exact absurd leads (nowhere other)
  · rintro value ⟨-, reached, -⟩
    have inside := (Flat.below?_append ["a"] ["b"] _ _ second.reached).symm.trans reached
    cases inside

/-- One empty mapping under two keys: what is written below the first one is a leaf below the
second one as well, where no entry leads. -/
theorem leaves_of_shared :
    let store : Store := [[]]
    let flat : List (String × Item) :=
      [("input_a", .held 0), ("input_b", .held 0), ("input_a_x", .plain (.int 1))]
    (∀ entry ∈ flat, store.IsLeaf entry.2) ∧ (flat.map Prod.fst).Nodup ∧
      LeafAt (((store.nest .underscore flat).nested store.length).get .input) ["b", "x"] (.int 1) ∧
      ∀ value, ¬ Stands .underscore (store.valuesOf flat) .input ["b", "x"] value := by
  intro store flat
  have places : Flat.place? .underscore "input_a" = some (.input, ["a"]) ∧
      Flat.place? .underscore "input_b" = some (.input, ["b"]) ∧
      Flat.place? .underscore "input_a_x" = some (.input, ["a", "x"]) := by decide +kernel
  refine ⟨by simp [flat, store, IsLeaf, Value.entries?], by simp [flat], ⟨by simp, ?_, nofun⟩, ?_⟩
  · simp only [nest, flat, List.foldl, place, places]
    rfl
  · rintro value ⟨before, key, after, parts, leads, -⟩
    have member : (key, value) ∈ store.valuesOf flat := parts ▸ List.mem_append_right _
      List.mem_cons_self
    have found := (Flat.place?_eq_some_iff _ _ _ _).mpr leads
    obtain ⟨⟨name, item⟩, inFlat, same⟩ := List.mem_map.mp member
    obtain ⟨rfl, -⟩ := Prod.mk.inj same
    simp only [flat, List.mem_cons, Prod.mk.injEq, List.not_mem_nil, or_false] at inFlat
    rcases inFlat with ⟨rfl, -⟩ | ⟨rfl, -⟩ | ⟨rfl, -⟩ <;> simp [places] at found

/-- The record nested from a flat one of leaves none of whose mappings is shared has a flat form,
and held anew this is nested to the very same record. If the entries have different keys, all
of them lead somewhere and none goes on through another one, that form is the flat record itself,
but for the order. -/
theorem flat_of_nest (separator : Separator) (store : Store) (flat : List (String × Item))
    (unshared : store.Unshared flat) :
    ∃ nested again, (store.nest separator flat).nested store.length = nested ∧
      ofValue separator [] nested.toValue = .ok again ∧
      (∀ others : Store,
        ((others.holdFlat again).2.nest separator (others.holdFlat again).1).nested
          (others.holdFlat again).2.length = nested) ∧
      ((flat.map Prod.fst).Nodup →
        (∀ entry ∈ flat, ∃ side path, LeadsTo separator entry.1 side path) →
        PrefixFree separator (store.valuesOf flat) → again.Perm (store.valuesOf flat)) := by
  obtain ⟨nested, again, made, read, back, same⟩ :=
    Flat.flat_of_nested separator (store.valuesOf flat) unshared.leafValues
  rw [Flat.nestValue_ofFields] at made back
  refine ⟨nested, again, ?_, read, fun others => ?_, fun distinct valid prefixFree => ?_⟩
  · rw [unshared.nested_nest separator, Except.ok.inj made]
  · obtain ⟨located, held, values, grown⟩ := exists_located_holdFlat others again
    have forest : Forest (others.holdFlat again).2 (flatNodes located ++ []) := by
      rw [List.append_nil]
      exact grown.forest
    rw [held, forest.nested_nest separator located, values, Except.ok.inj back]
  · have keys : Entries.keys (store.valuesOf flat) = flat.map Prod.fst := by
      simp [Entries.keys, valuesOf, Function.comp_def]
    refine same (keys ▸ distinct) (fun entry member => ?_) prefixFree
    obtain ⟨held, inFlat, rfl⟩ := List.mem_map.mp member
    exact valid held inFlat

/-- Keys with empty names in the middle and at the end come back as they were, and so does an
empty mapping. -/
theorem flat_of_nest_apart :
    let store : Store := [[]]
    let flat : List (String × Item) := [("output_b__", .held 0), ("input_a_b", .plain (.int 1)),
      ("input_a_", .plain (.int 2))]
    store.Unshared flat ∧ ∃ again,
      ofValue .underscore [] ((store.nest .underscore flat).nested store.length).toValue =
        .ok again ∧
      again.Perm [("output_b__", .mapping []), ("input_a_b", .int 1), ("input_a_", .int 2)] := by
  intro store flat
  have unshared : store.Unshared flat :=
    ⟨by simp [flat, store, IsLeaf, Value.entries?], by simp [flat, Item.address?]⟩
  obtain ⟨_, again, rfl, read, -, same⟩ := flat_of_nest .underscore store flat unshared
  have valid : ∀ entry ∈ flat, ∃ side path, LeadsTo .underscore entry.1 side path := by
    simp only [flat, List.forall_mem_cons]
    exact ⟨⟨.output, ["b", "", ""], by decide +kernel⟩, ⟨.input, ["a", "b"], by decide +kernel⟩,
      ⟨.input, ["a", ""], by decide +kernel⟩, by simp⟩
  exact ⟨unshared, again, read, same (by simp [flat]) valid (by decide +kernel)⟩

/-- A flat record that is nested for the second time gives another record than the one that is
nested from the first one's flat form: what was written below the mapping that was replaced is in
the mapping that has replaced it. -/
theorem nest_twice_differs :
    let store : Store := [[], []]
    let flat : List (String × Item) :=
      [("input_a", .held 0), ("input_a_b_c", .plain (.int 1)), ("input_a_b", .held 1)]
    let after := store.nest .underscore flat
    store.Unshared flat ∧ ∃ again,
      ofValue .underscore [] (after.nested store.length).toValue = .ok again ∧
      nestValue .underscore (.ofFields again) ≠
        .ok ((after.nest .underscore flat).nested after.length) := by
  intro store flat after
  refine ⟨⟨by simp [flat, store, IsLeaf, Value.entries?], by simp [flat, Item.address?]⟩, _, rfl,
    fun same => ?_⟩
  have leaves := congrArg (fun made => made.toOption.map fun nested =>
    (Flat.leaves (fun _ => false) [] nested.toValue).map Prod.fst) same
  revert leaves
  decide +kernel

end Store
end Stepwise
