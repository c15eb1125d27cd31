import Mathlib.Data.List.Nodup
import Stepwise.Held
import Stepwise.Proofs.Entries

/-!
# Values in a store

A located value is a value each of whose mappings has an address. It is stored when the
store has, at each of these addresses, the items of the mapping there. A stored value
whose addresses all differ is read back as it is, since no mapping lies in itself then.

Holding a value locates it at new addresses and leaves the store before them alone.
-/

namespace Stepwise

/-- A value with an address for each of its mappings. -/
inductive Located where
  | plain (value : Value) (whole : value.entries? = none)
  | mapping (address : Nat) (entries : List (Key × Located))

/-- The address of a mapping, with its entries. -/
abbrev Node : Type := Nat × List (Key × Located)

namespace Located

/-- A located value as it stands under a key. -/
def item : Located → Item
  | .plain value _ => .plain value
  | .mapping address _ => .held address

/-- Entries as they stand in the mapping that holds them. -/
def items (entries : List (Key × Located)) : List (Key × Item) :=
  entries.map fun entry => (entry.1, entry.2.item)

mutual

/-- The value without the addresses. -/
def value : Located → Value
  | .plain value _ => value
  | .mapping _ entries => .mapping (values entries)

/-- Entries without the addresses. -/
def values : List (Key × Located) → List (Key × Value)
  | [] => []
  | (key, part) :: rest => (key, value part) :: values rest

end

mutual

/-- The mappings of a located value, outer ones first. -/
def nodes : Located → List Node
  | .plain .. => []
  | .mapping address entries => (address, entries) :: nodesOf entries

/-- The mappings of entries. -/
def nodesOf : List (Key × Located) → List Node
  | [] => []
  | (_, part) :: rest => nodes part ++ nodesOf rest

end

theorem values_eq_map (entries : List (Key × Located)) :
    values entries = entries.map fun entry => (entry.1, entry.2.value) := by
  induction entries with
  | nil => rfl
  | cons entry rest ih => rw [values, ih, List.map_cons]

@[simp] theorem nodesOf_append (first second : List (Key × Located)) :
    nodesOf (first ++ second) = nodesOf first ++ nodesOf second := by
  induction first with
  | nil => rfl
  | cons entry rest ih => simp [nodesOf, ih]

end Located

open Located (items nodesOf)

/-- The addresses of mappings. -/
def addresses (nodes : List Node) : List Nat := nodes.map Prod.fst

@[simp] theorem addresses_cons (node : Node) (rest : List Node) :
    addresses (node :: rest) = node.1 :: addresses rest := rfl

@[simp] theorem addresses_append (first second : List Node) :
    addresses (first ++ second) = addresses first ++ addresses second := List.map_append

/-- Every mapping is at its address. -/
def Stored (store : Store) (nodes : List Node) : Prop :=
  ∀ node ∈ nodes, store[node.1]? = some (items node.2)

/-- A store that has mappings, each at another address. -/
structure Forest (store : Store) (nodes : List Node) : Prop where
  stored : Stored store nodes
  distinct : (addresses nodes).Nodup

variable {store : Store} {nodes : List Node}

/-- A stored mapping's address is in the store. -/
theorem Stored.lt_length (stored : Stored store nodes) (address : Nat)
    (member : address ∈ addresses nodes) : address < store.length := by
  obtain ⟨node, isNode, rfl⟩ := List.mem_map.mp member
  exact (List.getElem?_eq_some_iff.mp (stored node isNode)).1

/-- Mappings that are stored stay so where their addresses are left alone. -/
theorem Stored.of_agree {after : Store} (stored : Stored store nodes)
    (agree : ∀ address ∈ addresses nodes, after[address]? = store[address]?) :
    Stored after nodes := by
  intro node member
  rw [agree node.1 (List.mem_map_of_mem member)]
  exact stored node member

/-- Mappings that are stored stay so while the store grows. -/
theorem Stored.append (stored : Stored store nodes) (more : Store) :
    Stored (store ++ more) nodes :=
  stored.of_agree fun address member =>
    List.getElem?_append_left (stored.lt_length address member)

theorem stored_append_iff {first second : List Node} :
    Stored store (first ++ second) ↔ Stored store first ∧ Stored store second := by
  simp only [Stored, List.mem_append, or_imp, forall_and]

theorem stored_cons_iff {node : Node} :
    Stored store (node :: nodes) ↔ store[node.1]? = some (items node.2) ∧ Stored store nodes := by
  simp [Stored]

/-- A stored mapping is found at its address. -/
theorem Store.mappingAt_of_stored {address : Nat} {entries : List (Key × Located)}
    (stored : store[address]? = some (items entries)) :
    store.mappingAt address = items entries := by
  rw [mappingAt, stored, Option.getD_some]

/-! ## Reading back -/

mutual

/-- A stored value is read back down to any depth that has room for all its mappings. -/
theorem Store.valueTo_item (store : Store) (depth : Nat) :
    ∀ located : Located, Stored store located.nodes → located.nodes.length ≤ depth →
      store.valueTo depth located.item = located.value
  | .plain .., _, _ => by cases depth <;> rfl
  | .mapping address entries, stored, room => by
    obtain ⟨here, below⟩ := stored_cons_iff.mp stored
    obtain ⟨less, rfl⟩ : ∃ less, depth = less + 1 := ⟨depth - 1, by
      rw [Located.nodes, List.length_cons] at room
      omega⟩
    have inner := Store.map_valueTo_items store less entries below
      (by simpa [Located.nodes] using room)
    rw [Located.item, valueTo, mappingAt_of_stored here, inner, Located.value]

/-- Stored entries are read back. -/
theorem Store.map_valueTo_items (store : Store) (depth : Nat) :
    ∀ entries : List (Key × Located), Stored store (nodesOf entries) →
      (nodesOf entries).length ≤ depth →
      (items entries).map (fun entry => (entry.1, store.valueTo depth entry.2)) =
        Located.values entries
  | [], _, _ => rfl
  | (key, part) :: rest, stored, room => by
    obtain ⟨first, later⟩ := stored_append_iff.mp stored
    rw [nodesOf, List.length_append] at room
    have here := Store.valueTo_item store depth part first (by omega)
    have behind := Store.map_valueTo_items store depth rest later (by omega)
    rw [items] at behind ⊢
    simp only [List.map_cons, here, behind, Located.values]

end

/-- There are no more mappings with addresses of their own than the store has. -/
theorem Forest.length_le (forest : Forest store nodes) : nodes.length ≤ store.length := by
  have within : addresses nodes ⊆ List.range store.length := fun address member =>
    List.mem_range.mpr (forest.stored.lt_length address member)
  have fewer := (List.subperm_of_subset forest.distinct within).length_le
  simpa [addresses] using fewer

/-- A value is read back from a store in which its mappings have addresses of their own. -/
theorem Forest.value_item {located : Located} (forest : Forest store located.nodes) :
    store.value located.item = located.value :=
  store.valueTo_item store.length located forest.stored forest.length_le

/-- The entries of a mapping are read back. -/
theorem Forest.entries {address : Nat} {entries : List (Key × Located)}
    (forest : Forest store ((address, entries) :: nodesOf entries)) :
    store.entries address = Located.values entries := by
  obtain ⟨here, below⟩ := stored_cons_iff.mp forest.stored
  have room := forest.length_le
  rw [List.length_cons] at room
  rw [Store.entries, Store.mappingAt_of_stored here]
  exact store.map_valueTo_items store.length entries below (by omega)

/-- A forest stays one behind what it had. -/
theorem Forest.of_prefix {after : Store} (forest : Forest store nodes) (kept : store <+: after) :
    Forest after nodes := by
  obtain ⟨more, rfl⟩ := kept
  exact ⟨forest.stored.append more, forest.distinct⟩

/-- Some of the mappings of a forest are a forest. -/
theorem Forest.sublist {others : List Node} (forest : Forest store nodes)
    (among : others.Sublist nodes) : Forest store others :=
  ⟨fun node member => forest.stored node (among.subset member),
    forest.distinct.sublist (among.map Prod.fst)⟩

/-- The mappings of a forest in another order. -/
theorem Forest.perm {others : List Node} (forest : Forest store nodes)
    (order : nodes.Perm others) : Forest store others :=
  ⟨fun node member => forest.stored node (order.mem_iff.mpr member),
    (order.map Prod.fst).nodup_iff.mp forest.distinct⟩

/-! ## Holding -/

/-- A store after new mappings were added behind those that it had. -/
structure Grown (store after : Store) (nodes : List Node) : Prop where
  kept : store <+: after
  forest : Forest after nodes
  behind : ∀ address ∈ addresses nodes, store.length ≤ address

/-- Nothing is added. -/
theorem Grown.refl (store : Store) : Grown store store [] :=
  ⟨List.prefix_rfl, ⟨by simp [Stored], by simp [addresses]⟩, by simp [addresses]⟩

/-- A forest stays one while the store grows, with what is added. -/
theorem Forest.grown {after : Store} {added : List Node} (forest : Forest store nodes)
    (grown : Grown store after added) : Forest after (nodes ++ added) := by
  obtain ⟨more, rfl⟩ := grown.kept
  refine ⟨stored_append_iff.mpr ⟨forest.stored.append more, grown.forest.stored⟩, ?_⟩
  rw [addresses_append]
  refine forest.distinct.append grown.forest.distinct fun address before added => ?_
  exact absurd (forest.stored.lt_length address before)
    (Nat.not_lt.mpr (grown.behind address added))

/-- What is added in two steps. -/
theorem Grown.trans {middle after : Store} {first second : List Node}
    (grown : Grown store middle first) (further : Grown middle after second) :
    Grown store after (first ++ second) := by
  refine ⟨grown.kept.trans further.kept, grown.forest.grown further, ?_⟩
  intro address member
  rw [addresses_append, List.mem_append] at member
  rcases member with inFirst | inSecond
  · exact grown.behind address inFirst
  · exact Nat.le_trans grown.kept.length_le (further.behind address inSecond)

/-- A mapping is added behind those that it holds. -/
theorem Grown.mapping {after : Store} {entries : List (Key × Located)}
    (grown : Grown store after (nodesOf entries)) :
    Grown store (after ++ [items entries]) (Located.mapping after.length entries).nodes := by
  have alone : Grown after (after ++ [items entries]) [(after.length, entries)] :=
    ⟨List.prefix_append _ _, ⟨by simp [Stored], by simp [addresses]⟩, by simp [addresses]⟩
  have both := grown.trans alone
  exact ⟨both.kept, both.forest.perm (List.perm_append_singleton _ _), fun address member =>
    both.behind address (((List.perm_append_singleton _ _).map Prod.fst).mem_iff.mpr member)⟩

mutual

/-- A held value is located behind what the store had. -/
theorem exists_located_hold (store : Store) :
    ∀ value : Value, ∃ located : Located, (store.hold value).1 = located.item ∧
      located.value = value ∧ Grown store (store.hold value).2 located.nodes
  | .mapping entries => by
    obtain ⟨parts, held, same, grown⟩ := exists_located_holdEntries store entries
    refine ⟨.mapping (store.holdEntries entries).2.length parts, rfl, ?_, ?_⟩
    · rw [Located.value, same]
    · dsimp only [Store.hold]
      rw [held]
      exact grown.mapping
  | .null => ⟨.plain .null rfl, rfl, rfl, .refl store⟩
  | .bool b => ⟨.plain (.bool b) rfl, rfl, rfl, .refl store⟩
  | .int n => ⟨.plain (.int n) rfl, rfl, rfl, .refl store⟩
  | .real x => ⟨.plain (.real x) rfl, rfl, rfl, .refl store⟩
  | .text s => ⟨.plain (.text s) rfl, rfl, rfl, .refl store⟩
  | .list parts => ⟨.plain (.list parts) rfl, rfl, rfl, .refl store⟩
  | .tuple parts => ⟨.plain (.tuple parts) rfl, rfl, rfl, .refl store⟩
  | .set frozen members => ⟨.plain (.set frozen members) rfl, rfl, rfl, .refl store⟩
  | .replacement held => ⟨.plain (.replacement held) rfl, rfl, rfl, .refl store⟩

/-- Held entries are located behind what the store had. -/
theorem exists_located_holdEntries (store : Store) :
    ∀ entries : List (Key × Value), ∃ parts : List (Key × Located),
      (store.holdEntries entries).1 = items parts ∧ Located.values parts = entries ∧
        Grown store (store.holdEntries entries).2 (nodesOf parts)
  | [] => ⟨[], rfl, rfl, .refl store⟩
  | (key, value) :: rest => by
    obtain ⟨first, held, same, grown⟩ := exists_located_hold store value
    obtain ⟨others, heldRest, sameRest, grownRest⟩ :=
      exists_located_holdEntries (store.hold value).2 rest
    refine ⟨(key, first) :: others, ?_, ?_, grown.trans grownRest⟩
    · dsimp only [Store.holdEntries]
      rw [held, heldRest]
      rfl
    · rw [Located.values, same, sameRest]

end

/-- A located flat record as it is held. -/
def heldItems (flat : List (String × Located)) : List (String × Item) :=
  flat.map fun entry => (entry.1, entry.2.item)

/-- A located flat record without the addresses. -/
def flatValues (flat : List (String × Located)) : Flat :=
  flat.map fun entry => (entry.1, entry.2.value)

/-- The mappings of a located flat record. -/
def flatNodes (flat : List (String × Located)) : List Node :=
  flat.flatMap fun entry => entry.2.nodes

theorem flatNodes_append (first second : List (String × Located)) :
    flatNodes (first ++ second) = flatNodes first ++ flatNodes second :=
  List.flatMap_append

/-- A held flat record is located behind what the store had. -/
theorem exists_located_holdFlat (store : Store) (flat : Flat) :
    ∃ located, (store.holdFlat flat).1 = heldItems located ∧ flatValues located = flat ∧
      Grown store (store.holdFlat flat).2 (flatNodes located) := by
  induction flat generalizing store with
  | nil => exact ⟨[], rfl, rfl, .refl store⟩
  | cons entry rest ih =>
    obtain ⟨key, value⟩ := entry
    obtain ⟨first, held, same, grown⟩ := exists_located_hold store value
    obtain ⟨others, heldRest, sameRest, grownRest⟩ := ih (store.hold value).2
    refine ⟨(key, first) :: others, ?_, ?_, grown.trans grownRest⟩
    · dsimp only [Store.holdFlat]
      rw [held, heldRest]
      rfl
    · rw [flatValues, List.map_cons, same]
      exact congrArg _ sameRest

end Stepwise
