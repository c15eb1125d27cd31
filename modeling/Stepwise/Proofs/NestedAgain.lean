import Stepwise.Proofs.LastWrites

/-!
# Flat records made flat again

Making a nested record flat lists its leaves. A record that was nested from flat entries
has the paths of keys as its leaves, and these can be restored, so nesting the list once
more gives the same record, whatever the first entries were. If each of these leads
somewhere and none goes on through another one, the list has the very same entries.
-/

namespace Stepwise.Flat

/-- No entry leads to a place behind the one that another entry leads to. -/
def PrefixFree (separator : Separator) (flat : Flat) : Prop :=
  ∀ first ∈ flat, ∀ second ∈ flat, ∀ side path longer, LeadsTo separator first.1 side path →
    LeadsTo separator second.1 side longer → path <+: longer → path = longer

/-- Places behind one another can be searched for. -/
theorem prefixFree_iff (separator : Separator) (flat : Flat) :
    PrefixFree separator flat ↔
      ∀ first ∈ flat, ∀ second ∈ flat, ∀ one ∈ place? separator first.1,
        ∀ other ∈ place? separator second.1, one.1 = other.1 → one.2 <+: other.2 →
          one.2 = other.2 := by
  constructor
  · rintro free first inFlat second also ⟨side, path⟩ leads ⟨origin, longer⟩ leadsOther same below
    obtain rfl : side = origin := same
    rw [Option.mem_def, place?_eq_some_iff] at leads leadsOther
    exact free first inFlat second also side path longer leads leadsOther below
  · intro free first inFlat second also side path longer leads leadsOther below
    rw [← place?_eq_some_iff] at leads leadsOther
    exact free first inFlat second also (side, path) leads (side, longer) leadsOther rfl below

instance (separator : Separator) (flat : Flat) : Decidable (PrefixFree separator flat) :=
  decidable_of_iff _ (prefixFree_iff separator flat).symm

/-! ## The leaves that a walk lists -/

/-- A leaf value at the end of a path is listed by the walk over a value. -/
theorem mem_leaves_of_below? (path : List String) (value leaf : Value)
    (walkable : Walkable (fun _ => false) value) (reached : below? path value = some leaf)
    (ends : IsLeafValue leaf) : (path, leaf) ∈ leaves (fun _ => false) [] value := by
  induction path generalizing value with
  | nil =>
    obtain rfl := Option.some.inj reached
    cases value with
    | mapping entries => simp [ends entries rfl, leaves]
    | _ => simp [leaves]
  | cons name rest ih =>
    obtain ⟨entries, rfl, filled⟩ := mapping_of_below? _ (by simp) value leaf reached
    obtain ⟨named, below⟩ := (walkable_mapping_iff entries).mp walkable
    rw [below?_mapping, Option.bind_eq_some_iff] at reached
    obtain ⟨next, here, after⟩ := reached
    have member := Entries.mem_of_get? _ (Entries.isExact_text name) next entries here
    have inner := ih next ((walkableEntries_iff entries).mp below _ member) after
    have walked : leaves (fun _ => false) [] (.mapping entries) =
        leavesOfEntries (fun _ => false) [] entries := by
      simp [leaves, filled]
    rw [walked]
    exact mem_leavesOfEntries (fun _ => false) entries named name next member _ inner

/-- The walk over entries lists the leaves that stand there. -/
theorem mem_leavesOfEntries_iff (entries : List (Key × Value)) (walked : WalkedEntries entries)
    (path : List String) (leaf : Value) :
    (path, leaf) ∈ leavesOfEntries (fun _ => false) [] entries ↔ LeafAt entries path leaf := by
  constructor
  · intro member
    have isLeaf := isLeafOf_of_mem _ entries walked.1 walked.2 _ member
    refine ⟨isLeaf.path_ne_nil, isLeaf.reached, ?_⟩
    intro others mapping
    by_contra filled
    exact absurd (isLeaf.stops others mapping filled) (by simp)
  · rintro ⟨filled, reached, ends⟩
    have nonempty : entries ≠ [] := by
      obtain ⟨others, mapping, some⟩ := mapping_of_below? path filled _ leaf reached
      simp_all
    have listed := mem_leaves_of_below? path _ leaf ((walkable_mapping_iff entries).mpr walked)
      reached ends
    simpa [leaves, nonempty] using listed

/-! ## The flat record of what was nested -/

variable {separator : Separator} {flat : Flat} {nested : Nested}

/-- The sections that reflect a flat record are walked over, no mapping staying whole. -/
theorem Reflects.walkable (reflects : Reflects separator flat nested) :
    WalkableSections separator [] nested :=
  ⟨fun side => (reflects.walked side).1, fun side => (reflects.walked side).2⟩

/-- The leaves listed for a section are the entries that stand in it. -/
theorem Reflects.mem_leavesOf_iff (reflects : Reflects separator flat nested) (side : Section)
    (path : List String) (value : Value) :
    (path, value) ∈ leavesOf separator [] side (nested.get side) ↔
      Stands separator flat side path value :=
  (mem_leavesOfEntries_iff _ (reflects.walked side) path value).trans
    (reflects.leaf_iff side path value)

/-- Paths of entries that stand can be restored. -/
theorem Reflects.restorable (reflects : Reflects separator flat nested) (side : Section)
    (leaf : List String × Value)
    (member : leaf ∈ leavesOf separator [] side (nested.get side)) :
    Restorable separator leaf.1 := by
  obtain ⟨_, _, _, _, leads, _⟩ := (reflects.mem_leavesOf_iff side leaf.1 leaf.2).mp member
  exact leads.restorable

/-- A record with two sections is read as its flat form. -/
theorem ofValue_toValue (separator : Separator) (nested : Nested) :
    ∃ record, Holds record nested ∧
      ofValue separator [] nested.toValue = .ok (ofRecord separator [] record) :=
  ⟨_, List.Perm.refl _, rfl⟩

/-- The flat record of what was nested has the entries that stand, under their keys. -/
theorem Reflects.mem_writes_iff (reflects : Reflects separator flat nested)
    (entry : String × Value) :
    entry ∈ writes separator [] nested ↔
      ∃ side path, entry.1 = key separator side path ∧
        Stands separator flat side path entry.2 := by
  obtain ⟨name, value⟩ := entry
  simp only [writes, List.mem_flatMap, List.mem_map, Prod.mk.injEq, Prod.exists,
    reflects.mem_leavesOf_iff]
  constructor
  · rintro ⟨side, -, path, held, stands, rfl, rfl⟩
    exact ⟨side, path, rfl, stands⟩
  · rintro ⟨side, path, rfl, stands⟩
    exact ⟨side, side.mem_all, path, value, stands, rfl, rfl⟩

/-- What stands is one of the entries. -/
theorem Stands.mem {side : Section} {path : List String} {value : Value}
    (stands : Stands separator flat side path value) :
    (key separator side path, value) ∈ flat := by
  obtain ⟨before, name, after, rfl, leads, -⟩ := stands
  simp [leads.eq_key]

/-- Where no key occurs twice and no place is behind another one, every entry stands. -/
theorem stands_of_mem (distinct : (Entries.keys flat).Nodup)
    (prefixFree : PrefixFree separator flat) (entry : String × Value) (member : entry ∈ flat)
    (side : Section) (path : List String) (leads : LeadsTo separator entry.1 side path) :
    Stands separator flat side path entry.2 := by
  obtain ⟨before, after, rfl⟩ := List.append_of_mem member
  refine ⟨before, entry.1, after, rfl, leads, ?_⟩
  intro later inAfter other leadsLater
  have inFlat : later ∈ before ++ entry :: after := by simp [inAfter]
  have apart : other ≠ path := by
    rintro rfl
    have sameKey : entry.1 = later.1 := leads.eq_key.trans leadsLater.eq_key.symm
    have behind : entry.1 ∈ Entries.keys after := sameKey ▸ List.mem_map_of_mem inAfter
    rw [Entries.keys, List.map_append, List.map_cons] at distinct
    exact (List.nodup_cons.mp distinct.of_append_right).1 behind
  constructor
  · intro above
    exact apart (prefixFree later inFlat entry member side other path leadsLater leads above)
  · intro below
    exact apart (prefixFree entry member later inFlat side path other leads leadsLater below).symm

/-- A nested record made from a flat one of leaf values has a flat form that is nested to the
very same record. If the entries have different keys, all of them lead somewhere and none
goes on through another one, that form is the flat record itself, but for the order.

Proof: the leaves of the nested record are the entries that stand, so their paths are what
keys split into and can be restored; the round trip of records with restorable leaves
gives the record back. Where nothing collides every entry stands, and two flat records
without repeated keys that have the same entries differ in their order only. -/
theorem flat_of_nested (separator : Separator) (flat : Flat)
    (leafValues : ∀ entry ∈ flat, IsLeafValue entry.2) :
    ∃ nested again, nestValue separator (.ofFields flat) = .ok nested ∧
      ofValue separator [] nested.toValue = .ok again ∧
      nestValue separator (.ofFields again) = .ok nested ∧
      ((Entries.keys flat).Nodup →
        (∀ entry ∈ flat, ∃ side path, LeadsTo separator entry.1 side path) →
        PrefixFree separator flat → again.Perm flat) := by
  have reflects := reflects_toNested separator flat leafValues
  obtain ⟨record, holds, read⟩ := ofValue_toValue separator (toNested separator flat)
  have written := ofRecord_of_restorable reflects.walkable record holds reflects.restorable
  refine ⟨toNested separator flat, _, nestValue_ofFields separator flat, read, ?_, ?_⟩
  · rw [nestValue_ofFields, toNested_of_restorable reflects.walkable record holds
      reflects.restorable]
  · intro distinct valid prefixFree
    rw [written]
    have againDistinct := nodup_keys_writes reflects.walkable reflects.restorable
    refine (List.perm_ext_iff_of_nodup againDistinct.of_map distinct.of_map).mpr ?_
    intro entry
    rw [reflects.mem_writes_iff]
    constructor
    · rintro ⟨side, path, sameKey, stands⟩
      have member := stands.mem
      rwa [← sameKey] at member
    · intro member
      obtain ⟨side, path, leads⟩ := valid entry member
      exact ⟨side, path, leads.eq_key,
        stands_of_mem distinct prefixFree entry member side path leads⟩

end Stepwise.Flat
