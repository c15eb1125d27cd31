import Stepwise.Proofs.Placing

/-!
# Records that survive being flat

A record that is made flat and nested again comes back exactly when every path to one of
its leaves can be restored: it is not one empty name, and its names stay apart when they
are joined. Other paths do not come back at all. What a flat key splits into stays
apart, so a path that does not can only be found again inside a mapping that stays
whole, and there the walk would not have gone.
-/

namespace Stepwise.Flat

open Entries (Named isExact_of_lawful)

/-- The flat entries of both sections before they are written. -/
def writes (separator : Separator) (whole : List String) (state : Nested) : Flat :=
  Section.all.flatMap fun side =>
    (leavesOf separator whole side (state.get side)).map
      fun leaf => (key separator side leaf.1, leaf.2)

/-- A record that holds two sections of entries and nothing else, in either order. -/
def Holds (record : List (Key × Value)) (state : Nested) : Prop :=
  record.Perm [(.text Section.input.name, .mapping state.input),
    (.text Section.output.name, .mapping state.output)]

/-- No section is held twice. -/
theorem Holds.distinct {record : List (Key × Value)} {state : Nested}
    (holds : Holds record state) : (Entries.keys record).Nodup := by
  refine (holds.map Prod.fst).nodup_iff.mpr ?_
  simp [Section.name]

/-- A record holds the entries of a section under its name. -/
theorem Holds.get?_eq {record : List (Key × Value)} {state : Nested}
    (holds : Holds record state) (side : Section) :
    Entries.get? (Key.text side.name) record = some (.mapping (state.get side)) := by
  rw [Entries.get?_perm _ (Entries.isExact_text side.name) _ _ holds.distinct holds]
  cases side <;> rfl

/-- A record's section is read as the entries that it holds. -/
theorem Holds.sectionOf_eq {record : List (Key × Value)} {state : Nested}
    (holds : Holds record state) (side : Section) :
    sectionOf record side = .mapping (state.get side) := by
  rw [sectionOf, holds.get?_eq side, Option.getD_some]

/-- Two nested entries hold rearranged sections if their records are rearranged. -/
theorem Holds.section_rearranged {record : List (Key × Value)} {state : Nested}
    (holds : Holds record state) (other : Nested)
    (related : (Value.mapping record).Rearranged other.toValue) (side : Section) :
    (Value.mapping (state.get side)).Rearranged (.mapping (other.get side)) := by
  let sections := [(Key.text Section.input.name, Value.mapping other.input),
    (Key.text Section.output.name, .mapping other.output)]
  have there : Entries.get? (Key.text side.name) sections = some (.mapping (other.get side)) := by
    cases side <;> rfl
  have read := Entries.get?_rearranged side.name record sections holds.distinct related
  rw [holds.get?_eq side, there] at read
  cases read with
  | some values => exact values

/-- Only the leaves of both sections are written. -/
theorem ofRecord_of_holds (separator : Separator) (whole : List String)
    (record : List (Key × Value)) (state : Nested) (holds : Holds record state) :
    ofRecord separator whole record = Entries.ofWrites (writes separator whole state) := by
  have sections : (fun side => ofSection separator whole side (sectionOf record side)) =
      fun side => (leavesOf separator whole side (state.get side)).map
        fun leaf => (key separator side leaf.1, leaf.2) := by
    funext side
    rw [holds.sectionOf_eq side, ofSection_mapping]
  rw [ofRecord, sections, writes]

/-- Sections whose walked mappings have texts as keys, each once. -/
structure WalkableSections (separator : Separator) (whole : List String) (state : Nested) :
    Prop where
  named : ∀ side, Named (state.get side)
  below : ∀ side, WalkableEntries (staysWhole separator whole side) (state.get side)

variable {separator : Separator} {whole : List String} {state : Nested}

/-- The leaves of walkable sections are where the walk stops. -/
theorem WalkableSections.isLeafOf (walkable : WalkableSections separator whole state)
    (side : Section) (leaf : List String × Value)
    (member : leaf ∈ leavesOf separator whole side (state.get side)) :
    IsLeafOf (staysWhole separator whole side) (state.get side) leaf.1 leaf.2 :=
  isLeafOf_of_mem _ _ (walkable.named side) (walkable.below side) leaf member

/-- What a key leads to is given by the place it was made for. -/
theorem place?_eq_some (side target : Section) (path found : List String) (filled : path ≠ [])
    (leads : place? separator (key separator side path) = some (target, found)) :
    path ≠ [""] ∧ target = side ∧ found = separator.split (separator.join path) := by
  rw [place?_key separator side path filled] at leads
  by_cases bare : path = [""]
  · simp [bare] at leads
  · rw [if_neg bare] at leads
    simp only [Option.some.injEq, Prod.mk.injEq] at leads
    exact ⟨bare, leads.1.symm, leads.2.symm⟩

/-- The key of a restorable leaf leads back to it. -/
theorem WalkableSections.place?_leaf (walkable : WalkableSections separator whole state)
    (restorable : ∀ side, ∀ leaf ∈ leavesOf separator whole side (state.get side),
      Restorable separator leaf.1) (side : Section) (leaf : List String × Value)
    (member : leaf ∈ leavesOf separator whole side (state.get side)) :
    place? separator (key separator side leaf.1) = some (side, leaf.1) :=
  place?_of_restorable separator side leaf.1 (walkable.isLeafOf side leaf member).path_ne_nil
    (restorable side leaf member)

/-- Restorable leaves are written under different keys. -/
theorem nodup_keys_writes (walkable : WalkableSections separator whole state)
    (restorable : ∀ side, ∀ leaf ∈ leavesOf separator whole side (state.get side),
      Restorable separator leaf.1) :
    (Entries.keys (writes separator whole state)).Nodup := by
  -- Different keys lead to different places, and every key leads to the place of its leaf.
  have placesDistinct : ((Entries.keys (writes separator whole state)).map
      (place? separator)).Nodup := by
    have places : (Entries.keys (writes separator whole state)).map (place? separator) =
        Section.all.flatMap fun side => ((leavesOf separator whole side (state.get side)).map
          Prod.fst).map fun path => some (side, path) := by
      have one : ∀ side, (((leavesOf separator whole side (state.get side)).map
          fun leaf => (key separator side leaf.1, leaf.2)).map Prod.fst).map (place? separator) =
            ((leavesOf separator whole side (state.get side)).map Prod.fst).map
              fun path => some (side, path) := by
        intro side
        rw [List.map_map, List.map_map, List.map_map]
        refine List.map_congr_left fun leaf member => ?_
        exact walkable.place?_leaf restorable side leaf member
      simp only [writes, Entries.keys, List.map_flatMap, one]
    rw [places]
    have perSide : ∀ side, (((leavesOf separator whole side (state.get side)).map
        Prod.fst).map fun path => some (side, path)).Nodup := by
      intro side
      refine (nodup_paths_leavesOfEntries _ _ (walkable.named side) (walkable.below side)).map ?_
      intro path other same
      simpa using same
    refine List.nodup_flatMap.mpr ⟨fun side _ => perSide side, ?_⟩
    simp only [Section.all, List.pairwise_pair]
    intro place inInput inOutput
    obtain ⟨path, -, rfl⟩ := List.mem_map.mp inInput
    obtain ⟨other, -, same⟩ := List.mem_map.mp inOutput
    simp at same
  exact placesDistinct.of_map

/-- A walked record with restorable leaves is its leaves under the keys of their paths, none
written over. -/
theorem ofRecord_of_restorable (walkable : WalkableSections separator whole state)
    (record : List (Key × Value)) (holds : Holds record state)
    (restorable : ∀ side, ∀ leaf ∈ leavesOf separator whole side (state.get side),
      Restorable separator leaf.1) :
    ofRecord separator whole record = writes separator whole state := by
  rw [ofRecord_of_holds separator whole record state holds]
  exact Entries.ofWrites_of_nodup _ (fun key _ => isExact_of_lawful key)
    (nodup_keys_writes walkable restorable)

/-- A walked record with restorable leaves comes back as it was. -/
theorem toNested_of_restorable (walkable : WalkableSections separator whole state)
    (record : List (Key × Value)) (holds : Holds record state)
    (restorable : ∀ side, ∀ leaf ∈ leavesOf separator whole side (state.get side),
      Restorable separator leaf.1) :
    toNested separator (ofRecord separator whole record) = state := by
  have unchanged := ofRecord_of_restorable walkable record holds restorable
  have own : ∀ side, placed separator side ((leavesOf separator whole side (state.get side)).map
      fun leaf => (key separator side leaf.1, leaf.2)) =
        leavesOf separator whole side (state.get side) := by
    intro side
    rw [placed, List.filterMap_map]
    refine (List.filterMap_congr fun leaf member => ?_).trans List.filterMap_some
    simp [walkable.place?_leaf restorable side leaf member]
  have foreign : ∀ side other, other ≠ side →
      placed separator side ((leavesOf separator whole other (state.get other)).map
        fun leaf => (key separator other leaf.1, leaf.2)) = [] := by
    intro side other apart
    rw [placed, List.filterMap_map, List.filterMap_eq_nil_iff]
    intro leaf member
    simp [walkable.place?_leaf restorable other leaf member, apart]
  have places : ∀ side, placed separator side (writes separator whole state) =
      leavesOf separator whole side (state.get side) := by
    intro side
    simp only [writes, Section.all, List.flatMap_cons, List.flatMap_nil, List.append_nil]
    rw [placed_append]
    cases side with
    | input => rw [own .input, foreign .input .output (by simp), List.append_nil]
    | output => rw [own .output, foreign .output .input (by simp), List.nil_append]
  apply Nested.eq_of_get
  intro side
  rw [get_toNested, unchanged, places side, leavesOf,
    assignAll_leavesOfEntries _ _ (walkable.named side) (walkable.below side) [] (by simp)]
  rfl

/-- Whatever is assigned in a section belongs to a leaf of that section, whose key leads
there. -/
theorem exists_leaf_of_mem_placed (walkable : WalkableSections separator whole state)
    (record : List (Key × Value)) (holds : Holds record state) (side : Section)
    (place : List String × Value)
    (member : place ∈ placed separator side (ofRecord separator whole record)) :
    ∃ path, (path, place.2) ∈ leavesOf separator whole side (state.get side) ∧
      path ≠ [""] ∧ place.1 = separator.split (separator.join path) := by
  obtain ⟨entry, inFlat, leads⟩ := List.mem_filterMap.mp member
  rw [ofRecord_of_holds separator whole record state holds] at inFlat
  have written : entry ∈ writes separator whole state := by
    simpa using Entries.mem_merge [] _ (fun key _ => isExact_of_lawful key) entry inFlat
  obtain ⟨origin, -, fromSection⟩ := List.mem_flatMap.mp written
  obtain ⟨leaf, inLeaves, rfl⟩ := List.mem_map.mp fromSection
  rw [Option.bind_eq_some_iff] at leads
  obtain ⟨⟨target, found⟩, leads, kept⟩ := leads
  obtain ⟨bare, rfl, split⟩ := place?_eq_some origin target leaf.1 found
    (walkable.isLeafOf origin leaf inLeaves).path_ne_nil leads
  by_cases same : target = side
  · subst same
    simp only [if_true, Option.some.injEq] at kept
    subst kept
    exact ⟨leaf.1, inLeaves, bare, split⟩
  · simp [same] at kept

/-- A path to a leaf that is found again in the nested record keeps its names apart. -/
theorem keepsApart_of_found (walkable : WalkableSections separator whole state)
    (record : List (Key × Value)) (holds : Holds record state) (side : Section)
    (leaf : List String × Value)
    (member : leaf ∈ leavesOf separator whole side (state.get side)) (found : Value)
    (reached : below? leaf.1
      (.mapping ((toNested separator (ofRecord separator whole record)).get side)) = some found) :
    separator.KeepsApart leaf.1 := by
  have isLeaf := walkable.isLeafOf side leaf member
  have splitFilled : ∀ text, separator.split text ≠ [] := separator.split_ne_nil
  have allFilled : ∀ place ∈ placed separator side (ofRecord separator whole record),
      place.1 ≠ [] := by
    intro place inPlaces
    obtain ⟨path, -, -, split⟩ :=
      exists_leaf_of_mem_placed walkable record holds side place inPlaces
    rw [split]
    exact splitFilled _
  rw [get_toNested] at reached
  obtain ⟨place, inPlaces, above | ⟨rest, split, inside⟩⟩ :=
    below?_assignAll leaf.1 found isLeaf.path_ne_nil _ allFilled reached
  all_goals
    obtain ⟨path, fromLeaf, bare, given⟩ :=
      exists_leaf_of_mem_placed walkable record holds side place inPlaces
  · rw [given] at above
    exact (Separator.keepsApart_split separator _).initial above
  · by_cases ends : rest = []
    · rw [split, given, ends, List.append_nil]
      exact Separator.keepsApart_split separator _
    · -- The path goes on inside a mapping that stays whole, under the key of its own
      -- beginning; the walk would have stopped there.
      exfalso
      obtain ⟨others, mapping, nonempty⟩ := mapping_of_below? rest ends place.2 found inside
      have origin := walkable.isLeafOf side _ fromLeaf
      have stopped := origin.stops others mapping nonempty
      have walked := isLeaf.passed place.1 rest split (allFilled place inPlaces) ends
      have sameKey : key separator side place.1 = key separator side path := by
        apply String.toList_inj.mp
        rw [toList_key separator side _ (allFilled place inPlaces),
          toList_key separator side _ origin.path_ne_nil, given, Separator.join_split]
      rw [staysWhole, sameKey] at walked
      rw [staysWhole] at stopped
      rw [stopped] at walked
      cases walked

/-- Where every path to a leaf is found again, every one is restorable. -/
theorem restorable_of_found (walkable : WalkableSections separator whole state)
    (record : List (Key × Value)) (holds : Holds record state)
    (allFound : ∀ side, ∀ leaf ∈ leavesOf separator whole side (state.get side), ∃ found,
      below? leaf.1 (.mapping
        ((toNested separator (ofRecord separator whole record)).get side)) = some found) :
    ∀ side, ∀ leaf ∈ leavesOf separator whole side (state.get side),
      Restorable separator leaf.1 := by
  have apart : ∀ side, ∀ leaf ∈ leavesOf separator whole side (state.get side),
      separator.KeepsApart leaf.1 := by
    intro side leaf member
    obtain ⟨found, reached⟩ := allFound side leaf member
    exact keepsApart_of_found walkable record holds side leaf member found reached
  intro side leaf member
  refine ⟨?_, apart side leaf member⟩
  intro bare
  obtain ⟨found, reached⟩ := allFound side leaf member
  have isLeaf := walkable.isLeafOf side leaf member
  -- Another leaf would have to lead here, with a path that goes on below the empty name.
  have given : ∀ place ∈ placed separator side (ofRecord separator whole record),
      (place.1, place.2) ∈ leavesOf separator whole side (state.get side) ∧ place.1 ≠ [""] := by
    intro place inPlaces
    obtain ⟨path, fromLeaf, notBare, split⟩ :=
      exists_leaf_of_mem_placed walkable record holds side place inPlaces
    have same := (Separator.split_join_iff separator path
      (walkable.isLeafOf side _ fromLeaf).path_ne_nil).mpr (apart side _ fromLeaf)
    rw [split, same]
    exact ⟨fromLeaf, notBare⟩
  have allFilled : ∀ place ∈ placed separator side (ofRecord separator whole record),
      place.1 ≠ [] := fun place inPlaces =>
    (walkable.isLeafOf side _ (given place inPlaces).1).path_ne_nil
  rw [get_toNested] at reached
  obtain ⟨place, inPlaces, onTheWay⟩ :=
    below?_assignAll leaf.1 found isLeaf.path_ne_nil _ allFilled reached
  obtain ⟨fromLeaf, notBare⟩ := given place inPlaces
  rcases onTheWay with ⟨rest, split⟩ | ⟨rest, split, -⟩
  · have goesOn : rest ≠ [] := by
      rintro rfl
      rw [List.append_nil, bare] at split
      exact notBare split.symm
    apply isLeaf.not_through rest goesOn place.2
    rw [split]
    exact walkable.isLeafOf side _ fromLeaf
  · obtain ⟨first, more, start⟩ := List.exists_cons_of_ne_nil (allFilled place inPlaces)
    rw [bare, start, List.cons_append, List.cons.injEq] at split
    obtain ⟨rfl, nothing⟩ := split
    have single : more = [] := (List.append_eq_nil_iff.mp nothing.symm).1
    exact notBare (by rw [start, single])

/-- A walked record comes back from its flat form exactly when every path to a leaf is
restorable, whether coming back means to be the very same or to be the same up to the
order of entries. -/
theorem toNested_ofRecord_iff (separator : Separator) (whole : List String)
    (record : List (Key × Value)) (state : Nested) (holds : Holds record state)
    (walkable : WalkableSections separator whole state) :
    (toNested separator (ofRecord separator whole record) = state ↔
      ∀ side, ∀ leaf ∈ leavesOf separator whole side (state.get side),
        Restorable separator leaf.1) ∧
    ((Value.mapping record).Rearranged
        (toNested separator (ofRecord separator whole record)).toValue ↔
      ∀ side, ∀ leaf ∈ leavesOf separator whole side (state.get side),
        Restorable separator leaf.1) := by
  have back := toNested_of_restorable walkable record holds
  have weaker : toNested separator (ofRecord separator whole record) = state →
      (Value.mapping record).Rearranged
        (toNested separator (ofRecord separator whole record)).toValue := by
    intro same
    rw [same]
    exact .mapping holds (List.forall₂_same.mpr fun entry _ => .of (.same _) (.same _))
  have necessary : (Value.mapping record).Rearranged
      (toNested separator (ofRecord separator whole record)).toValue →
        ∀ side, ∀ leaf ∈ leavesOf separator whole side (state.get side),
          Restorable separator leaf.1 := by
    intro related
    apply restorable_of_found walkable record holds
    intro side leaf member
    obtain ⟨found, reached, -⟩ := (walkable.isLeafOf side leaf member).reached_rearranged
      (walkable.named side) _ (holds.section_rearranged _ related side)
    exact ⟨found, reached⟩
  refine ⟨⟨?_, back⟩, ⟨necessary, ?_⟩⟩
  · intro same
    exact necessary (weaker same)
  · intro restorable
    exact weaker (back restorable)

/-- A mapping that stays whole comes back with the separator in one of its names; without
that, its entry does not. -/
theorem toNested_ofRecord_underscored :
    let state : Nested := ⟨[(.text "plain", .mapping [(.text "a_b", .null)])], []⟩
    let record := [(Key.text "output", Value.mapping state.output),
      (.text "input", .mapping state.input)]
    (Holds record state ∧ WalkableSections .underscore ["input_plain"] state ∧
      toNested .underscore (ofRecord .underscore ["input_plain"] record) = state) ∧
    (WalkableSections .underscore [] state ∧
      toNested .underscore (ofRecord .underscore [] record) ≠ state) := by
  intro state record
  have holds : Holds record state := List.Perm.swap _ _ _
  have named : ∀ side, Named (state.get side) := by
    intro side
    cases side <;> exact ⟨by simp [state, Nested.get], by simp [state, Nested.get]⟩
  have walkable : ∀ whole, WalkableSections .underscore whole state := by
    intro whole
    refine ⟨named, fun side => ?_⟩
    have inner : Named [(Key.text "a_b", Value.null)] := ⟨by simp, by simp⟩
    cases side <;> simp [state, Nested.get, WalkableEntries, Walkable, inner]
  refine ⟨⟨holds, walkable _, ?_⟩, walkable _, ?_⟩
  · apply (toNested_ofRecord_iff .underscore ["input_plain"] record state holds
      (walkable _)).1.mpr
    intro side leaf member
    have onlyLeaf : leaf.1 = ["plain"] := by
      cases side <;> simp_all [state, Nested.get, leavesOf, leavesOfEntries, leaves, staysWhole,
        key, Separator.join, Separator.joinChars, Section.name, Separator.underscore, Key.plain]
    rw [onlyLeaf]
    exact ⟨by decide, (Separator.split_join_iff _ _ (by simp)).mp (by decide +kernel)⟩
  · intro same
    have restorable := (toNested_ofRecord_iff .underscore [] record state holds
      (walkable _)).1.mp same .input (["plain", "a_b"], .null) (List.mem_singleton.mpr rfl)
    have split := (Separator.split_join_iff _ _ (by simp)).mpr restorable.2
    exact absurd split (by decide +kernel)

end Stepwise.Flat
