import Stepwise.Proofs.FlatRoundTrip

/-!
# What stands in a nested record after the last write

Nesting a flat record writes its entries one after the other. A write takes away whatever
stood above its path, at it or below it, and nothing else. So a leaf of the nested record
is an entry that no later one of its section has touched in this way, and every such
entry is a leaf. Entries whose keys lead nowhere, and entries that were written over,
leave nothing behind, no mapping on the way to them either.

The entries are values here. Nesting the mappings that hold them does the same as long as
none of these is held twice.
-/

namespace Stepwise.Flat

open Entries (Named isExact_text)

/-- A value that a walk over a record does not go into: no mapping, or an empty one. -/
def IsLeafValue (value : Value) : Prop := ∀ entries, value = .mapping entries → entries = []

/-- A leaf stands at a path below entries. -/
structure LeafAt (entries : List (Key × Value)) (path : List String) (leaf : Value) : Prop where
  filled : path ≠ []
  reached : below? path (.mapping entries) = some leaf
  ends : IsLeafValue leaf

/-- Neither of two paths goes on from the other; no path is apart from itself. -/
def Parted (first second : List String) : Prop := ¬ first <+: second ∧ ¬ second <+: first

/-- A key is a section's name, the separator and something behind it, which splits into
the names of a path. -/
def LeadsTo (separator : Separator) (key : String) (side : Section) (path : List String) :
    Prop :=
  ∃ rest, rest ≠ "" ∧ key = side.name ++ separator.text ++ rest ∧ path = separator.split rest

/-- An entry of a flat record leads to a path of a section, with its value, and no later
entry leads to a path of the section that is the beginning of this one or goes on from
it. -/
def Stands (separator : Separator) (flat : Flat) (side : Section) (path : List String)
    (value : Value) : Prop :=
  ∃ before key after, flat = before ++ (key, value) :: after ∧ LeadsTo separator key side path ∧
    ∀ later ∈ after, ∀ other, LeadsTo separator later.1 side other → Parted other path

/-! ## Keys and their places -/

/-- What a key is read as behind a section's name and the separator. -/
theorem eq_of_afterSection? (separator : Separator) (side : Section) (key : String)
    (rest : List Char) (read : afterSection? separator side key = some rest) :
    rest ≠ [] ∧ key = side.name ++ separator.text ++ String.ofList rest := by
  simp only [afterSection?] at read
  split_ifs at read with starts bare
  obtain rfl := Option.some.inj read
  refine ⟨by simpa using bare, ?_⟩
  obtain ⟨tail, whole⟩ := List.isPrefixOf_iff_prefix.mp starts
  apply String.toList_inj.mp
  simp [← whole, Separator.text]

/-- The path of a key is never empty. -/
theorem LeadsTo.filled {separator : Separator} {key : String} {side : Section}
    {path : List String} (leads : LeadsTo separator key side path) : path ≠ [] := by
  obtain ⟨rest, -, -, rfl⟩ := leads
  exact separator.split_ne_nil rest

/-- The path of a key can be restored. -/
theorem LeadsTo.restorable {separator : Separator} {key : String} {side : Section}
    {path : List String} (leads : LeadsTo separator key side path) :
    Restorable separator path := by
  obtain ⟨rest, filled, -, rfl⟩ := leads
  refine ⟨?_, Separator.keepsApart_split separator rest⟩
  intro bare
  have joined := Separator.join_split separator rest
  rw [bare] at joined
  exact filled (joined ▸ rfl)

/-- A key that leads to a path is the key of that path. -/
theorem LeadsTo.eq_key {separator : Separator} {key : String} {side : Section}
    {path : List String} (leads : LeadsTo separator key side path) :
    key = Flat.key separator side path := by
  apply String.toList_inj.mp
  rw [toList_key separator side path leads.filled]
  obtain ⟨rest, -, rfl, rfl⟩ := leads
  simp [Separator.join_split, Separator.text]

/-- The place that a key is read as is where it leads. -/
theorem place?_eq_some_iff (separator : Separator) (key : String) (side : Section)
    (path : List String) :
    place? separator key = some (side, path) ↔ LeadsTo separator key side path := by
  constructor
  · intro found
    obtain ⟨origin, -, read⟩ := List.exists_of_findSome?_eq_some found
    obtain ⟨rest, behind, place⟩ := Option.map_eq_some_iff.mp read
    obtain ⟨rfl, rfl⟩ := Prod.mk.inj place
    obtain ⟨filled, whole⟩ := eq_of_afterSection? separator origin key rest behind
    exact ⟨String.ofList rest, by simpa using filled, whole, by simp [Separator.split]⟩
  · intro leads
    rw [leads.eq_key]
    exact place?_of_restorable separator side path leads.filled leads.restorable

/-- Where a key leads can be computed. -/
instance (separator : Separator) (key : String) (side : Section) (path : List String) :
    Decidable (LeadsTo separator key side path) :=
  decidable_of_iff _ (place?_eq_some_iff separator key side path)

/-! ## One write -/

/-- What is written is a leaf, so nothing is found below it. -/
theorem eq_of_below?_leaf (value found : Value) (isLeaf : IsLeafValue value)
    (path : List String) (reached : below? path value = some found) :
    path = [] ∧ found = value := by
  by_cases ends : path = []
  · subst ends
    exact ⟨rfl, (Option.some.inj reached).symm⟩
  · obtain ⟨entries, mapping, filled⟩ := mapping_of_below? path ends value found reached
    exact absurd (isLeaf entries mapping) filled

/-- Under a name that was just written the leaves are those of what was written. -/
theorem leafAt_insert_same (name : String) (rest : List String) (written leaf : Value)
    (entries : List (Key × Value)) :
    LeafAt (Entries.insert (Key.text name) written entries) (name :: rest) leaf ↔
      below? rest written = some leaf ∧ IsLeafValue leaf := by
  constructor
  · intro leafAt
    exact ⟨(below?_insert_same name rest written entries).symm.trans leafAt.reached, leafAt.ends⟩
  · rintro ⟨reached, ends⟩
    exact ⟨List.cons_ne_nil _ _, (below?_insert_same name rest written entries).trans reached, ends⟩

/-- Under another name than the one just written the leaves stay what they were. -/
theorem leafAt_insert_other (name first : String) (apart : name ≠ first) (rest : List String)
    (written leaf : Value) (entries : List (Key × Value)) :
    LeafAt (Entries.insert (Key.text name) written entries) (first :: rest) leaf ↔
      LeafAt entries (first :: rest) leaf := by
  have same := below?_insert_other name first apart rest written entries
  constructor
  · rintro ⟨filled, reached, ends⟩
    exact ⟨filled, same.symm.trans reached, ends⟩
  · rintro ⟨filled, reached, ends⟩
    exact ⟨filled, same.trans reached, ends⟩

/-- The leaves of what an assignment works on are the leaves below the name. -/
theorem leafAt_entriesBelow (name : String) (rest : List String) (filled : rest ≠ [])
    (entries : List (Key × Value)) (leaf : Value) :
    LeafAt (entriesBelow name entries) rest leaf ↔ LeafAt entries (name :: rest) leaf := by
  have same := below?_entriesBelow name rest filled entries
  constructor
  · rintro ⟨-, reached, ends⟩
    exact ⟨List.cons_ne_nil _ _, same.symm.trans reached, ends⟩
  · rintro ⟨-, reached, ends⟩
    exact ⟨filled, same.trans reached, ends⟩

/-- Paths with the same first name are apart if they are apart behind it. -/
theorem parted_cons_iff (name : String) (first second : List String) :
    Parted (name :: first) (name :: second) ↔ Parted first second := by
  simp [Parted, List.cons_prefix_cons]

/-- Paths with different first names are apart. -/
theorem parted_of_ne (name other : String) (apart : name ≠ other) (first second : List String) :
    Parted (name :: first) (other :: second) := by
  simp [Parted, List.cons_prefix_cons, apart, apart.symm]

/-- An assignment leaves some entry. -/
theorem assign_ne_nil (written : List String) (filled : written ≠ []) (value : Value)
    (entries : List (Key × Value)) : assign written value entries ≠ [] := by
  obtain ⟨name, rest, rfl⟩ := List.exists_cons_of_ne_nil filled
  obtain ⟨held, made⟩ := exists_assign_eq name rest value entries
  have present := (Entries.mem_keys_insert _ (Key.text name) (isExact_text name) held
    entries).mpr (.inl rfl)
  intro none
  simp [← made, none] at present

/-- After a leaf value was assigned the leaves are that one and those that stood at paths
apart from its own. -/
theorem leafAt_assign_iff (written : List String) (writtenFilled : written ≠ []) (value : Value)
    (isLeaf : IsLeafValue value) (entries : List (Key × Value)) (path : List String)
    (leaf : Value) :
    LeafAt (assign written value entries) path leaf ↔
      path = written ∧ leaf = value ∨ LeafAt entries path leaf ∧ Parted written path := by
  induction written generalizing path entries with
  | nil => exact absurd rfl writtenFilled
  | cons name more ih =>
    cases path with
    | nil =>
      have never : ∀ others, ¬ LeafAt others [] leaf := fun others leafAt => leafAt.filled rfl
      simp [never]
    | cons first rest =>
      by_cases same : name = first
      · subst same
        rw [parted_cons_iff, List.cons.injEq]
        by_cases last : more = []
        · -- The name holds the value itself, and whatever it held before is gone.
          subst last
          rw [assign, leafAt_insert_same]
          constructor
          · rintro ⟨reached, -⟩
            obtain ⟨rfl, rfl⟩ := eq_of_below?_leaf value leaf isLeaf rest reached
            exact .inl ⟨⟨rfl, rfl⟩, rfl⟩
          · rintro (⟨⟨-, rfl⟩, rfl⟩ | ⟨-, apart⟩)
            · exact ⟨rfl, isLeaf⟩
            · exact absurd (List.nil_prefix) apart.1
        · rw [assign_cons name more last, leafAt_insert_same]
          by_cases ends : rest = []
          · -- The name holds a mapping with entries now, so there is no leaf at it.
            subst ends
            constructor
            · rintro ⟨reached, stops⟩
              obtain rfl := Option.some.inj reached
              exact absurd (stops _ rfl) (assign_ne_nil more last value _)
            · rintro (⟨⟨-, rfl⟩, -⟩ | ⟨-, apart⟩)
              · exact absurd rfl last
              · exact absurd (List.nil_prefix) apart.2
          · have inside := ih last (entriesBelow name entries) rest
            rw [leafAt_entriesBelow name rest ends] at inside
            simp only [true_and]
            rw [← inside]
            constructor
            · rintro ⟨reached, stops⟩
              exact ⟨ends, reached, stops⟩
            · rintro ⟨-, reached, stops⟩
              exact ⟨reached, stops⟩
      · have unequal : first :: rest ≠ name :: more := fun equal =>
          same (List.cons.inj equal).1.symm
        have apart := parted_of_ne name first same more rest
        have unchanged : LeafAt (assign (name :: more) value entries) (first :: rest) leaf ↔
            LeafAt entries (first :: rest) leaf := by
          obtain ⟨held, made⟩ := exists_assign_eq name more value entries
          rw [made]
          exact leafAt_insert_other name first same rest held leaf entries
        simp [unchanged, unequal, apart]

/-! ## What can be walked over -/

/-- A leaf value is walked over without going into it. -/
theorem walkable_of_isLeafValue (value : Value) (isLeaf : IsLeafValue value) :
    Walkable (fun _ => false) value := by
  cases value with
  | mapping entries => exact .inl (by simp [isLeaf entries rfl])
  | _ => trivial

/-- Where no mapping stays whole, entries are walked over if all their values are. -/
theorem walkableEntries_iff (entries : List (Key × Value)) :
    WalkableEntries (fun _ => false) entries ↔
      ∀ entry ∈ entries, Walkable (fun _ => false) entry.2 := by
  induction entries with
  | nil => simp [WalkableEntries]
  | cons entry rest ih => simp [WalkableEntries, ih]

/-- Entries that are walked over, their keys being texts, each there once. -/
def WalkedEntries (entries : List (Key × Value)) : Prop :=
  Named entries ∧ WalkableEntries (fun _ => false) entries

/-- A mapping is walked over if its entries are. -/
theorem walkable_mapping_iff (entries : List (Key × Value)) :
    Walkable (fun _ => false) (.mapping entries) ↔ WalkedEntries entries := by
  rw [Walkable]
  constructor
  · rintro (empty | walked)
    · obtain rfl : entries = [] := by simpa using empty
      exact ⟨Entries.named_nil, trivial⟩
    · exact walked
  · exact .inr

/-- A value that is walked over may be written under a text. -/
theorem WalkedEntries.insert {entries : List (Key × Value)} (walked : WalkedEntries entries)
    (name : String) (value : Value) (valueWalked : Walkable (fun _ => false) value) :
    WalkedEntries (Entries.insert (Key.text name) value entries) := by
  obtain ⟨named, below⟩ := walked
  refine ⟨named.insert name value, ?_⟩
  rw [walkableEntries_iff] at below ⊢
  intro entry member
  rcases Entries.mem_insert _ (isExact_text name) value entries entry member with rfl | before
  · exact valueWalked
  · exact below entry before

/-- What is found below a value that is walked over is walked over. -/
theorem walkable_of_below? (path : List String) (value found : Value)
    (walkable : Walkable (fun _ => false) value) (reached : below? path value = some found) :
    Walkable (fun _ => false) found := by
  induction path generalizing value with
  | nil =>
    obtain rfl := Option.some.inj reached
    exact walkable
  | cons name rest ih =>
    obtain ⟨entries, rfl, -⟩ := mapping_of_below? _ (by simp) value found reached
    rw [below?_mapping, Option.bind_eq_some_iff] at reached
    obtain ⟨next, here, after⟩ := reached
    have member := Entries.mem_of_get? _ (isExact_text name) next entries here
    have below := (walkableEntries_iff entries).mp ((walkable_mapping_iff entries).mp walkable).2
    exact ih next (below _ member) after

/-- What an assignment works on below a name is walked over. -/
theorem WalkedEntries.entriesBelow {entries : List (Key × Value)}
    (walked : WalkedEntries entries) (name : String) :
    WalkedEntries (entriesBelow name entries) := by
  rw [Flat.entriesBelow]
  cases there : Entries.get? (Key.text name) entries with
  | none => exact ⟨Entries.named_nil, trivial⟩
  | some value =>
    have reached : below? [name] (.mapping entries) = some value := by
      rw [below?_mapping, there]
      rfl
    have below := walkable_of_below? [name] _ value ((walkable_mapping_iff entries).mpr walked)
      reached
    cases value with
    | mapping inner => exact (walkable_mapping_iff inner).mp below
    | _ => exact ⟨Entries.named_nil, trivial⟩

/-- An assignment leaves entries that are walked over. -/
theorem WalkedEntries.assign (written : List String) (value : Value)
    (valueWalked : Walkable (fun _ => false) value) {entries : List (Key × Value)}
    (walked : WalkedEntries entries) : WalkedEntries (assign written value entries) := by
  induction written generalizing entries with
  | nil => exact walked
  | cons name more ih =>
    by_cases last : more = []
    · subst last
      exact walked.insert name value valueWalked
    · rw [assign_cons name more last]
      apply walked.insert
      apply (walkable_mapping_iff _).mpr
      exact ih (walked.entriesBelow name)

/-- Whatever is found below entries that are walked over is on the way to a leaf. -/
theorem WalkedEntries.exists_leafAt {entries : List (Key × Value)}
    (walked : WalkedEntries entries) (path : List String) (filled : path ≠ []) (found : Value)
    (reached : below? path (.mapping entries) = some found) :
    ∃ rest leaf, LeafAt entries (path ++ rest) leaf := by
  have walkable := walkable_of_below? path _ found ((walkable_mapping_iff entries).mpr walked)
    reached
  obtain ⟨leaf, member⟩ := List.exists_mem_of_ne_nil _
    (leaves_ne_nil (fun _ => false) found [])
  have isLeaf := isLeaf_of_mem _ found walkable leaf member
  refine ⟨leaf.1, leaf.2, by simp [filled], ?_, ?_⟩
  · rw [below?_append path leaf.1 _ found reached, isLeaf.reached]
  · intro others mapping
    by_contra nonempty
    exact absurd (isLeaf.stops others mapping nonempty) (by simp)

/-! ## One entry after the other -/

/-- An entry put behind a flat record stands where its key leads, and of the others those
that it does not touch. -/
theorem stands_append_singleton (separator : Separator) (flat : Flat) (entry : String × Value)
    (side : Section) (path : List String) (value : Value) :
    Stands separator (flat ++ [entry]) side path value ↔
      LeadsTo separator entry.1 side path ∧ value = entry.2 ∨
        Stands separator flat side path value ∧
          ∀ other, LeadsTo separator entry.1 side other → Parted other path := by
  constructor
  · rintro ⟨before, key, after, whole, leads, untouched⟩
    rcases List.eq_nil_or_concat' after with rfl | ⟨earlier, last, rfl⟩
    · obtain ⟨-, same⟩ := List.append_inj' whole rfl
      obtain rfl := List.singleton_inj.mp same
      exact .inl ⟨leads, rfl⟩
    · rw [← List.cons_append, ← List.append_assoc] at whole
      obtain ⟨rfl, same⟩ := List.append_inj' whole rfl
      obtain rfl := List.singleton_inj.mp same
      refine .inr ⟨⟨before, key, earlier, rfl, leads, ?_⟩, untouched entry (by simp)⟩
      intro later member
      exact untouched later (List.mem_append_left _ member)
  · rintro (⟨leads, rfl⟩ | ⟨⟨before, key, after, rfl, leads, untouched⟩, apart⟩)
    · exact ⟨flat, entry.1, [], rfl, leads, by simp⟩
    · refine ⟨before, key, after ++ [entry], by simp, leads, ?_⟩
      intro later member
      rcases List.mem_append.mp member with inAfter | isLast
      · exact untouched later inAfter
      · obtain rfl := List.mem_singleton.mp isLast
        exact apart

/-- Placing an entry changes nothing in a section that its key does not lead to, and
assigns its value at the only path of the section that it leads to otherwise. -/
theorem get_place_cases (separator : Separator) (nested : Nested) (entry : String × Value)
    (side : Section) :
    (place separator nested entry).get side = nested.get side ∧
        (∀ path, ¬ LeadsTo separator entry.1 side path) ∨
      ∃ written, LeadsTo separator entry.1 side written ∧
        (∀ path, LeadsTo separator entry.1 side path → path = written) ∧
        (place separator nested entry).get side =
          assign written entry.2 (nested.get side) := by
  rw [place]
  cases found : place? separator entry.1 with
  | none =>
    refine .inl ⟨rfl, ?_⟩
    intro path leads
    rw [← place?_eq_some_iff, found] at leads
    cases leads
  | some target =>
    obtain ⟨origin, written⟩ := target
    have only : ∀ path, LeadsTo separator entry.1 side path → side = origin ∧ path = written := by
      intro path leads
      rw [← place?_eq_some_iff, found] at leads
      simp_all
    by_cases same : side = origin
    · subst same
      have leads := (place?_eq_some_iff separator entry.1 side written).mp found
      exact .inr ⟨written, leads, fun path other => (only path other).2, by simp⟩
    · refine .inl ⟨Nested.get_modify_of_ne nested same _, ?_⟩
      intro path leads
      exact same (only path leads).1

/-- The sections of a nested record are walked over, and their leaves are the entries of a
flat record that stand. -/
structure Reflects (separator : Separator) (flat : Flat) (nested : Nested) : Prop where
  walked : ∀ side, WalkedEntries (nested.get side)
  leaf_iff : ∀ side path value,
    LeafAt (nested.get side) path value ↔ Stands separator flat side path value

/-- Nothing reflects nothing. -/
theorem reflects_empty (separator : Separator) : Reflects separator [] .empty := by
  constructor
  · intro side
    rw [Nested.get_empty]
    exact ⟨Entries.named_nil, trivial⟩
  · intro side path value
    constructor
    · rintro ⟨filled, reached, -⟩
      obtain ⟨entries, mapping, nonempty⟩ := mapping_of_below? path filled _ value reached
      simp_all
    · rintro ⟨before, key, after, whole, -⟩
      simp at whole

/-- A nested record in which one entry more was placed reflects one entry more. -/
theorem Reflects.place {separator : Separator} {flat : Flat} {nested : Nested}
    (reflects : Reflects separator flat nested) (entry : String × Value)
    (isLeaf : IsLeafValue entry.2) :
    Reflects separator (flat ++ [entry]) (place separator nested entry) := by
  constructor
  · intro side
    rcases get_place_cases separator nested entry side with ⟨same, -⟩ | ⟨written, -, -, assigned⟩
    · rw [same]
      exact reflects.walked side
    · rw [assigned]
      exact (reflects.walked side).assign written entry.2 (walkable_of_isLeafValue _ isLeaf)
  · intro side path value
    rw [stands_append_singleton]
    rcases get_place_cases separator nested entry side with
      ⟨same, nowhere⟩ | ⟨written, leads, only, assigned⟩
    · rw [same, reflects.leaf_iff]
      simp [nowhere]
    · rw [assigned, leafAt_assign_iff written leads.filled entry.2 isLeaf, reflects.leaf_iff]
      constructor
      · rintro (⟨rfl, rfl⟩ | ⟨stands, apart⟩)
        · exact .inl ⟨leads, rfl⟩
        · refine .inr ⟨stands, ?_⟩
          intro other leadsOther
          rw [only other leadsOther]
          exact apart
      · rintro (⟨leadsHere, rfl⟩ | ⟨stands, untouched⟩)
        · exact .inl ⟨only path leadsHere, rfl⟩
        · exact .inr ⟨stands, untouched written leads⟩

/-- A nested record reflects the flat one that it was made from. -/
theorem reflects_toNested (separator : Separator) (flat : Flat)
    (leafValues : ∀ entry ∈ flat, IsLeafValue entry.2) :
    Reflects separator flat (toNested separator flat) := by
  induction flat using List.reverseRecOn with
  | nil => exact reflects_empty separator
  | append_singleton earlier last ih =>
    have before := ih fun entry member => leafValues entry (List.mem_append_left _ member)
    rw [toNested, List.foldl_append]
    exact before.place last (leafValues last (by simp))

/-- A record with texts as keys is read as a flat one. -/
theorem nestValue_ofFields (separator : Separator) (flat : Flat) :
    nestValue separator (.ofFields flat) = .ok (toNested separator flat) := by
  have read : ofEntries (flat.map fun field => (Key.text field.1, field.2)) = .ok flat := by
    induction flat with
    | nil => rfl
    | cons entry rest ih =>
      rw [List.map_cons, ofEntries, ih]
      rfl
  rw [Value.ofFields, nestValue, read]
  rfl

/-- Nesting a flat record of leaf values never fails and leaves both sections. Their leaves
are the entries that no later one of the section has touched, each with its value; nothing
is found in a section but on the way to such an entry.

Proof: placing one entry takes away the leaves at paths that are not apart from its own,
adds its own, and keeps what can be walked over; so the nested record reflects the flat
one, by induction from the last entry. In entries that are walked over every path leads
on to a leaf. -/
theorem leaves_by_last_writes (separator : Separator) (flat : Flat)
    (leafValues : ∀ entry ∈ flat, IsLeafValue entry.2) :
    ∃ nested, nestValue separator (.ofFields flat) = .ok nested ∧
      (∀ side, below? [side.name] nested.toValue = some (.mapping (nested.get side))) ∧
      (∀ side, WalkedEntries (nested.get side)) ∧
      (∀ side path value,
        LeafAt (nested.get side) path value ↔ Stands separator flat side path value) ∧
      ∀ side path found, path ≠ [] → below? path (.mapping (nested.get side)) = some found →
        ∃ rest value, Stands separator flat side (path ++ rest) value := by
  have reflects := reflects_toNested separator flat leafValues
  refine ⟨toNested separator flat, nestValue_ofFields separator flat, ?_, reflects.walked,
    reflects.leaf_iff, ?_⟩
  · intro side
    cases side <;> rfl
  · intro side path found filled reached
    obtain ⟨rest, leaf, leafAt⟩ := (reflects.walked side).exists_leafAt path filled found reached
    exact ⟨rest, leaf, (reflects.leaf_iff side _ leaf).mp leafAt⟩

end Stepwise.Flat
