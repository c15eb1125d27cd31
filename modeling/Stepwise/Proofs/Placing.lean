import Stepwise.Proofs.Assignment
import Stepwise.Proofs.Splitting

/-!
# Where the entries of a flat record go

The key of a place leads back to its section and to the names that the joined path
splits into. Only the path that is one empty name leads nowhere. Nesting a flat record
assigns, in each section by itself, the values whose keys lead there.
-/

namespace Stepwise.Flat

/-- Which mappings of a section stay whole, by the flat keys that do. -/
def staysWhole (separator : Separator) (whole : List String) (side : Section)
    (path : List String) : Bool :=
  whole.contains (key separator side path)

/-- The leaves of a section's entries. -/
def leavesOf (separator : Separator) (whole : List String) (side : Section)
    (entries : List (Key × Value)) : List (List String × Value) :=
  leavesOfEntries (staysWhole separator whole side) [] entries

/-- A section's flat entries are its leaves under the keys of their places. -/
theorem ofSection_mapping (separator : Separator) (whole : List String) (side : Section)
    (entries : List (Key × Value)) : ofSection separator whole side (.mapping entries) =
      (leavesOf separator whole side entries).map
        fun leaf => (key separator side leaf.1, leaf.2) := rfl

/-- A key is the section's name, the separator and the joined path. -/
theorem toList_key (separator : Separator) (side : Section) (path : List String)
    (filled : path ≠ []) : (key separator side path).toList =
      side.name.toList ++ separator.chars ++ (separator.join path).toList := by
  rw [key, Separator.join, Separator.join, String.toList_ofList, String.toList_ofList,
    List.map_cons, Separator.joinChars_cons separator _ _ (by simpa using filled)]

/-- A joined path is empty only if it is one empty name. -/
theorem join_eq_empty_iff (separator : Separator) (path : List String) (filled : path ≠ []) :
    (separator.join path).toList = [] ↔ path = [""] := by
  rw [Separator.join, String.toList_ofList]
  cases path with
  | nil => exact absurd rfl filled
  | cons name rest =>
    cases rest with
    | nil => simp [Separator.joinChars]
    | cons next more =>
      rw [List.map_cons, Separator.joinChars_cons separator _ _ (by simp)]
      simp [separator.nonempty]

/-- The key of a place is read in its section as the joined path, unless that is empty. -/
theorem afterSection?_key (separator : Separator) (side : Section) (path : List String)
    (filled : path ≠ []) : afterSection? separator side (key separator side path) =
      if path = [""] then none else some (separator.join path).toList := by
  have whole := toList_key separator side path filled
  have starts : (side.name.toList ++ separator.chars).isPrefixOf
      (key separator side path).toList = true := by
    rw [whole]
    exact List.isPrefixOf_iff_prefix.mpr (List.prefix_append _ _)
  have behind : (key separator side path).toList.drop
      (side.name.toList ++ separator.chars).length = (separator.join path).toList := by
    rw [whole, List.drop_left]
  simp only [afterSection?, starts, if_true, behind, List.isEmpty_iff,
    join_eq_empty_iff separator path filled]

/-- The key of a place is not read in the other section. -/
theorem afterSection?_key_other (separator : Separator) (side other : Section)
    (apart : other ≠ side) (path : List String) (filled : path ≠ []) :
    afterSection? separator other (key separator side path) = none := by
  have whole := toList_key separator side path filled
  have differs : (other.name.toList ++ separator.chars).isPrefixOf
      (key separator side path).toList = false := by
    rw [whole]
    cases side <;> cases other <;> simp_all [Section.name, List.isPrefixOf]
  simp [afterSection?, differs]

/-- The key of a place leads to its section and the names that the joined path splits
into. -/
theorem place?_key (separator : Separator) (side : Section) (path : List String)
    (filled : path ≠ []) : place? separator (key separator side path) =
      if path = [""] then none else some (side, separator.split (separator.join path)) := by
  have own := afterSection?_key separator side path filled
  have foreign : ∀ other, other ≠ side →
      afterSection? separator other (key separator side path) = none := fun other apart =>
    afterSection?_key_other separator side other apart path filled
  by_cases bare : path = [""]
  · rw [if_pos bare] at own ⊢
    cases side with
    | input => simp [place?, Section.all, List.findSome?, own, foreign .output]
    | output => simp [place?, Section.all, List.findSome?, own, foreign .input]
  · rw [if_neg bare] at own ⊢
    cases side with
    | input => simp [place?, Section.all, own, Separator.split]
    | output => simp [place?, Section.all, List.findSome?, own, foreign .input, Separator.split]

/-- A path that splitting gives back and that leads somewhere. -/
def Restorable (separator : Separator) (path : List String) : Prop :=
  path ≠ [""] ∧ separator.KeepsApart path

/-- The key of a restorable path leads back to it. -/
theorem place?_of_restorable (separator : Separator) (side : Section) (path : List String)
    (filled : path ≠ []) (restorable : Restorable separator path) :
    place? separator (key separator side path) = some (side, path) := by
  rw [place?_key separator side path filled, if_neg restorable.1,
    (Separator.split_join_iff separator path filled).mpr restorable.2]

/-- What is placed in a section is an entry whose key leads there. -/
theorem mem_placed_iff (separator : Separator) (side : Section) (flat : Flat)
    (place : List String × Value) :
    place ∈ placed separator side flat ↔
      ∃ key, (key, place.2) ∈ flat ∧ place? separator key = some (side, place.1) := by
  rw [placed, List.mem_filterMap]
  constructor
  · rintro ⟨⟨key, value⟩, member, made⟩
    obtain ⟨⟨origin, path⟩, leads, here⟩ := Option.bind_eq_some_iff.mp made
    split_ifs at here with same
    obtain rfl := same
    obtain rfl := Option.some.inj here
    exact ⟨key, member, leads⟩
  · rintro ⟨key, member, leads⟩
    exact ⟨(key, place.2), member, by simp [leads]⟩

/-- The places of two flat records, one behind the other. -/
theorem placed_append (separator : Separator) (side : Section) (first second : Flat) :
    placed separator side (first ++ second) =
      placed separator side first ++ placed separator side second :=
  List.filterMap_append

/-- A mapping under a key that leads to a path takes what is assigned below the path. -/
theorem leftBehind_mapping (separator : Separator) (key : String) (side : Section)
    (path : List String) (leads : place? separator key = some (side, path))
    (entries : List (Key × Value)) (later : Flat) :
    leftBehind separator key (.mapping entries) later =
      .mapping (leftAt path (placed separator side later) entries) := by
  simp only [leftBehind, leads]

/-- Nothing is left under a key that no entry has. -/
theorem leftUnder?_eq_none_iff (separator : Separator) (key : String) (flat : Flat) :
    leftUnder? separator key flat = none ↔ key ∉ Entries.keys flat := by
  induction flat with
  | nil => simp [leftUnder?]
  | cons entry later ih =>
    obtain ⟨name, value⟩ := entry
    by_cases same : name = key
    · simp [leftUnder?, same]
    · simp [leftUnder?, same, ih, eq_comm (a := key)]

/-- What is left under a key is what the entries behind the first one of the key leave. -/
theorem leftUnder?_around (separator : Separator) (key : String) (value : Value)
    (earlier later : Flat) (fresh : key ∉ Entries.keys earlier) :
    leftUnder? separator key (earlier ++ (key, value) :: later) =
      some (leftBehind separator key value later) := by
  induction earlier with
  | nil => simp [leftUnder?]
  | cons entry rest ih =>
    obtain ⟨name, other⟩ := entry
    rw [Entries.keys_cons, List.mem_cons, not_or] at fresh
    rw [List.cons_append, leftUnder?, if_neg fun same => fresh.1 same.symm, ih fresh.2]

/-- Placing one entry assigns its value in its section and nothing elsewhere. -/
theorem get_place (separator : Separator) (side : Section) (nested : Nested)
    (entry : String × Value) : (place separator nested entry).get side =
      assignAll (nested.get side) (placed separator side [entry]) := by
  rw [place, placed]
  cases found : place? separator entry.1 with
  | none => simp [found, assignAll]
  | some target =>
    obtain ⟨other, path⟩ := target
    by_cases same : other = side
    · subst same
      simp [found, assignAll]
    · have apart : side ≠ other := fun equal => same equal.symm
      simp [found, assignAll, same, Nested.get_modify_of_ne nested apart]

/-- Nesting a flat record assigns in each section the values that lead there. -/
theorem get_foldl_place (separator : Separator) (side : Section) (flat : Flat)
    (nested : Nested) : (flat.foldl (place separator) nested).get side =
      assignAll (nested.get side) (placed separator side flat) := by
  induction flat generalizing nested with
  | nil => rfl
  | cons entry rest ih =>
    have split : placed separator side (entry :: rest) =
        placed separator side [entry] ++ placed separator side rest :=
      placed_append separator side [entry] rest
    rw [List.foldl_cons, ih, get_place, split, assignAll, assignAll, assignAll, List.foldl_append]

/-- A section of a nested flat record is what the assignments that lead there build. -/
theorem get_toNested (separator : Separator) (side : Section) (flat : Flat) :
    (toNested separator flat).get side = assignAll [] (placed separator side flat) := by
  rw [toNested, get_foldl_place, Nested.get_empty]

/-- Sections that hold the same entries are the same. -/
theorem Nested.eq_of_get (nested other : Nested)
    (same : ∀ side, nested.get side = other.get side) : nested = other := by
  have input := same .input
  have output := same .output
  cases nested
  cases other
  simp_all [Nested.get]

end Stepwise.Flat
