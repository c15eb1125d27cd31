import Stepwise.Flat
import Stepwise.Proofs.Rearranged

/-!
# Leaves and the paths to them

A value is entered by names, one mapping after the other, and its leaves are where the
walk over it stops. The leaves of walked mappings with texts as keys stand at different
paths, and none of these paths goes on through another leaf.
-/

namespace Stepwise.Flat

open Entries (Named isExact_text get?_cons_same get?_cons_other)

/-- What stands at a path of names below a value. -/
def below? : List String → Value → Option Value
  | [], value => some value
  | name :: rest, .mapping entries => (Entries.get? (Key.text name) entries).bind (below? rest)
  | _ :: _, _ => none

/-- Below a mapping the first name is looked up and the others followed. -/
theorem below?_mapping (name : String) (rest : List String) (entries : List (Key × Value)) :
    below? (name :: rest) (.mapping entries) =
      (Entries.get? (Key.text name) entries).bind (below? rest) := rfl

/-- A path that leads on from a value leads into a mapping with entries. -/
theorem mapping_of_below? (path : List String) (filled : path ≠ []) (value found : Value)
    (reached : below? path value = some found) :
    ∃ entries, value = .mapping entries ∧ entries ≠ [] := by
  cases path with
  | nil => exact absurd rfl filled
  | cons name rest =>
    cases value with
    | mapping entries =>
      refine ⟨entries, rfl, ?_⟩
      rintro rfl
      simp [below?] at reached
    | _ => simp [below?] at reached

/-- A path that goes on where another one leads is followed from there. -/
theorem below?_append (first second : List String) (value middle : Value)
    (reached : below? first value = some middle) :
    below? (first ++ second) value = below? second middle := by
  induction first generalizing value with
  | nil =>
    obtain rfl := Option.some.inj reached
    rfl
  | cons name rest ih =>
    obtain ⟨entries, rfl, -⟩ := mapping_of_below? _ (by simp) value middle reached
    rw [below?_mapping, Option.bind_eq_some_iff] at reached
    obtain ⟨next, here, after⟩ := reached
    rw [List.cons_append, below?_mapping, here, Option.bind_some, ih next after]

mutual

/-- Every mapping that is walked over has texts as keys, each once. `whole` tells which
mappings stay whole, by the path to them from here. -/
def Walkable (whole : List String → Bool) : Value → Prop
  | .mapping entries =>
    (entries.isEmpty || whole []) = true ∨ Named entries ∧ WalkableEntries whole entries
  | _ => True

/-- Every mapping that is walked over below entries has texts as keys, each once. -/
def WalkableEntries (whole : List String → Bool) : List (Key × Value) → Prop
  | [] => True
  | (key, value) :: rest =>
    Walkable (fun path => whole (key.plain :: path)) value ∧ WalkableEntries whole rest

end

/-- A name put in front of the path to a leaf. -/
def underName (name : String) (leaf : List String × Value) : List String × Value :=
  (name :: leaf.1, leaf.2)

mutual

/-- The leaves below a name are the leaves of what stands there, the name in front. -/
theorem leaves_under (whole : List String → Bool) (name : String) :
    ∀ (value : Value) (path : List String), leaves whole (name :: path) value =
      (leaves (fun rest => whole (name :: rest)) path value).map (underName name)
  | .mapping entries, path => by
    by_cases stops : (entries.isEmpty || whole (name :: path)) = true
    · simp [leaves, stops, underName]
    · simp only [leaves, stops, Bool.false_eq_true, if_false]
      exact leavesOfEntries_under whole name entries path
  | .null, _ | .bool _, _ | .int _, _ | .real _, _ | .text _, _ | .list _, _ | .tuple _, _
  | .set _ _, _ | .replacement _, _ => by simp [leaves, underName]

/-- The same for the leaves of entries. -/
theorem leavesOfEntries_under (whole : List String → Bool) (name : String) :
    ∀ (entries : List (Key × Value)) (path : List String),
      leavesOfEntries whole (name :: path) entries =
        (leavesOfEntries (fun rest => whole (name :: rest)) path entries).map (underName name)
  | [], _ => rfl
  | (key, value) :: rest, path => by
    simp only [leavesOfEntries, List.cons_append, List.map_append]
    rw [leaves_under whole name value (path ++ [key.plain]),
      leavesOfEntries_under whole name rest path]

end

/-- The leaves of entries, first entry first. -/
theorem leavesOfEntries_cons (whole : List String → Bool) (name : String) (value : Value)
    (rest : List (Key × Value)) :
    leavesOfEntries whole [] ((Key.text name, value) :: rest) =
      (leaves (fun path => whole (name :: path)) [] value).map (underName name) ++
        leavesOfEntries whole [] rest := by
  have plain : (Key.text name).plain = name := by
    simp [Key.plain]
  simp only [leavesOfEntries, List.nil_append, plain]
  rw [leaves_under whole name value []]

mutual

/-- The path to a leaf goes on from where the walk over a value starts. -/
theorem path_of_mem_leaves (whole : List String → Bool) :
    ∀ (value : Value) (path : List String), ∀ leaf ∈ leaves whole path value, path <+: leaf.1
  | .mapping entries, path, leaf, member => by
    by_cases stops : (entries.isEmpty || whole path) = true
    · simp only [leaves, stops, if_true, List.mem_singleton] at member
      exact member ▸ List.prefix_rfl
    · simp only [leaves, stops, Bool.false_eq_true, if_false] at member
      obtain ⟨name, further⟩ := path_of_mem_leavesOfEntries whole entries path leaf member
      exact (List.prefix_append path [name]).trans further
  | .null, path, leaf, member | .bool _, path, leaf, member | .int _, path, leaf, member
  | .real _, path, leaf, member | .text _, path, leaf, member | .list _, path, leaf, member
  | .tuple _, path, leaf, member | .set _ _, path, leaf, member
  | .replacement _, path, leaf, member => by
    simp only [leaves, List.mem_singleton] at member
    exact member ▸ List.prefix_rfl

/-- The path to a leaf of entries goes on by at least one name. -/
theorem path_of_mem_leavesOfEntries (whole : List String → Bool) :
    ∀ (entries : List (Key × Value)) (path : List String),
      ∀ leaf ∈ leavesOfEntries whole path entries, ∃ name, path ++ [name] <+: leaf.1
  | [], _, leaf, member => by simp [leavesOfEntries] at member
  | (key, value) :: rest, path, leaf, member => by
    rcases List.mem_append.mp member with first | later
    · exact ⟨key.plain, path_of_mem_leaves whole value _ leaf first⟩
    · exact path_of_mem_leavesOfEntries whole rest path leaf later

end

/-- A leaf that the walk finds where it starts is the whole value. -/
theorem eq_of_mem_leaves (whole : List String → Bool) (value leaf : Value)
    (member : ([], leaf) ∈ leaves whole [] value) : leaf = value := by
  cases value with
  | mapping entries =>
    by_cases stops : (entries.isEmpty || whole []) = true
    · simp only [leaves, stops, if_true, List.mem_singleton] at member
      exact (Prod.mk.inj member).2
    · simp only [leaves, stops, Bool.false_eq_true, if_false] at member
      obtain ⟨name, further⟩ := path_of_mem_leavesOfEntries whole entries [] _ member
      simp at further
  | _ => simpa [leaves] using member

/-- A leaf of named entries stands below one of them, under its name. -/
theorem exists_entry_of_mem_leavesOfEntries (whole : List String → Bool)
    (entries : List (Key × Value)) (named : Named entries) (leaf : List String × Value)
    (member : leaf ∈ leavesOfEntries whole [] entries) :
    ∃ name value inner, (Key.text name, value) ∈ entries ∧
      inner ∈ leaves (fun path => whole (name :: path)) [] value ∧
        leaf = underName name inner := by
  induction entries with
  | nil => simp [leavesOfEntries] at member
  | cons entry rest ih =>
    obtain ⟨key, value⟩ := entry
    obtain ⟨name, rfl⟩ := named.texts key List.mem_cons_self
    rw [leavesOfEntries_cons, List.mem_append, List.mem_map] at member
    rcases member with ⟨inner, inLeaves, same⟩ | later
    · exact ⟨name, value, inner, List.mem_cons_self, inLeaves, same.symm⟩
    · obtain ⟨other, below, inner, inRest, inLeaves, same⟩ := ih named.tail later
      exact ⟨other, below, inner, List.mem_cons_of_mem _ inRest, inLeaves, same⟩

/-- The leaves of an entry are leaves of the entries. -/
theorem mem_leavesOfEntries (whole : List String → Bool) (entries : List (Key × Value))
    (named : Named entries) (name : String) (value : Value)
    (inEntries : (Key.text name, value) ∈ entries) (inner : List String × Value)
    (inLeaves : inner ∈ leaves (fun path => whole (name :: path)) [] value) :
    underName name inner ∈ leavesOfEntries whole [] entries := by
  induction entries with
  | nil => simp at inEntries
  | cons entry rest ih =>
    obtain ⟨key, first⟩ := entry
    obtain ⟨other, rfl⟩ := named.texts key List.mem_cons_self
    rw [leavesOfEntries_cons, List.mem_append]
    rcases List.mem_cons.mp inEntries with here | later
    · obtain ⟨same, rfl⟩ := Prod.mk.inj here
      obtain rfl := Key.text.inj same
      exact .inl (List.mem_map_of_mem inLeaves)
    · exact .inr (ih named.tail later)

/-- Single names lead to exactly the entries whose mappings stay whole. -/
theorem mem_leavesOfEntries_single (whole : List String → Bool) (entries : List (Key × Value))
    (named : Named entries) (name : String) (stays : whole [name] = true) (value : Value) :
    ([name], value) ∈ leavesOfEntries whole [] entries ↔
      Entries.get? (Key.text name) entries = some value := by
  constructor
  · intro member
    obtain ⟨other, below, inner, inEntries, inLeaves, same⟩ :=
      exists_entry_of_mem_leavesOfEntries whole entries named _ member
    obtain ⟨sameName, sameValue⟩ := Prod.mk.inj same
    obtain ⟨rfl, noMore⟩ := List.cons.inj sameName
    have atOnce : inner = ([], value) := Prod.ext noMore.symm sameValue.symm
    have found : ([], value) ∈ leaves (fun path => whole (name :: path)) [] below :=
      atOnce ▸ inLeaves
    rw [eq_of_mem_leaves _ below value found]
    exact Entries.get?_of_mem _ (isExact_text name) below entries named.distinct inEntries
  · intro read
    have inEntries := Entries.mem_of_get? _ (isExact_text name) value entries read
    have stopped : ([], value) ∈ leaves (fun path => whole (name :: path)) [] value := by
      cases value <;> simp [leaves, stays]
    exact mem_leavesOfEntries whole entries named name value inEntries _ stopped

/-- The walk over a value stops at a path, where it finds a value. It stops at what is no
mapping, at an empty mapping and at one that stays whole, and it goes on below all
others. -/
inductive IsLeaf : (List String → Bool) → Value → List String → Value → Prop
  | here (whole : List String → Bool) (value : Value)
      (stops : ∀ entries, value = .mapping entries → entries ≠ [] → whole [] = true) :
      IsLeaf whole value [] value
  | under (whole : List String → Bool) (entries : List (Key × Value)) (name : String)
      (value : Value) (path : List String) (leaf : Value) (named : Named entries)
      (walked : whole [] = false) (found : Entries.get? (Key.text name) entries = some value)
      (inner : IsLeaf (fun rest => whole (name :: rest)) value path leaf) :
      IsLeaf whole (.mapping entries) (name :: path) leaf

/-- The walk over entries stops at a path, where it finds a value. -/
def IsLeafOf (whole : List String → Bool) (entries : List (Key × Value)) (path : List String)
    (leaf : Value) : Prop :=
  ∃ name value rest, path = name :: rest ∧ Entries.get? (Key.text name) entries = some value ∧
    IsLeaf (fun path => whole (name :: path)) value rest leaf

mutual

/-- The walk over a value lists where it stops. -/
theorem isLeaf_of_mem (whole : List String → Bool) :
    ∀ (value : Value), Walkable whole value →
      ∀ leaf ∈ leaves whole [] value, IsLeaf whole value leaf.1 leaf.2
  | .mapping entries, walkable, leaf, member => by
    by_cases stops : (entries.isEmpty || whole []) = true
    · simp only [leaves, stops, if_true, List.mem_singleton] at member
      subst member
      apply IsLeaf.here
      rintro others ⟨rfl⟩ filled
      simpa [filled] using stops
    · simp only [leaves, stops, Bool.false_eq_true, if_false] at member
      have walked : whole [] = false := by
        simp only [Bool.or_eq_true, not_or, Bool.not_eq_true] at stops
        exact stops.2
      obtain ⟨named, below⟩ := walkable.resolve_left stops
      obtain ⟨name, value, rest, split, found, inner⟩ :=
        isLeafOf_of_mem whole entries named below leaf member
      rw [split]
      exact .under whole entries name value rest leaf.2 named walked found inner
  | .null, _, leaf, member | .bool _, _, leaf, member | .int _, _, leaf, member
  | .real _, _, leaf, member | .text _, _, leaf, member | .list _, _, leaf, member
  | .tuple _, _, leaf, member | .set _ _, _, leaf, member
  | .replacement _, _, leaf, member => by
    simp only [leaves, List.mem_singleton] at member
    subst member
    apply IsLeaf.here
    intro entries impossible
    cases impossible

/-- The walk over entries lists where it stops. -/
theorem isLeafOf_of_mem (whole : List String → Bool) :
    ∀ (entries : List (Key × Value)), Named entries → WalkableEntries whole entries →
      ∀ leaf ∈ leavesOfEntries whole [] entries, IsLeafOf whole entries leaf.1 leaf.2
  | [], _, _, leaf, member => by simp [leavesOfEntries] at member
  | (key, value) :: rest, named, walkable, leaf, member => by
    obtain ⟨name, rfl⟩ := named.texts key List.mem_cons_self
    rw [leavesOfEntries_cons, List.mem_append, List.mem_map] at member
    rcases member with ⟨inner, innerMember, rfl⟩ | later
    · have valueWalkable : Walkable (fun path => whole (name :: path)) value := by
        simpa [Key.plain] using walkable.1
      have isLeaf := isLeaf_of_mem _ value valueWalkable inner innerMember
      refine ⟨name, value, inner.1, rfl, ?_, isLeaf⟩
      exact get?_cons_same _ (isExact_text name) value rest
    · obtain ⟨other, below, path, split, found, isLeaf⟩ :=
        isLeafOf_of_mem whole rest named.tail walkable.2 leaf later
      have present : Key.text other ∈ Entries.keys rest :=
        (Entries.get?_isSome_exact _ (isExact_text other) rest).mp ⟨below, found⟩
      have apart : Key.text name ≠ Key.text other := fun same =>
        (List.nodup_cons.mp named.distinct).1 (same ▸ present)
      refine ⟨other, below, path, split, ?_, isLeaf⟩
      rw [get?_cons_other _ (isExact_text other) _ apart, found]

end

mutual

/-- No path leads to two leaves of a value. -/
theorem nodup_paths_leaves (whole : List String → Bool) :
    ∀ (value : Value), Walkable whole value → ((leaves whole [] value).map Prod.fst).Nodup
  | .mapping entries, walkable => by
    by_cases stops : (entries.isEmpty || whole []) = true
    · simp [leaves, stops]
    · simp only [leaves, stops, Bool.false_eq_true, if_false]
      obtain ⟨named, below⟩ := walkable.resolve_left stops
      exact nodup_paths_leavesOfEntries whole entries named below
  | .null, _ | .bool _, _ | .int _, _ | .real _, _ | .text _, _ | .list _, _ | .tuple _, _
  | .set _ _, _ | .replacement _, _ => by simp [leaves]

/-- No path leads to two leaves of entries: those of one entry start with its name, and
those of another one with another name. -/
theorem nodup_paths_leavesOfEntries (whole : List String → Bool) :
    ∀ (entries : List (Key × Value)), Named entries → WalkableEntries whole entries →
      ((leavesOfEntries whole [] entries).map Prod.fst).Nodup
  | [], _, _ => by simp [leavesOfEntries]
  | (key, value) :: rest, named, walkable => by
    obtain ⟨name, rfl⟩ := named.texts key List.mem_cons_self
    have valueWalkable : Walkable (fun path => whole (name :: path)) value := by
      simpa [Key.plain] using walkable.1
    have first := nodup_paths_leaves _ value valueWalkable
    have later := nodup_paths_leavesOfEntries whole rest named.tail walkable.2
    rw [leavesOfEntries_cons, List.map_append, List.map_map]
    refine List.Nodup.append ?_ later ?_
    · have prefixed : Prod.fst ∘ underName name = List.cons name ∘ Prod.fst := rfl
      rw [prefixed, ← List.map_map]
      exact first.map (List.cons_injective)
    · intro path inFirst inLater
      obtain ⟨leaf, -, rfl⟩ := List.mem_map.mp inFirst
      obtain ⟨other, member, same⟩ := List.mem_map.mp inLater
      obtain ⟨_, below, _, split, found, -⟩ :=
        isLeafOf_of_mem whole rest named.tail walkable.2 other member
      rw [same] at split
      obtain ⟨rfl, -⟩ := List.cons.inj split
      have present := (Entries.get?_isSome_exact _ (isExact_text name) rest).mp ⟨below, found⟩
      exact (List.nodup_cons.mp named.distinct).1 present

end

namespace IsLeaf

/-- The path to a leaf leads to it. -/
theorem reached {whole : List String → Bool} {value : Value} {path : List String} {leaf : Value}
    (isLeaf : IsLeaf whole value path leaf) : below? path value = some leaf := by
  induction isLeaf with
  | here => rfl
  | under whole entries name value path leaf named walked found inner ih =>
    rw [below?_mapping, found, Option.bind_some, ih]

/-- The walk stops at a leaf: a mapping with entries is one only if it stays whole. -/
theorem stops {whole : List String → Bool} {value : Value} {path : List String} {leaf : Value}
    (isLeaf : IsLeaf whole value path leaf) (entries : List (Key × Value))
    (mapping : leaf = .mapping entries) (filled : entries ≠ []) : whole path = true := by
  induction isLeaf with
  | here whole value stops => exact stops entries mapping filled
  | under whole others name value path leaf named walked found inner ih => exact ih mapping

/-- No mapping on the way to a leaf stays whole. -/
theorem passed {whole : List String → Bool} {value : Value} {path : List String} {leaf : Value}
    (isLeaf : IsLeaf whole value path leaf) (first rest : List String)
    (split : path = first ++ rest) (filled : rest ≠ []) : whole first = false := by
  induction isLeaf generalizing first with
  | here whole value stops => exact absurd (List.append_eq_nil_iff.mp split.symm).2 filled
  | under whole entries name value path leaf named walked found inner ih =>
    cases first with
    | nil => exact walked
    | cons head tail =>
      simp only [List.cons_append, List.cons.injEq] at split
      obtain ⟨rfl, inside⟩ := split
      exact ih tail inside

/-- A rearranged value is reached on the same path in a rearranged value. -/
theorem reached_rearranged {whole : List String → Bool} {value other : Value}
    {path : List String} {leaf : Value} (isLeaf : IsLeaf whole value path leaf)
    (related : value.Rearranged other) :
    ∃ found, below? path other = some found ∧ leaf.Rearranged found := by
  induction isLeaf generalizing other with
  | here whole value stops => exact ⟨other, rfl, related⟩
  | under whole entries name value path leaf named walked found inner ih =>
    obtain ⟨others, rfl⟩ := related.exists_mapping
    obtain ⟨next, there, values⟩ :=
      Entries.exists_get?_rearranged name entries others named.distinct related value found
    obtain ⟨final, reached, same⟩ := ih values
    exact ⟨final, by rw [below?_mapping, there, Option.bind_some, reached], same⟩

end IsLeaf

namespace IsLeafOf

variable {whole : List String → Bool} {entries : List (Key × Value)} {path : List String}
  {leaf : Value}

/-- The path to a leaf of entries is not empty. -/
theorem path_ne_nil (isLeaf : IsLeafOf whole entries path leaf) : path ≠ [] := by
  obtain ⟨name, value, rest, rfl, -, -⟩ := isLeaf
  exact List.cons_ne_nil name rest

/-- The path to a leaf of entries leads to it. -/
theorem reached (isLeaf : IsLeafOf whole entries path leaf) :
    below? path (.mapping entries) = some leaf := by
  obtain ⟨name, value, rest, rfl, found, inner⟩ := isLeaf
  rw [below?_mapping, found, Option.bind_some, inner.reached]

/-- A mapping with entries is a leaf only if it stays whole. -/
theorem stops (isLeaf : IsLeafOf whole entries path leaf) (others : List (Key × Value))
    (mapping : leaf = .mapping others) (filled : others ≠ []) : whole path = true := by
  obtain ⟨name, value, rest, rfl, -, inner⟩ := isLeaf
  exact inner.stops others mapping filled

/-- No mapping on the way to a leaf stays whole. -/
theorem passed (isLeaf : IsLeafOf whole entries path leaf) (first rest : List String)
    (split : path = first ++ rest) (started : first ≠ []) (filled : rest ≠ []) :
    whole first = false := by
  obtain ⟨name, value, tail, rfl, -, inner⟩ := isLeaf
  cases first with
  | nil => exact absurd rfl started
  | cons head more =>
    simp only [List.cons_append, List.cons.injEq] at split
    obtain ⟨rfl, inside⟩ := split
    exact inner.passed more rest inside filled

/-- A rearranged value is reached on the same path in rearranged entries. -/
theorem reached_rearranged (isLeaf : IsLeafOf whole entries path leaf) (named : Named entries)
    (others : List (Key × Value)) (related : (Value.mapping entries).Rearranged (.mapping others)) :
    ∃ found, below? path (.mapping others) = some found ∧ leaf.Rearranged found := by
  obtain ⟨name, value, rest, rfl, found, inner⟩ := isLeaf
  obtain ⟨next, there, values⟩ :=
    Entries.exists_get?_rearranged name entries others named.distinct related value found
  obtain ⟨final, reached, same⟩ := inner.reached_rearranged values
  exact ⟨final, by rw [below?_mapping, there, Option.bind_some, reached], same⟩

/-- No path to a leaf goes on through another leaf. -/
theorem not_through (isLeaf : IsLeafOf whole entries path leaf) (rest : List String)
    (filled : rest ≠ []) (last : Value) : ¬ IsLeafOf whole entries (path ++ rest) last := by
  intro further
  have through : below? rest leaf = some last := by
    rw [← below?_append path rest (.mapping entries) leaf isLeaf.reached]
    exact further.reached
  obtain ⟨others, mapping, nonempty⟩ := mapping_of_below? rest filled leaf last through
  have stopped := isLeaf.stops others mapping nonempty
  have walked := further.passed path rest rfl isLeaf.path_ne_nil filled
  rw [stopped] at walked
  cases walked

end IsLeafOf

end Stepwise.Flat
