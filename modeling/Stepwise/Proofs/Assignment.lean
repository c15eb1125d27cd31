import Mathlib.Data.List.Induction
import Stepwise.Proofs.Leaves

/-!
# Assigning values at paths

Assignments that follow one another on growing entries. Whatever is found afterwards at
a path was written by one of them, at the path, above it or below it, or was there
before. The leaves of walked entries, assigned in their order to nothing, rebuild the
entries.
-/

namespace Stepwise.Flat

open Entries (Named isExact_text get?_insert_same get?_insert_other)

/-- Assign values at paths, one after the other. -/
def assignAll (built : List (Key × Value)) (writes : List (List String × Value)) :
    List (Key × Value) :=
  writes.foldl (fun entries write => assign write.1 write.2 entries) built

/-- A write at a single name as a plain write. -/
def plainWrite (write : List String × Value) : Key × Value :=
  (.text (write.1.headD ""), write.2)

/-- Assignments at single names are plain writes. -/
theorem assignAll_of_single (built : List (Key × Value)) (writes : List (List String × Value))
    (single : ∀ write ∈ writes, ∃ name, write.1 = [name]) :
    assignAll built writes = Entries.merge built (writes.map plainWrite) := by
  induction writes generalizing built with
  | nil => rfl
  | cons write rest ih =>
    obtain ⟨path, value⟩ := write
    obtain ⟨name, rfl⟩ := single (path, value) List.mem_cons_self
    exact ih (Entries.insert (Key.text name) value built)
      fun other member => single other (List.mem_cons_of_mem _ member)

/-- What assignments leave in a mapping that was assigned at a path are those of them that go
below the path. -/
theorem exists_leftAt_eq (path : List String) (writes : List (List String × Value))
    (entries : List (Key × Value)) :
    ∃ below, leftAt path writes entries = assignAll entries below ∧
      ∀ write ∈ below, write.1 ≠ [] ∧ (path ++ write.1, write.2) ∈ writes := by
  induction writes generalizing entries with
  | nil => exact ⟨[], rfl, by simp⟩
  | cons write rest ih =>
    obtain ⟨written, value⟩ := write
    rw [leftAt]
    split_ifs with away inside
    · exact ⟨[], rfl, by simp⟩
    · obtain ⟨further, rfl⟩ := List.isPrefixOf_iff_prefix.mp inside
      have goesOn : further ≠ [] := by
        rintro rfl
        exact away (by simp)
      rw [List.drop_left]
      obtain ⟨below, left, known⟩ := ih (assign further value entries)
      refine ⟨(further, value) :: below, left, fun other member => ?_⟩
      rcases List.mem_cons.mp member with rfl | later
      · exact ⟨goesOn, List.mem_cons_self⟩
      · exact ⟨(known other later).1, List.mem_cons_of_mem _ (known other later).2⟩
    · obtain ⟨below, left, known⟩ := ih entries
      exact ⟨below, left, fun other member =>
        ⟨(known other member).1, List.mem_cons_of_mem _ (known other member).2⟩⟩

/-- What an assignment works on below a name: the entries of the mapping that stands
there, or none. -/
def entriesBelow (name : String) (entries : List (Key × Value)) : List (Key × Value) :=
  ((Entries.get? (Key.text name) entries).bind Value.entries?).getD []

/-- An assignment at a path of more than one name works below the first one. -/
theorem assign_cons (name : String) (rest : List String) (filled : rest ≠ []) (value : Value)
    (entries : List (Key × Value)) : assign (name :: rest) value entries =
      Entries.insert (Key.text name) (.mapping (assign rest value (entriesBelow name entries)))
        entries := by
  cases rest with
  | nil => exact absurd rfl filled
  | cons next more => rfl

/-- An assignment writes something under the first name of its path, and nothing else. -/
theorem exists_assign_eq (name : String) (rest : List String) (value : Value)
    (entries : List (Key × Value)) : ∃ written,
      assign (name :: rest) value entries = Entries.insert (Key.text name) written entries := by
  by_cases last : rest = []
  · subst last
    exact ⟨value, rfl⟩
  · exact ⟨_, assign_cons name rest last value entries⟩

/-- Below the entries that an assignment works on the same is found as before below the
name. -/
theorem below?_entriesBelow (name : String) (rest : List String) (filled : rest ≠ [])
    (entries : List (Key × Value)) :
    below? rest (.mapping (entriesBelow name entries)) =
      below? (name :: rest) (.mapping entries) := by
  obtain ⟨next, more, rfl⟩ := List.exists_cons_of_ne_nil filled
  rw [below?_mapping name, entriesBelow]
  cases there : Entries.get? (Key.text name) entries with
  | none => rfl
  | some value => cases value <;> rfl

/-- Below a name that was just written what was written is followed. -/
theorem below?_insert_same (name : String) (rest : List String) (written : Value)
    (entries : List (Key × Value)) :
    below? (name :: rest) (.mapping (Entries.insert (Key.text name) written entries)) =
      below? rest written := by
  rw [below?_mapping, get?_insert_same _ (isExact_text name), Option.bind_some]

/-- Below another name than the one just written nothing changes. -/
theorem below?_insert_other (name first : String) (apart : name ≠ first) (rest : List String)
    (written : Value) (entries : List (Key × Value)) :
    below? (first :: rest) (.mapping (Entries.insert (Key.text name) written entries)) =
      below? (first :: rest) (.mapping entries) := by
  have otherKey : Key.text name ≠ Key.text first := fun same => apart (Key.text.inj same)
  rw [below?_mapping, below?_mapping,
    get?_insert_other _ _ (isExact_text name) (isExact_text first) otherKey]

/-- What is found after an assignment was written by it, on the way to its place or below
it, or was there before. -/
theorem below?_assign (written path : List String) (value found : Value)
    (writtenFilled : written ≠ []) (filled : path ≠ []) (entries : List (Key × Value))
    (reached : below? path (.mapping (assign written value entries)) = some found) :
    path <+: written ∨ (∃ rest, path = written ++ rest ∧ below? rest value = some found) ∨
      below? path (.mapping entries) = some found := by
  induction written generalizing path entries with
  | nil => exact absurd rfl writtenFilled
  | cons name more ih =>
    obtain ⟨first, rest, rfl⟩ := List.exists_cons_of_ne_nil filled
    by_cases last : more = []
    · subst last
      rw [assign] at reached
      by_cases same : name = first
      · subst same
        rw [below?_insert_same] at reached
        exact .inr (.inl ⟨rest, rfl, reached⟩)
      · rw [below?_insert_other _ _ same] at reached
        exact .inr (.inr reached)
    · rw [assign_cons name more last] at reached
      by_cases same : name = first
      · subst same
        rw [below?_insert_same] at reached
        by_cases ends : rest = []
        · subst ends
          exact .inl ⟨more, rfl⟩
        · rcases ih rest last ends _ reached with above | ⟨tail, split, inside⟩ | before
          · exact .inl (List.cons_prefix_cons.mpr ⟨rfl, above⟩)
          · exact .inr (.inl ⟨tail, by rw [split, List.cons_append], inside⟩)
          · exact .inr (.inr ((below?_entriesBelow name rest ends entries).symm.trans before))
      · rw [below?_insert_other _ _ same] at reached
        exact .inr (.inr reached)

/-- What is found after assignments to nothing was written by one of them. -/
theorem below?_assignAll (path : List String) (found : Value) (filled : path ≠ [])
    (writes : List (List String × Value)) (allFilled : ∀ write ∈ writes, write.1 ≠ [])
    (reached : below? path (.mapping (assignAll [] writes)) = some found) :
    ∃ write ∈ writes, path <+: write.1 ∨
      ∃ rest, path = write.1 ++ rest ∧ below? rest write.2 = some found := by
  induction writes using List.reverseRecOn with
  | nil =>
    obtain ⟨name, rest, rfl⟩ := List.exists_cons_of_ne_nil filled
    simp [assignAll, below?_mapping] at reached
  | append_singleton earlier last ih =>
    rw [assignAll, List.foldl_append, List.foldl_cons, List.foldl_nil] at reached
    have lastFilled : last.1 ≠ [] := allFilled last (by simp)
    rcases below?_assign last.1 path last.2 found lastFilled filled _ reached with
      above | below | before
    · exact ⟨last, by simp, .inl above⟩
    · exact ⟨last, by simp, .inr below⟩
    · obtain ⟨write, member, place⟩ :=
        ih (fun write member => allFilled write (List.mem_append_left _ member)) before
      exact ⟨write, List.mem_append_left _ member, place⟩

/-- Assignments below a name that stands last work on what it holds. -/
theorem assignAll_under (name : String) (built inner : List (Key × Value))
    (absent : Key.text name ∉ Entries.keys built) (writes : List (List String × Value))
    (allFilled : ∀ write ∈ writes, write.1 ≠ []) :
    assignAll (built ++ [(Key.text name, .mapping inner)]) (writes.map (underName name)) =
      built ++ [(Key.text name, .mapping (assignAll inner writes))] := by
  induction writes generalizing inner with
  | nil => rfl
  | cons write rest ih =>
    have read : Entries.get? (Key.text name) (built ++ [(Key.text name, Value.mapping inner)]) =
        some (.mapping inner) := by
      rw [Entries.get?_append, (Entries.get?_eq_none_exact _ (isExact_text name) built).mpr absent]
      simp [Entries.get?]
    have below : entriesBelow name (built ++ [(Key.text name, .mapping inner)]) = inner := by
      simp [entriesBelow, read, Value.entries?]
    have written : assign (name :: write.1) write.2 (built ++ [(Key.text name, .mapping inner)]) =
        built ++ [(Key.text name, .mapping (assign write.1 write.2 inner))] := by
      rw [assign_cons name write.1 (allFilled write List.mem_cons_self), below,
        Entries.insert_append _ (isExact_text name) _ _ _ absent]
      simp [Entries.insert]
    have unfolded : assignAll (built ++ [(Key.text name, .mapping inner)])
        ((write :: rest).map (underName name)) =
          assignAll (assign (name :: write.1) write.2 (built ++ [(Key.text name, .mapping inner)]))
            (rest.map (underName name)) := rfl
    rw [unfolded, written, ih _ fun other member => allFilled other (List.mem_cons_of_mem _ member)]
    rfl

/-- Assignments below a new name put a mapping of what they build at the end. -/
theorem assignAll_under_new (name : String) (built : List (Key × Value))
    (absent : Key.text name ∉ Entries.keys built) (writes : List (List String × Value))
    (some' : writes ≠ []) (allFilled : ∀ write ∈ writes, write.1 ≠ []) :
    assignAll built (writes.map (underName name)) =
      built ++ [(Key.text name, .mapping (assignAll [] writes))] := by
  obtain ⟨write, rest, rfl⟩ := List.exists_cons_of_ne_nil some'
  have unread := (Entries.get?_eq_none_exact _ (isExact_text name) built).mpr absent
  have below : entriesBelow name built = [] := by simp [entriesBelow, unread]
  have first : assign (name :: write.1) write.2 built =
      built ++ [(Key.text name, .mapping (assign write.1 write.2 []))] := by
    rw [assign_cons name write.1 (allFilled write List.mem_cons_self), below,
      Entries.insert_of_not_mem _ (isExact_text name) _ _ absent]
  have unfolded : assignAll built ((write :: rest).map (underName name)) =
      assignAll (assign (name :: write.1) write.2 built) (rest.map (underName name)) := rfl
  rw [unfolded, first, assignAll_under name built _ absent rest
    fun other member => allFilled other (List.mem_cons_of_mem _ member)]
  rfl

mutual

/-- A walk over a value always finds a leaf. -/
theorem leaves_ne_nil (whole : List String → Bool) :
    ∀ (value : Value) (path : List String), leaves whole path value ≠ []
  | .mapping entries, path => by
    by_cases stops : (entries.isEmpty || whole path) = true
    · simp [leaves, stops]
    · simp only [leaves, stops, Bool.false_eq_true, if_false]
      apply leavesOfEntries_ne_nil whole entries path
      rintro rfl
      simp at stops
  | .null, _ | .bool _, _ | .int _, _ | .real _, _ | .text _, _ | .list _, _ | .tuple _, _
  | .set _ _, _ | .replacement _, _ => by simp [leaves]

/-- A walk over entries always finds a leaf. -/
theorem leavesOfEntries_ne_nil (whole : List String → Bool) :
    ∀ (entries : List (Key × Value)) (path : List String), entries ≠ [] →
      leavesOfEntries whole path entries ≠ []
  | [], _, filled => absurd rfl filled
  | (key, value) :: rest, path, _ => by
    simp only [leavesOfEntries, ne_eq, List.append_eq_nil_iff, not_and]
    intro none
    exact absurd none (leaves_ne_nil whole value _)

end

mutual

/-- The leaves of a value, assigned below a new name, put the value there. -/
theorem assignAll_leaves (whole : List String → Bool) (name : String) :
    ∀ (value : Value), Walkable whole value →
      ∀ built : List (Key × Value), Key.text name ∉ Entries.keys built →
        assignAll built ((leaves whole [] value).map (underName name)) =
          built ++ [(Key.text name, value)]
  | .mapping entries, walkable, built, absent => by
    by_cases stops : (entries.isEmpty || whole []) = true
    · simp only [leaves, stops, if_true]
      exact Entries.insert_of_not_mem _ (isExact_text name) _ built absent
    · simp only [leaves, stops, Bool.false_eq_true, if_false]
      obtain ⟨named, below⟩ := walkable.resolve_left stops
      have filled : entries ≠ [] := by
        rintro rfl
        simp at stops
      have pathsFilled : ∀ leaf ∈ leavesOfEntries whole [] entries, leaf.1 ≠ [] :=
        fun leaf member => (isLeafOf_of_mem whole entries named below leaf member).path_ne_nil
      rw [assignAll_under_new name built absent _ (leavesOfEntries_ne_nil whole entries [] filled)
        pathsFilled, assignAll_leavesOfEntries whole entries named below [] (by simp)]
      rfl
  | .null, _, built, absent | .bool _, _, built, absent | .int _, _, built, absent
  | .real _, _, built, absent | .text _, _, built, absent | .list _, _, built, absent
  | .tuple _, _, built, absent | .set _ _, _, built, absent
  | .replacement _, _, built, absent =>
    Entries.insert_of_not_mem _ (isExact_text name) _ built absent

/-- The leaves of entries, assigned behind entries of other names, put the entries
there. -/
theorem assignAll_leavesOfEntries (whole : List String → Bool) :
    ∀ (entries : List (Key × Value)), Named entries → WalkableEntries whole entries →
      ∀ built : List (Key × Value), (∀ key ∈ Entries.keys entries, key ∉ Entries.keys built) →
        assignAll built (leavesOfEntries whole [] entries) = built ++ entries
  | [], _, _, built, _ => by simp [leavesOfEntries, assignAll]
  | (key, value) :: rest, named, walkable, built, fresh => by
    obtain ⟨name, rfl⟩ := named.texts key List.mem_cons_self
    have valueWalkable : Walkable (fun path => whole (name :: path)) value := by
      simpa [Key.plain] using walkable.1
    have absent : Key.text name ∉ Entries.keys built := fresh _ List.mem_cons_self
    have restFresh : ∀ other ∈ Entries.keys rest,
        other ∉ Entries.keys (built ++ [(Key.text name, value)]) := by
      intro other later present
      have kept := fresh other (List.mem_cons_of_mem _ later)
      have apart : other ≠ Key.text name := by
        rintro rfl
        exact (List.nodup_cons.mp named.distinct).1 later
      simp [Entries.keys, apart] at present kept
      exact absurd present (by simpa using kept)
    rw [leavesOfEntries_cons, assignAll, List.foldl_append]
    have first := assignAll_leaves _ name value valueWalkable built absent
    have later := assignAll_leavesOfEntries whole rest named.tail walkable.2 _ restFresh
    rw [assignAll] at first later
    rw [first, later, List.append_assoc, List.singleton_append]

end

end Stepwise.Flat
