import Stepwise.Proofs.NestedAgain

/-!
# Names that run into the separator

A name that the separator is not in may still end the way the separator begins. Where the
separator goes on behind that beginning the way it began, it occurs in the name and the
separator put behind it before the place where it was put. Such a name runs into the
separator, and a path on which another name follows it is split elsewhere.

So a record whose names are free of the separator comes back from its flat form exactly
when no name with another one below it runs into the separator. All these records come
back exactly for the separators of which no beginning is an end as well: each separator of
one character, but not two underscores.
-/

namespace Stepwise

namespace Separator

/-- A name that is not empty and that the separator is not in. -/
def IsFree (separator : Separator) (name : String) : Prop :=
  name ≠ "" ∧ separator.occursIn name = false

/-- The separator begins with a part that the name ends with, and what follows that part is
how the separator begins as well. -/
def RunsInto (separator : Separator) (name : String) : Prop :=
  ∃ start rest, start ≠ [] ∧ rest ≠ [] ∧ separator.chars = start ++ rest ∧
    rest <+: separator.chars ∧ start <:+ name.toList

/-- No proper beginning of the separator is one of its ends. -/
def Unbordered (separator : Separator) : Prop :=
  ∀ start rest, start ≠ [] → rest ≠ [] → separator.chars = start ++ rest →
    ¬ rest <+: separator.chars

variable {separator : Separator}

/-- The separator is not in a free name. -/
theorem IsFree.not_occurs {name : String} (free : separator.IsFree name) :
    ¬ separator.chars <:+: name.toList := by
  rw [← cut_eq_none_iff separator.nonempty, ← Option.isNone_iff_eq_none]
  simpa [occursIn] using free.2

/-- Behind a free name the separator occurs first where it was put, unless the name runs
into it.

Proof: an earlier occurrence begins in the name. It does not end there, so the end of the
name from there on is a beginning of the separator, and what remains of the occurrence is
laid over the beginning of the separator that was put. -/
theorem IsFree.leftmostAt_iff {name : String} (free : separator.IsFree name) :
    LeftmostAt separator.chars (name.toList ++ separator.chars) name.toList.length ↔
      ¬ separator.RunsInto name := by
  constructor
  · rintro ⟨-, leftmost⟩ ⟨start, rest, startFilled, -, parts, again, before, whole⟩
    have positive : 0 < start.length := List.length_pos_iff.mpr startFilled
    have length : name.toList.length = before.length + start.length := by
      rw [← whole, List.length_append]
    apply leftmost before.length (by omega)
    have dropped : (name.toList ++ separator.chars).drop before.length =
        start ++ separator.chars := by
      rw [← whole]
      simp
    rw [dropped]
    obtain ⟨tail, repeated⟩ := again
    exact ⟨tail, by rw [parts, List.append_assoc, ← parts, repeated]⟩
  · intro apart
    refine ⟨by simp, ?_⟩
    intro earlier bound occurs
    have inside : (name.toList ++ separator.chars).drop earlier =
        name.toList.drop earlier ++ separator.chars :=
      List.drop_append_of_le_length (Nat.le_of_lt bound)
    rw [inside] at occurs
    have filled : name.toList.drop earlier ≠ [] := by
      simpa using bound
    rcases Nat.le_total separator.chars.length (name.toList.drop earlier).length with
      short | long
    · -- The whole occurrence lies in the name.
      have within := List.prefix_of_prefix_length_le occurs (List.prefix_append _ _) short
      exact free.not_occurs (within.isInfix.trans (List.drop_suffix earlier _).isInfix)
    · obtain ⟨rest, parts⟩ :=
        List.prefix_of_prefix_length_le (List.prefix_append _ _) occurs long
      by_cases ends : rest = []
      · rw [ends, List.append_nil] at parts
        exact free.not_occurs (parts ▸ (List.drop_suffix earlier _).isInfix)
      · refine apart ⟨_, rest, filled, ends, parts.symm, ?_, List.drop_suffix earlier _⟩
        rw [← parts, List.prefix_append_right_inj, parts] at occurs
        exact occurs

/-- A path of free names stays apart unless one that another follows runs into the
separator. -/
theorem keepsApart_iff_of_free (path : List String)
    (free : ∀ name ∈ path, separator.IsFree name) :
    separator.KeepsApart path ↔ ∀ name ∈ path.dropLast, ¬ separator.RunsInto name := by
  have leftmost : ∀ name ∈ path.dropLast,
      LeftmostAt separator.chars (name.toList ++ separator.chars) name.toList.length ↔
        ¬ separator.RunsInto name :=
    fun name member => (free name (List.mem_of_mem_dropLast member)).leftmostAt_iff
  constructor
  · intro apart name member
    exact (leftmost name member).mp (apart.earlier name member)
  · intro apart
    constructor
    · intro name last
      exact (free name (List.mem_of_getLast? last)).not_occurs
    · intro name member
      exact (leftmost name member).mpr (apart name member)

/-- Nothing runs into a separator of which no beginning is an end. -/
theorem Unbordered.not_runsInto (unbordered : separator.Unbordered) (name : String) :
    ¬ separator.RunsInto name := by
  rintro ⟨start, rest, startFilled, filled, parts, again, -⟩
  exact unbordered start rest startFilled filled parts again

/-- A proper beginning of the separator is a free name. -/
theorem isFree_of_start (start rest : List Char) (startFilled : start ≠ []) (filled : rest ≠ [])
    (parts : separator.chars = start ++ rest) : separator.IsFree (String.ofList start) := by
  constructor
  · simpa using startFilled
  · have shorter : ¬ separator.chars <:+: start := by
      intro inside
      have bound := inside.length_le
      have positive := List.length_pos_iff.mpr filled
      rw [parts, List.length_append] at bound
      omega
    rw [← cut_eq_none_iff separator.nonempty] at shorter
    simp [occursIn, shorter]

end Separator

namespace Flat

variable {separator : Separator}

/-- Sections in which every mapping has texts as keys, each once, and all of them free of the
separator. -/
structure FreeSections (separator : Separator) (state : Nested) : Prop where
  walked : ∀ side, WalkedEntries (state.get side)
  free : ∀ side path found, below? path (.mapping (state.get side)) = some found →
    ∀ name ∈ path, separator.IsFree name

/-- No name that has another one below it runs into the separator. -/
def NoneRunsOn (separator : Separator) (state : Nested) : Prop :=
  ∀ side path next found, below? (path ++ [next]) (.mapping (state.get side)) = some found →
    ∀ name ∈ path, ¬ separator.RunsInto name

/-- Sections of free names are walked over. -/
theorem FreeSections.walkable {state : Nested} (sections : FreeSections separator state) :
    WalkableSections separator [] state :=
  ⟨fun side => (sections.walked side).1, fun side => (sections.walked side).2⟩

/-- The leaves of sections of free names are where their paths end. -/
theorem FreeSections.mem_leavesOf_iff {state : Nested} (sections : FreeSections separator state)
    (side : Section) (path : List String) (leaf : Value) :
    (path, leaf) ∈ leavesOf separator [] side (state.get side) ↔
      LeafAt (state.get side) path leaf :=
  mem_leavesOfEntries_iff _ (sections.walked side) path leaf

/-- The leaves of sections of free names can be restored exactly when no name on the way to
one runs into the separator. -/
theorem FreeSections.restorable_iff {state : Nested} (sections : FreeSections separator state) :
    (∀ side, ∀ leaf ∈ leavesOf separator [] side (state.get side), Restorable separator leaf.1) ↔
      NoneRunsOn separator state := by
  constructor
  · intro restorable side path next found reached name member
    -- The path goes on to a leaf, and the name stays before its last one.
    obtain ⟨rest, leaf, leafAt⟩ :=
      (sections.walked side).exists_leafAt (path ++ [next]) (by simp) found reached
    have listed := (sections.mem_leavesOf_iff side _ leaf).mpr leafAt
    have free := sections.free side _ leaf leafAt.reached
    have apart := (Separator.keepsApart_iff_of_free _ free).mp (restorable side _ listed).2
    apply apart name
    rw [List.append_assoc, List.dropLast_append_of_ne_nil (by simp)]
    exact List.mem_append_left _ member
  · intro none side leaf listed
    have leafAt := (sections.mem_leavesOf_iff side leaf.1 leaf.2).mp listed
    have free := sections.free side leaf.1 leaf.2 leafAt.reached
    constructor
    · intro bare
      exact (free "" (by simp [bare])).1 rfl
    · apply (Separator.keepsApart_iff_of_free _ free).mpr
      have split := List.dropLast_append_getLast leafAt.filled
      exact none side leaf.1.dropLast _ leaf.2 (split ▸ leafAt.reached)

/-- A record that comes back up to order has restorable leaves only. -/
theorem restorable_of_rearranged {state : Nested} (walkable : WalkableSections separator [] state)
    (record : List (Key × Value)) (holds : Holds record state)
    (related : (Value.mapping record).Rearranged
      (toNested separator (ofRecord separator [] record)).toValue) :
    ∀ side, ∀ leaf ∈ leavesOf separator [] side (state.get side),
      Restorable separator leaf.1 := by
  apply restorable_of_found walkable record holds
  intro side leaf member
  obtain ⟨found, reached, -⟩ := (walkable.isLeafOf side leaf member).reached_rearranged
    (walkable.named side) _ (holds.section_rearranged _ related side)
  exact ⟨found, reached⟩

/-- A record of free names comes back from its flat form, as it was or up to order, exactly
when no name that has another one below it runs into the separator. -/
theorem FreeSections.comesBack_iff {state : Nested} (sections : FreeSections separator state)
    (record : List (Key × Value)) (holds : Holds record state) :
    (toNested separator (ofRecord separator [] record) = state ↔ NoneRunsOn separator state) ∧
      ((Value.mapping record).Rearranged
        (toNested separator (ofRecord separator [] record)).toValue ↔
          NoneRunsOn separator state) := by
  have back : NoneRunsOn separator state →
      toNested separator (ofRecord separator [] record) = state := fun none =>
    toNested_of_restorable sections.walkable record holds (sections.restorable_iff.mpr none)
  have weaker : toNested separator (ofRecord separator [] record) = state →
      (Value.mapping record).Rearranged
        (toNested separator (ofRecord separator [] record)).toValue := by
    intro same
    rw [same]
    exact .mapping holds (List.forall₂_same.mpr fun entry _ => .of (.same _) (.same _))
  have necessary : (Value.mapping record).Rearranged
      (toNested separator (ofRecord separator [] record)).toValue → NoneRunsOn separator state :=
    fun related => sections.restorable_iff.mp
      (restorable_of_rearranged sections.walkable record holds related)
  exact ⟨⟨fun same => necessary (weaker same), back⟩, ⟨necessary, fun none => weaker (back none)⟩⟩

/-- The record with one name below another one in its input. -/
def oneBelow (first second : String) : Nested :=
  ⟨[(.text first, .mapping [(.text second, .null)])], []⟩

/-- A path into a single entry is empty or goes below its name. -/
theorem below?_single (name : String) (value : Value) (path : List String) (found : Value)
    (reached : below? path (.mapping [(.text name, value)]) = some found) :
    path = [] ∨ ∃ rest, path = name :: rest ∧ below? rest value = some found := by
  cases path with
  | nil => exact .inl rfl
  | cons first rest =>
    rw [below?_mapping, Option.bind_eq_some_iff] at reached
    obtain ⟨next, here, after⟩ := reached
    obtain ⟨rfl, rfl⟩ : name = first ∧ value = next := by
      simpa [Entries.get?] using here
    exact .inr ⟨rest, rfl, after⟩

/-- The paths into such a record are the beginnings of the two names. -/
theorem prefix_of_below?_oneBelow (first second : String) (side : Section) (path : List String)
    (found : Value) (reached : below? path (.mapping ((oneBelow first second).get side)) =
      some found) : path <+: [first, second] := by
  cases side with
  | input =>
    rcases below?_single first _ path found reached with rfl | ⟨rest, rfl, below⟩
    · exact List.nil_prefix
    · rcases below?_single second _ rest found below with rfl | ⟨last, rfl, ends⟩
      · simp
      · obtain ⟨rfl, -⟩ := eq_of_below?_leaf .null found (by simp [IsLeafValue]) last ends
        exact List.prefix_rfl
  | output =>
    cases path with
    | nil => exact List.nil_prefix
    | cons name rest => simp [oneBelow, Nested.get, below?] at reached

/-- One free name below another one makes sections of free names. -/
theorem freeSections_oneBelow (first second : String) (firstFree : separator.IsFree first)
    (secondFree : separator.IsFree second) : FreeSections separator (oneBelow first second) := by
  have inner : WalkedEntries [(.text second, .null)] :=
    ⟨⟨by simp, by simp⟩, by simp [walkableEntries_iff, Walkable]⟩
  constructor
  · intro side
    cases side with
    | input =>
      refine ⟨⟨by simp [oneBelow, Nested.get], by simp [oneBelow, Nested.get]⟩, ?_⟩
      simpa [oneBelow, Nested.get, walkableEntries_iff] using (walkable_mapping_iff _).mpr inner
    | output => exact ⟨Entries.named_nil, trivial⟩
  · intro side path found reached name member
    have inside := (prefix_of_below?_oneBelow first second side path found reached).subset member
    rcases List.mem_pair.mp inside with rfl | rfl
    · exact firstFree
    · exact secondFree

/-- In such a record only the upper name can run on. -/
theorem noneRunsOn_oneBelow_iff (first second : String) :
    NoneRunsOn separator (oneBelow first second) ↔ ¬ separator.RunsInto first := by
  constructor
  · intro none
    apply none .input [first] second .null _ first (by simp)
    simp [oneBelow, Nested.get, below?_mapping, Entries.get?, below?]
  · intro apart side path next found reached name member
    have start := prefix_of_below?_oneBelow first second side _ found reached
    rcases path with _ | ⟨head, tail⟩
    · cases member
    · rw [List.cons_append, List.cons_prefix_cons] at start
      obtain ⟨rfl, others⟩ := start
      have length := others.length_le
      obtain rfl : tail = [] := by simpa using length
      exact List.mem_singleton.mp member ▸ apart

/-- A nested record is held by the record of its two sections. -/
theorem holds_sections (state : Nested) :
    Holds [(.text Section.input.name, .mapping state.input),
      (.text Section.output.name, .mapping state.output)] state :=
  List.Perm.refl _

/-- A record of names that are free of the separator comes back from its flat form, as it was
or up to order, exactly when no name that has another one below it runs into the separator;
and all such records come back exactly if no proper beginning of the separator is one of its
ends.

Proof: a path of such names is split where it was joined unless one of them runs into the
separator. If a beginning of the separator is an end, what stands before that end is a free
name that runs into the separator, and the record with this name twice does not come back. -/
theorem comesBack_of_free (separator : Separator) :
    (∀ record state, Holds record state → FreeSections separator state →
      (toNested separator (ofRecord separator [] record) = state ↔ NoneRunsOn separator state) ∧
        ((Value.mapping record).Rearranged
          (toNested separator (ofRecord separator [] record)).toValue ↔
            NoneRunsOn separator state)) ∧
    ((∀ record state, Holds record state → FreeSections separator state →
      (Value.mapping record).Rearranged
        (toNested separator (ofRecord separator [] record)).toValue) ↔
          separator.Unbordered) := by
  refine ⟨fun record state holds sections => sections.comesBack_iff record holds, ?_⟩
  constructor
  · intro allBack start rest startFilled filled parts again
    have free := Separator.isFree_of_start start rest startFilled filled parts
    have sections := freeSections_oneBelow _ _ free free
    have back := allBack _ _ (holds_sections _) sections
    apply (noneRunsOn_oneBelow_iff _ _).mp ((sections.comesBack_iff _ (holds_sections _)).2.mp back)
    exact ⟨start, rest, startFilled, filled, parts, again, by simp⟩
  · intro unbordered record state holds sections
    apply (sections.comesBack_iff record holds).2.mpr
    intro side path next found reached name member
    exact unbordered.not_runsInto name

/-- Two underscores. -/
def underscores : Separator := ⟨['_', '_'], by simp⟩

/-- A name runs into two underscores if it ends in one. -/
theorem runsInto_underscores_iff (name : String) :
    underscores.RunsInto name ↔ ['_'] <:+ name.toList := by
  constructor
  · rintro ⟨start, rest, startFilled, filled, parts, -, ends⟩
    rcases start with _ | ⟨first, _ | ⟨second, more⟩⟩
    · exact absurd rfl startFilled
    · obtain ⟨rfl, -⟩ : '_' = first ∧ ['_'] = rest := by simpa [underscores] using parts
      exact ends
    · obtain ⟨-, -, -, rfl⟩ : '_' = first ∧ '_' = second ∧ more = [] ∧ rest = [] := by
        simpa [underscores] using parts
      exact absurd rfl filled
  · intro ends
    exact ⟨['_'], ['_'], by simp, by simp, rfl, ⟨['_'], rfl⟩, ends⟩

/-- With two underscores between names, names with single ones in them come back, but not all
records of free names do. -/
theorem comesBack_of_free_underscores :
    let state := oneBelow "user_profile" "first_name"
    let record := [(Key.text "output", Value.mapping state.output),
      (Key.text "input", .mapping state.input)]
    (Holds record state ∧ FreeSections underscores state ∧
      toNested underscores (ofRecord underscores [] record) = state) ∧
    ¬ ∀ others nested, Holds others nested → FreeSections underscores nested →
      (Value.mapping others).Rearranged
        (toNested underscores (ofRecord underscores [] others)).toValue := by
  intro state record
  have holds : Holds record state := List.Perm.swap _ _ _
  have free : FreeSections underscores state :=
    freeSections_oneBelow _ _ ⟨by decide, by decide⟩ ⟨by decide, by decide⟩
  refine ⟨⟨holds, free, ?_⟩, ?_⟩
  · apply ((comesBack_of_free underscores).1 record state holds free).1.mpr
    rw [noneRunsOn_oneBelow_iff, runsInto_underscores_iff]
    decide
  · rw [(comesBack_of_free underscores).2]
    intro unbordered
    exact unbordered ['_'] ['_'] (by simp) (by simp) rfl ⟨['_'], rfl⟩

/-- With two underscores between names, a name that ends in one is cut short, although the
separator is in none of the names. -/
theorem toNested_ofRecord_cut_short :
    let state := oneBelow "a_" "b"
    let record := [(Key.text "input", Value.mapping state.input),
      (Key.text "output", .mapping state.output)]
    Holds record state ∧ FreeSections underscores state ∧
      toNested underscores (ofRecord underscores [] record) = oneBelow "a" "_b" ∧
      ¬ (Value.mapping record).Rearranged
        (toNested underscores (ofRecord underscores [] record)).toValue := by
  intro state record
  have holds : Holds record state := holds_sections state
  have free : FreeSections underscores state :=
    freeSections_oneBelow _ _ ⟨by decide, by decide⟩ ⟨by decide, by decide⟩
  have flat : ofRecord underscores [] record = [("input__a___b", .null)] := by rfl
  have leads : place? underscores "input__a___b" = some (.input, ["a", "_b"]) := by
    decide +kernel
  have nested : toNested underscores (ofRecord underscores [] record) = oneBelow "a" "_b" := by
    simp only [flat, toNested, List.foldl_cons, List.foldl_nil, place, leads]
    rfl
  refine ⟨holds, free, nested, ?_⟩
  intro related
  have none := (free.comesBack_iff record holds).2.mp related
  rw [noneRunsOn_oneBelow_iff, runsInto_underscores_iff] at none
  exact none (by decide)

end Flat
end Stepwise
