import Mathlib.Logic.Function.Basic
import Stepwise.Proofs.HeldNesting

/-!
# What nesting leaves

A mapping that an entry holds is followed through the entries after it: it stands at the
entry's path and takes what is assigned below, until an assignment at the path or above it
takes it out; from then on it stays as it is. Together with the sections this is all that
nesting leaves, as long as no mapping is held twice.
-/

namespace Stepwise

open Entries (isExact_text)

namespace Located

variable {part : Located} {path : List String} {next : Nat} {entries : List (Key × Located)}

/-- What stands at a path depends on the entry of the first name only. -/
theorem at?_congr (first : String) (rest : List String) (entries others : List (Key × Located))
    (same : Entries.get? (Key.text first) entries = Entries.get? (Key.text first) others) :
    at? (first :: rest) entries = at? (first :: rest) others := by
  cases rest <;> simp only [at?, same]

/-- Below a mapping that was just written under a name its own entries are followed. -/
theorem at?_insert_below (name : String) (rest : List String) (filled : rest ≠ []) (address : Nat)
    (inner entries : List (Key × Located)) :
    at? (name :: rest) (Entries.insert (Key.text name) (.mapping address inner) entries) =
      at? rest inner :=
  at?_below filled (Entries.get?_insert_same _ (isExact_text name) _ _)

/-- A path of several names goes through a mapping under the first one. -/
theorem mapping_of_at? {name : String} {rest : List String} (filled : rest ≠ [])
    (reached : at? (name :: rest) entries = some part) : ∃ address inner,
      Entries.get? (Key.text name) entries = some (.mapping address inner) ∧
        at? rest inner = some part := by
  rcases mapping_or_not name entries with ⟨address, inner, found⟩ | without
  · exact ⟨address, inner, found, (at?_below filled found).symm.trans reached⟩
  · rw [at?_nowhere filled without] at reached
    cases reached

/-- What was assigned stands at its path. -/
theorem at?_assign_self (part : Located) (path : List String) (filled : path ≠ []) (next : Nat)
    (entries : List (Key × Located)) : at? path (part.assign path next entries) = some part := by
  induction path generalizing next entries with
  | nil => exact absurd rfl filled
  | cons name rest ih =>
    by_cases last : rest = []
    · subst last
      exact Entries.get?_insert_same _ (isExact_text name) _ _
    · rcases mapping_or_not name entries with ⟨address, inner, found⟩ | without
      · rw [assign_below last found, at?_insert_below name rest last, ih last]
      · rw [assign_new last without, at?_insert_below name rest last, ih last]

/-- An assignment below a mapping goes into it. -/
theorem at?_assign_inside (part : Located) (path further : List String) (filled : further ≠ [])
    (next address : Nat) (inner entries : List (Key × Located))
    (reached : at? path entries = some (.mapping address inner)) :
    at? path (part.assign (path ++ further) next entries) =
      some (.mapping address (part.assign further next inner)) := by
  induction path generalizing entries with
  | nil => cases reached
  | cons name rest ih =>
    by_cases last : rest = []
    · subst last
      rw [List.cons_append, List.nil_append, assign_below filled reached]
      exact Entries.get?_insert_same _ (isExact_text name) _ _
    · obtain ⟨above, between, found, below⟩ := mapping_of_at? last reached
      rw [List.cons_append, assign_below (by simp [filled]) found,
        at?_insert_below name rest last, ih between below]

/-- An assignment at a path apart leaves what stands at a path. -/
theorem at?_assign_apart (part : Located) (written path : List String) (next : Nat)
    (entries : List (Key × Located)) (apart : Flat.Parted written path) {standing : Located}
    (reached : at? path entries = some standing) :
    at? path (part.assign written next entries) = some standing := by
  induction written generalizing path entries with
  | nil => exact absurd List.nil_prefix apart.1
  | cons name rest ih =>
    cases path with
    | nil => cases reached
    | cons first more =>
      by_cases same : name = first
      · subst same
        rw [Flat.parted_cons_iff] at apart
        have notLast : rest ≠ [] := by
          rintro rfl
          exact apart.1 List.nil_prefix
        have further : more ≠ [] := by
          rintro rfl
          exact apart.2 List.nil_prefix
        obtain ⟨address, inner, found, below⟩ := mapping_of_at? further reached
        rw [assign_below notLast found, at?_insert_below name more further]
        exact ih more inner apart below
      · have otherKey : Key.text name ≠ Key.text first := fun equal => same (Key.text.inj equal)
        obtain ⟨held, made⟩ := part.exists_assign_eq name rest next entries
        rw [← reached, made]
        apply at?_congr
        exact Entries.get?_insert_other _ _ (isExact_text name) (isExact_text first) otherKey
          held entries

/-- The mappings of what stands at a path are among those of all entries. -/
theorem nodes_sublist_of_at? (path : List String) (entries : List (Key × Located))
    (reached : at? path entries = some part) : part.nodes.Sublist (nodesOf entries) := by
  induction path generalizing entries with
  | nil => cases reached
  | cons name rest ih =>
    by_cases last : rest = []
    · subst last
      exact nodes_sublist_of_get? _ _ entries reached
    · obtain ⟨address, inner, found, below⟩ := mapping_of_at? last reached
      have inside := nodes_sublist_of_get? _ _ entries found
      exact ((ih inner below).cons _).trans inside

/-- What stands at a path is taken out by an assignment at the path or above it. -/
theorem nodes_sublist_taken (written further : List String) (filled : written ≠ [])
    (entries : List (Key × Located)) (reached : at? (written ++ further) entries = some part) :
    part.nodes.Sublist (taken written entries) := by
  induction written generalizing entries with
  | nil => exact absurd rfl filled
  | cons name rest ih =>
    by_cases last : rest = []
    · subst last
      by_cases ends : further = []
      · subst ends
        rw [List.append_nil] at reached
        rw [taken, reached]
        exact List.Sublist.refl _
      · obtain ⟨address, inner, found, below⟩ := mapping_of_at? ends reached
        have out : taken [name] entries = (mapping address inner).nodes := by
          rw [taken, at?, found]
          rfl
        rw [out, nodes]
        exact (nodes_sublist_of_at? further inner below).cons _
    · obtain ⟨address, inner, found, below⟩ := mapping_of_at? (by simp [last]) reached
      rw [taken, at?_below last found, ← taken]
      exact ih last inner below

end Located

open Located (at? taken values nodesOf)

/-! ## Nesting entry by entry -/

/-- Nothing is done to the value of an entry whose key leads nowhere. -/
theorem Flat.leftBehind_of_nowhere {separator : Separator} (key : String)
    (nowhere : place? separator key = none) (value : Value) (later : Flat) :
    leftBehind separator key value later = value := by
  cases value <;> simp [leftBehind, nowhere]

/-- Nothing is done to a value that is no mapping. -/
theorem Flat.leftBehind_of_plain (separator : Separator) (key : String) (value : Value)
    (whole : value.entries? = none) (later : Flat) :
    leftBehind separator key value later = value := by
  cases value with
  | mapping entries => cases whole
  | _ => rfl

/-- The mappings of both sections, which stand at the addresses from `start` on. -/
def sectionNodes (start : Nat) (sections : Section → List (Key × Located)) : List Node :=
  Section.all.flatMap fun side => (Store.root start side, sections side) :: nodesOf (sections side)

/-- One section first, whatever it holds, then the other one. -/
theorem exists_sectionNodes_perm (start : Nat) (sections : Section → List (Key × Located))
    (side : Section) : ∃ others, ∀ entries,
      (sectionNodes start (Function.update sections side entries)).Perm
        ((Store.root start side, entries) :: nodesOf entries ++ others) := by
  cases side with
  | input =>
    refine ⟨(start + 1, sections .output) :: nodesOf (sections .output), fun entries => ?_⟩
    simp [sectionNodes, Section.all, Store.root]
  | output =>
    refine ⟨(start, sections .input) :: nodesOf (sections .input), fun entries => ?_⟩
    have both : sectionNodes start (Function.update sections .output entries) =
        ((start, sections .input) :: nodesOf (sections .input)) ++
          ((start + 1, entries) :: nodesOf entries) := by
      simp [sectionNodes, Section.all, Store.root]
    rw [both]
    exact List.perm_append_comm

/-- The mappings below a section are among those of both. -/
theorem nodesOf_sublist_sectionNodes (start : Nat) (sections : Section → List (Key × Located))
    (side : Section) : (nodesOf (sections side)).Sublist (sectionNodes start sections) := by
  cases side with
  | input =>
    simp [sectionNodes, Section.all]
  | output =>
    have behind := (List.sublist_cons_self (Store.root start .output, sections .output)
      (nodesOf (sections .output))).trans
        (List.sublist_append_right (nodesOf (sections .input)) _)
    simpa [sectionNodes, Section.all] using behind.cons _

variable {separator : Separator} {start : Nat} {store : Store}

/-- The sections with one entry of a located flat record assigned. -/
def placeLocated (separator : Separator) (next : Nat) (sections : Section → List (Key × Located))
    (entry : String × Located) : Section → List (Key × Located) :=
  match Flat.place? separator entry.1 with
  | some (side, path) =>
    Function.update sections side (entry.2.assign path next (sections side))
  | none => sections

/-- The mappings that an entry leaves outside of the sections: those that it takes out, or its
own if its key leads nowhere. -/
def setAside (separator : Separator) (sections : Section → List (Key × Located))
    (entry : String × Located) : List Node :=
  match Flat.place? separator entry.1 with
  | some (side, path) => taken path (sections side)
  | none => entry.2.nodes

/-- Two parts in the middle change their places. -/
theorem perm_append_swap (first second third fourth : List Node) :
    (first ++ second ++ (third ++ fourth)).Perm (first ++ third ++ (second ++ fourth)) := by
  rw [List.append_assoc, List.append_assoc]
  exact (List.perm_append_comm_assoc second third fourth).append_left first

/-- Placing an entry leaves a forest. -/
theorem Forest.place {sections : Section → List (Key × Located)} {others : List Node}
    (entry : String × Located)
    (forest : Forest store (sectionNodes start sections ++ (entry.2.nodes ++ others))) :
    Forest (store.place separator start (entry.1, entry.2.item))
      (sectionNodes start (placeLocated separator store.length sections entry) ++
        (setAside separator sections entry ++ others)) := by
  rw [Store.place, placeLocated, setAside]
  cases leads : Flat.place? separator entry.1 with
  | none => exact forest
  | some target =>
    obtain ⟨side, path⟩ := target
    have filled : path ≠ [] := ((Flat.place?_eq_some_iff separator _ side path).mp leads).filled
    obtain ⟨other, order⟩ := exists_sectionNodes_perm start sections side
    have before := order (sections side)
    rw [Function.update_eq_self] at before
    have apart := forest.perm ((before.append_right _).trans (perm_append_swap _ _ _ _))
    exact (apart.assign path filled).perm
      ((perm_append_swap _ _ _ _).trans ((order _).symm.append_right _))

/-- An item is one of several mappings, or a plain value, and has a value. -/
def Shows (nodes : List Node) (item : Item) (value : Value) : Prop :=
  ∃ located : Located, located.item = item ∧ located.value = value ∧ located.nodes.Sublist nodes

/-- What is shown by the mappings of a forest is read back. -/
theorem Forest.value_of_shows {nodes : List Node} (forest : Forest store nodes) (item : Item)
    (value : Value) (shows' : Shows nodes item value) : store.value item = value := by
  obtain ⟨located, rfl, rfl, among⟩ := shows'
  exact (forest.sublist among).value_item

/-- What nesting entries in sections leaves: a forest of the new sections and of mappings
aside, among them those that were aside before. The sections are what the values' assignments
build. A mapping that stood somewhere has taken what was assigned below it, and so has the
mapping of each entry. -/
structure Leaves (separator : Separator) (start : Nat) (pending : List (String × Located))
    (sections : Section → List (Key × Located)) (others : List Node) (after : Store)
    (final : Section → List (Key × Located)) (aside : List Node) : Prop where
  forest : Forest after (sectionNodes start final ++ aside)
  kept : others.Sublist aside
  built : ∀ side, values (final side) =
    Flat.assignAll (values (sections side)) (Flat.placed separator side (flatValues pending))
  standing : ∀ side path address inner, at? path (sections side) = some (.mapping address inner) →
    Shows (sectionNodes start final ++ aside) (.held address) (.mapping
      (Flat.leftAt path (Flat.placed separator side (flatValues pending)) (values inner)))
  entries : ∀ key part later, ((key, part) :: later) <:+ pending →
    Shows (sectionNodes start final ++ aside) part.item
      (Flat.leftBehind separator key part.value (flatValues later))

/-- A plain value is shown by any mappings. -/
theorem Shows.plain (nodes : List Node) (value : Value) (whole : value.entries? = none) :
    Shows nodes (.plain value) value :=
  ⟨.plain value whole, rfl, rfl, List.nil_sublist _⟩

/-- Mappings that are aside are shown as they are. -/
theorem Shows.aside {front aside : List Node} (located : Located)
    (among : located.nodes.Sublist aside) : Shows (front ++ aside) located.item located.value :=
  ⟨located, rfl, rfl, among.trans (List.sublist_append_right _ _)⟩

/-- An entry that leads nowhere is put aside. -/
theorem Leaves.skip {sections final : Section → List (Key × Located)} {others aside : List Node}
    {after : Store} {pending : List (String × Located)} (entry : String × Located)
    (nowhere : Flat.place? separator entry.1 = none)
    (leaves : Leaves separator start pending sections (entry.2.nodes ++ others) after final aside) :
    Leaves separator start (entry :: pending) sections others after final aside := by
  have unplaced : ∀ side, Flat.placed separator side (flatValues (entry :: pending)) =
      Flat.placed separator side (flatValues pending) := fun side => by
    simp [flatValues, Flat.placed, nowhere]
  refine ⟨leaves.forest, (List.sublist_append_right _ _).trans leaves.kept, fun side => ?_,
    fun side path address inner reached => ?_, fun key part later suffix => ?_⟩
  · rw [unplaced]
    exact leaves.built side
  · rw [unplaced]
    exact leaves.standing side path address inner reached
  · rcases List.suffix_cons_iff.mp suffix with equal | further
    · obtain ⟨rfl, rfl⟩ := List.cons.inj equal
      rw [Flat.leftBehind_of_nowhere key nowhere]
      exact .aside part ((List.sublist_append_left _ _).trans leaves.kept)
    · exact leaves.entries key part later further

/-- An entry that leads to a section is assigned there. -/
theorem Leaves.assign {sections final : Section → List (Key × Located)} {others aside : List Node}
    {after : Store} {pending : List (String × Located)} (entry : String × Located) (side : Section)
    (path : List String) (next : Nat)
    (leads : Flat.place? separator entry.1 = some (side, path))
    (leaves : Leaves separator start pending
      (Function.update sections side (entry.2.assign path next (sections side)))
      (taken path (sections side) ++ others) after final aside) :
    Leaves separator start (entry :: pending) sections others after final aside := by
  have filled : path ≠ [] := ((Flat.place?_eq_some_iff separator _ side path).mp leads).filled
  have here : Flat.placed separator side (flatValues (entry :: pending)) =
      (path, entry.2.value) :: Flat.placed separator side (flatValues pending) := by
    simp [flatValues, Flat.placed, leads]
  have elsewhere : ∀ other, other ≠ side →
      Flat.placed separator other (flatValues (entry :: pending)) =
        Flat.placed separator other (flatValues pending) := fun other apart => by
    simp [flatValues, Flat.placed, leads, apart.symm]
  have assigned := leaves.standing side
  rw [Function.update_self] at assigned
  refine ⟨leaves.forest, (List.sublist_append_right _ _).trans leaves.kept, fun other => ?_,
    fun other standing address inner reached => ?_, fun key part later suffix => ?_⟩
  · by_cases same : other = side
    · subst same
      rw [here, leaves.built, Function.update_self, Located.values_assign]
      rfl
    · rw [elsewhere other same, leaves.built, Function.update_of_ne same]
  · by_cases same : other = side
    · subst same
      rw [here, Flat.leftAt]
      split_ifs with above below
      · obtain ⟨further, rfl⟩ := List.isPrefixOf_iff_prefix.mp above
        have out := Located.nodes_sublist_taken path further filled _ reached
        exact .aside (.mapping address inner)
          ((out.trans (List.sublist_append_left _ _)).trans leaves.kept)
      · obtain ⟨further, rfl⟩ := List.isPrefixOf_iff_prefix.mp below
        have goesOn : further ≠ [] := by
          rintro rfl
          exact above (by simp)
        rw [List.drop_left]
        have inside := assigned standing address _
          (Located.at?_assign_inside entry.2 standing further goesOn next address inner _ reached)
        rwa [Located.values_assign] at inside
      · refine assigned standing address inner
          (Located.at?_assign_apart entry.2 path standing next _ ⟨?_, ?_⟩ reached)
        · exact mt List.isPrefixOf_iff_prefix.mpr above
        · exact mt List.isPrefixOf_iff_prefix.mpr below
    · rw [elsewhere other same]
      apply leaves.standing other standing address inner
      rwa [Function.update_of_ne same]
  · rcases List.suffix_cons_iff.mp suffix with equal | further
    · obtain ⟨rfl, rfl⟩ := List.cons.inj equal
      cases part with
      | plain value whole =>
        rw [Located.value, Flat.leftBehind_of_plain separator key value whole]
        exact .plain _ value whole
      | mapping address inner =>
        have stands := assigned path address inner
          (Located.at?_assign_self (.mapping address inner) path filled next (sections side))
        rw [Located.value, Flat.leftBehind_mapping separator key side path leads]
        exact stands
    · exact leaves.entries key part later further

/-- Nesting the entries of a located flat record, one after the other.

Proof: by induction on the entries, for any sections and any mappings aside. -/
theorem exists_leaves (separator : Separator) (start : Nat) (pending : List (String × Located))
    (store : Store) (sections : Section → List (Key × Located)) (others : List Node)
    (forest : Forest store (sectionNodes start sections ++ (flatNodes pending ++ others))) :
    ∃ final aside, Leaves separator start pending sections others
      ((heldItems pending).foldl (Store.place separator start) store) final aside := by
  induction pending generalizing store sections others with
  | nil =>
    refine ⟨sections, others, forest, List.Sublist.refl _, fun _ => rfl,
      fun side path address inner reached => ?_, fun key part later suffix => by simp at suffix⟩
    refine ⟨.mapping address inner, rfl, rfl, ?_⟩
    have among := Located.nodes_sublist_of_at? path _ reached
    exact (among.trans (nodesOf_sublist_sectionNodes start sections side)).trans
      (List.sublist_append_left _ _)
  | cons entry rest ih =>
    have split : flatNodes (entry :: rest) ++ others =
        entry.2.nodes ++ (flatNodes rest ++ others) := by
      simp [flatNodes]
    rw [split] at forest
    have placed : Forest (store.place separator start (entry.1, entry.2.item)) _ :=
      forest.place entry
    rw [placeLocated, setAside] at placed
    cases leads : Flat.place? separator entry.1 with
    | none =>
      rw [leads] at placed
      obtain ⟨final, aside, leaves⟩ := ih _ sections (entry.2.nodes ++ others)
        (placed.perm ((List.perm_append_comm_assoc _ _ _).append_left _))
      exact ⟨final, aside, leaves.skip entry leads⟩
    | some target =>
      obtain ⟨side, path⟩ := target
      rw [leads] at placed
      obtain ⟨final, aside, leaves⟩ := ih _ _ (taken path (sections side) ++ others)
        (placed.perm ((List.perm_append_comm_assoc _ _ _).append_left _))
      exact ⟨final, aside, leaves.assign entry side path store.length leads⟩

/-! ## Nesting a flat record -/

/-- A flat record whose mappings have addresses of their own is nested, entry by entry, into two
new sections. -/
theorem Forest.exists_leaves_nest (separator : Separator) (flat : List (String × Located))
    {others : List Node} (forest : Forest store (flatNodes flat ++ others)) :
    ∃ final aside, Leaves separator store.length flat (fun _ => []) others
      (store.nest separator (heldItems flat)) final aside := by
  have new : Grown store (store ++ [[], []]) (sectionNodes store.length fun _ => []) := by
    refine ⟨List.prefix_append _ _, ⟨?_, ?_⟩, ?_⟩
    · simp [Stored, sectionNodes, Section.all, Store.root, nodesOf, Located.items]
    · simp [addresses, sectionNodes, Section.all, Store.root, nodesOf]
    · simp [addresses, sectionNodes, Section.all, Store.root, nodesOf]
  exact exists_leaves separator store.length flat (store ++ [[], []]) _ others
    ((forest.grown new).perm List.perm_append_comm)

/-- Nesting in a store is nesting the values, as long as no mapping is held twice. -/
theorem Forest.nested_nest (separator : Separator) (flat : List (String × Located))
    {others : List Node} (forest : Forest store (flatNodes flat ++ others)) :
    (store.nest separator (heldItems flat)).nested store.length =
      Flat.toNested separator (flatValues flat) := by
  obtain ⟨final, aside, leaves⟩ := forest.exists_leaves_nest separator flat
  apply Flat.Nested.eq_of_get
  intro side
  have section' : Forest (store.nest separator (heldItems flat))
      ((Store.root store.length side, final side) :: nodesOf (final side)) := by
    obtain ⟨other, order⟩ := exists_sectionNodes_perm store.length final side
    have whole := order (final side)
    rw [Function.update_eq_self] at whole
    exact ((leaves.forest.sublist (List.sublist_append_left _ aside)).perm whole).sublist
      (List.sublist_append_left _ other)
  have read : ((store.nest separator (heldItems flat)).nested store.length).get side =
      (store.nest separator (heldItems flat)).entries (Store.root store.length side) := by
    cases side <;> rfl
  rw [read, section'.entries, leaves.built, Flat.get_toNested]
  rfl

/-- Nesting leaves in each entry what the later ones make of it. -/
theorem Forest.value_of_nested_entry (separator : Separator) (flat : List (String × Located))
    {others : List Node} (forest : Forest store (flatNodes flat ++ others)) (key : String)
    (part : Located) (later : List (String × Located)) (suffix : ((key, part) :: later) <:+ flat) :
    (store.nest separator (heldItems flat)).value part.item =
      Flat.leftBehind separator key part.value (flatValues later) := by
  obtain ⟨final, aside, leaves⟩ := forest.exists_leaves_nest separator flat
  exact leaves.forest.value_of_shows _ _ (leaves.entries key part later suffix)

/-- Nesting leaves every other value as it was. -/
theorem Forest.value_of_other (separator : Separator) (flat : List (String × Located))
    {others : List Node} (forest : Forest store (flatNodes flat ++ others)) (located : Located)
    (among : located.nodes.Sublist others) :
    (store.nest separator (heldItems flat)).value located.item = located.value := by
  obtain ⟨final, aside, leaves⟩ := forest.exists_leaves_nest separator flat
  exact leaves.forest.value_of_shows _ _ (.aside located (among.trans leaves.kept))

end Stepwise
