import Stepwise.Proofs.Holding
import Stepwise.Proofs.LastWrites

/-!
# Nesting held values

Assigning in a store follows the assignment of located values, in which a new mapping on
the way gets the next address. No address is used twice by it, the mappings that it
takes out of the record stay as they are, and nothing else in the store is touched.

So nesting a flat record whose mappings all have addresses of their own leaves the same
sections as nesting its values does, and in each entry what the later ones make of it.
-/

namespace Stepwise

open Entries (isExact_text)

namespace Located

/-- Write a located value at a non-empty path of names. New mappings on the way get the
next addresses. -/
def assign (part : Located) : List String → Nat → List (Key × Located) → List (Key × Located)
  | [], _, entries => entries
  | [last], _, entries => Entries.insert (Key.text last) part entries
  | name :: rest, next, entries =>
    match Entries.get? (Key.text name) entries with
    | some (.mapping address inner) =>
      Entries.insert (Key.text name) (.mapping address (assign part rest next inner)) entries
    | _ => Entries.insert (Key.text name) (.mapping next (assign part rest (next + 1) [])) entries

/-- What stands at a non-empty path of names. -/
def at? : List String → List (Key × Located) → Option Located
  | [], _ => none
  | [last], entries => Entries.get? (Key.text last) entries
  | name :: rest, entries =>
    match Entries.get? (Key.text name) entries with
    | some (.mapping _ inner) => at? rest inner
    | _ => none

/-- The mappings that an assignment at a path takes out. -/
def taken (path : List String) (entries : List (Key × Located)) : List Node :=
  ((at? path entries).map nodes).getD []

/-- No mapping stands under a name. -/
def NoMapping (name : String) (entries : List (Key × Located)) : Prop :=
  ∀ address inner, Entries.get? (Key.text name) entries ≠ some (.mapping address inner)

theorem mapping_or_not (name : String) (entries : List (Key × Located)) :
    (∃ address inner, Entries.get? (Key.text name) entries = some (.mapping address inner)) ∨
      NoMapping name entries := by
  by_cases found : ∃ address inner,
      Entries.get? (Key.text name) entries = some (.mapping address inner)
  · exact .inl found
  · exact .inr fun address inner same => found ⟨address, inner, same⟩

variable {part : Located} {name : String} {rest : List String} {next address : Nat}
  {entries inner : List (Key × Located)}

theorem assign_below (filled : rest ≠ [])
    (found : Entries.get? (Key.text name) entries = some (.mapping address inner)) :
    part.assign (name :: rest) next entries =
      Entries.insert (Key.text name) (.mapping address (part.assign rest next inner)) entries := by
  obtain ⟨second, more, rfl⟩ := List.exists_cons_of_ne_nil filled
  rw [assign, found]
  exact filled

theorem assign_new (filled : rest ≠ []) (without : NoMapping name entries) :
    part.assign (name :: rest) next entries =
      Entries.insert (Key.text name) (.mapping next (part.assign rest (next + 1) [])) entries := by
  obtain ⟨second, more, rfl⟩ := List.exists_cons_of_ne_nil filled
  rw [assign]
  · split
    · next address inner found => exact absurd found (without address inner)
    · rfl
  · exact filled

/-- An assignment writes something under the first name of its path, and nothing else. -/
theorem exists_assign_eq (part : Located) (name : String) (rest : List String) (next : Nat)
    (entries : List (Key × Located)) : ∃ written,
      part.assign (name :: rest) next entries =
        Entries.insert (Key.text name) written entries := by
  by_cases last : rest = []
  · subst last
    exact ⟨part, rfl⟩
  · rcases mapping_or_not name entries with ⟨address, inner, found⟩ | without
    · exact ⟨_, assign_below last found⟩
    · exact ⟨_, assign_new last without⟩

theorem at?_below (filled : rest ≠ [])
    (found : Entries.get? (Key.text name) entries = some (.mapping address inner)) :
    at? (name :: rest) entries = at? rest inner := by
  obtain ⟨second, more, rfl⟩ := List.exists_cons_of_ne_nil filled
  rw [at?, found]
  exact filled

theorem at?_nowhere (filled : rest ≠ []) (without : NoMapping name entries) :
    at? (name :: rest) entries = none := by
  obtain ⟨second, more, rfl⟩ := List.exists_cons_of_ne_nil filled
  rw [at?]
  · split
    · next address inner found => exact absurd found (without address inner)
    · rfl
  · exact filled

/-- Nothing stands in no entries. -/
theorem taken_nil (path : List String) : taken path [] = [] := by
  cases path with
  | nil => rfl
  | cons name rest => cases rest <;> rfl

theorem items_insert (key : Key) (part : Located) (entries : List (Key × Located)) :
    items (Entries.insert key part entries) = Entries.insert key part.item (items entries) :=
  Entries.insert_mapValues item key part entries

theorem get?_items (key : Key) (entries : List (Key × Located)) :
    Entries.get? key (items entries) = (Entries.get? key entries).map item :=
  Entries.get?_mapValues item key entries

theorem values_insert (key : Key) (part : Located) (entries : List (Key × Located)) :
    values (Entries.insert key part entries) = Entries.insert key part.value (values entries) := by
  rw [values_eq_map, values_eq_map]
  exact Entries.insert_mapValues value key part entries

theorem get?_values (key : Key) (entries : List (Key × Located)) :
    Entries.get? key (values entries) = (Entries.get? key entries).map value := by
  rw [values_eq_map]
  exact Entries.get?_mapValues value key entries

/-! ## Values -/

/-- Without the addresses an assignment is one of values. -/
theorem values_assign (path : List String) (part : Located) (next : Nat)
    (entries : List (Key × Located)) :
    values (part.assign path next entries) = Flat.assign path part.value (values entries) := by
  induction path generalizing next entries with
  | nil => rfl
  | cons name rest ih =>
    by_cases last : rest = []
    · subst last
      exact values_insert _ _ _
    · rw [Flat.assign_cons name rest last, Flat.entriesBelow, get?_values]
      rcases mapping_or_not name entries with ⟨address, inner, found⟩ | without
      · rw [assign_below last found, values_insert, value, ih, found]
        rfl
      · rw [assign_new last without, values_insert, value, ih]
        cases held : Entries.get? (Key.text name) entries with
        | none => rfl
        | some other =>
          cases other with
          | mapping address inner => exact absurd held (without address inner)
          | plain value whole => simp [Located.value, whole, values]

/-! ## Addresses -/

/-- How many of several mappings have an address. -/
def uses (address : Nat) (nodes : List Node) : Nat := (addresses nodes).count address

@[simp] theorem uses_nil (address : Nat) : uses address [] = 0 := rfl

@[simp] theorem uses_cons (address : Nat) (node : Node) (rest : List Node) :
    uses address (node :: rest) = uses address rest + if node.1 = address then 1 else 0 := by
  simp [uses, List.count_cons]

@[simp] theorem uses_append (address : Nat) (first second : List Node) :
    uses address (first ++ second) = uses address first + uses address second := by
  simp [uses]

/-- Writing under a name takes out what was there and puts the new value in its place. -/
theorem uses_insert (used : Nat) (key : Key) (part : Located) (entries : List (Key × Located)) :
    uses used (nodesOf (Entries.insert key part entries)) +
        uses used (((Entries.get? key entries).map nodes).getD []) =
      uses used part.nodes + uses used (nodesOf entries) := by
  induction entries with
  | nil => simp [Entries.insert, nodesOf]
  | cons entry rest ih =>
    obtain ⟨present, old⟩ := entry
    simp only [Entries.insert, Entries.get?]
    split
    · simp only [nodesOf, uses_append, Option.map_some, Option.getD_some]
      omega
    · simp only [nodesOf, uses_append]
      omega

/-- An assignment uses the addresses of what is assigned, those that were used and are not
taken out, and the next ones, each once. -/
theorem uses_assign (used : Nat) (path : List String) (filled : path ≠ []) (part : Located)
    (next : Nat) (entries : List (Key × Located)) :
    uses used (nodesOf (part.assign path next entries)) + uses used (taken path entries) ≤
      uses used part.nodes + uses used (nodesOf entries) + if next ≤ used then 1 else 0 := by
  induction path generalizing next entries with
  | nil => exact absurd rfl filled
  | cons name rest ih =>
    by_cases last : rest = []
    · subst last
      have written := uses_insert used (Key.text name) part entries
      simp only [assign, taken, at?]
      omega
    · rcases mapping_or_not name entries with ⟨address, inner, found⟩ | without
      · have written := uses_insert used (Key.text name)
          (.mapping address (part.assign rest next inner)) entries
        have below := ih last next inner
        rw [found] at written
        simp only [Option.map_some, Option.getD_some, nodes, uses_cons] at written
        rw [assign_below last found, taken, at?_below last found, ← taken]
        omega
      · have written := uses_insert used (Key.text name)
          (.mapping next (part.assign rest (next + 1) [])) entries
        have below := ih last (next + 1) []
        simp only [nodes, nodesOf, uses_cons, uses_nil] at written below
        rw [assign_new last without, taken, at?_nowhere last without]
        simp only [Option.map_none, Option.getD_none, uses_nil]
        split at written <;> split at below <;> split <;> omega

end Located

open Located (uses taken)

/-- The addresses of a forest are each used once at most. -/
theorem Forest.uses_le {store : Store} {nodes : List Node} (forest : Forest store nodes)
    (address : Nat) : uses address nodes ≤ 1 :=
  List.nodup_iff_count_le_one.mp forest.distinct address

/-- An address that is used is in the store. -/
theorem Forest.uses_eq_zero {store : Store} {nodes : List Node} (forest : Forest store nodes)
    (address : Nat) (beyond : store.length ≤ address) : uses address nodes = 0 :=
  List.count_eq_zero_of_not_mem fun member =>
    absurd (forest.stored.lt_length address member) (Nat.not_lt.mpr beyond)

/-! ## One assignment in a store -/

namespace Store

variable {item : Item} {name : String} {rest : List String} {address : Nat} {store : Store}

theorem assign_below {below : Nat} (filled : rest ≠ [])
    (found : Entries.get? (Key.text name) (store.mappingAt address) = some (.held below)) :
    assign item (name :: rest) address store = assign item rest below store := by
  obtain ⟨second, more, rfl⟩ := List.exists_cons_of_ne_nil filled
  rw [assign, found]
  exact filled

/-- A store in which a new mapping was put under a name. -/
def withNew (store : Store) (address : Nat) (name : String) : Store :=
  store.set address
    (Entries.insert (Key.text name) (.held store.length) (store.mappingAt address)) ++ [[]]

theorem assign_new (filled : rest ≠ [])
    (without : ∀ below,
      Entries.get? (Key.text name) (store.mappingAt address) ≠ some (.held below)) :
    assign item (name :: rest) address store =
      assign item rest store.length (store.withNew address name) := by
  obtain ⟨second, more, rfl⟩ := List.exists_cons_of_ne_nil filled
  rw [assign]
  · split
    · next below found => exact absurd found (without below)
    · rfl
  · exact filled

end Store

/-- What an assignment below a mapping leaves in the store: the mapping with the assigned
entries, the mappings below it and those that were taken out, and everything else as it was. -/
structure Assigned (before after : Store) (address : Nat)
    (entries written : List (Key × Located)) (out : List Node) : Prop where
  here : after[address]? = some (Located.items written)
  below : Stored after (Located.nodesOf written ++ out)
  longer : before.length ≤ after.length
  elsewhere : ∀ other, other ≠ address → other ∉ addresses (Located.nodesOf entries) →
    other < before.length → after[other]? = before[other]?

/-- The mappings of a written entry and of what it replaces are among those of all entries and
of what is written. -/
theorem mem_nodesOf_insert (key : Key) (part : Located) (entries : List (Key × Located))
    (node : Node) (member : node ∈ Located.nodesOf (Entries.insert key part entries) ++
      ((Entries.get? key entries).map Located.nodes).getD []) :
    node ∈ part.nodes ∨ node ∈ Located.nodesOf entries := by
  induction entries with
  | nil => simpa [Entries.insert, Located.nodesOf] using member
  | cons entry rest ih =>
    obtain ⟨present, old⟩ := entry
    simp only [Entries.insert, Entries.get?] at member
    split at member
    · simp only [Located.nodesOf, Option.map_some, Option.getD_some, List.mem_append] at member ⊢
      tauto
    · simp only [Located.nodesOf, List.mem_append] at member ih ⊢
      tauto

/-- Writing an entry changes the mappings of this entry only. -/
theorem exists_around_nodes (key : Key) (old : Located) (entries : List (Key × Located))
    (found : Entries.get? key entries = some old) :
    ∃ before after, Located.nodesOf entries = before ++ old.nodes ++ after ∧
      ∀ part, Located.nodesOf (Entries.insert key part entries) =
        before ++ part.nodes ++ after := by
  induction entries with
  | nil => cases found
  | cons entry rest ih =>
    obtain ⟨present, first⟩ := entry
    simp only [Entries.get?] at found
    simp only [Entries.insert]
    split at found
    · next same =>
      obtain rfl := Option.some.inj found
      refine ⟨[], Located.nodesOf rest, rfl, fun part => ?_⟩
      rw [if_pos same]
      rfl
    · next other =>
      obtain ⟨before, after, same, written⟩ := ih found
      refine ⟨first.nodes ++ before, after, by simp [Located.nodesOf, same], fun part => ?_⟩
      simp [Located.nodesOf, other, written part]

/-- The mappings of an entry are among those of all entries. -/
theorem nodes_sublist_of_get? (key : Key) (part : Located) (entries : List (Key × Located))
    (found : Entries.get? key entries = some part) :
    part.nodes.Sublist (Located.nodesOf entries) := by
  obtain ⟨front, back, around, -⟩ := exists_around_nodes key part entries found
  exact List.IsInfix.sublist ⟨front, back, around.symm⟩

section Steps

variable {store after : Store} {address : Nat} {name : String}
  {entries inner written : List (Key × Located)} {out : List Node}

/-- Writing an entry of a mapping. -/
theorem Assigned.last (name : String) (part : Located)
    (forest : Forest store ((address, entries) :: Located.nodesOf entries ++ part.nodes)) :
    Assigned store (store.assign part.item [name] address) address entries
      (part.assign [name] store.length entries) (taken [name] entries) := by
  obtain ⟨inStore, partStored⟩ := stored_append_iff.mp forest.stored
  obtain ⟨here, belowStored⟩ := stored_cons_iff.mp inStore
  have distinct := forest.distinct
  rw [List.cons_append, addresses_cons, List.nodup_cons] at distinct
  rw [Store.assign, Located.assign, Store.mappingAt_of_stored here]
  refine ⟨?_, fun node member => ?_, by simp, fun other apart _ _ => ?_⟩
  · rw [List.getElem?_set_self (List.getElem?_eq_some_iff.mp here).1, Located.items_insert]
  · have among := mem_nodesOf_insert _ part entries node member
    have apart : address ≠ node.1 := by
      rintro rfl
      exact distinct.1 (show node.1 ∈ _ from
        List.mem_map_of_mem (List.mem_append.mpr among.symm))
    rw [List.getElem?_set_ne apart]
    exact among.elim (partStored node) (belowStored node)
  · exact List.getElem?_set_ne fun same => apart same.symm

/-- Where a mapping below was written, its entry in the mapping above is still its address. -/
theorem Assigned.inside {below : Nat}
    (forest : Forest store ((address, entries) :: Located.nodesOf entries))
    (found : Entries.get? (Key.text name) entries = some (.mapping below inner))
    (assigned : Assigned store after below inner written out) :
    Assigned store after address entries
      (Entries.insert (Key.text name) (.mapping below written) entries) out := by
  obtain ⟨here, belowStored⟩ := stored_cons_iff.mp forest.stored
  obtain ⟨front, back, around, inserted⟩ := exists_around_nodes _ _ entries found
  rw [Located.nodes] at around
  have distinct := forest.distinct
  rw [addresses_cons, List.nodup_cons, around] at distinct
  obtain ⟨fresh, apart⟩ := distinct
  have unwritten : ∀ other ∈ addresses front ++ addresses back,
      other ≠ below ∧ other ∉ addresses (Located.nodesOf inner) := by
    intro other member
    simp only [addresses_append, addresses_cons] at apart
    grind
  have notBelow : address ≠ below ∧ address ∉ addresses (Located.nodesOf inner) := by
    simp only [addresses_append, addresses_cons, List.mem_append, List.mem_cons, not_or] at fresh
    exact fresh.1.2
  have kept : ∀ node ∈ front ++ back, after[node.1]? = some (Located.items node.2) := by
    intro node member
    have isNode : node ∈ Located.nodesOf entries := by
      rw [around]
      simp only [List.mem_append, List.mem_cons] at member ⊢
      tauto
    have inAddresses : node.1 ∈ addresses front ++ addresses back :=
      addresses_append front back ▸ List.mem_map_of_mem member
    obtain ⟨notOwn, notInner⟩ := unwritten node.1 inAddresses
    have stored := belowStored node isNode
    rw [assigned.elsewhere node.1 notOwn notInner (List.getElem?_eq_some_iff.mp stored).1, stored]
  refine ⟨?_, fun node member => ?_, assigned.longer, fun other notHere notInside within => ?_⟩
  · have entryKept : Entries.insert (Key.text name) (Item.held below) (Located.items entries) =
        Located.items entries := by
      apply Entries.insert_of_get? _ (isExact_text name)
      rw [Located.get?_items, found]
      rfl
    rw [Located.items_insert, Located.item, entryKept, ← here]
    exact assigned.elsewhere address notBelow.1 notBelow.2 (List.getElem?_eq_some_iff.mp here).1
  · rw [inserted, Located.nodes] at member
    simp only [List.mem_append, List.mem_cons] at member
    have below' := assigned.below
    rcases member with ((inFront | rfl | inWritten) | inBack) | inOut
    · exact kept node (List.mem_append_left _ inFront)
    · exact assigned.here
    · exact below' node (List.mem_append_left _ inWritten)
    · exact kept node (List.mem_append_right _ inBack)
    · exact below' node (List.mem_append_right _ inOut)
  · rw [around] at notInside
    simp only [addresses_append, addresses_cons, List.mem_append, List.mem_cons, not_or]
      at notInside
    exact assigned.elsewhere other notInside.1.2.1 notInside.1.2.2 within

/-- A new mapping changes the mapping that it is put into, and nothing else. -/
theorem Store.getElem?_withNew (store : Store) (address : Nat) (name : String) (other : Nat)
    (apart : other ≠ address) (within : other < store.length) :
    (store.withNew address name)[other]? = store[other]? := by
  rw [withNew, List.getElem?_append_left (by simpa using within)]
  exact List.getElem?_set_ne fun same => apart same.symm

/-- A new mapping is stored at the end, and what is to be written into it is stored still. -/
theorem Forest.withNew (name : String) {part : Located}
    (forest : Forest store ((address, entries) :: Located.nodesOf entries ++ part.nodes)) :
    Forest (store.withNew address name)
      ((store.length, []) :: Located.nodesOf [] ++ part.nodes) := by
  obtain ⟨-, partStored⟩ := stored_append_iff.mp forest.stored
  have distinct := forest.distinct
  rw [List.cons_append, addresses_cons, List.nodup_cons, addresses_append] at distinct
  obtain ⟨fresh, apart⟩ := distinct
  refine ⟨?_, ?_⟩
  · refine stored_cons_iff.mpr ⟨?_, partStored.of_agree fun other member => ?_⟩
    · simp [Store.withNew, Located.items]
    · apply store.getElem?_withNew address name other
      · rintro rfl
        exact fresh (List.mem_append_right _ member)
      · exact partStored.lt_length other member
  · refine List.nodup_cons.mpr ⟨fun member => ?_, apart.of_append_right⟩
    exact Nat.lt_irrefl _ (partStored.lt_length _ member)

/-- Where a new mapping was put under a name and written, the mapping above has it. -/
theorem Assigned.made (forest : Forest store ((address, entries) :: Located.nodesOf entries))
    (assigned : Assigned (store.withNew address name) after store.length [] written []) :
    Assigned store after address entries
      (Entries.insert (Key.text name) (.mapping store.length written) entries) [] := by
  obtain ⟨here, belowStored⟩ := stored_cons_iff.mp forest.stored
  have within : address < store.length := (List.getElem?_eq_some_iff.mp here).1
  have longer : (store.withNew address name).length = store.length + 1 := by
    simp [Store.withNew]
  have outside : ∀ other, other ≠ address → other < store.length →
      after[other]? = store[other]? := by
    intro other apart inStore
    rw [assigned.elsewhere other (by omega) (by simp [addresses, Located.nodesOf]) (by omega)]
    exact store.getElem?_withNew address name other apart inStore
  refine ⟨?_, fun node member => ?_, by have := assigned.longer; omega,
    fun other notHere _ inStore => outside other notHere inStore⟩
  · rw [assigned.elsewhere address (by omega) (by simp [addresses, Located.nodesOf]) (by omega),
      Store.withNew, List.getElem?_append_left (by simpa using within),
      List.getElem?_set_self within, Store.mappingAt_of_stored here, Located.items_insert]
    rfl
  · rw [List.append_nil] at member
    have among := mem_nodesOf_insert _ _ entries node (List.mem_append_left _ member)
    rw [Located.nodes, List.mem_cons] at among
    rcases among with (rfl | inWritten) | before
    · exact assigned.here
    · exact assigned.below node (List.mem_append_left _ inWritten)
    · have distinct := forest.distinct
      rw [addresses_cons, List.nodup_cons] at distinct
      have stored := belowStored node before
      have apart : node.1 ≠ address := by
        rintro rfl
        exact distinct.1 (show node.1 ∈ _ from List.mem_map_of_mem before)
      rw [outside node.1 apart (List.getElem?_eq_some_iff.mp stored).1, stored]

end Steps

/-- Assigning in a store assigns the located value.

Proof: by induction on the path. Where the path goes on below a mapping that is there, only
mappings below that one are written, and its entry stays the same address. Where a mapping is
made for it, that one is at the end of the store and everything is written below it. -/
theorem assigned_assign (path : List String) (filled : path ≠ []) (part : Located)
    (store : Store) (address : Nat) (entries : List (Key × Located))
    (forest : Forest store ((address, entries) :: Located.nodesOf entries ++ part.nodes)) :
    Assigned store (store.assign part.item path address) address entries
      (part.assign path store.length entries) (taken path entries) := by
  induction path generalizing store address entries with
  | nil => exact absurd rfl filled
  | cons name rest ih =>
    have own := forest.sublist (List.sublist_append_left _ part.nodes)
    obtain ⟨here, -⟩ := stored_cons_iff.mp own.stored
    have mapping := Store.mappingAt_of_stored here
    by_cases last : rest = []
    · subst last
      exact .last name part forest
    · rcases Located.mapping_or_not name entries with ⟨below, inner, found⟩ | without
      · have heldBelow : Entries.get? (Key.text name) (store.mappingAt address) =
            some (.held below) := by
          rw [mapping, Located.get?_items, found]
          rfl
        have among := nodes_sublist_of_get? _ _ entries found
        have inside := ih last store below inner
          (forest.sublist ((among.append (List.Sublist.refl part.nodes)).cons _))
        rw [Store.assign_below last heldBelow, Located.assign_below last found,
          taken, Located.at?_below last found, ← taken]
        exact inside.inside own found
      · have notHeld : ∀ below, Entries.get? (Key.text name) (store.mappingAt address) ≠
            some (.held below) := by
          intro below found
          rw [mapping, Located.get?_items, Option.map_eq_some_iff] at found
          obtain ⟨other, there, same⟩ := found
          cases other with
          | plain value => cases same
          | mapping _ inner => exact without _ inner there
        have longer : (store.withNew address name).length = store.length + 1 := by
          simp [Store.withNew]
        have made := ih last (store.withNew address name) store.length []
          (forest.withNew name)
        have nothing : taken rest [] = [] := Located.taken_nil rest
        rw [longer, nothing] at made
        rw [Store.assign_new last notHeld, Located.assign_new last without,
          taken, Located.at?_nowhere last without]
        exact made.made own

/-- An assignment takes what is assigned into the entries and leaves a forest, in which the
mappings that were taken out are still there. -/
theorem Forest.assign (path : List String) (filled : path ≠ []) {part : Located} {store : Store}
    {address : Nat} {entries : List (Key × Located)} {others : List Node}
    (forest : Forest store
      ((address, entries) :: Located.nodesOf entries ++ part.nodes ++ others)) :
    Forest (store.assign part.item path address)
      ((address, part.assign path store.length entries) ::
        Located.nodesOf (part.assign path store.length entries) ++ taken path entries ++
          others) := by
  have parts := forest.sublist (List.sublist_append_left _ others)
  have assigned := assigned_assign path filled part store address entries parts
  have othersStored := (stored_append_iff.mp forest.stored).2
  refine ⟨?_, List.nodup_iff_count_le_one.mpr fun used => ?_⟩
  · rw [List.cons_append, List.cons_append, stored_cons_iff, stored_append_iff]
    refine ⟨assigned.here, assigned.below, othersStored.of_agree fun other member => ?_⟩
    have distinct := forest.distinct
    rw [addresses_append, List.cons_append, addresses_cons, addresses_append] at distinct
    apply assigned.elsewhere other _ _ (othersStored.lt_length other member)
    · grind
    · grind
  · have counted := Located.uses_assign used path filled part store.length entries
    have before := forest.uses_le used
    have beyond := forest.uses_eq_zero used
    show uses used _ ≤ 1
    simp only [List.cons_append, Located.uses_cons, Located.uses_append] at before beyond ⊢
    split at counted
    · next isBeyond =>
      have unused := beyond isBeyond
      omega
    · omega

end Stepwise
