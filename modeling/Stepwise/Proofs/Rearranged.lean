import Mathlib.Data.List.Forall2
import Stepwise.Proofs.Entries

/-!
# Equality up to order

A mapping lists its entries in some order and a set its members, and neither order is
part of what it holds. Two values are rearranged when they differ in such orders only,
at any depth; numbers and truth values are told apart even where they count as equal.

Rearrangement is an equivalence, and it is seen through by reading: under a text,
rearranged mappings hold rearranged values.
-/

namespace Stepwise

/-- Two keys that differ in the order of members of sets only. -/
inductive Key.Rearranged : Key → Key → Prop
  | same (key : Key) : Key.Rearranged key key
  | tuple {items others : List Key} (matched : List.Forall₂ Key.Rearranged items others) :
      Key.Rearranged (.tuple items) (.tuple others)
  | set {members moved others : List Key} (order : members.Perm moved)
      (matched : List.Forall₂ Key.Rearranged moved others) :
      Key.Rearranged (.set members) (.set others)
  | replacement {held other : Key} (matched : Key.Rearranged held other) :
      Key.Rearranged (.replacement held) (.replacement other)

mutual

/-- Two values that differ in the order of entries and of members of sets only. -/
inductive Value.Rearranged : Value → Value → Prop
  | same (value : Value) : Value.Rearranged value value
  | list {items others : List Value} (matched : List.Forall₂ Value.Rearranged items others) :
      Value.Rearranged (.list items) (.list others)
  | tuple {items others : List Value} (matched : List.Forall₂ Value.Rearranged items others) :
      Value.Rearranged (.tuple items) (.tuple others)
  | set (frozen : Bool) {members others : List Key}
      (matched : Key.Rearranged (.set members) (.set others)) :
      Value.Rearranged (.set frozen members) (.set frozen others)
  | mapping {entries moved others : List (Key × Value)} (order : entries.Perm moved)
      (matched : List.Forall₂ Value.EntryRearranged moved others) :
      Value.Rearranged (.mapping entries) (.mapping others)
  | replacement {held other : Value} (matched : Value.Rearranged held other) :
      Value.Rearranged (.replacement held) (.replacement other)

/-- Two entries whose keys and values are rearranged. -/
inductive Value.EntryRearranged : Key × Value → Key × Value → Prop
  | of {key otherKey : Key} {value other : Value} (keys : key.Rearranged otherKey)
      (values : Value.Rearranged value other) :
      Value.EntryRearranged (key, value) (otherKey, other)

end

/-- A relation that can be turned round at every element of a list can be turned round
along the list. -/
theorem forall₂_flip_of {α β : Type} (relation : α → β → Prop) (back : β → α → Prop)
    (items : List α) (others : List β)
    (turn : ∀ item ∈ items, ∀ other, relation item other → back other item)
    (matched : List.Forall₂ relation items others) : List.Forall₂ back others items := by
  induction matched with
  | nil => exact .nil
  | cons first _ ih =>
    exact .cons (turn _ List.mem_cons_self _ first)
      (ih fun item member => turn item (List.mem_cons_of_mem _ member))

/-- Relations that compose at every element of a list compose along the list. -/
theorem forall₂_comp_of {α β γ : Type} (first : α → β → Prop) (second : β → γ → Prop)
    (both : α → γ → Prop) (items : List α) (others : List β) (lasts : List γ)
    (compose : ∀ item ∈ items, ∀ other last, first item other → second other last →
      both item last)
    (matched : List.Forall₂ first items others) (matchedNext : List.Forall₂ second others lasts) :
    List.Forall₂ both items lasts := by
  induction matched generalizing lasts with
  | nil =>
    cases matchedNext
    exact .nil
  | cons here _ ih =>
    cases matchedNext with
    | cons next rest =>
      exact .cons (compose _ List.mem_cons_self _ _ here next)
        (ih _ (fun item member => compose item (List.mem_cons_of_mem _ member)) rest)

/-- A reordering behind a matching can be put before it. -/
theorem perm_before_of_behind {α β : Type} (relation : α → β → Prop) (items : List α)
    (others moved : List β) (matched : List.Forall₂ relation items others)
    (order : others.Perm moved) :
    ∃ reordered, items.Perm reordered ∧ List.Forall₂ relation reordered moved := by
  have behind : Relation.Comp (List.Forall₂ relation) List.Perm items moved :=
    ⟨others, matched, order⟩
  rw [List.forall₂_comp_perm_eq_perm_comp_forall₂] at behind
  exact behind

namespace Key.Rearranged

/-- Rearrangement of keys can be turned round. -/
theorem symm {key other : Key} (related : key.Rearranged other) : other.Rearranged key := by
  match key, other, related with
  | _, _, .same key => exact .same key
  | _, _, .tuple matched =>
    refine .tuple (forall₂_flip_of Key.Rearranged _ _ _ ?_ matched)
    intro item member other itemRelated
    exact symm itemRelated
  | .set members, .set others, @Key.Rearranged.set _ moved _ order matched =>
    have turned : List.Forall₂ Key.Rearranged others moved := by
      refine forall₂_flip_of Key.Rearranged _ _ _ ?_ matched
      intro item member other itemRelated
      have inMembers := order.mem_iff.mpr member
      exact symm itemRelated
    obtain ⟨reordered, first, before⟩ := perm_before_of_behind _ _ _ _ turned order.symm
    exact .set first before
  | _, _, .replacement matched => exact .replacement (symm matched)
termination_by sizeOf key
decreasing_by
  · have smaller := List.sizeOf_lt_of_mem member
    simp only [Key.tuple.sizeOf_spec]
    omega
  · have smaller := List.sizeOf_lt_of_mem inMembers
    simp only [Key.set.sizeOf_spec]
    omega
  · simp

/-- Rearrangements of keys compose. -/
theorem trans {key other last : Key} (related : key.Rearranged other)
    (next : other.Rearranged last) : key.Rearranged last := by
  match key, other, last, related, next with
  | _, _, _, .same _, next => exact next
  | _, _, _, related, .same _ => exact related
  | _, _, _, .tuple matched, .tuple matchedNext =>
    refine .tuple (forall₂_comp_of Key.Rearranged Key.Rearranged _ _ _ _ ?_ matched matchedNext)
    intro item member other last itemRelated itemNext
    exact trans itemRelated itemNext
  | _, _, _, .set order matched, .set orderNext matchedNext =>
    obtain ⟨reordered, first, before⟩ := perm_before_of_behind _ _ _ _ matched orderNext
    refine .set (order.trans first)
      (forall₂_comp_of Key.Rearranged Key.Rearranged _ _ _ _ ?_ before matchedNext)
    intro item member other last itemRelated itemNext
    have inMembers := (order.trans first).mem_iff.mpr member
    exact trans itemRelated itemNext
  | _, _, _, .replacement matched, .replacement matchedNext =>
    exact .replacement (trans matched matchedNext)
termination_by sizeOf key
decreasing_by
  · have smaller := List.sizeOf_lt_of_mem member
    simp only [Key.tuple.sizeOf_spec]
    omega
  · have smaller := List.sizeOf_lt_of_mem inMembers
    simp only [Key.set.sizeOf_spec]
    omega
  · simp

/-- Only the same text is a rearrangement of a text. -/
theorem text_left_iff {name : String} {other : Key} :
    (Key.text name).Rearranged other ↔ other = .text name := by
  constructor
  · intro related
    cases related
    rfl
  · rintro rfl
    exact .same _

/-- A rearranged key is a text exactly when the key is that text. -/
theorem eq_text_iff {key other : Key} (related : key.Rearranged other) (name : String) :
    key = .text name ↔ other = .text name := by
  constructor
  · rintro rfl
    exact text_left_iff.mp related
  · rintro rfl
    exact text_left_iff.mp related.symm

end Key.Rearranged

namespace Value.Rearranged

/-- Rearrangement can be turned round. -/
theorem symm {value other : Value} (related : value.Rearranged other) :
    other.Rearranged value := by
  match value, other, related with
  | _, _, .same value => exact .same value
  | _, _, .list matched =>
    refine .list (forall₂_flip_of Value.Rearranged _ _ _ ?_ matched)
    intro item member other itemRelated
    exact symm itemRelated
  | _, _, .tuple matched =>
    refine .tuple (forall₂_flip_of Value.Rearranged _ _ _ ?_ matched)
    intro item member other itemRelated
    exact symm itemRelated
  | _, _, .set frozen matched => exact .set frozen matched.symm
  | .mapping entries, .mapping others, @Value.Rearranged.mapping _ moved _ order matched =>
    have turned : List.Forall₂ EntryRearranged others moved := by
      refine forall₂_flip_of EntryRearranged _ _ _ ?_ matched
      rintro ⟨key, value⟩ member ⟨otherKey, other⟩ ⟨keys, values⟩
      have inEntries := order.mem_iff.mpr member
      exact .of keys.symm (symm values)
    obtain ⟨reordered, first, before⟩ := perm_before_of_behind _ _ _ _ turned order.symm
    exact .mapping first before
  | _, _, .replacement matched => exact .replacement (symm matched)
termination_by sizeOf value
decreasing_by
  · have smaller := List.sizeOf_lt_of_mem member
    simp only [Value.list.sizeOf_spec]
    omega
  · have smaller := List.sizeOf_lt_of_mem member
    simp only [Value.tuple.sizeOf_spec]
    omega
  · have smaller := List.sizeOf_lt_of_mem inEntries
    simp only [Value.mapping.sizeOf_spec, Prod.mk.sizeOf_spec] at smaller ⊢
    omega
  · simp

/-- Rearrangements compose. -/
theorem trans {value other last : Value} (related : value.Rearranged other)
    (next : other.Rearranged last) : value.Rearranged last := by
  match value, other, last, related, next with
  | _, _, _, .same _, next => exact next
  | _, _, _, related, .same _ => exact related
  | _, _, _, .list matched, .list matchedNext =>
    refine .list (forall₂_comp_of Value.Rearranged Value.Rearranged _ _ _ _ ?_ matched
      matchedNext)
    intro item member other last itemRelated itemNext
    exact trans itemRelated itemNext
  | _, _, _, .tuple matched, .tuple matchedNext =>
    refine .tuple (forall₂_comp_of Value.Rearranged Value.Rearranged _ _ _ _ ?_ matched
      matchedNext)
    intro item member other last itemRelated itemNext
    exact trans itemRelated itemNext
  | _, _, _, .set frozen matched, .set _ matchedNext =>
    exact .set frozen (matched.trans matchedNext)
  | .mapping entries, .mapping others, .mapping lasts, .mapping order matched,
      .mapping orderNext matchedNext =>
    obtain ⟨reordered, first, before⟩ := perm_before_of_behind _ _ _ _ matched orderNext
    refine .mapping (order.trans first)
      (forall₂_comp_of EntryRearranged EntryRearranged _ _ _ _ ?_ before matchedNext)
    rintro ⟨key, value⟩ member ⟨otherKey, other⟩ ⟨lastKey, last⟩ ⟨keys, values⟩
      ⟨keysNext, valuesNext⟩
    have inEntries := (order.trans first).mem_iff.mpr member
    exact .of (keys.trans keysNext) (trans values valuesNext)
  | _, _, _, .replacement matched, .replacement matchedNext =>
    exact .replacement (trans matched matchedNext)
termination_by sizeOf value
decreasing_by
  · have smaller := List.sizeOf_lt_of_mem member
    simp only [Value.list.sizeOf_spec]
    omega
  · have smaller := List.sizeOf_lt_of_mem member
    simp only [Value.tuple.sizeOf_spec]
    omega
  · have smaller := List.sizeOf_lt_of_mem inEntries
    simp only [Value.mapping.sizeOf_spec, Prod.mk.sizeOf_spec] at smaller ⊢
    omega
  · simp

/-- A value that is rearranged to a mapping is a mapping. -/
theorem exists_mapping {entries : List (Key × Value)} {other : Value}
    (related : (Value.mapping entries).Rearranged other) :
    ∃ others, other = .mapping others := by
  cases related with
  | same => exact ⟨entries, rfl⟩
  | mapping order matched => exact ⟨_, rfl⟩

end Value.Rearranged

namespace Entries

/-- Matched entries read under a text as matched values, or both as nothing. -/
theorem get?_matched (name : String) (entries others : List (Key × Value))
    (matched : List.Forall₂ Value.EntryRearranged entries others) :
    Option.Rel Value.Rearranged (get? (Key.text name) entries) (get? (Key.text name) others) := by
  classical
  induction matched with
  | nil => exact .none
  | cons here _ ih =>
    cases here with
    | @of key otherKey value other keys values =>
      rw [get?_cons_exact _ (isExact_text name), get?_cons_exact _ (isExact_text name)]
      have together := keys.eq_text_iff name
      by_cases same : key = Key.text name
      · rw [if_pos same, if_pos (together.mp same)]
        exact .some values
      · rw [if_neg same, if_neg (mt together.mpr same)]
        exact ih

/-- Rearranged mappings read under a text as rearranged values, or both as nothing. -/
theorem get?_rearranged (name : String) (entries others : List (Key × Value))
    (distinct : (keys entries).Nodup)
    (related : (Value.mapping entries).Rearranged (.mapping others)) :
    Option.Rel Value.Rearranged (get? (Key.text name) entries) (get? (Key.text name) others) := by
  cases related with
  | same =>
    cases get? (Key.text name) entries with
    | none => exact .none
    | some value => exact .some (.same value)
  | mapping order matched =>
    rw [get?_perm _ (isExact_text name) _ _ distinct order]
    exact get?_matched name _ _ matched

/-- What is read in one of two rearranged mappings is read, up to order, in the other. -/
theorem exists_get?_rearranged (name : String) (entries others : List (Key × Value))
    (distinct : (keys entries).Nodup)
    (related : (Value.mapping entries).Rearranged (.mapping others)) (value : Value)
    (found : get? (Key.text name) entries = some value) :
    ∃ other, get? (Key.text name) others = some other ∧ value.Rearranged other := by
  have together := get?_rearranged name entries others distinct related
  rw [found] at together
  cases there : get? (Key.text name) others with
  | none =>
    rw [there] at together
    cases together
  | some other =>
    rw [there] at together
    cases together with
    | some values => exact ⟨other, rfl, values⟩

/-- Entries matched to entries whose keys are texts have the same keys. -/
theorem keys_matched (entries others : List (Key × Value))
    (texts : ∀ key ∈ keys entries, ∃ name, key = Key.text name)
    (matched : List.Forall₂ Value.EntryRearranged entries others) :
    keys entries = keys others := by
  induction matched with
  | nil => rfl
  | cons here _ ih =>
    cases here with
    | of related values =>
      obtain ⟨name, rfl⟩ := texts _ List.mem_cons_self
      have same := Key.Rearranged.text_left_iff.mp related
      have rest := ih fun key member => texts key (List.mem_cons_of_mem _ member)
      simp [same, rest]

/-- A rearrangement of named entries is named. -/
theorem Named.of_rearranged {entries others : List (Key × Value)} (named : Named entries)
    (related : (Value.mapping entries).Rearranged (.mapping others)) : Named others := by
  cases related with
  | same => exact named
  | mapping order matched =>
    have reordered := order.map Prod.fst
    have sameKeys := keys_matched _ others
      (fun key member => named.texts key (reordered.mem_iff.mpr member)) matched
    constructor
    · intro key member
      rw [← sameKeys] at member
      exact named.texts key (reordered.mem_iff.mpr member)
    · rw [← sameKeys]
      exact reordered.nodup_iff.mp named.distinct

/-- Named entries that read as rearranged values under every text are rearranged.

The first entries are put into the order of the second ones, where each stands beside
the entry of the same key. -/
theorem rearranged_of_get? (entries others : List (Key × Value)) (named : Named entries)
    (othersNamed : Named others)
    (same : ∀ name, Option.Rel Value.Rearranged (get? (Key.text name) entries)
      (get? (Key.text name) others)) :
    (Value.mapping entries).Rearranged (.mapping others) := by
  have paired : ∀ name other, (Key.text name, other) ∈ others →
      ∃ value, get? (Key.text name) entries = some value ∧ value.Rearranged other := by
    intro name other member
    have related := same name
    rw [get?_of_mem _ (isExact_text name) other others othersNamed.distinct member] at related
    cases found : get? (Key.text name) entries with
    | none => rw [found] at related; cases related
    | some value =>
      rw [found] at related
      cases related with
      | some values => exact ⟨value, rfl, values⟩
  let aligned := others.map fun other => (other.1, (get? other.1 entries).getD .null)
  have alignedKeys : keys aligned = keys others := by simp [aligned, keys]
  have alignedDistinct : (keys aligned).Nodup := by
    rw [alignedKeys]
    exact othersNamed.distinct
  have order : entries.Perm aligned := by
    refine (List.perm_ext_iff_of_nodup named.distinct.of_map alignedDistinct.of_map).mpr ?_
    rintro ⟨key, value⟩
    constructor
    · intro member
      obtain ⟨name, rfl⟩ := named.texts key (List.mem_map_of_mem member)
      have found := get?_of_mem _ (isExact_text name) value entries named.distinct member
      have related := same name
      rw [found] at related
      cases there : get? (Key.text name) others with
      | none => rw [there] at related; cases related
      | some other =>
        have inOthers := mem_of_get? _ (isExact_text name) other others there
        refine List.mem_map.mpr ⟨_, inOthers, ?_⟩
        simp [found]
    · intro member
      obtain ⟨⟨otherKey, other⟩, inOthers, equal⟩ := List.mem_map.mp member
      obtain ⟨name, rfl⟩ := othersNamed.texts otherKey (List.mem_map_of_mem inOthers)
      obtain ⟨found, read, _⟩ := paired name other inOthers
      rw [read, Option.getD_some, Prod.mk.injEq] at equal
      obtain ⟨rfl, rfl⟩ := equal
      exact mem_of_get? _ (isExact_text name) _ entries read
  have matched : List.Forall₂ Value.EntryRearranged aligned others := by
    rw [List.forall₂_map_left_iff, List.forall₂_same]
    rintro ⟨key, other⟩ member
    obtain ⟨name, rfl⟩ := othersNamed.texts key (List.mem_map_of_mem member)
    obtain ⟨value, read, values⟩ := paired name other member
    rw [read, Option.getD_some]
    exact .of (.same _) values
  exact .mapping order matched

end Entries
end Stepwise
