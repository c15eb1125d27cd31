import Stepwise.Proofs.ChannelRoundTrip
import Stepwise.Proofs.ListTracking
import Stepwise.Proofs.Writing

/-!
# Channels that mirror a record

Channels mirror a record when they hold its declared fields and its other entries up to
order. A record that is collected from them is then the mirrored one up to order, if that
has all its fields. And after the updates that lead to the channels of another record,
they mirror the other one: a list channel that is left out holds an equal value, which is
the same up to order as long as the values of list fields are sharp.
-/

namespace Stepwise

/-- Lists that are rearranged stay so with the same parts behind them. -/
theorem Value.Rearranged.append_list {items others : List Value}
    (related : (Value.list items).Rearranged (.list others)) (behind : List Value) :
    (Value.list (items ++ behind)).Rearranged (.list (others ++ behind)) := by
  have unmoved : List.Forall₂ Value.Rearranged behind behind :=
    List.forall₂_same.mpr fun item _ => .same item
  cases related with
  | same => exact .same _
  | list matched => exact .list (List.rel_append matched unmoved)

namespace ListChannel

/-- The update is left out only if both values are alike. -/
theorem alike_of_updateOfKept?_eq_none (before after : Value)
    (unchanged : updateOfKept? before after = none) : before.alike true after = true := by
  have equal := equal_of_updateBy_eq_none Value.equalIfKept before after unchanged
  unfold Value.equalIfKept at equal
  split at equal
  · cases equal
  · exact equal

/-- The update between sharp values is left out only if they are rearranged. -/
theorem rearranged_of_updateOfKept?_eq_none (before after : Value) (beforeSharp : before.Sharp)
    (afterSharp : after.Sharp) (unchanged : updateOfKept? before after = none) :
    after.Rearranged before := by
  have same := alike_of_updateOfKept?_eq_none before after unchanged
  exact (beforeSharp.rearranged_of_alike true after afterSharp same).symm

/-- An update never says that it overwrites, so writing it is merging it. -/
theorem writeList_updateOfKept? (before after update : Value)
    (changed : updateOfKept? before after = some update) :
    Channels.writeList before update = merge before update := by
  rcases form_of_updateBy Value.equalIfKept before after update changed with
    ⟨items, rfl⟩ | ⟨value, rfl⟩
  · rfl
  · rfl

/-- An update makes the new value of the old one, unless it continues a list: then it puts the
new parts behind the old ones. It is never refused. -/
theorem writeList_updateOfKept?_cases (before after update : Value)
    (changed : updateOfKept? before after = some update) :
    Channels.writeList before update = .ok after ∨
      ∃ old new, before = .list old ∧ after = .list new ∧
        (Value.list (new.take old.length)).equalIfKept (.list old) = true ∧
        Channels.writeList before update = .ok (.list (old ++ new.drop old.length)) := by
  rw [writeList_updateOfKept? before after update changed]
  exact merge_updateBy_cases Value.equalIfKept before after update changed

/-- An update that continues a sharp list, or replaces a value, makes a rearrangement of the
new value of the old one. -/
theorem exists_writeList_rearranged (before after update : Value) (beforeSharp : before.Sharp)
    (afterSharp : after.Sharp) (changed : updateOfKept? before after = some update) :
    ∃ result, Channels.writeList before update = .ok result ∧ after.Rearranged result := by
  rcases writeList_updateOfKept?_cases before after update changed with
    replaced | ⟨old, new, rfl, rfl, continues, continued⟩
  · exact ⟨after, replaced, .same after⟩
  · refine ⟨_, continued, ?_⟩
    have beginning : Value.Sharp (.list (new.take old.length)) := by
      cases afterSharp with
      | list parts => exact .list fun item member => parts item (List.mem_of_mem_take member)
    have alike : (Value.list (new.take old.length)).alike true (.list old) = true := continues
    have related := beginning.rearranged_of_alike true _ beforeSharp alike
    have whole := related.append_list (new.drop old.length)
    rwa [List.take_append_drop] at whole

end ListChannel

namespace Channels

open Entries (Named isExact_text isExact_of_lawful)

variable {separator : Separator} {schemas : Schemas} {given after : Section → List (Key × Value)}
  {flat target : Flat}

/-- The update of one channel that leads from one state to another. -/
def updateOf? (channels : Channels) (before after : Flat) (key : String) : Option Value :=
  if channels.isSequence key then
    ListChannel.updateOfKept? ((Entries.get? key before).getD .null)
      ((Entries.get? key after).getD .null)
  else some ((Entries.get? key after).getD .null)

/-- What is written under a key is the update of its channel. -/
theorem mem_updates_iff (channels : Channels) (before after : Flat) (entry : String × Value) :
    entry ∈ channels.updates before after ↔
      entry.1 ∈ channels.keys ∧ channels.updateOf? before after entry.1 = some entry.2 := by
  have byRule : channels.updates before after = Entries.ofWrites
      (channels.keys.filterMap fun key =>
        (channels.updateOf? before after key).map fun update => (key, update)) := by
    unfold updates updateOf?
    congr 2
    funext key
    split <;> rfl
  rw [byRule, Entries.mem_ofWrites_filterMap]

/-- No channel is written twice. -/
theorem nodup_keys_updates (channels : Channels) (before after : Flat) :
    (Entries.keys (channels.updates before after)).Nodup :=
  Entries.nodup_keys_merge [] _ (fun key _ => isExact_of_lawful key) (by simp)

/-- Channels that hold the declared fields of a record and its other entries up to order. -/
structure Mirrors (separator : Separator) (schemas : Schemas)
    (given : Section → List (Key × Value)) (flat : Flat) : Prop where
  field : ∀ side, ∀ name ∈ (schemas.of side).fieldNames, ∃ held,
    Entries.get? (Flat.key separator side [name]) flat = some held ∧
      Value.Rearranged ((Entries.get? (Key.text name) (given side)).getD .null) held
  overflow : ∀ side, ∃ extras,
    Entries.get? ((ofSchemas separator schemas).overflowKey side) flat = some (.mapping extras) ∧
      Value.Rearranged
        (.mapping ((given side).filter ((ofSchemas separator schemas).isUndeclared side)))
        (.mapping extras)

/-- Channels that a record is spread over mirror it. -/
theorem Spread.mirrors (spread : Spread separator schemas given flat) :
    Mirrors separator schemas given flat :=
  ⟨fun side name declared => ⟨_, spread.field side name declared, .same _⟩,
    fun side => ⟨_, spread.overflow side, .same _⟩⟩

/-- Rearranged sections have rearranged undeclared entries. -/
theorem rearranged_filter_isUndeclared (separator : Separator) (schemas : Schemas)
    (side : Section) (entries others : List (Key × Value)) (named : Named entries)
    (related : (Value.mapping entries).Rearranged (.mapping others)) :
    Value.Rearranged (.mapping (entries.filter ((ofSchemas separator schemas).isUndeclared side)))
      (.mapping (others.filter ((ofSchemas separator schemas).isUndeclared side))) := by
  have othersNamed := named.of_rearranged related
  apply Entries.rearranged_of_get? _ _ (named_filter_isUndeclared _ _ _ _ named)
    (named_filter_isUndeclared _ _ _ _ othersNamed)
  intro name
  by_cases declared : name ∈ (schemas.of side).fieldNames
  · rw [get?_filter_isUndeclared_of_declared _ _ _ _ declared,
      get?_filter_isUndeclared_of_declared _ _ _ _ declared]
    exact .none
  · rw [get?_filter_isUndeclared _ _ _ _ declared _ named,
      get?_filter_isUndeclared _ _ _ _ declared _ othersNamed]
    exact Entries.get?_rearranged name _ _ named.distinct related

/-- Values read from related options, or null, are rearranged. -/
theorem rearranged_getD_null (value other : Option Value)
    (related : Option.Rel Value.Rearranged value other) :
    (value.getD .null).Rearranged (other.getD .null) := by
  cases related with
  | some values => exact values
  | none => exact .same _

/-- Channels mirror every record whose sections are those of a mirrored one up to order. -/
theorem Mirrors.of_rearranged (mirrors : Mirrors separator schemas given flat)
    (others : Section → List (Key × Value)) (named : ∀ side, Named (others side))
    (related : ∀ side, (Value.mapping (others side)).Rearranged (.mapping (given side))) :
    Mirrors separator schemas others flat := by
  constructor
  · intro side name declared
    obtain ⟨held, found, heldRelated⟩ := mirrors.field side name declared
    have values := Entries.get?_rearranged name _ _ (named side).distinct (related side)
    exact ⟨held, found, (rearranged_getD_null _ _ values).trans heldRelated⟩
  · intro side
    obtain ⟨extras, found, extrasRelated⟩ := mirrors.overflow side
    have undeclared := rearranged_filter_isUndeclared separator schemas side _ _ (named side)
      (related side)
    exact ⟨extras, found, undeclared.trans extrasRelated⟩

/-- A record that has all its fields. -/
structure HasFields (schemas : Schemas) (given : Section → List (Key × Value)) : Prop where
  named : ∀ side, Named (given side)
  field : ∀ side, ∀ name ∈ (schemas.of side).fieldNames,
    ∃ value, Entries.get? (Key.text name) (given side) = some value

/-- What is collected from channels that mirror a record with all its fields is that record
up to order. -/
theorem Mirrors.decode (clear : ClearNames separator schemas)
    (mirrors : Mirrors separator schemas given flat) (complete : HasFields schemas given) :
    ∃ nested, (ofSchemas separator schemas).decode flat = .ok nested ∧
      ∀ side, (Value.mapping (given side)).Rearranged (.mapping (nested.get side)) := by
  choose extras held related using mirrors.overflow
  have undeclaredNamed : ∀ side, Named ((given side).filter
      ((ofSchemas separator schemas).isUndeclared side)) :=
    fun side => named_filter_isUndeclared separator schemas side _ (complete.named side)
  have filled : Filled separator schemas extras flat := by
    refine ⟨held, fun side => (undeclaredNamed side).of_rearranged (related side), ?_⟩
    intro side name declared
    have together := Entries.get?_rearranged name _ _ (undeclaredNamed side).distinct (related side)
    rw [get?_filter_isUndeclared_of_declared _ _ _ _ declared] at together
    rw [← Entries.get?_eq_none_exact _ (isExact_text name)]
    cases there : Entries.get? (Key.text name) (extras side) with
    | none => rfl
    | some value =>
      rw [there] at together
      cases together
  obtain ⟨nested, decoded, collected⟩ := collected_of_decode clear filled
  refine ⟨nested, decoded, fun side => ?_⟩
  apply Entries.rearranged_of_get? _ _ (complete.named side) (collected.named side)
  intro name
  by_cases declared : name ∈ (schemas.of side).fieldNames
  · obtain ⟨value, present⟩ := complete.field side name declared
    obtain ⟨heldValue, found, values⟩ := mirrors.field side name declared
    rw [present, Option.getD_some] at values
    rw [present, collected.field side name declared, found]
    exact .some values
  · rw [← get?_filter_isUndeclared separator schemas side name declared _ (complete.named side),
      ← get?_filter_isUndeclared separator schemas side name declared _ (collected.named side),
      collected.rest side]
    exact Entries.get?_rearranged name _ _ (undeclaredNamed side).distinct (related side)

/-- The values of list fields that a record has are sharp. -/
def SharpLists (separator : Separator) (schemas : Schemas)
    (given : Section → List (Key × Value)) : Prop :=
  ∀ side, ∀ name ∈ (schemas.of side).fieldNames, isListField separator schemas side name →
    ∀ value, Entries.get? (Key.text name) (given side) = some value → value.Sharp

/-- A record that is rearranged to one with sharp lists has sharp lists. -/
theorem SharpLists.of_rearranged (sharp : SharpLists separator schemas given)
    (named : ∀ side, Named (given side))
    (related : ∀ side, (Value.mapping (given side)).Rearranged (.mapping (after side))) :
    SharpLists separator schemas after := by
  intro side name declared list other present
  have otherNamed := (named side).of_rearranged (related side)
  obtain ⟨value, before, values⟩ := Entries.exists_get?_rearranged name _ _
    otherNamed.distinct (related side).symm other present
  exact (sharp side name declared list value before).of_rearranged other values.symm

/-- The channel of a declared field after the updates that lead to another state. -/
theorem written_updateOf? (channels : Channels) (before target : Flat) (key : String)
    (held new : Value) (heldFound : Entries.get? key before = some held)
    (newFound : Entries.get? key target = some new)
    (sharp : channels.isSequence key = true → held.Sharp ∧ new.Sharp) :
    (channels.updateOf? before target key = none ∧ new.Rearranged held) ∨
      ∃ update result, channels.updateOf? before target key = some update ∧
        channels.written key (some held) update = .ok result ∧ new.Rearranged result := by
  rw [updateOf?, heldFound, newFound, Option.getD_some, Option.getD_some]
  by_cases list : channels.isSequence key
  · obtain ⟨heldSharp, newSharp⟩ := sharp list
    rw [if_pos list]
    cases changed : ListChannel.updateOfKept? held new with
    | none =>
      exact .inl ⟨rfl,
        ListChannel.rearranged_of_updateOfKept?_eq_none _ _ heldSharp newSharp changed⟩
    | some update =>
      obtain ⟨result, merged, related⟩ :=
        ListChannel.exists_writeList_rearranged _ _ _ heldSharp newSharp changed
      exact .inr ⟨update, result, rfl, by rw [written, if_pos list]; exact merged, related⟩
  · rw [if_neg list]
    exact .inr ⟨new, new, rfl, by rw [written, if_neg list], .same _⟩

/-- What a record has in a list field, or null, is sharp. -/
theorem SharpLists.getD_null (sharp : SharpLists separator schemas given) (side : Section)
    (name : String) (declared : name ∈ (schemas.of side).fieldNames)
    (list : isListField separator schemas side name) :
    ((Entries.get? (Key.text name) (given side)).getD .null).Sharp := by
  cases present : Entries.get? (Key.text name) (given side) with
  | none => exact .null
  | some value => exact sharp side name declared list value present

/-- Every channel of a mirroring state has a value, and so has every channel of a spread
record; both are sharp in list channels. -/
theorem Mirrors.exists_values (clear : ClearNames separator schemas)
    (mirrors : Mirrors separator schemas given flat)
    (sharp : SharpLists separator schemas given) (spread : Spread separator schemas after target)
    (afterSharp : SharpLists separator schemas after) (key : String)
    (known : key ∈ (ofSchemas separator schemas).keys) :
    ∃ held new, Entries.get? key flat = some held ∧ Entries.get? key target = some new ∧
      ((ofSchemas separator schemas).isSequence key = true → held.Sharp ∧ new.Sharp) := by
  rcases (mem_keys_iff key).mp known with ⟨side, name, declared, rfl⟩ | ⟨side, rfl⟩
  · obtain ⟨held, found, related⟩ := mirrors.field side name declared
    refine ⟨held, _, found, spread.field side name declared, fun list => ⟨?_, ?_⟩⟩
    · exact (sharp.getD_null side name declared list).of_rearranged held related
    · exact afterSharp.getD_null side name declared list
  · obtain ⟨extras, found, -⟩ := mirrors.overflow side
    refine ⟨_, _, found, spread.overflow side, fun list => ?_⟩
    rw [isSequence_overflowKey clear side] at list
    cases list

/-- Where no channel refuses its own update, the updates that lead to another state are
written, and every channel has reached what its own step reaches.

Proof: no channel is written twice, so each can be looked at by itself. One that is updated
takes what its update makes, one that is left out keeps what it holds. -/
theorem writeAll_updates_of_steps (channels : Channels) (flat target : Flat)
    (reaches : String → Value → Prop)
    (steps : ∀ key ∈ channels.keys, ∃ held, Entries.get? key flat = some held ∧
      ((channels.updateOf? flat target key = none ∧ reaches key held) ∨
        ∃ update value, channels.updateOf? flat target key = some update ∧
          channels.written key (some held) update = .ok value ∧ reaches key value)) :
    ∃ result, channels.writeAll flat (channels.updates flat target) = .ok result ∧
      ∀ key ∈ channels.keys, ∃ value, Entries.get? key result = some value ∧
        reaches key value := by
  obtain ⟨result, done, values⟩ := writeAll_ok channels (channels.updates flat target)
    (nodup_keys_updates channels flat target) flat (by
      intro entry member
      obtain ⟨known, updated⟩ := (mem_updates_iff channels flat target entry).mp member
      obtain ⟨held, heldFound, ⟨none, -⟩ | ⟨update, value, changed, made, -⟩⟩ :=
        steps entry.1 known
      · rw [none] at updated
        cases updated
      · rw [updated] at changed
        obtain rfl := Option.some.inj changed
        exact ⟨value, by rw [heldFound]; exact made⟩)
  refine ⟨result, done, fun key known => ?_⟩
  obtain ⟨held, heldFound, ⟨unchanged, reached⟩ | ⟨update, value, changed, made, reached⟩⟩ :=
    steps key known
  · have absent : key ∉ Entries.keys (channels.updates flat target) := by
      intro present
      obtain ⟨entry, member, rfl⟩ := List.mem_map.mp present
      have updated := ((mem_updates_iff channels flat target entry).mp member).2
      rw [unchanged] at updated
      cases updated
    exact ⟨held, (get?_writeAll_other channels key _ absent flat result done).trans heldFound,
      reached⟩
  · have member := (mem_updates_iff channels flat target (key, update)).mpr ⟨known, changed⟩
    obtain ⟨written, same, found⟩ := values _ member
    rw [heldFound, made] at same
    obtain rfl := Except.ok.inj same
    exact ⟨value, found, reached⟩

/-- The updates that lead from channels that mirror one record to those of another are
written, and the channels then mirror the other record.

Proof: every channel is looked at by itself. One that is updated takes a rearrangement of
its new value; one that is left out holds one. -/
theorem Mirrors.writeAll_updates (clear : ClearNames separator schemas)
    (mirrors : Mirrors separator schemas given flat)
    (sharp : SharpLists separator schemas given) (spread : Spread separator schemas after target)
    (afterSharp : SharpLists separator schemas after) :
    ∃ result, (ofSchemas separator schemas).writeAll flat
        ((ofSchemas separator schemas).updates flat target) = .ok result ∧
      Mirrors separator schemas after result := by
  let channels := ofSchemas separator schemas
  obtain ⟨result, done, values⟩ := writeAll_updates_of_steps channels flat target
    (fun key value => ∀ new, Entries.get? key target = some new → new.Rearranged value) (by
      intro key known
      obtain ⟨held, new, heldFound, newFound, bothSharp⟩ :=
        mirrors.exists_values clear sharp spread afterSharp key known
      refine ⟨held, heldFound, ?_⟩
      rcases written_updateOf? channels flat target key held new heldFound newFound bothSharp with
        ⟨unchanged, related⟩ | ⟨update, value, changed, made, related⟩
      · refine .inl ⟨unchanged, fun other otherFound => ?_⟩
        rw [newFound] at otherFound
        exact Option.some.inj otherFound ▸ related
      · refine .inr ⟨update, value, changed, made, fun other otherFound => ?_⟩
        rw [newFound] at otherFound
        exact Option.some.inj otherFound ▸ related)
  have reached : ∀ key ∈ channels.keys, ∀ new, Entries.get? key target = some new →
      ∃ value, Entries.get? key result = some value ∧ new.Rearranged value := by
    intro key known new newFound
    obtain ⟨value, found, related⟩ := values key known
    exact ⟨value, found, related new newFound⟩
  refine ⟨result, done, ?_, ?_⟩
  · intro side name declared
    exact reached _ ((mem_keys_iff _).mpr (.inl ⟨side, name, declared, rfl⟩)) _
      (spread.field side name declared)
  · intro side
    obtain ⟨value, found, related⟩ := reached _ ((mem_keys_iff _).mpr (.inr ⟨side, rfl⟩)) _
      (spread.overflow side)
    obtain ⟨extras, rfl⟩ := related.exists_mapping
    exact ⟨extras, found, related⟩

end Channels
end Stepwise
