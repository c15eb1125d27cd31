import Stepwise.Proofs.Mirrors

/-!
# Writing a record back into the channels

A record is written back by the updates that lead the channels from what they hold to what
they take from the record. No update is refused, whatever the layout is and whatever the
channels held. Afterwards each channel has what the record gives it: exactly that where it
takes no additions, and an equal value where it does. A list channel that was not updated
held such a value already, and one that was continued kept first parts that are equal to
the new ones.
-/

namespace Stepwise

open Entries (isExact_text isExact_of_lawful)

/-! ## Proper values -/

namespace Flat

mutual

/-- The leaves of a proper value are proper. -/
theorem proper_of_mem_leaves (whole : List String → Bool) :
    ∀ (value : Value) (path : List String), value.Proper →
      ∀ leaf ∈ leaves whole path value, leaf.2.Proper
  | .mapping entries, path, proper, leaf, member => by
    by_cases stops : (entries.isEmpty || whole path) = true
    · simp only [leaves, stops, if_true, List.mem_singleton] at member
      exact member ▸ proper
    · simp only [leaves, stops, Bool.false_eq_true, if_false] at member
      cases proper with
      | mapping _ values _ =>
        exact proper_of_mem_leavesOfEntries whole entries path values leaf member
  | .null, _, proper, leaf, member | .bool _, _, proper, leaf, member
  | .int _, _, proper, leaf, member | .real _, _, proper, leaf, member
  | .text _, _, proper, leaf, member | .list _, _, proper, leaf, member
  | .tuple _, _, proper, leaf, member | .set _ _, _, proper, leaf, member
  | .replacement _, _, proper, leaf, member => by
    simp only [leaves, List.mem_singleton] at member
    exact member ▸ proper

/-- The leaves of entries with proper values are proper. -/
theorem proper_of_mem_leavesOfEntries (whole : List String → Bool) :
    ∀ (entries : List (Key × Value)) (path : List String),
      (∀ entry ∈ entries, entry.2.Proper) →
        ∀ leaf ∈ leavesOfEntries whole path entries, leaf.2.Proper
  | [], _, _, leaf, member => by simp [leavesOfEntries] at member
  | (key, value) :: rest, path, proper, leaf, member => by
    simp only [leavesOfEntries, List.mem_append] at member
    rcases member with first | later
    · exact proper_of_mem_leaves whole value _ (proper _ List.mem_cons_self) leaf first
    · exact proper_of_mem_leavesOfEntries whole rest path
        (fun entry inRest => proper entry (List.mem_cons_of_mem _ inRest)) leaf later

end

/-- A section of a proper record is proper. -/
theorem proper_sectionOf (record : List (Key × Value)) (proper : (Value.mapping record).Proper)
    (side : Section) : (sectionOf record side).Proper := by
  rw [sectionOf]
  cases found : Entries.get? (Key.text side.name) record with
  | none => exact .null
  | some value =>
    cases proper with
    | mapping _ values _ => exact values _ (Entries.mem_of_get? _ (isExact_text _) _ _ found)

/-- The flat form of a proper record has proper values. -/
theorem proper_of_mem_ofRecord (separator : Separator) (whole : List String)
    (record : List (Key × Value)) (proper : (Value.mapping record).Proper)
    (entry : String × Value) (member : entry ∈ ofRecord separator whole record) :
    entry.2.Proper := by
  have written := Entries.mem_merge [] _ (fun key _ => isExact_of_lawful key) entry member
  simp only [List.not_mem_nil, or_false] at written
  obtain ⟨side, -, inSection⟩ := List.mem_flatMap.mp written
  have whole := proper_sectionOf record proper side
  cases held : sectionOf record side with
  | mapping entries =>
    rw [held] at inSection whole
    obtain ⟨leaf, inLeaves, rfl⟩ := List.mem_map.mp inSection
    cases whole with
    | mapping _ values _ => exact proper_of_mem_leavesOfEntries _ entries [] values leaf inLeaves
  | _ =>
    rw [held] at inSection
    cases inSection

end Flat

namespace Channels

/-- What a section of a proper record leaves to its overflow channel is proper. -/
theorem proper_undeclaredEntries (channels : Channels) (side : Section) (value : Value)
    (extras : List (Key × Value)) (proper : value.Proper)
    (undeclared : channels.undeclaredEntries side value = .ok extras) :
    (Value.mapping extras).Proper := by
  have empty : (Value.mapping []).Proper := .mapping (by simp) (by simp) .nil
  unfold undeclaredEntries at undeclared
  split_ifs at undeclared with bare
  · exact Except.ok.inj undeclared ▸ empty
  · split at undeclared
    · next entries =>
      obtain rfl := Except.ok.inj undeclared
      cases proper with
      | mapping keys values apart =>
        exact .mapping (fun entry member => keys entry (List.mem_of_mem_filter member))
          (fun entry member => values entry (List.mem_of_mem_filter member)) (apart.filter _)
    · cases undeclared

/-- What the channels take from a proper value is proper. -/
theorem proper_of_encode (channels : Channels) (value : Value) (flat : Flat)
    (encodes : channels.encode value = .ok flat) (proper : value.Proper) (key : String)
    (held : Value) (found : Entries.get? key flat = some held) : held.Proper := by
  have exact : ∀ writes : Flat, Entries.AllExact writes := fun _ other _ => isExact_of_lawful other
  cases value with
  | mapping record =>
    obtain ⟨extras, undeclared, rfl⟩ := (encode_eq_ok_iff channels record flat).mp encodes
    have member := Entries.mem_of_get? key (isExact_of_lawful key) held _ found
    rcases Entries.mem_merge _ _ (exact _) _ member with overflow | inFields
    · obtain ⟨side, -, same⟩ := List.mem_map.mp overflow
      obtain ⟨-, rfl⟩ := Prod.mk.inj same
      exact channels.proper_undeclaredEntries side _ _ (Flat.proper_sectionOf record proper side)
        (undeclared side)
    · have written := Entries.mem_merge [] _ (exact _) _ inFields
      simp only [List.not_mem_nil, or_false] at written
      obtain ⟨field, -, same⟩ := List.mem_map.mp written
      obtain ⟨-, rfl⟩ := Prod.mk.inj same
      cases read : Entries.get? field
          (Flat.ofRecord channels.separator channels.fieldKeys record) with
      | none => exact .null
      | some leaf =>
        exact Flat.proper_of_mem_ofRecord _ _ record proper _
          (Entries.mem_of_get? field (isExact_of_lawful field) leaf _ read)
  | _ => cases encodes

/-- Every channel takes something from a value that is spread. -/
theorem exists_of_encode (channels : Channels) (value : Value) (flat : Flat)
    (encodes : channels.encode value = .ok flat) (key : String) (known : key ∈ channels.keys) :
    ∃ held, Entries.get? key flat = some held := by
  cases value with
  | mapping record =>
    obtain ⟨extras, -, rfl⟩ := (encode_eq_ok_iff channels record flat).mp encodes
    apply (Entries.get?_isSome_exact key (isExact_of_lawful key) _).mpr
    exact (mem_keys_encoded_iff channels record extras key).mpr known
  | _ => cases encodes

/-! ## Writing back -/

/-- A channel has reached a value: exactly, or an equal one if it takes additions. -/
def Reached (channels : Channels) (key : String) (held wanted : Value) : Prop :=
  if channels.isSequence key = true then held.Equals wanted else held = wanted

/-- The update of one channel is never refused, and the channel then has reached its new
value. -/
theorem written_updateOf?_reached (channels : Channels) (flat target : Flat) (key : String)
    (before after : Value) (heldFound : Entries.get? key flat = some before)
    (wantedFound : Entries.get? key target = some after)
    (proper : channels.isSequence key = true → before.Proper) (afterProper : after.Proper) :
    (channels.updateOf? flat target key = none ∧ channels.Reached key before after) ∨
      ∃ update value, channels.updateOf? flat target key = some update ∧
        channels.written key (some before) update = .ok value ∧
        channels.Reached key value after := by
  rw [updateOf?, heldFound, wantedFound, Option.getD_some, Option.getD_some]
  by_cases list : channels.isSequence key = true
  · simp only [Reached, written, list, if_true, Option.getD_some]
    obtain ⟨next, stepped, reached, -⟩ := ListChannel.step_reaches
      ListChannel.findsEqual_equalIfKept before after (proper list) afterProper
    unfold ListChannel.step at stepped
    cases changed : ListChannel.updateOfKept? before after with
    | none =>
      rw [ListChannel.updateOfKept?] at changed
      rw [changed] at stepped
      obtain rfl := Except.ok.inj stepped
      exact .inl ⟨rfl, reached⟩
    | some update =>
      have merged := ListChannel.writeList_updateOfKept? before after update changed
      rw [ListChannel.updateOfKept?] at changed
      rw [changed] at stepped
      exact .inr ⟨update, next, rfl, merged.trans stepped, reached⟩
  · simp only [Reached, written, list, Bool.false_eq_true, if_false]
    exact .inr ⟨after, after, rfl, rfl, rfl⟩

/-- The updates that lead the channels from any state to what they take from a value are written
without a refusal. Each channel then has what the value gives it, exactly or, where it takes
additions, an equal value; and nothing else is changed.

Proof: each channel is looked at by itself, and one that takes additions is led there by a step
of a list channel. What the value gives to it is proper since the value is. -/
theorem writeAll_updates_reaches (channels : Channels) (before : Flat) (value : Value)
    (after : Flat) (encodes : channels.encode value = .ok after)
    (complete : ∀ key ∈ channels.keys, ∃ held, Entries.get? key before = some held)
    (beforeProper : ∀ key held, channels.isSequence key = true →
      Entries.get? key before = some held → held.Proper) (proper : value.Proper) :
    ∃ result, channels.writeAll before (channels.updates before after) = .ok result ∧
      (∀ key ∈ channels.keys, ∃ wanted held, Entries.get? key after = some wanted ∧
        Entries.get? key result = some held ∧
          if channels.isSequence key = true then held.Equals wanted else held = wanted) ∧
      ∀ key, key ∉ channels.keys → Entries.get? key result = Entries.get? key before := by
  obtain ⟨result, done, reached⟩ := writeAll_updates_of_steps channels before after
    (fun key held => ∃ wanted, Entries.get? key after = some wanted ∧
      channels.Reached key held wanted) (by
      intro key known
      obtain ⟨held, heldFound⟩ := complete key known
      obtain ⟨wanted, wantedFound⟩ := channels.exists_of_encode value after encodes key known
      refine ⟨held, heldFound, ?_⟩
      rcases written_updateOf?_reached channels before after key held wanted heldFound wantedFound
          (fun list => beforeProper key held list heldFound)
          (channels.proper_of_encode value after encodes proper key wanted wantedFound) with
        ⟨unchanged, there⟩ | ⟨update, written, changed, made, there⟩
      · exact .inl ⟨unchanged, wanted, wantedFound, there⟩
      · exact .inr ⟨update, written, changed, made, wanted, wantedFound, there⟩)
  refine ⟨result, done, fun key known => ?_, fun key unknown => ?_⟩
  · obtain ⟨held, heldFound, wanted, wantedFound, there⟩ := reached key known
    exact ⟨wanted, held, wantedFound, heldFound, there⟩
  · apply get?_writeAll_other channels key _ _ before result done
    intro present
    obtain ⟨entry, member, rfl⟩ := List.mem_map.mp present
    exact unknown ((mem_updates_iff channels before after entry).mp member).1

/-- A list that goes on behind a NaN is continued, a field that is left out becomes null, and
what was in the overflow is gone. -/
theorem writeAll_updates_reaches_mixed :
    let channels := ofSchemas .underscore
      ⟨uniformSchema (.list .any) ["items"], uniformSchema .any ["n"]⟩
    let nan := Value.real (.nan 3)
    let items := Value.list [.int 1, nan, .int 1]
    let before : Flat := [("input_items", .list [.bool true, nan]), ("output_n", .int 5),
      ("input___extra__", .mapping []), ("output___extra__", .mapping [(.text "old", .int 1)])]
    let value := Value.mapping [(.text "input", .mapping [(.text "items", items)])]
    let after : Flat := [("input_items", items), ("output_n", .null),
      ("input___extra__", .mapping []), ("output___extra__", .mapping [])]
    channels.encode value = .ok after ∧
      (∀ key ∈ channels.keys, ∃ held, Entries.get? key before = some held) ∧
      (∀ key held, channels.isSequence key = true → Entries.get? key before = some held →
        held.Proper) ∧ value.Proper ∧
      ∃ result, channels.writeAll before (channels.updates before after) = .ok result ∧
        Entries.get? "output_n" result = some .null ∧
        ∃ held, Entries.get? "input_items" result = some held ∧ held.Equals items := by
  intro channels nan items before value after
  have encodes : channels.encode value = .ok after := by rfl
  have declared : channels.declared = [⟨.input, "items", "input_items", true⟩,
      ⟨.output, "n", "output_n", false⟩] := by rfl
  have known : channels.keys = ["input_items", "output_n", "input___extra__",
      "output___extra__"] := by rfl
  have onlyList : ∀ key, channels.isSequence key = true → key = "input_items" := by
    intro key list
    have same : "input_items" = key := by simpa [isSequence, declared] using list
    exact same.symm
  have complete : ∀ key ∈ channels.keys, ∃ held, Entries.get? key before = some held := by
    rw [known]
    simp only [List.forall_mem_cons, List.not_mem_nil, false_imp_iff, implies_true, and_true]
    exact ⟨⟨_, rfl⟩, ⟨_, rfl⟩, ⟨_, rfl⟩, ⟨_, rfl⟩⟩
  have nanProper : nan.Proper := .real _
  have itemsProper : items.Proper := by
    apply Value.Proper.list
    simpa using ⟨Value.Proper.int 1, nanProper, Value.Proper.int 1⟩
  have beforeProper : ∀ key held, channels.isSequence key = true →
      Entries.get? key before = some held → held.Proper := by
    intro key held list found
    obtain rfl := onlyList key list
    obtain rfl : Value.list [.bool true, nan] = held := by simpa [before, Entries.get?] using found
    apply Value.Proper.list
    simpa using ⟨Value.Proper.bool true, nanProper⟩
  have proper : value.Proper := by
    refine .mapping ?_ ?_ (List.pairwise_singleton _ _)
    · simpa using Key.Proper.text "input"
    · have section' : (Value.mapping [(Key.text "items", items)]).Proper := by
        refine .mapping ?_ ?_ (List.pairwise_singleton _ _)
        · simpa using Key.Proper.text "items"
        · simpa using itemsProper
      simpa using section'
  obtain ⟨result, done, reached, -⟩ :=
    writeAll_updates_reaches channels before value after encodes complete beforeProper proper
  refine ⟨encodes, complete, beforeProper, proper, result, done, ?_, ?_⟩
  · obtain ⟨wanted, held, wantedFound, heldFound, same⟩ := reached "output_n" (by simp [known])
    rw [if_neg (by decide)] at same
    rw [heldFound, same, ← wantedFound]
    rfl
  · obtain ⟨wanted, held, wantedFound, heldFound, equal⟩ := reached "input_items" (by simp [known])
    rw [if_pos (by decide)] at equal
    obtain rfl : items = wanted := by simpa [after, Entries.get?] using wantedFound
    exact ⟨held, heldFound, equal⟩

end Channels

end Stepwise
