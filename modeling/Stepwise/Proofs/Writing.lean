import Stepwise.Proofs.Layout

/-!
# Writing into channels

Writes under different keys do not disturb one another, so each can be looked at by
itself: a plain channel takes what is written, a list channel the written update merged
into what it holds. Only a list channel can refuse.

A list channel that was never written starts as an empty list. Written into that, a value
comes out as it is exactly if it is a list, and it is refused exactly if it is no mark and
has no parts.
-/

namespace Stepwise.Channels

open Entries (isExact_of_lawful)

variable {separator : Separator} {schemas : Schemas}

/-- Whether a declared field's channel takes additions. -/
def isListField (separator : Separator) (schemas : Schemas) (side : Section)
    (name : String) : Prop :=
  (ofSchemas separator schemas).isSequence (Flat.key separator side [name]) = true

/-- The overflow is no list. -/
theorem isSequence_overflowKey (clear : ClearNames separator schemas) (side : Section) :
    (ofSchemas separator schemas).isSequence ((ofSchemas separator schemas).overflowKey side) =
      false := by
  rw [isSequence, List.any_eq_false]
  intro channel member
  obtain ⟨field, inSchema, same⟩ := (mem_declared_iff channel).mp member
  have declared : field.name ∈ (schemas.of channel.side).fieldNames :=
    List.mem_map_of_mem inSchema
  have apart := key_ne_overflowKey clear channel.side side field.name declared
  rw [same]
  simp [apart]

/-- What a channel holds after one write. -/
def written (channels : Channels) (key : String) (held : Option Value) (update : Value) :
    Attempt Value :=
  if channels.isSequence key then writeList (held.getD (.list [])) update else .ok update

/-- A write changes the channel of its key. -/
theorem write_eq (channels : Channels) (flat : Flat) (update : String × Value) :
    channels.write flat update =
      (channels.written update.1 (Entries.get? update.1 flat) update.2).map
        fun value => Entries.insert update.1 value flat := by
  rw [write, written]
  split <;> rfl

/-- The first write decides whether writing goes on. -/
theorem writeAll_cons (channels : Channels) (flat : Flat) (update : String × Value)
    (rest : Flat) : channels.writeAll flat (update :: rest) =
      (channels.written update.1 (Entries.get? update.1 flat) update.2).bind
        fun value => channels.writeAll (Entries.insert update.1 value flat) rest := by
  rw [writeAll, List.foldlM_cons, write_eq]
  cases channels.written update.1 (Entries.get? update.1 flat) update.2 <;> rfl

/-- Writing leaves a channel as it is that is not written. -/
theorem get?_writeAll_other (channels : Channels) (key : String) (updates : Flat)
    (absent : key ∉ Entries.keys updates) (flat after : Flat)
    (done : channels.writeAll flat updates = .ok after) :
    Entries.get? key after = Entries.get? key flat := by
  induction updates generalizing flat with
  | nil =>
    obtain rfl : flat = after := Except.ok.inj done
    rfl
  | cons update rest ih =>
    simp only [Entries.keys_cons, List.mem_cons, not_or] at absent
    rw [writeAll_cons] at done
    cases value : channels.written update.1 (Entries.get? update.1 flat) update.2 with
    | error why =>
      rw [value] at done
      cases done
    | ok result =>
      rw [value] at done
      rw [ih absent.2 _ done, Entries.get?_insert_other _ _ (isExact_of_lawful _)
        (isExact_of_lawful _) (Ne.symm absent.1)]

/-- A write is not seen under the keys of the writes behind it, if no key is written twice. -/
theorem get?_insert_behind (update : String × Value) (rest : Flat)
    (fresh : update.1 ∉ Entries.keys rest) (value : Value) (flat : Flat) (other : String × Value)
    (member : other ∈ rest) : Entries.get? other.1 (Entries.insert update.1 value flat) =
      Entries.get? other.1 flat := by
  have apart : update.1 ≠ other.1 := fun same => fresh (same ▸ List.mem_map_of_mem member)
  exact Entries.get?_insert_other _ _ (isExact_of_lawful _) (isExact_of_lawful _) apart _ _

/-- Where every write by itself succeeds, all do, and every channel holds what its own
write makes of it. -/
theorem writeAll_ok (channels : Channels) (updates : Flat)
    (distinct : (Entries.keys updates).Nodup) (flat : Flat)
    (each : ∀ update ∈ updates, ∃ value,
      channels.written update.1 (Entries.get? update.1 flat) update.2 = .ok value) :
    ∃ after, channels.writeAll flat updates = .ok after ∧
      ∀ update ∈ updates, ∃ value,
        channels.written update.1 (Entries.get? update.1 flat) update.2 = .ok value ∧
          Entries.get? update.1 after = some value := by
  induction updates generalizing flat with
  | nil => exact ⟨flat, rfl, by simp⟩
  | cons update rest ih =>
    obtain ⟨fresh, restDistinct⟩ := List.nodup_cons.mp distinct
    obtain ⟨first, firstWritten⟩ := each update List.mem_cons_self
    have unseen := get?_insert_behind update rest fresh first flat
    have restEach : ∀ other ∈ rest, ∃ value, channels.written other.1
        (Entries.get? other.1 (Entries.insert update.1 first flat)) other.2 = .ok value := by
      intro other member
      rw [unseen other member]
      exact each other (List.mem_cons_of_mem _ member)
    obtain ⟨after, done, held⟩ := ih restDistinct _ restEach
    refine ⟨after, ?_, ?_⟩
    · rw [writeAll_cons, firstWritten]
      exact done
    · intro other member
      rcases List.mem_cons.mp member with rfl | later
      · refine ⟨first, firstWritten, ?_⟩
        rw [get?_writeAll_other channels other.1 rest fresh _ after done,
          Entries.get?_insert_same _ (isExact_of_lawful _)]
      · obtain ⟨value, valueWritten, found⟩ := held other later
        rw [unseen other later] at valueWritten
        exact ⟨value, valueWritten, found⟩

/-- Where one write by itself fails and no other fails for another reason, writing fails
for that reason. -/
theorem writeAll_error (channels : Channels) (why : Failure) (updates : Flat)
    (distinct : (Entries.keys updates).Nodup) (flat : Flat)
    (only : ∀ update ∈ updates, ∀ cause,
      channels.written update.1 (Entries.get? update.1 flat) update.2 = .error cause →
        cause = why)
    (failing : ∃ update ∈ updates, ∃ cause,
      channels.written update.1 (Entries.get? update.1 flat) update.2 = .error cause) :
    channels.writeAll flat updates = .error why := by
  induction updates generalizing flat with
  | nil =>
    obtain ⟨update, member, -⟩ := failing
    cases member
  | cons update rest ih =>
    obtain ⟨fresh, restDistinct⟩ := List.nodup_cons.mp distinct
    rw [writeAll_cons]
    cases first : channels.written update.1 (Entries.get? update.1 flat) update.2 with
    | error cause =>
      obtain rfl := only update List.mem_cons_self cause first
      rfl
    | ok value =>
      have unseen := get?_insert_behind update rest fresh value flat
      apply ih restDistinct
      · intro other member cause failed
        rw [unseen other member] at failed
        exact only other (List.mem_cons_of_mem _ member) cause failed
      · obtain ⟨other, member, cause, failed⟩ := failing
        rcases List.mem_cons.mp member with rfl | later
        · rw [first] at failed
          cases failed
        · exact ⟨other, later, cause, by rw [unseen other later, failed]⟩

/-- What overwrites a list channel is a part of the mapping that says so. -/
theorem sizeOf_overwriting? (value stated : Value) (overwrites : overwriting? value = some stated) :
    sizeOf stated < sizeOf value := by
  cases value with
  | mapping entries =>
    have smaller : ∀ key, (key, stated) ∈ entries →
        sizeOf stated < sizeOf (Value.mapping entries) := by
      intro key member
      have part := List.sizeOf_lt_of_mem member
      simp only [Prod.mk.sizeOf_spec, Value.mapping.sizeOf_spec] at part ⊢
      omega
    simp only [overwriting?] at overwrites
    split at overwrites
    · next held named =>
      obtain rfl := Option.some.inj overwrites
      split at named
      · exact smaller _ (Entries.mem_of_get? _ (Entries.isExact_text "value") _ _ named)
      · cases named
    · next key held _ =>
      split at overwrites
      · obtain rfl := Option.some.inj overwrites
        exact smaller key List.mem_cons_self
      · cases overwrites
    · cases overwrites
  | _ => simp [overwriting?] at overwrites

/-- A value written into an empty list channel fails only by being of the wrong kind. -/
theorem writeList_empty_error (value : Value) (why : Failure)
    (failed : writeList (.list []) value = .error why) : why = .wrongKind := by
  rw [writeList] at failed
  cases stated : overwriting? value with
  | some other =>
    rw [stated] at failed
    cases failed
  | none =>
    rw [stated] at failed
    cases value <;> first
      | exact (Except.error.inj failed).symm
      | cases failed

/-- A value is written into an empty list channel unchanged exactly if it is a list. -/
theorem writeList_empty_eq_self_iff (value : Value) :
    writeList (.list []) value = .ok value ↔ ∃ items, value = .list items := by
  constructor
  · intro unchanged
    rw [writeList] at unchanged
    cases stated : overwriting? value with
    | some other =>
      rw [stated] at unchanged
      obtain rfl : other = value := Except.ok.inj unchanged
      exact absurd (sizeOf_overwriting? other other stated) (Nat.lt_irrefl _)
    | none =>
      rw [stated] at unchanged
      cases value with
      | list items => exact ⟨items, rfl⟩
      | replacement held =>
        have same : held = .replacement held := Except.ok.inj unchanged
        have sizes := congrArg sizeOf same
        simp at sizes
      | _ => cases unchanged
  · rintro ⟨items, rfl⟩
    rfl

end Stepwise.Channels
