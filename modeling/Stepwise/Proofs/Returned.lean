import Stepwise.Proofs.Mirrors
import Stepwise.Proofs.StartStates

/-!
# What a single action leaves in the channels

An action returns a value of any kind. It is spread over the channels only if it is a
mapping each of whose sections is a mapping or empty; otherwise the run fails. A section
that is missing or empty counts as one without entries.

A channel that takes additions is led from what it held to the new value. From an empty
list this is always exact; from another value it may end at one that is equal only, as where
a truth value is written over a number.
-/

namespace Stepwise

open Entries (Named isExact_text isExact_of_lawful)

/-- From an empty list a step leads exactly to the new value. -/
theorem ListChannel.step_of_empty (after : Value) :
    step updateOfKept? (.list []) after = .ok after := by
  unfold step
  cases changed : updateOfKept? (.list []) after with
  | none =>
    have alike := alike_of_updateOfKept?_eq_none _ after changed
    cases after with
    | list items =>
      cases items with
      | nil => rfl
      | cons item rest => simp [Value.alike, Value.allAlike] at alike
    | _ => simp [Value.alike, Value.number?] at alike
  | some update =>
    have written := writeList_updateOfKept?_cases _ after update changed
    rw [writeList_updateOfKept? _ after update changed] at written
    rcases written with replaced | ⟨old, new, sameOld, rfl, -, continued⟩
    · exact replaced
    · obtain rfl : [] = old := Value.list.inj sameOld
      exact continued

/-- A step is never refused. -/
theorem ListChannel.exists_step (before after : Value) :
    ∃ result, step updateOfKept? before after = .ok result := by
  unfold step
  cases changed : updateOfKept? before after with
  | none => exact ⟨before, rfl⟩
  | some update =>
    have written := writeList_updateOfKept?_cases before after update changed
    rw [writeList_updateOfKept? before after update changed] at written
    rcases written with replaced | ⟨old, new, -, -, -, continued⟩
    · exact ⟨after, replaced⟩
    · exact ⟨_, continued⟩

namespace Channels

variable {separator : Separator} {schemas : Schemas} {record : List (Key × Value)}
  {given : Section → List (Key × Value)} {flat target : Flat}

/-- The entries that a section counts as having: those of a mapping, and none where there is
nothing. Any other value is no section. -/
def entriesOf? : Value → Option (List (Key × Value))
  | .mapping entries => some entries
  | value => if value.truthy then none else some []

/-- Only a mapping has leaves. -/
theorem ofSection_of_entriesOf? (separator : Separator) (whole : List String) (side : Section)
    (value : Value) (entries : List (Key × Value)) (reads : entriesOf? value = some entries) :
    Flat.ofSection separator whole side value =
      Flat.ofSection separator whole side (.mapping entries) := by
  cases value with
  | mapping own => rw [Option.some.inj reads]
  | _ =>
    simp only [entriesOf?, ite_eq_iff, reduceCtorEq, and_false, false_or] at reads
    rw [← Option.some.inj reads.2]
    rfl

/-- What is left to the overflow channel are the undeclared entries of a section. -/
theorem undeclaredEntries_eq (channels : Channels) (side : Section) (value : Value) :
    channels.undeclaredEntries side value =
      match entriesOf? value with
      | some entries => .ok (entries.filter (channels.isUndeclared side))
      | none => .error .noOperation := by
  cases value with
  | mapping entries => cases entries <;> simp [undeclaredEntries, entriesOf?, Value.truthy]
  | _ =>
    simp only [undeclaredEntries, entriesOf?]
    split <;> simp_all

/-- The entries that the sections of a value count as having, if it is a mapping whose sections
are read. -/
def sectionsOf? : Value → Option Flat.Nested
  | .mapping record =>
    match entriesOf? (Flat.sectionOf record .input), entriesOf? (Flat.sectionOf record .output) with
    | some input, some output => some ⟨input, output⟩
    | _, _ => none
  | _ => none

/-- A record is spread as the record of the entries that its sections count as having. -/
theorem encode_of_entriesOf? (channels : Channels) (record : List (Key × Value))
    (nested : Flat.Nested)
    (reads : ∀ side, entriesOf? (Flat.sectionOf record side) = some (nested.get side)) :
    channels.encode (.mapping record) = channels.encode nested.toValue := by
  let plain : List (Key × Value) := [(.text Section.input.name, .mapping nested.input),
    (.text Section.output.name, .mapping nested.output)]
  have sections : ∀ side, Flat.sectionOf plain side = .mapping (nested.get side) := by
    intro side
    cases side <;> rfl
  have leaves : ∀ side whole,
      Flat.ofSection channels.separator whole side (Flat.sectionOf record side) =
        Flat.ofSection channels.separator whole side (Flat.sectionOf plain side) := by
    intro side whole
    rw [sections side, ofSection_of_entriesOf? _ whole side _ _ (reads side)]
  have undeclared : ∀ side, channels.undeclaredEntries side (Flat.sectionOf record side) =
      channels.undeclaredEntries side (Flat.sectionOf plain side) := by
    intro side
    rw [undeclaredEntries_eq, undeclaredEntries_eq, reads side, sections side]
    rfl
  show channels.encodeRecord record = channels.encodeRecord plain
  simp only [encodeRecord, Flat.ofRecord, leaves, undeclared]

/-- A record with a value in the place of a section is not spread. -/
theorem encode_of_entriesOf?_none (channels : Channels) (record : List (Key × Value))
    (side : Section) (unread : entriesOf? (Flat.sectionOf record side) = none) :
    channels.encode (.mapping record) = .error .noOperation := by
  have fails := undeclaredEntries_eq channels side (Flat.sectionOf record side)
  rw [unread] at fails
  rw [encode, encodeRecord, Section.all]
  cases side with
  | input =>
    simp only [List.mapM_cons, fails]
    rfl
  | output =>
    have first := undeclaredEntries_eq channels .input (Flat.sectionOf record .input)
    cases reads : entriesOf? (Flat.sectionOf record .input) with
    | none =>
      rw [reads] at first
      simp only [List.mapM_cons, first]
      rfl
    | some entries =>
      rw [reads] at first
      simp only [List.mapM_cons, first, fails]
      rfl

/-- What a value is spread as depends on the entries that its sections count as having only. -/
theorem encode_eq_sectionsOf? (channels : Channels) (value : Value) :
    channels.encode value =
      match sectionsOf? value with
      | some nested => channels.encode nested.toValue
      | none => .error .noOperation := by
  cases value with
  | mapping record =>
    rw [sectionsOf?]
    cases input : entriesOf? (Flat.sectionOf record .input) with
    | none => exact channels.encode_of_entriesOf?_none record .input input
    | some entries =>
      cases output : entriesOf? (Flat.sectionOf record .output) with
      | none => exact channels.encode_of_entriesOf?_none record .output output
      | some others =>
        apply channels.encode_of_entriesOf? record
        intro side
        cases side
        · exact input
        · exact output
  | _ => rfl

/-- What a channel is led to: a step on if it takes additions, and otherwise the new value. -/
def ledTo (channels : Channels) (key : String) (before after : Value) : Attempt Value :=
  if channels.isSequence key then ListChannel.step ListChannel.updateOfKept? before after
  else .ok after

/-- The update of one channel is never refused, and the channel is then led to the new value. -/
theorem written_updateOf?_led (channels : Channels) (flat target : Flat) (key : String)
    (before after : Value) (heldFound : Entries.get? key flat = some before)
    (wantedFound : Entries.get? key target = some after) :
    (channels.updateOf? flat target key = none ∧ channels.ledTo key before after = .ok before) ∨
      ∃ update value, channels.updateOf? flat target key = some update ∧
        channels.written key (some before) update = .ok value ∧
        channels.ledTo key before after = .ok value := by
  rw [updateOf?, heldFound, wantedFound, Option.getD_some, Option.getD_some]
  by_cases list : channels.isSequence key = true
  · simp only [ledTo, written, list, if_true, Option.getD_some]
    obtain ⟨value, led⟩ := ListChannel.exists_step before after
    rw [ListChannel.step] at led ⊢
    cases changed : ListChannel.updateOfKept? before after with
    | none => exact .inl ⟨rfl, rfl⟩
    | some update =>
      rw [changed] at led
      refine .inr ⟨update, value, rfl, ?_, led⟩
      rw [ListChannel.writeList_updateOfKept? before after update changed]
      exact led
  · simp only [ledTo, written, list, Bool.false_eq_true, if_false]
    exact .inr ⟨after, after, rfl, rfl, rfl⟩

/-- The updates that lead to another state are always written where every channel holds
something, and every channel is then led to what it holds there. -/
theorem exists_writeAll_updates (channels : Channels) (flat target : Flat)
    (held : ∀ key ∈ channels.keys, ∃ value, Entries.get? key flat = some value)
    (wanted : ∀ key ∈ channels.keys, ∃ value, Entries.get? key target = some value) :
    ∃ result, channels.writeAll flat (channels.updates flat target) = .ok result ∧
      ∀ key ∈ channels.keys, ∃ value, Entries.get? key result = some value ∧
        ∀ before after, Entries.get? key flat = some before →
          Entries.get? key target = some after → channels.ledTo key before after = .ok value := by
  apply writeAll_updates_of_steps channels flat target fun key value =>
    ∀ before after, Entries.get? key flat = some before →
      Entries.get? key target = some after → channels.ledTo key before after = .ok value
  intro key known
  obtain ⟨before, heldFound⟩ := held key known
  obtain ⟨after, wantedFound⟩ := wanted key known
  refine ⟨before, heldFound, ?_⟩
  rw [heldFound, wantedFound]
  simp only [Option.some.injEq]
  rcases written_updateOf?_led channels flat target key before after heldFound wantedFound with
    ⟨unchanged, led⟩ | ⟨update, value, changed, made, led⟩
  · refine .inl ⟨unchanged, ?_⟩
    rintro _ _ rfl rfl
    exact led
  · refine .inr ⟨update, value, changed, made, ?_⟩
    rintro _ _ rfl rfl
    exact led

/-- A section as the channels have it behind a node that returned the given entries: each
declared field led from its start value to what was returned under its name, or to null, and
everything else as it was returned. -/
structure Led (separator : Separator) (schemas : Schemas) (start : Section → List (Key × Value))
    (side : Section) (given full : List (Key × Value)) : Prop where
  named : Named full
  declared : ∀ name ∈ (schemas.of side).fieldNames, ∃ before value,
    startValue separator schemas start side name = .ok before ∧
      (ofSchemas separator schemas).ledTo (Flat.key separator side [name]) before
        ((Entries.get? (Key.text name) given).getD .null) = .ok value ∧
      Entries.get? (Key.text name) full = some value
  others : ∀ name, name ∉ (schemas.of side).fieldNames →
    Entries.get? (Key.text name) full = Entries.get? (Key.text name) given

/-- What a section is led to is determined up to the order of the entries. -/
theorem Led.perm {start : Section → List (Key × Value)} {side : Section}
    {entries full other : List (Key × Value)}
    (led : Led separator schemas start side entries full)
    (again : Led separator schemas start side entries other) : full.Perm other := by
  apply led.named.perm_of_get? again.named
  intro name
  by_cases declared : name ∈ (schemas.of side).fieldNames
  · obtain ⟨before, value, starts, reached, found⟩ := led.declared name declared
    obtain ⟨held, result, startsAgain, reachedAgain, foundAgain⟩ := again.declared name declared
    obtain rfl := Except.ok.inj (starts.symm.trans startsAgain)
    obtain rfl := Except.ok.inj (reached.symm.trans reachedAgain)
    rw [found, foundAgain]
  · rw [led.others name declared, again.others name declared]

/-- From channels that hold the start values, the updates that lead to a spread record are
written, and each section is collected as it is led to. -/
theorem led_of_writeAll_updates (clear : ClearNames separator schemas)
    {start : Section → List (Key × Value)} (named : ∀ side, Named (given side))
    (spread : Spread separator schemas given target)
    (fields : ∀ side, ∀ name ∈ (schemas.of side).fieldNames, ∃ value,
      startValue separator schemas start side name = .ok value ∧
        Entries.get? (Flat.key separator side [name]) flat = some value)
    (complete : ∀ key ∈ (ofSchemas separator schemas).keys, ∃ value,
      Entries.get? key flat = some value) :
    ∃ result nested, (ofSchemas separator schemas).writeAll flat
        ((ofSchemas separator schemas).updates flat target) = .ok result ∧
      (ofSchemas separator schemas).decode result = .ok nested ∧
      ∀ side, Led separator schemas start side (given side) (nested.get side) := by
  have wanted : ∀ key ∈ (ofSchemas separator schemas).keys, ∃ value,
      Entries.get? key target = some value := fun key known =>
    (Entries.get?_isSome_exact key (isExact_of_lawful key) target).mpr
      ((spread.keys key).mpr known)
  obtain ⟨result, done, values⟩ := exists_writeAll_updates _ flat target complete wanted
  have overflow : ∀ side, Entries.get? ((ofSchemas separator schemas).overflowKey side) result =
      some (.mapping ((given side).filter
        ((ofSchemas separator schemas).isUndeclared side))) := by
    intro side
    have known := (mem_keys_iff ((ofSchemas separator schemas).overflowKey side)).mpr
      (.inr ⟨side, rfl⟩)
    obtain ⟨before, held⟩ := complete _ known
    obtain ⟨value, found, led⟩ := values _ known
    have exact := led before _ held (spread.overflow side)
    rw [ledTo, isSequence_overflowKey clear side, if_neg Bool.false_ne_true] at exact
    rw [found, ← Except.ok.inj exact]
  obtain ⟨nested, decoded, collected⟩ :=
    collected_of_decode clear (filled_of_overflow named overflow)
  refine ⟨result, nested, done, decoded, fun side => ⟨collected.named side, ?_, ?_⟩⟩
  · intro name declared
    obtain ⟨before, starts, held⟩ := fields side name declared
    obtain ⟨value, found, led⟩ :=
      values _ ((mem_keys_iff _).mpr (.inl ⟨side, name, declared, rfl⟩))
    refine ⟨before, value, starts, led before _ held (spread.field side name declared), ?_⟩
    rw [collected.field side name declared, found, Option.getD_some]
  · intro name undeclared
    rw [← get?_filter_isUndeclared separator schemas side name undeclared _
      (collected.named side), collected.rest side,
      get?_filter_isUndeclared separator schemas side name undeclared _ (named side)]

end Channels
end Stepwise
