import Stepwise.Proofs.Undiagnosed

/-!
# Fields of which something is said

A diagnostic tells of a field exactly if the separator is in its name. Such a field is always
null in the record that is collected after spreading. Its channel leads to the names that its
own name splits into, and the separator is in none of these; so neither this channel nor that
of any other field is ever assigned at the field's name, in its section or in the overflow. The
overflow does not hold the name, because it is declared. What is left is the null of the template.
-/

namespace Stepwise

/-- The separator is in no name of a path that stays apart. -/
theorem Separator.KeepsApart.occursIn_of_mem {separator : Separator} {path : List String}
    (apart : separator.KeepsApart path) (name : String) (member : name ∈ path) :
    separator.occursIn name = false := by
  have filled : path ≠ [] := List.ne_nil_of_mem member
  have outside : ¬ separator.chars <:+: name.toList := by
    rw [← List.dropLast_append_getLast filled, List.mem_append, List.mem_singleton] at member
    rcases member with before | isLast
    · exact not_infix_of_leftmost _ _ separator.nonempty (apart.earlier name before)
    · exact apart.last name (isLast ▸ List.getLast?_eq_some_getLast filled)
  simpa [occursIn] using (cut_eq_none_iff separator.nonempty name.toList).mpr outside

namespace Channels

variable {separator : Separator} {schemas : Schemas}

/-- What is said of a field tells its section and its name. -/
theorem separatorDiagnostic_injective (channel other : Channel)
    (same : separatorDiagnostic separator channel = separatorDiagnostic separator other) :
    channel.side = other.side ∧ channel.field = other.field := by
  have named : channel.side.name ++ ("." ++ channel.field) =
      other.side.name ++ ("." ++ other.field) := by
    simp only [separatorDiagnostic, String.append_left_inj] at same
    simpa only [String.append_assoc, String.append_right_inj] using same
  have sameSide : channel.side = other.side := by
    -- The names of the sections differ in their first characters.
    have first := congrArg (fun text => text.toList.head?) named
    cases side : channel.side <;> cases otherSide : other.side <;>
      simp [side, otherSide, Section.name] at first ⊢
  refine ⟨sameSide, ?_⟩
  simpa only [sameSide, String.append_right_inj] using named

/-- Something is said of a declared field exactly if the separator is in its name. -/
theorem mem_diagnostics_iff (channel : Channel)
    (declared : channel ∈ (ofSchemas separator schemas).declared) :
    separatorDiagnostic separator channel ∈ (ofSchemas separator schemas).diagnostics ↔
      separator.occursIn channel.field = true := by
  constructor
  · intro told
    obtain ⟨other, member, same⟩ := List.mem_map.mp told
    obtain ⟨-, field⟩ := separatorDiagnostic_injective other channel same
    exact field ▸ (List.mem_filter.mp member).2
  · exact mem_diagnostics channel declared

/-- No field is collected under a name that the separator is in. -/
theorem get?_collectedFields_of_inside (flat : Flat) (side : Section) (name : String)
    (inside : separator.occursIn name = true) :
    Entries.get? (Key.text name) (collectedFields separator schemas flat side) = none := by
  rw [collectedFields, Flat.get_toNested]
  have restorable : ∀ place ∈ Flat.placed separator side
      ((ofSchemas separator schemas).declaredIn flat),
        place.1 ≠ [] ∧ Flat.Restorable separator place.1 :=
    Flat.restorable_of_mem_placed side _
  rw [Flat.get?_assignAll_other name _ fun place member => (restorable place member).1,
    Entries.get?_nil]
  intro place member first
  have outside := (restorable place member).2.2.occursIn_of_mem name (List.mem_of_head? first)
  rw [outside] at inside
  cases inside

/-- No field goes into the overflow at a name that the separator is in. -/
theorem not_fallsInto_of_inside (names : List String) (other name : String)
    (inside : separator.occursIn name = true) : ¬ FallsInto separator names other name := by
  rintro ⟨-, -, rest, parts⟩
  have outside := (separator.keepsApart_split other).occursIn_of_mem name (by simp [parts])
  rw [outside] at inside
  cases inside

/-- A record with two sections is spread over the channels and collected again, and a field of
which a diagnostic tells is null there, whatever the record has at this field and elsewhere.

Proof: no field is collected under a name that the separator is in, and none goes into the
overflow there, which holds no declared name itself; the template is not overwritten. -/
theorem decode_encode_diagnosed (separator : Separator) (schemas : Schemas)
    (record : List (Key × Value)) (given : Section → List (Key × Value))
    (sections : HasSections record given) :
    ∃ flat nested, (ofSchemas separator schemas).encode (.mapping record) = .ok flat ∧
      (ofSchemas separator schemas).decode flat = .ok nested ∧
      ∀ channel ∈ (ofSchemas separator schemas).declared,
        separatorDiagnostic separator channel ∈ (ofSchemas separator schemas).diagnostics →
          Entries.get? (Key.text channel.field) (nested.get channel.side) = some .null := by
  have filled := filled_of_overflow sections.named
    (get?_encoded_overflow (ofSchemas separator schemas) record _)
  obtain ⟨nested, decoded, held⟩ := decode_of_filled filled
  refine ⟨_, nested, encode_eq_ok separator schemas sections, decoded, ?_⟩
  intro channel declared told
  have inside := (mem_diagnostics_iff channel declared).mp told
  have isName := field_mem_fieldNames channel declared
  have stays := fun other (_ : other ∈ (schemas.of channel.side).fieldNames) =>
    not_fallsInto_of_inside (schemas.of channel.side).fieldNames other channel.field inside
  rw [held, get?_heldSection filled channel.side channel.field isName stays,
    get?_collectedFields_of_inside _ channel.side channel.field inside]
  rfl

/-- A field of which a diagnostic tells is lost, also behind one whose name it starts with. -/
theorem decode_encode_diagnosed_between :
    let schemas : Schemas := ⟨uniformSchema .any ["a", "a_b"], uniformSchema .any []⟩
    let record := [(Key.text "input", Value.mapping (twoFields "a" "a_b" .input)),
      (.text "output", .mapping [])]
    let channel : Channel := ⟨.input, "a_b", "input_a_b", false⟩
    HasSections record (twoFields "a" "a_b") ∧
      separatorDiagnostic .underscore channel ∈ (ofSchemas .underscore schemas).diagnostics ∧
      Entries.get? (Key.text "a_b") (twoFields "a" "a_b" .input) = some (.int 2) ∧
      ∃ flat nested, (ofSchemas .underscore schemas).encode (.mapping record) = .ok flat ∧
        (ofSchemas .underscore schemas).decode flat = .ok nested ∧
        Entries.get? (Key.text "a_b") nested.input = some .null := by
  intro schemas record channel
  have sections := hasSections_twoFields "a" "a_b" (by decide)
  have told : separatorDiagnostic .underscore channel ∈
      (ofSchemas .underscore schemas).diagnostics := by decide
  obtain ⟨flat, nested, encodes, decodes, lost⟩ :=
    decode_encode_diagnosed .underscore schemas record _ sections
  exact ⟨sections, told, by rfl, flat, nested, encodes, decodes,
    lost channel (.tail _ (.head _)) told⟩

end Channels
end Stepwise
