import Stepwise.Workflow
import Stepwise.Proofs.Entries

/-!
# Accepted sections

A section that a workflow accepts is always a mapping with texts as keys, each once: its
fields are written under their names, further entries are kept only under texts, and
entries that share a name are settled before the value is handed out.
-/

namespace Stepwise

open Entries (Named)

/-- What is among the results of checking all was the result of checking one. -/
theorem Checked.mem_of_all {α : Type} (checks : List (Checked α)) (results : List α)
    (succeeded : Checked.all checks = .ok results) (result : α) (member : result ∈ results) :
    .ok result ∈ checks := by
  induction checks generalizing results with
  | nil =>
    obtain rfl : [] = results := Except.ok.inj succeeded
    cases member
  | cons check rest ih =>
    rw [Checked.all] at succeeded
    split at succeeded
    · next first others both =>
      obtain rfl := Except.ok.inj succeeded
      obtain ⟨here, there⟩ := Checked.both_eq_ok_iff.mp both
      rcases List.mem_cons.mp member with rfl | later
      · exact here ▸ List.mem_cons_self
      · exact List.mem_cons_of_mem _ (ih others there later)
    · cases succeeded

/-- What is made of two results is made only if both checks succeed. -/
theorem Checked.map_both_eq_ok {α β γ : Type} (first : Checked α) (second : Checked β)
    (make : α × β → γ) (made : γ) (succeeded : (Checked.both first second).map make = .ok made) :
    ∃ result other, first = .ok result ∧ second = .ok other ∧ make (result, other) = made := by
  cases both : Checked.both first second with
  | error why =>
    rw [both] at succeeded
    cases succeeded
  | ok pair =>
    rw [both] at succeeded
    obtain ⟨here, there⟩ := Checked.both_eq_ok_iff.mp both
    exact ⟨pair.1, pair.2, here, there, Except.ok.inj succeeded⟩

namespace Shape

/-- Entries whose keys are texts. -/
def TextKeys (entries : List (Key × Value)) : Prop :=
  ∀ key ∈ Entries.keys entries, ∃ name, key = Key.text name

/-- Entries behind others have texts as keys if both have. -/
theorem TextKeys.append {first second : List (Key × Value)} (texts : TextKeys first)
    (behind : TextKeys second) : TextKeys (first ++ second) := by
  intro key member
  have split : Entries.keys (first ++ second) = Entries.keys first ++ Entries.keys second :=
    List.map_append
  rw [split, List.mem_append] at member
  rcases member with inFirst | inSecond
  · exact texts key inFirst
  · exact behind key inSecond

/-- Extras are kept under texts only. -/
theorem textKeys_checkExtras (extras : Extras) (used : List String)
    (entries kept : List (Key × Value))
    (checked : checkExtras extras used entries = .ok kept) : TextKeys kept := by
  have collected : ∀ lists : Checked (List (List (Key × Value))),
      lists.map List.flatten = .ok kept →
        (∀ results, lists = .ok results → ∀ list ∈ results, TextKeys list) → TextKeys kept := by
    intro lists flattened each
    cases lists with
    | error why => cases flattened
    | ok results =>
      obtain rfl : results.flatten = kept := Except.ok.inj flattened
      intro key member
      obtain ⟨entry, inFlat, rfl⟩ := List.mem_map.mp member
      obtain ⟨list, inResults, inList⟩ := List.mem_flatten.mp inFlat
      exact each results rfl list inResults _ (List.mem_map_of_mem inList)
  rw [checkExtras.eq_def] at checked
  split at checked
  · obtain rfl : [] = kept := Except.ok.inj checked
    intro key member
    cases member
  · apply collected _ checked
    intro results succeeded list inResults
    obtain ⟨⟨key, value⟩, -, found⟩ := List.mem_map.mp
      (Checked.mem_of_all _ results succeeded list inResults)
    intro other member
    dsimp only at found
    split at found
    · next name =>
      split at found
      · obtain rfl : [] = list := Except.ok.inj found
        cases member
      · split at found
        · cases found
        · obtain rfl : [(Key.text name, value)] = list := Except.ok.inj found
          exact ⟨name, by simpa [Entries.keys] using member⟩
    · cases found

/-- Fields are written under texts. -/
theorem textKeys_checkFields (rules : RecordRules) (fields : List (FieldRules × Shape))
    (entries read : List (Key × Value))
    (checked : checkFields rules fields entries = .ok read) : TextKeys read := by
  induction fields generalizing read with
  | nil =>
    rw [checkFields] at checked
    obtain rfl : [] = read := Except.ok.inj checked
    intro key member
    cases member
  | cons field rest ih =>
    obtain ⟨own, shape⟩ := field
    rw [checkFields] at checked
    obtain ⟨value, others, -, restChecked, rfl⟩ := Checked.map_both_eq_ok _ _ _ _ checked
    intro key member
    rcases List.mem_cons.mp member with rfl | inOthers
    · exact ⟨own.writeName, rfl⟩
    · exact ih others restChecked key inOthers

end Shape

namespace Schema

/-- What a schema reads a value as is a mapping with texts as keys. -/
theorem read_eq_mapping (schema : Schema) (value result : Value)
    (readOk : schema.read value = .ok result) :
    ∃ entries, result = .mapping entries ∧ Shape.TextKeys entries := by
  rw [read, Shape.check.eq_def] at readOk
  cases value with
  | mapping entries =>
    simp only [Shape.withExtras] at readOk
    obtain ⟨fields, extras, fieldsOk, extrasOk, rfl⟩ := Checked.map_both_eq_ok _ _ _ _ readOk
    exact ⟨fields ++ extras, rfl, (Shape.textKeys_checkFields _ _ _ fields fieldsOk).append
      (Shape.textKeys_checkExtras _ _ _ extras extrasOk)⟩
  | _ => cases readOk

end Schema

/-- Spelling out marks changes no key. -/
theorem Value.keys_entriesUnmarked (entries spelled : List (Key × Value))
    (unmarked : Value.entriesUnmarked entries = .ok spelled) :
    Entries.keys spelled = Entries.keys entries := by
  induction entries generalizing spelled with
  | nil =>
    obtain rfl : [] = spelled := Except.ok.inj unmarked
    rfl
  | cons entry rest ih =>
    obtain ⟨key, value⟩ := entry
    rw [Value.entriesUnmarked] at unmarked
    split at unmarked
    · cases unmarked
    · cases first : value.unmarked with
      | error why =>
        rw [first] at unmarked
        cases unmarked
      | ok spelledValue =>
        rw [first] at unmarked
        cases later : Value.entriesUnmarked rest with
        | error why =>
          rw [later] at unmarked
          cases unmarked
        | ok others =>
          rw [later] at unmarked
          obtain rfl := Except.ok.inj unmarked
          rw [Entries.keys_cons, Entries.keys_cons, ih others later]

/-- A section is accepted exactly if its schema reads it and the marks in what is read can be
spelled out. -/
theorem Workflow.accept_eq_ok_iff {World : Type} (workflow : Workflow World) (side : Section)
    (value result : Value) :
    workflow.accept side value = .ok result ↔
      ∃ read, (workflow.schemas.of side).read value = .ok read ∧ read.unmarked = .ok result := by
  rw [Workflow.accept, Schema.check]
  cases (workflow.schemas.of side).read value with
  | error why => simp [Bind.bind, Except.bind, Except.mapError]
  | ok read =>
    cases unmarked : read.unmarked with
    | error why =>
      simp [Bind.bind, Except.bind, Except.mapError, Checked.ofAttempt, unmarked]
    | ok spelled =>
      simp [Bind.bind, Except.bind, Except.mapError, Checked.ofAttempt, unmarked]

/-- A section that is accepted is a mapping with texts as keys, each once. -/
theorem Workflow.accept_eq_mapping {World : Type} (workflow : Workflow World) (side : Section)
    (value result : Value) (accepted : workflow.accept side value = .ok result) :
    ∃ entries, result = .mapping entries ∧ Named entries := by
  obtain ⟨read, readOk, unmarked⟩ := (workflow.accept_eq_ok_iff side value result).mp accepted
  obtain ⟨entries, rfl, texts⟩ := Schema.read_eq_mapping _ value read readOk
  rw [Value.unmarked] at unmarked
  cases spelledOut : Value.entriesUnmarked entries with
  | error why =>
    rw [spelledOut] at unmarked
    cases unmarked
  | ok spelled =>
    rw [spelledOut] at unmarked
    obtain rfl : Value.mapping (Entries.ofWrites spelled) = result := Except.ok.inj unmarked
    refine ⟨_, rfl, Entries.named_nil.merge ?_⟩
    rw [Value.keys_entriesUnmarked entries spelled spelledOut]
    exact texts

end Stepwise
