import Stepwise.Proofs.Accepted
import Stepwise.Proofs.Rearranged

/-!
# Checking entries in another order

A schema looks the fields of a mapping up by name. So the order in which named entries stand
decides neither whether a section is accepted nor what its fields are read as. Only the
extras that are kept behind the fields stand in the order of the entries.

Which findings a refusal lists, and in which order, is not compared.
-/

namespace Stepwise

open Entries (Named isExact_text)

/-- Two endings that say the same: both fail, for whatever reasons, or both have results that
differ in orders only. -/
inductive Ending.Agree : Ending Value → Ending Value → Prop
  | failed (why other : Failure) : Ending.Agree (.failed why) (.failed other)
  | finished {result other : Value} (related : result.Rearranged other) :
      Ending.Agree (.finished result) (.finished other)

/-- All checks succeed exactly if each does, with its own result. -/
theorem Checked.all_eq_ok_iff {α : Type} (checks : List (Checked α)) (results : List α) :
    Checked.all checks = .ok results ↔
      List.Forall₂ (fun check result => check = .ok result) checks results := by
  induction checks generalizing results with
  | nil =>
    rw [Checked.all, List.forall₂_nil_left_iff, Except.ok.injEq, eq_comm]
  | cons check rest ih =>
    rw [Checked.all, List.forall₂_cons_left_iff]
    constructor
    · intro succeeded
      split at succeeded
      · next first others both =>
        obtain ⟨here, there⟩ := Checked.both_eq_ok_iff.mp both
        exact ⟨first, others, here, (ih others).mp there, (Except.ok.inj succeeded).symm⟩
      · cases succeeded
    · rintro ⟨first, others, rfl, matched, rfl⟩
      rw [(ih others).mpr matched, Checked.both_ok]

namespace Shape

/-- A name is looked up alike in entries that stand in another order. -/
theorem lookUp_perm (names : List String) (entries others : List (Key × Value))
    (named : Named entries) (order : entries.Perm others) :
    lookUp names entries = lookUp names others := by
  have same : ∀ name, Entries.get? (Key.text name) entries =
      Entries.get? (Key.text name) others := fun name =>
    Entries.get?_perm _ (isExact_text name) entries others named.distinct order
  simp only [lookUp, same]

/-- The fields of a record are read alike from entries that stand in another order. -/
theorem checkFields_perm (rules : RecordRules) (fields : List (FieldRules × Shape))
    (entries others : List (Key × Value)) (named : Named entries)
    (order : entries.Perm others) :
    checkFields rules fields entries = checkFields rules fields others := by
  induction fields with
  | nil => rw [checkFields, checkFields]
  | cons field rest ih =>
    rw [checkFields, checkFields, ih, lookUp_perm _ entries others named order]

/-- The same names are used in entries that stand in another order. -/
theorem usedNames_perm (rules : RecordRules) (fields : List (FieldRules × Shape))
    (entries others : List (Key × Value)) (named : Named entries)
    (order : entries.Perm others) :
    usedNames rules fields entries = usedNames rules fields others := by
  simp only [usedNames, lookUp_perm _ entries others named order]

/-- What is kept of one entry as an extra, where extras are looked at. -/
def extraOf (extras : Extras) (used : List String) (entry : Key × Value) :
    Checked (List (Key × Value)) :=
  match entry.1 with
  | .text name =>
    if used.contains name then .ok []
    else
      match extras with
      | .forbid => Checked.complainAt [name] .unexpected
      | _ => .ok [entry]
  | key => Checked.complainAt [key.pathText] .keyNotText

/-- Where extras are not ignored, each entry is looked at by itself. -/
theorem checkExtras_eq_all (extras : Extras) (looked : extras ≠ .ignore) (used : List String)
    (entries : List (Key × Value)) :
    checkExtras extras used entries =
      (Checked.all (entries.map (extraOf extras used))).map List.flatten := by
  have each : ∀ rule : Extras, (fun entry : Key × Value => extraOf rule used entry) =
      extraOf rule used := fun rule => rfl
  rw [checkExtras.eq_def, ← each]
  cases extras with
  | ignore => exact absurd rfl looked
  | allow | forbid =>
    dsimp only
    congr 3
    funext entry
    obtain ⟨key, value⟩ := entry
    cases key <;> rfl

/-- An entry is kept as it is or not at all. -/
theorem sublist_of_extraOf (extras : Extras) (used : List String) (entry : Key × Value)
    (kept : List (Key × Value)) (checked : extraOf extras used entry = .ok kept) :
    kept.Sublist [entry] := by
  unfold extraOf at checked
  split at checked
  · split at checked
    · obtain rfl := Except.ok.inj checked
      exact List.nil_sublist _
    · split at checked
      · cases checked
      · obtain rfl := Except.ok.inj checked
        exact List.Sublist.refl _
  · cases checked

/-- Extras are kept from the entries, in their order, and alike from entries that stand in
another order. -/
theorem checkExtras_perm (extras : Extras) (used : List String)
    (entries others kept : List (Key × Value)) (order : entries.Perm others)
    (checked : checkExtras extras used entries = .ok kept) :
    kept.Sublist entries ∧
      ∃ moved, checkExtras extras used others = .ok moved ∧ kept.Perm moved := by
  by_cases looked : extras = .ignore
  · subst looked
    obtain rfl : [] = kept := Except.ok.inj checked
    exact ⟨List.nil_sublist _, [], rfl, List.Perm.refl _⟩
  · rw [checkExtras_eq_all extras looked] at checked
    cases all : Checked.all (entries.map (extraOf extras used)) with
    | error why =>
      rw [all] at checked
      cases checked
    | ok lists =>
      rw [all] at checked
      obtain rfl : lists.flatten = kept := Except.ok.inj checked
      have each := List.forall₂_map_left_iff.mp ((Checked.all_eq_ok_iff _ _).mp all)
      constructor
      · clear all checked order
        induction each with
        | nil => exact List.Sublist.refl _
        | @cons entry list rest lists here _ ih =>
          exact (sublist_of_extraOf extras used entry list here).append ih
      · obtain ⟨moved, eachMoved, sameLists⟩ := List.perm_comp_forall₂ order.symm each
        refine ⟨moved.flatten, ?_, sameLists.symm.flatten⟩
        have allMoved := (Checked.all_eq_ok_iff _ _).mpr (List.forall₂_map_left_iff.mpr eachMoved)
        rw [checkExtras_eq_all extras looked, allMoved]
        rfl

end Shape

namespace Value

/-- Entries are spelled out exactly if each is, under a key without a mark. -/
theorem entriesUnmarked_eq_ok_iff (entries spelled : List (Key × Value)) :
    entriesUnmarked entries = .ok spelled ↔
      List.Forall₂ (fun entry result => entry.1.isMarked = false ∧
        entry.2.unmarked = .ok result.2 ∧ result.1 = entry.1) entries spelled := by
  induction entries generalizing spelled with
  | nil => rw [entriesUnmarked, List.forall₂_nil_left_iff, Except.ok.injEq, eq_comm]
  | cons entry rest ih =>
    obtain ⟨key, value⟩ := entry
    rw [entriesUnmarked, List.forall₂_cons_left_iff]
    constructor
    · intro unmarked
      split at unmarked
      · cases unmarked
      · next unmarkedKey =>
        cases first : value.unmarked with
        | error why =>
          rw [first] at unmarked
          cases unmarked
        | ok spelledValue =>
          rw [first] at unmarked
          cases later : entriesUnmarked rest with
          | error why =>
            rw [later] at unmarked
            cases unmarked
          | ok others =>
            rw [later] at unmarked
            refine ⟨(key, spelledValue), others, ?_, (ih others).mp later,
              (Except.ok.inj unmarked).symm⟩
            exact ⟨by simpa using unmarkedKey, rfl, rfl⟩
    · rintro ⟨⟨spelledKey, spelledValue⟩, others, ⟨unmarkedKey, first, sameKey⟩, matched, rfl⟩
      obtain rfl : spelledKey = key := sameKey
      have unmarkedKey : spelledKey.isMarked = false := unmarkedKey
      have first : value.unmarked = .ok spelledValue := first
      rw [first, (ih others).mpr matched, unmarkedKey]
      rfl

/-- Entries behind others are spelled out behind them. -/
theorem entriesUnmarked_append_eq_ok_iff (first second spelled : List (Key × Value)) :
    entriesUnmarked (first ++ second) = .ok spelled ↔
      ∃ front back, entriesUnmarked first = .ok front ∧ entriesUnmarked second = .ok back ∧
        spelled = front ++ back := by
  simp only [entriesUnmarked_eq_ok_iff]
  constructor
  · intro matched
    have front := List.forall₂_take first.length matched
    have back := List.forall₂_drop first.length matched
    rw [List.take_left] at front
    rw [List.drop_left] at back
    exact ⟨_, _, front, back, (List.take_append_drop _ _).symm⟩
  · rintro ⟨front, back, inFront, inBack, rfl⟩
    exact List.rel_append inFront inBack

/-- Entries that stand in another order are spelled out alike. -/
theorem entriesUnmarked_perm (entries others spelled : List (Key × Value))
    (order : entries.Perm others) (unmarked : entriesUnmarked entries = .ok spelled) :
    ∃ moved, entriesUnmarked others = .ok moved ∧ spelled.Perm moved := by
  rw [entriesUnmarked_eq_ok_iff] at unmarked
  obtain ⟨moved, matched, same⟩ := List.perm_comp_forall₂ order.symm unmarked
  exact ⟨moved, (entriesUnmarked_eq_ok_iff _ _).mpr matched, same.symm⟩

end Value

/-- What is read after writing named entries does not depend on their order. -/
theorem Entries.get?_ofWrites_append_perm (name : String)
    (writes first second : List (Key × Value))
    (named : Named first) (order : first.Perm second) :
    Entries.get? (Key.text name) (Entries.ofWrites (writes ++ first)) =
      Entries.get? (Key.text name) (Entries.ofWrites (writes ++ second)) := by
  have secondNamed := named.perm order
  have split : ∀ behind : List (Key × Value), Entries.ofWrites (writes ++ behind) =
      Entries.merge (Entries.ofWrites writes) behind := fun behind =>
    List.foldl_append
  rw [split, split,
    Entries.get?_merge_distinct _ (isExact_text name) _ _ named.allExact named.distinct,
    Entries.get?_merge_distinct _ (isExact_text name) _ _ secondNamed.allExact
      secondNamed.distinct,
    Entries.get?_perm _ (isExact_text name) first second named.distinct order]

/-- A mapping whose last entries stand in another order is spelled out as the same mapping up
to order. -/
theorem Value.unmarked_append_perm (fields kept moved : List (Key × Value))
    (fieldTexts : Shape.TextKeys fields) (keptNamed : Named kept) (order : kept.Perm moved)
    (result : Value) (unmarked : (Value.mapping (fields ++ kept)).unmarked = .ok result) :
    ∃ other, (Value.mapping (fields ++ moved)).unmarked = .ok other ∧
      result.Rearranged other := by
  rw [Value.unmarked] at unmarked
  cases spelledOut : Value.entriesUnmarked (fields ++ kept) with
  | error why =>
    rw [spelledOut] at unmarked
    cases unmarked
  | ok spelled =>
    rw [spelledOut] at unmarked
    obtain rfl : Value.mapping (Entries.ofWrites spelled) = result := Except.ok.inj unmarked
    obtain ⟨front, back, fieldsOk, keptOk, rfl⟩ :=
      (Value.entriesUnmarked_append_eq_ok_iff fields kept spelled).mp spelledOut
    obtain ⟨behind, movedOk, sameBack⟩ := Value.entriesUnmarked_perm kept moved back order keptOk
    have frontTexts : Shape.TextKeys front := by
      rw [Shape.TextKeys, Value.keys_entriesUnmarked fields front fieldsOk]
      exact fieldTexts
    have backNamed : Named back := by
      have sameKeys := Value.keys_entriesUnmarked kept back keptOk
      exact ⟨sameKeys ▸ keptNamed.texts, sameKeys ▸ keptNamed.distinct⟩
    have otherOut := (Value.entriesUnmarked_append_eq_ok_iff fields moved _).mpr
      ⟨front, behind, fieldsOk, movedOk, rfl⟩
    refine ⟨.mapping (Entries.ofWrites (front ++ behind)), ?_, ?_⟩
    · rw [Value.unmarked, otherOut]
      rfl
    · apply Entries.rearranged_of_get? _ _
        (Entries.named_nil.merge (frontTexts.append backNamed.texts))
        (Entries.named_nil.merge (frontTexts.append (backNamed.perm sameBack).texts))
      intro name
      have same := Entries.get?_ofWrites_append_perm name front back behind backNamed sameBack
      rw [Entries.ofWrites, Entries.ofWrites] at same
      rw [same]
      cases Entries.get? (Key.text name) (Entries.merge [] (front ++ behind)) with
      | none => exact .none
      | some value => exact .some (.same value)

/-- A schema reads entries that stand in another order as the same fields, with the extras in
another order. -/
theorem Schema.read_perm (schema : Schema) (entries others : List (Key × Value))
    (named : Named entries) (order : entries.Perm others) (result : Value)
    (readOk : schema.read (.mapping entries) = .ok result) :
    ∃ fields kept moved, result = .mapping (fields ++ kept) ∧
      schema.read (.mapping others) = .ok (.mapping (fields ++ moved)) ∧
      Shape.TextKeys fields ∧ Named kept ∧ kept.Perm moved := by
  rw [read, Shape.check.eq_def] at readOk
  simp only [Shape.withExtras] at readOk
  obtain ⟨fields, kept, fieldsOk, keptOk, rfl⟩ := Checked.map_both_eq_ok _ _ _ _ readOk
  obtain ⟨fromEntries, moved, movedOk, same⟩ :=
    Shape.checkExtras_perm _ _ entries others kept order keptOk
  refine ⟨fields, kept, moved, rfl, ?_, Shape.textKeys_checkFields _ _ _ fields fieldsOk, ?_, same⟩
  · rw [read, Shape.check.eq_def]
    simp only [Shape.withExtras]
    rw [← Shape.checkFields_perm _ _ entries others named order, fieldsOk,
      ← Shape.usedNames_perm _ _ entries others named order, movedOk]
    rfl
  · have keptKeys : (Entries.keys kept).Sublist (Entries.keys entries) :=
      fromEntries.map Prod.fst
    exact ⟨fun key member => named.texts key (keptKeys.subset member),
      named.distinct.sublist keptKeys⟩

namespace Workflow

variable {World : Type}

/-- A section whose entries stand in another order is accepted as the same section up to
order. -/
theorem accept_perm (workflow : Workflow World) (side : Section)
    (entries others : List (Key × Value)) (named : Named entries) (order : entries.Perm others)
    (result : Value) (accepted : workflow.accept side (.mapping entries) = .ok result) :
    ∃ other, workflow.accept side (.mapping others) = .ok other ∧ result.Rearranged other := by
  obtain ⟨read, readOk, unmarked⟩ :=
    (workflow.accept_eq_ok_iff side (.mapping entries) result).mp accepted
  obtain ⟨fields, kept, moved, rfl, otherRead, fieldTexts, keptNamed, sameExtras⟩ :=
    Schema.read_perm _ entries others named order read readOk
  obtain ⟨other, otherUnmarked, related⟩ :=
    Value.unmarked_append_perm fields kept moved fieldTexts keptNamed sameExtras result unmarked
  exact ⟨other, (workflow.accept_eq_ok_iff side _ other).mpr ⟨_, otherRead, otherUnmarked⟩,
    related⟩

/-- Whether a section is accepted, and as what up to order, does not depend on the order of
its entries. -/
theorem agree_accept_perm (workflow : Workflow World) (side : Section)
    (entries others : List (Key × Value)) (named : Named entries)
    (order : entries.Perm others) :
    Ending.Agree (.ofAttempt (workflow.accept side (.mapping entries)))
      (.ofAttempt (workflow.accept side (.mapping others))) := by
  cases outcome : workflow.accept side (.mapping entries) with
  | ok result =>
    obtain ⟨other, otherOutcome, related⟩ :=
      workflow.accept_perm side entries others named order result outcome
    rw [otherOutcome]
    exact .finished related
  | error why =>
    cases otherOutcome : workflow.accept side (.mapping others) with
    | error other => exact .failed why other
    | ok other =>
      obtain ⟨result, accepted, -⟩ :=
        workflow.accept_perm side others entries (named.perm order) order.symm other otherOutcome
      rw [outcome] at accepted
      cases accepted

end Workflow
end Stepwise
