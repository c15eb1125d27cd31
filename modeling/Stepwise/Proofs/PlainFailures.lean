import Stepwise.Workflow

/-!
# Failures that tell of no limit

A run can fail because a ceiling is reached, or the graph's own limit. Checking a value
against a schema and moving records into channels and out of them can fail as well, but
never so: what they cannot do is said of the value.
-/

namespace Stepwise

/-- Whether a failure tells of a limit: of the ceiling, or of the graph's own. -/
def Failure.isLimit : Failure → Bool
  | .iterationLimit _ => true
  | .stepLimit => true
  | _ => false

/-- Whether a rejection tells of a limit. Findings do not. -/
def Rejection.isLimit : Rejection → Bool
  | .findings _ => false
  | .failure why => why.isLimit

/-- An attempt that can fail in ways of one kind only. -/
def FailsOnly {ε α : Type} (kind : ε → Prop) (attempt : Except ε α) : Prop :=
  ∀ why, attempt = .error why → kind why

/-- An attempt that does not fail by a limit. -/
abbrev FailsPlainly {α : Type} (attempt : Attempt α) : Prop :=
  FailsOnly (fun why => why.isLimit = false) attempt

/-- A check that does not fail by a limit. -/
abbrev ChecksPlainly {α : Type} (checked : Checked α) : Prop :=
  FailsOnly (fun why => why.isLimit = false) checked

section

variable {ε α β : Type} {kind : ε → Prop}

/-- What succeeds does not fail. -/
theorem failsOnly_ok (result : α) : FailsOnly kind (.ok result : Except ε α) := by
  intro why failed
  cases failed

/-- What fails, fails in its own way. -/
theorem failsOnly_error (why : ε) (holds : kind why) :
    FailsOnly kind (.error why : Except ε α) := by
  intro other failed
  cases failed
  exact holds

/-- Going on from an attempt fails in ways of one kind if both do. -/
theorem FailsOnly.bind {attempt : Except ε α} (first : FailsOnly kind attempt)
    {next : α → Except ε β} (after : ∀ result, FailsOnly kind (next result)) :
    FailsOnly kind (attempt >>= next) := by
  cases attempt with
  | error why => exact failsOnly_error why (first why rfl)
  | ok result => exact after result

/-- A result made of another one fails as that does. -/
theorem FailsOnly.map {attempt : Except ε α} (first : FailsOnly kind attempt) (make : α → β) :
    FailsOnly kind (attempt.map make) := by
  cases attempt with
  | error why => exact failsOnly_error why (first why rfl)
  | ok result => exact failsOnly_ok (make result)

/-- Attempts for every part of a list fail in ways of one kind if each does. -/
theorem failsOnly_mapM (attempt : α → Except ε β) (each : ∀ item, FailsOnly kind (attempt item))
    (items : List α) : FailsOnly kind (items.mapM attempt) := by
  induction items with
  | nil => exact failsOnly_ok []
  | cons item rest ih =>
    rw [List.mapM_cons]
    exact (each item).bind fun _ => ih.bind fun _ => failsOnly_ok _

/-- Attempts one after the other fail in ways of one kind if each does. -/
theorem failsOnly_foldlM (attempt : β → α → Except ε β)
    (each : ∀ state item, FailsOnly kind (attempt state item)) (items : List α) (state : β) :
    FailsOnly kind (items.foldlM attempt state) := by
  induction items generalizing state with
  | nil => exact failsOnly_ok state
  | cons item rest ih =>
    rw [List.foldlM_cons]
    exact (each state item).bind ih

end

namespace Value

mutual

/-- Spelling out marks does not fail by a limit. -/
theorem failsPlainly_unmarked (value : Value) : FailsPlainly value.unmarked := by
  cases value with
  | list items =>
    rw [unmarked]
    exact (failsPlainly_allUnmarked items).map _
  | tuple items =>
    rw [unmarked]
    exact (failsPlainly_allUnmarked items).map _
  | set frozen members =>
    rw [unmarked]
    split
    · exact failsOnly_error _ rfl
    · exact failsOnly_ok _
  | mapping entries =>
    rw [unmarked]
    exact (failsPlainly_entriesUnmarked entries).map _
  | replacement held =>
    rw [unmarked]
    exact (failsPlainly_unmarked held).map _
  | null => exact failsOnly_ok _
  | bool => exact failsOnly_ok _
  | int => exact failsOnly_ok _
  | real => exact failsOnly_ok _
  | text => exact failsOnly_ok _

/-- Spelling out the marks of values does not fail by a limit. -/
theorem failsPlainly_allUnmarked (values : List Value) : FailsPlainly (allUnmarked values) := by
  cases values with
  | nil => exact failsOnly_ok _
  | cons value rest =>
    rw [allUnmarked]
    exact (failsPlainly_unmarked value).bind fun _ =>
      (failsPlainly_allUnmarked rest).bind fun _ => failsOnly_ok _

/-- Spelling out the marks of entries does not fail by a limit. -/
theorem failsPlainly_entriesUnmarked (entries : List (Key × Value)) :
    FailsPlainly (entriesUnmarked entries) := by
  match entries with
  | [] => exact failsOnly_ok _
  | (key, value) :: rest =>
    rw [entriesUnmarked]
    split
    · exact failsOnly_error _ rfl
    · exact (failsPlainly_unmarked value).bind fun _ =>
        (failsPlainly_entriesUnmarked rest).bind fun _ => failsOnly_ok _

end

end Value

namespace Checked

variable {α β : Type}

/-- A complaint does not tell of a limit. -/
theorem plainly_complainAt (place : List String) (complaint : Complaint) :
    ChecksPlainly (complainAt place complaint : Checked α) :=
  failsOnly_error _ rfl

/-- Reading a scalar does not fail by a limit. -/
theorem plainly_ofReading (reading : Reading α) : ChecksPlainly (ofReading reading) := by
  cases reading with
  | ok result => exact failsOnly_ok result
  | error complaint => exact plainly_complainAt [] complaint

/-- What ends checking tells of a limit only if the attempt did. -/
theorem plainly_ofAttempt {attempt : Attempt α} (plain : FailsPlainly attempt) :
    ChecksPlainly (ofAttempt attempt) := by
  cases attempt with
  | ok result => exact failsOnly_ok result
  | error why => exact failsOnly_error _ (plain why rfl)

/-- The place of what was found does not matter. -/
theorem plainly_under {checked : Checked α} (plain : ChecksPlainly checked)
    (place : List String) : ChecksPlainly (checked.under place) := by
  cases checked with
  | ok result => exact failsOnly_ok result
  | error why =>
    cases why with
    | findings found => exact failsOnly_error _ rfl
    | failure why => exact failsOnly_error _ (plain _ rfl)

/-- Two checks tell of a limit only if one of them does. -/
theorem plainly_both {first : Checked α} {second : Checked β} (plainFirst : ChecksPlainly first)
    (plainSecond : ChecksPlainly second) : ChecksPlainly (both first second) := by
  cases first with
  | ok result =>
    cases second with
    | ok other => exact failsOnly_ok _
    | error why => exact failsOnly_error _ (plainSecond why rfl)
  | error why =>
    cases second with
    | ok other => exact failsOnly_error _ (plainFirst why rfl)
    | error other =>
      cases why with
      | failure why => exact failsOnly_error _ (plainFirst _ rfl)
      | findings found =>
        cases other with
        | findings more => exact failsOnly_error _ rfl
        | failure why => exact failsOnly_error _ (plainSecond _ rfl)

/-- Several checks tell of a limit only if one of them does. -/
theorem plainly_all (checks : List (Checked α)) (each : ∀ checked ∈ checks, ChecksPlainly checked) :
    ChecksPlainly (all checks) := by
  induction checks with
  | nil => exact failsOnly_ok []
  | cons first rest ih =>
    have both := plainly_both (each first List.mem_cons_self)
      (ih fun checked member => each checked (List.mem_cons_of_mem _ member))
    rw [all]
    split
    · exact failsOnly_ok _
    · next why failed => exact failsOnly_error _ (both why failed)

end Checked

namespace Shape

open Checked

/-- Checking items does not fail by a limit if checking each does not. -/
theorem plainly_checkItems {α : Type} (check : Value → Checked α)
    (each : ∀ value, ChecksPlainly (check value)) (items : List Value) :
    ChecksPlainly (checkItems check items) := by
  apply plainly_all
  intro checked member
  obtain ⟨⟨item, position⟩, -, rfl⟩ := List.mem_map.mp member
  exact plainly_under (each item) _

/-- Checking a member of a set does not fail by a limit if checking it as a value does not. -/
theorem plainly_checkMember (check : Value → Checked Value)
    (each : ∀ value, ChecksPlainly (check value)) (item : Value) :
    ChecksPlainly (checkMember check item) := by
  refine (each item).bind fun read => ?_
  split
  · exact failsOnly_ok _
  · exact plainly_complainAt _ _

/-- Checking an entry does not fail by a limit if checking its key and its value does not. -/
theorem plainly_checkEntry (checkKeyValue checkValue : Value → Checked Value)
    (keys : ∀ value, ChecksPlainly (checkKeyValue value))
    (values : ∀ value, ChecksPlainly (checkValue value)) (entry : Key × Value) :
    ChecksPlainly (checkEntry checkKeyValue checkValue entry) := by
  refine (plainly_both (plainly_under (keys _) _) (plainly_under (values _) _)).bind fun pair => ?_
  dsimp only
  split
  · exact failsOnly_ok _
  · exact failsOnly_error _ rfl

/-- Checking what belongs to no field does not fail by a limit. -/
theorem plainly_checkExtras (extras : Extras) (used : List String)
    (entries : List (Key × Value)) : ChecksPlainly (checkExtras extras used entries) := by
  unfold checkExtras
  split
  · exact failsOnly_ok _
  · apply FailsOnly.map
    apply plainly_all
    intro checked member
    obtain ⟨⟨key, value⟩, -, rfl⟩ := List.mem_map.mp member
    dsimp only
    split
    · split
      · exact failsOnly_ok _
      · split
        · exact plainly_complainAt _ _
        · exact failsOnly_ok _
    · exact plainly_complainAt _ _

mutual

/-- Checking a value against a shape does not fail by a limit. -/
theorem plainly_check (shape : Shape) (value : Value) : ChecksPlainly (check shape value) := by
  cases shape with
  | any => exact failsOnly_ok _
  | unstated => exact failsOnly_ok _
  | null =>
    unfold check
    split
    · exact failsOnly_ok _
    · exact plainly_complainAt _ _
  | truth => exact plainly_ofReading _
  | int => exact plainly_ofReading _
  | real => exact plainly_ofReading _
  | text => exact plainly_ofReading _
  | choice options => exact plainly_ofReading _
  | list item =>
    rw [check]
    split
    · exact (plainly_checkItems _ (plainly_check item) _).map _
    · exact plainly_complainAt _ _
  | tuple item =>
    rw [check]
    split
    · exact (plainly_checkItems _ (plainly_check item) _).map _
    · exact plainly_complainAt _ _
  | set frozen item =>
    rw [check]
    split
    · exact (plainly_checkItems _ (plainly_checkMember _ (plainly_check item)) _).map _
    · exact plainly_complainAt _ _
  | mapping kind key item =>
    unfold check
    split
    · apply FailsOnly.map
      apply FailsOnly.map
      apply plainly_all
      intro checked member
      obtain ⟨entry, -, rfl⟩ := List.mem_map.mp member
      exact plainly_checkEntry _ _ (plainly_check key) (plainly_check item) entry
    · exact plainly_complainAt _ _
  | optional item =>
    unfold check
    split
    · exact failsOnly_ok _
    · exact plainly_check item _
  | union shapes =>
    unfold check
    split
    · exact failsOnly_ok _
    · split
      · exact plainly_checkFirst shapes _
      · exact plainly_checkAny shapes _ _
  | record rules fields =>
    unfold check
    split
    · apply FailsOnly.map
      exact plainly_both (plainly_checkFields rules fields _) (plainly_checkExtras _ _ _)
    · exact plainly_complainAt _ _

/-- Checking a value against the first of several shapes does not fail by a limit. -/
theorem plainly_checkFirst (shapes : List Shape) (value : Value) :
    ChecksPlainly (checkFirst shapes value) := by
  cases shapes with
  | nil => exact plainly_complainAt _ _
  | cons shape rest =>
    rw [checkFirst]
    split
    · exact plainly_checkFirst rest value
    · exact plainly_check shape value

/-- Checking a value against several shapes does not fail by a limit. -/
theorem plainly_checkAny (shapes : List Shape) (value : Value) (findings : List Finding) :
    ChecksPlainly (checkAny shapes value findings) := by
  cases shapes with
  | nil => exact failsOnly_error _ rfl
  | cons shape rest =>
    have here := plainly_check shape value
    rw [checkAny]
    split
    · exact failsOnly_ok _
    · exact plainly_checkAny rest value _
    · next why failed => exact failsOnly_error _ (here _ failed)

/-- Checking the fields of a record does not fail by a limit. -/
theorem plainly_checkFields (rules : RecordRules) (fields : List (FieldRules × Shape))
    (entries : List (Key × Value)) : ChecksPlainly (checkFields rules fields entries) := by
  match fields with
  | [] => exact failsOnly_ok _
  | (field, shape) :: rest =>
    rw [checkFields]
    apply FailsOnly.map
    refine plainly_both ?_ (plainly_checkFields rules rest entries)
    split
    · exact plainly_under (plainly_check shape _) _
    · split
      · exact failsOnly_ok _
      · exact plainly_complainAt _ _

end

end Shape

/-- A section that is not accepted does not fail by a limit. -/
theorem Workflow.failsPlainly_accept {World : Type} (workflow : Workflow World) (side : Section)
    (value : Value) : FailsPlainly (workflow.accept side value) := by
  have checks : ChecksPlainly ((workflow.schemas.of side).check value) :=
    (Shape.plainly_check _ value).bind fun read =>
      Checked.plainly_ofAttempt read.failsPlainly_unmarked
  rw [accept]
  cases checked : (workflow.schemas.of side).check value with
  | ok result => exact failsOnly_ok result
  | error why =>
    cases why with
    | findings found => exact failsOnly_error _ rfl
    | failure why => exact failsOnly_error _ (checks _ checked)

namespace ListChannel

/-- Taking a value for its parts does not fail by a limit. -/
theorem failsPlainly_partsOf (value : Value) : FailsPlainly (partsOf value) := by
  rw [partsOf]
  split
  · exact failsOnly_ok _
  · exact failsOnly_error _ rfl

/-- Applying an update does not fail by a limit. -/
theorem failsPlainly_merge (current update : Value) : FailsPlainly (merge current update) := by
  unfold merge
  split
  · exact failsOnly_ok _
  · exact failsOnly_ok _
  · split
    · exact (failsPlainly_partsOf _).bind fun _ => (failsPlainly_partsOf _).bind fun _ =>
        failsOnly_ok _
    · exact (failsPlainly_partsOf _).bind fun _ => failsOnly_ok _

end ListChannel

namespace Channels

variable (channels : Channels)

/-- Taking out what the channels do not declare does not fail by a limit. -/
theorem failsPlainly_undeclaredEntries (side : Section) (value : Value) :
    FailsPlainly (channels.undeclaredEntries side value) := by
  unfold undeclaredEntries
  split
  · exact failsOnly_ok _
  · split
    · exact failsOnly_ok _
    · exact failsOnly_error _ rfl

/-- Spreading a value over the channels does not fail by a limit. -/
theorem failsPlainly_encode (value : Value) : FailsPlainly (channels.encode value) := by
  unfold encode
  split
  · rw [encodeRecord]
    refine FailsOnly.bind (failsOnly_mapM _ ?_ _) fun _ => failsOnly_ok _
    intro side
    exact (channels.failsPlainly_undeclaredEntries side _).bind fun _ => failsOnly_ok _
  · exact failsOnly_error _ rfl

/-- Taking an element for an entry does not fail by a limit. -/
theorem failsPlainly_pairOf (position : Nat) (element : Value) :
    FailsPlainly (pairOf position element) := by
  unfold pairOf
  split
  · exact failsOnly_error _ rfl
  · split
    · exact failsOnly_ok _
    · exact failsOnly_error _ rfl
  · exact failsOnly_error _ rfl

/-- Taking a value for entries to be added does not fail by a limit. -/
theorem failsPlainly_addedEntries (value : Value) : FailsPlainly (addedEntries value) := by
  unfold addedEntries
  split
  · exact failsOnly_ok _
  · split
    · exact failsOnly_ok _
    · split
      · exact failsOnly_error _ rfl
      · exact failsOnly_mapM _ (fun entry : Value × Nat => failsPlainly_pairOf entry.2 entry.1) _

/-- Collecting a record of fields and overflows does not fail by a limit. -/
theorem failsPlainly_collect (nested : Flat.Nested) (overflow : Section → Value) :
    FailsPlainly (channels.collect nested overflow) := by
  have sections : ∀ value side, FailsPlainly (channels.collectSection nested value side) :=
    fun _ _ => (failsPlainly_addedEntries _).map _
  exact (sections _ _).bind fun _ => (sections _ _).bind fun _ => failsOnly_ok _

/-- Collecting the record that the channels hold does not fail by a limit. -/
theorem failsPlainly_decode (flat : Flat) : FailsPlainly (channels.decode flat) :=
  channels.failsPlainly_collect _ _

/-- Nor does collecting it again. -/
theorem failsPlainly_decodeAfter (times : Nat) (flat : Flat) :
    FailsPlainly (channels.decodeAfter times flat) := by
  rw [decodeAfter]
  exact channels.failsPlainly_collect _ _

/-- Writing into the channels does not fail by a limit. -/
theorem failsPlainly_writeAll (flat updates : Flat) :
    FailsPlainly (channels.writeAll flat updates) := by
  apply failsOnly_foldlM
  intro flat update
  rw [write]
  split
  · apply FailsOnly.map
    rw [writeList]
    split
    · exact failsOnly_ok _
    · exact ListChannel.failsPlainly_merge _ _
  · exact failsOnly_ok _

end Channels
end Stepwise
