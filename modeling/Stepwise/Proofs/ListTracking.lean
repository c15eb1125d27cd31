import Stepwise.ListChannel
import Stepwise.Proofs.Equals

/-!
# A list channel that is led from value to value

A list channel takes updates, and each is found by comparing what the channel holds with
what it is to hold. After the update the channel holds a value that is equal to the wanted
one: the very value if it was given outright, and otherwise one whose first parts were kept
because they were found equal. Since the next update is found by what the channel then
holds, this stays so however many values it is led to.

What an equality may find is left open as far as it finds only equal values. One that sees
two NaNs as equal only if they are the same one is such an equality, and so is one that
never does.
-/

namespace Stepwise.ListChannel

/-- An equality that takes a proper value only for values that are equal to it. -/
def FindsEqual (equal : Value → Value → Bool) : Prop :=
  ∀ value other, value.Proper → equal value other = true → value.Equals other

/-- Equality under which NaN differs from itself finds equal values only. -/
theorem findsEqual_equal : FindsEqual Value.equal :=
  fun _ other proper found => proper.equals_of_alike false other found

/-- Equality of a value with what became of it finds equal values only. -/
theorem findsEqual_equalIfKept : FindsEqual Value.equalIfKept := by
  intro value other proper found
  unfold Value.equalIfKept at found
  split at found
  · cases found
  · exact proper.equals_of_alike true other found

/-! ## One update -/

/-- Nothing is to be updated only if both values are found equal. -/
theorem equal_of_updateBy_eq_none (equal : Value → Value → Bool) (before after : Value)
    (unchanged : updateBy equal before after = none) : equal before after = true := by
  unfold updateBy at unchanged
  by_contra different
  rw [if_neg different] at unchanged
  split at unchanged
  · split at unchanged <;> cases unchanged
  · split at unchanged <;> cases unchanged
  · cases unchanged

/-- An update gives parts to add or a value to take outright. -/
theorem form_of_updateBy (equal : Value → Value → Bool) (before after update : Value)
    (changed : updateBy equal before after = some update) :
    (∃ items, update = .list items) ∨ ∃ value, update = .replacement value := by
  unfold updateBy at changed
  split at changed
  · cases changed
  · split at changed
    · split at changed
      · exact .inl ⟨_, (Option.some.inj changed).symm⟩
      · exact .inr ⟨_, (Option.some.inj changed).symm⟩
    · split at changed
      · exact .inr ⟨_, (Option.some.inj changed).symm⟩
      · exact .inl ⟨_, (Option.some.inj changed).symm⟩
    · exact .inr ⟨_, (Option.some.inj changed).symm⟩

/-- An update makes the new value of the old one, unless it continues a list: then it puts the
new parts behind the old ones. It is never refused. -/
theorem merge_updateBy_cases (equal : Value → Value → Bool) (before after update : Value)
    (changed : updateBy equal before after = some update) :
    merge before update = .ok after ∨
      ∃ old new, before = .list old ∧ after = .list new ∧
        equal (.list (new.take old.length)) (.list old) = true ∧
        merge before update = .ok (.list (old ++ new.drop old.length)) := by
  unfold updateBy at changed
  split at changed
  · cases changed
  · split at changed
    · next old new _ =>
      split at changed
      · next continues =>
        obtain rfl := Option.some.inj changed
        exact .inr ⟨old, new, rfl, rfl, continues, merge_list old _⟩
      · obtain rfl := Option.some.inj changed
        exact .inl rfl
    · next new _ _ =>
      split at changed
      · obtain rfl := Option.some.inj changed
        exact .inl rfl
      · next empty =>
        obtain rfl := Option.some.inj changed
        left
        rw [merge, if_neg empty]
        · rfl
        · simp
        · simp
    · obtain rfl := Option.some.inj changed
      exact .inl rfl

/-! ## One step and many -/

/-- A channel led to one value by the update that is found, if there is one. -/
def step (find : Value → Value → Option Value) (current target : Value) : Attempt Value :=
  match find current target with
  | none => .ok current
  | some update => merge current update

/-- What a channel holds as it is led to one value after the other. -/
def lead (find : Value → Value → Option Value) (current : Value) :
    List Value → Attempt (List Value)
  | [] => .ok []
  | target :: rest => do
    let next ← step find current target
    let later ← lead find next rest
    return next :: later

/-- A list that is found to begin with a proper one's like is continued to an equal of the
whole. -/
theorem equals_continued {equal : Value → Value → Bool} (finds : FindsEqual equal)
    (old new : List Value) (proper : Value.Proper (.list new))
    (continues : equal (.list (new.take old.length)) (.list old) = true) :
    Value.Equals (.list (old ++ new.drop old.length)) (.list new) := by
  have beginning : Value.Proper (.list (new.take old.length)) := by
    cases proper with
    | list parts => exact .list fun item member => parts item (List.mem_of_mem_take member)
  obtain ⟨held, same, matched⟩ := (finds _ _ beginning continues).symm.exists_list
  obtain rfl := Value.list.inj same
  have whole : List.Forall₂ Value.Equals (old ++ new.drop old.length)
      (new.take old.length ++ new.drop old.length) :=
    List.rel_append matched (List.forall₂_same.mpr fun item _ => .refl item)
  rw [List.take_append_drop] at whole
  exact .list whole

/-- A step never fails, and leads to a proper value that is equal to the wanted one. -/
theorem step_reaches {equal : Value → Value → Bool} (finds : FindsEqual equal)
    (current target : Value) (proper : current.Proper) (targetProper : target.Proper) :
    ∃ next, step (updateBy equal) current target = .ok next ∧ next.Equals target ∧ next.Proper := by
  unfold step
  cases changed : updateBy equal current target with
  | none =>
    have found := equal_of_updateBy_eq_none equal current target changed
    exact ⟨current, rfl, finds current target proper found, proper⟩
  | some update =>
    rcases merge_updateBy_cases equal current target update changed with
      replaced | ⟨old, new, rfl, rfl, continues, continued⟩
    · exact ⟨target, replaced, .refl target, targetProper⟩
    · refine ⟨_, continued, equals_continued finds old new targetProper continues, ?_⟩
      cases proper with
      | list oldParts =>
        cases targetProper with
        | list newParts =>
          refine .list fun item member => ?_
          rcases List.mem_append.mp member with kept | added
          · exact oldParts item kept
          · exact newParts item (List.mem_of_mem_drop added)

/-- A channel that is led to proper values under an equality that finds only equal ones never
fails, and after each step it holds what is equal to the step's value.

Proof: by induction on the values. A step leads to an equal of its value that is proper again,
so the next step starts from where the lemma about one step applies. -/
theorem exists_lead {equal : Value → Value → Bool} (finds : FindsEqual equal) (initial : Value)
    (targets : List Value) (proper : initial.Proper)
    (targetsProper : ∀ target ∈ targets, target.Proper) :
    ∃ states, lead (updateBy equal) initial targets = .ok states ∧
      List.Forall₂ Value.Equals states targets := by
  induction targets generalizing initial with
  | nil => exact ⟨[], rfl, .nil⟩
  | cons target rest ih =>
    obtain ⟨next, stepped, reached, nextProper⟩ :=
      step_reaches finds initial target proper (targetsProper target List.mem_cons_self)
    obtain ⟨later, led, followed⟩ :=
      ih next nextProper fun other member => targetsProper other (List.mem_cons_of_mem _ member)
    refine ⟨next :: later, ?_, .cons reached followed⟩
    rw [lead, stepped]
    simp only [led, bind, Except.bind, pure, Except.pure]

/-- A channel that is led from a proper value to one proper value after the other, by updates
between values that come from different places or between a value and what became of it, never
fails. After each step it holds a value equal to that step's; if that one is a list, the channel
holds a list with equal elements in its order, and no others. -/
theorem lead_tracks (initial : Value) (targets : List Value) (proper : initial.Proper)
    (targetsProper : ∀ target ∈ targets, target.Proper) :
    ∀ find ∈ [update?, updateOfKept?],
      ∃ states, lead find initial targets = .ok states ∧
        List.Forall₂ (fun state target => state.Equals target ∧
          ∀ items, target = .list items →
            ∃ held, state = .list held ∧ List.Forall₂ Value.Equals held items) states targets := by
  have found : ∀ find ∈ [update?, updateOfKept?], ∃ equal, FindsEqual equal ∧
      find = updateBy equal := by
    intro find member
    rcases List.mem_pair.mp member with rfl | rfl
    · exact ⟨Value.equal, findsEqual_equal, rfl⟩
    · exact ⟨Value.equalIfKept, findsEqual_equalIfKept, rfl⟩
  intro find member
  obtain ⟨equal, finds, rfl⟩ := found find member
  obtain ⟨states, led, followed⟩ := exists_lead finds initial targets proper targetsProper
  refine ⟨states, led, followed.imp fun state target reached => ⟨reached, ?_⟩⟩
  rintro items rfl
  exact reached.exists_list

/-- A list is kept where it is found equal, with the truth value in it, and only goes on. -/
example : lead update? (.list [.bool true]) [.list [.int 1, .text "a"], .list [.int 1]] =
    .ok [.list [.bool true, .text "a"], .list [.int 1]] := by
  rfl

/-- A channel goes through a list that grows behind a NaN, null, a mapping and a shorter list. -/
theorem lead_tracks_mixed :
    let nan := Value.real (.nan 3)
    let initial := Value.list [.bool true, nan]
    let targets := [.list [.int 1, nan, .text "a"], .null, .mapping [(.text "k", nan)], .list [nan]]
    (initial.Proper ∧ ∀ target ∈ targets, target.Proper) ∧
      ∃ states, lead updateOfKept? initial targets = .ok states ∧
        List.Forall₂ Value.Equals states targets := by
  intro nan initial targets
  have proper : initial.Proper := by
    refine .list fun item member => ?_
    rcases List.mem_pair.mp member with rfl | rfl
    · exact .bool true
    · exact .real _
  have targetsProper : ∀ target ∈ targets, target.Proper := by
    have numbers : nan.Proper := .real _
    simp only [targets, List.forall_mem_cons, List.not_mem_nil, false_imp_iff, implies_true,
      and_true]
    refine ⟨.list ?_, .null, .mapping ?_ ?_ (List.pairwise_singleton _ _), .list ?_⟩
    · simp only [List.forall_mem_cons, List.not_mem_nil, false_imp_iff, implies_true, and_true]
      exact ⟨.int 1, numbers, .text "a"⟩
    · simpa using Key.Proper.text "k"
    · simpa using numbers
    · simpa using numbers
  refine ⟨⟨proper, targetsProper⟩, ?_⟩
  obtain ⟨states, led, followed⟩ :=
    lead_tracks initial targets proper targetsProper updateOfKept? (by simp)
  exact ⟨states, led, followed.imp fun _ _ reached => reached.1⟩

end Stepwise.ListChannel
