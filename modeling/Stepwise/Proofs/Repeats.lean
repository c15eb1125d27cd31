import Mathlib.Data.List.Induction
import Mathlib.Data.List.Nodup
import Stepwise.Procedure

/-!
# Repeated names

The names that a scan of a list tells as repeated are those that occur at least twice, each
once, in the order in which they occur for the second time. This need not be the order of
their first occurrences: of two names in turn that one is told first which first comes again.
-/

namespace Stepwise.ListFault

/-- A name occurs at a position, and before it once. -/
def OccursAgainAt (names : List String) (name : String) (position : Nat) : Prop :=
  names[position]? = some name ∧ (names.take position).count name = 1

/-- The names that occur at least twice in a list, each once, in the order in which they occur
for the second time. -/
structure Repeats (names repeated : List String) : Prop where
  distinct : repeated.Nodup
  complete : ∀ name, name ∈ repeated ↔ 2 ≤ names.count name
  ordered : repeated.Pairwise fun name other => ∃ position later,
    OccursAgainAt names name position ∧ OccursAgainAt names other later ∧ position < later

/-- A second occurrence is inside the list. -/
theorem OccursAgainAt.lt_length {names : List String} {name : String} {position : Nat}
    (again : OccursAgainAt names name position) : position < names.length :=
  (List.getElem?_eq_some_iff.mp again.1).1

/-- A second occurrence stays the second, whatever comes behind. -/
theorem OccursAgainAt.append {names : List String} {name : String} {position : Nat}
    (again : OccursAgainAt names name position) (more : List String) :
    OccursAgainAt (names ++ more) name position := by
  have inside := again.lt_length
  constructor
  · rw [List.getElem?_append_left inside, again.1]
  · rw [List.take_append_of_le_length (Nat.le_of_lt inside), again.2]

/-- A name that occurred once occurs again where it comes next. -/
theorem occursAgainAt_length (names : List String) (name : String)
    (once : names.count name = 1) : OccursAgainAt (names ++ [name]) name names.length :=
  ⟨by simp, by simpa using once⟩

/-- A name that occurs at least twice occurs somewhere for the second time. -/
theorem exists_occursAgainAt (names : List String) (name : String)
    (twice : 2 ≤ names.count name) : ∃ position, OccursAgainAt names name position := by
  induction names using List.reverseRecOn with
  | nil => simp at twice
  | append_singleton before last ih =>
    by_cases already : 2 ≤ before.count name
    · obtain ⟨position, again⟩ := ih already
      exact ⟨position, again.append [last]⟩
    · rw [List.count_append, List.count_singleton] at twice
      split at twice
      · next same =>
        obtain rfl : last = name := eq_of_beq same
        exact ⟨_, occursAgainAt_length before last (by omega)⟩
      · omega

/-- Behind a name that occurred once before there is one more repeated name. -/
theorem Repeats.append_again {before found : List String} (repeats : Repeats before found)
    {name : String} (once : before.count name = 1) :
    Repeats (before ++ [name]) (found ++ [name]) := by
  have new : name ∉ found := by
    rw [repeats.complete, once]
    decide
  refine ⟨?_, fun other => ?_, ?_⟩
  · exact List.nodup_append.mpr ⟨repeats.distinct, List.nodup_singleton name, by
      intro other member last only same
      exact new (List.mem_singleton.mp only ▸ same ▸ member)⟩
  · rw [List.mem_append, repeats.complete, List.mem_singleton, List.count_append,
      List.count_singleton]
    by_cases same : name = other
    · subst same
      simp [once]
    · simp [same, Ne.symm same]
  · refine List.pairwise_append.mpr ⟨?_, List.pairwise_singleton _ _, ?_⟩
    · refine repeats.ordered.imp ?_
      rintro first second ⟨position, later, here, there, order⟩
      exact ⟨position, later, here.append _, there.append _, order⟩
    · intro other member last only
      obtain rfl := List.mem_singleton.mp only
      obtain ⟨position, again⟩ := exists_occursAgainAt before other ((repeats.complete _).mp member)
      exact ⟨position, before.length, again.append _, occursAgainAt_length before _ once,
        again.lt_length⟩

/-- Behind a name that did not occur once before the repeated names are the same. -/
theorem Repeats.append_other {before found : List String} (repeats : Repeats before found)
    {name : String} (other : before.count name ≠ 1) : Repeats (before ++ [name]) found := by
  refine ⟨repeats.distinct, fun wanted => ?_, ?_⟩
  · rw [repeats.complete, List.count_append, List.count_singleton]
    by_cases same : name = wanted
    · subst same
      simp only [BEq.rfl, if_true]
      omega
    · simp [same]
  · refine repeats.ordered.imp ?_
    rintro first second ⟨position, later, here, there, order⟩
    exact ⟨position, later, here.append _, there.append _, order⟩

/-- The scan behind a part of a list finds the repeated names of the whole, if it has found
those of the part and has seen its names.

Proof: induction on what is left. A name is added exactly if it was seen and was not yet
found, which is when it occurred once before. -/
theorem repeats_scan (names before seen found : List String) (repeats : Repeats before found)
    (known : ∀ name, name ∈ seen ↔ name ∈ before) :
    Repeats (before ++ names) (repeatedNames seen found names) := by
  induction names generalizing before seen found with
  | nil => simpa [repeatedNames] using repeats
  | cons name rest ih =>
    have onceIff : (seen.contains name = true ∧ (!found.contains name) = true) ↔
        before.count name = 1 := by
      have isSeen : seen.contains name = true ↔ 0 < before.count name := by
        rw [List.contains_iff_mem, known, List.count_pos_iff]
      have isNew : (!found.contains name) = true ↔ before.count name < 2 := by
        rw [Bool.not_eq_true', ← Bool.not_eq_true, List.contains_iff_mem, repeats.complete]
        omega
      rw [isSeen, isNew]
      omega
    have whole : before ++ name :: rest = (before ++ [name]) ++ rest := by simp
    rw [whole, repeatedNames]
    apply ih
    · by_cases once : before.count name = 1
      · rw [if_pos (onceIff.mpr once)]
        exact repeats.append_again once
      · rw [if_neg (mt onceIff.mp once)]
        exact repeats.append_other once
    · intro other
      rw [List.mem_cons, known, List.mem_append, List.mem_singleton, or_comm]

/-- The names that are found to be repeated are the repeated ones, in their order. -/
theorem repeats_repeatedNames (names : List String) :
    Repeats names (repeatedNames [] [] names) :=
  repeats_scan names [] [] [] ⟨List.nodup_nil, by simp, .nil⟩ (by simp)

/-- No name is found to be repeated exactly if none occurs twice. -/
theorem repeatedNames_eq_nil_iff (names : List String) :
    repeatedNames [] [] names = [] ↔ names.Nodup := by
  simp only [List.eq_nil_iff_forall_not_mem, (repeats_repeatedNames names).complete,
    List.nodup_iff_count_le_one, Nat.not_le, Nat.lt_succ_iff]

end Stepwise.ListFault
