import Mathlib.Data.List.Infix
import Stepwise.Separator

/-!
# Names that splitting gives back

Names joined by a separator are given back by splitting exactly when the separator does
not occur in the last of them and, behind every other name, does not occur before the
place where it was put. The second condition is about the name followed by the
separator: the end of a name and the separator can make an earlier occurrence, as a name
that ends in an underscore does before a separator of two underscores.

What splitting gives always has this property, and so do the first names of a path that
has it.
-/

namespace Stepwise.Separator

/-- The leftmost occurrence of a mark in a text starts at a position. -/
def LeftmostAt (mark text : List Char) (position : Nat) : Prop :=
  mark <+: text.drop position ∧ ∀ earlier < position, ¬ mark <+: text.drop earlier

/-- The names of a path stay apart when they are joined: the separator is not in the last
one, and behind each other one it occurs first where it was put. -/
structure KeepsApart (separator : Separator) (path : List String) : Prop where
  last : ∀ name ∈ path.getLast?, ¬ separator.chars <:+: name.toList
  earlier : ∀ name ∈ path.dropLast,
    LeftmostAt separator.chars (name.toList ++ separator.chars) name.toList.length

/-- A cut is made at the leftmost occurrence. -/
theorem leftmost_of_cut (mark text before after : List Char)
    (found : cut mark text = some (before, after)) : LeftmostAt mark text before.length := by
  induction text generalizing before with
  | nil => simp [cut] at found
  | cons c rest ih =>
    by_cases here : mark.isPrefixOf (c :: rest)
    · simp only [cut, here, if_true, Option.some.injEq, Prod.mk.injEq] at found
      obtain ⟨rfl, rfl⟩ := found
      exact ⟨List.isPrefixOf_iff_prefix.mp here, by simp⟩
    · simp only [cut, here, Bool.false_eq_true, if_false, Option.map_eq_some_iff] at found
      obtain ⟨⟨first, last⟩, inner, same⟩ := found
      simp only [Prod.mk.injEq] at same
      obtain ⟨rfl, rfl⟩ := same
      obtain ⟨occurs, leftmost⟩ := ih first inner
      refine ⟨by simpa using occurs, ?_⟩
      intro earlier bound
      cases earlier with
      | zero =>
        intro first
        exact here (List.isPrefixOf_iff_prefix.mpr first)
      | succ earlier =>
        have inside : earlier < first.length := by simpa using bound
        simpa using leftmost earlier inside

/-- A text has one leftmost occurrence of a mark. -/
theorem leftmost_unique (mark text : List Char) (first second : Nat)
    (one : LeftmostAt mark text first) (other : LeftmostAt mark text second) : first = second := by
  rcases Nat.lt_trichotomy first second with less | same | greater
  · exact absurd one.1 (other.2 first less)
  · exact same
  · exact absurd other.1 (one.2 second greater)

/-- What follows the first occurrence behind a name does not matter for where it is. -/
theorem leftmost_append_iff (mark name rest : List Char) :
    LeftmostAt mark (name ++ mark ++ rest) name.length ↔
      LeftmostAt mark (name ++ mark) name.length := by
  have inside : ∀ position ≤ name.length,
      mark <+: (name ++ mark ++ rest).drop position ↔ mark <+: (name ++ mark).drop position := by
    intro position bound
    have enough : position ≤ (name ++ mark).length := by simp; omega
    have room : mark.length ≤ ((name ++ mark).drop position).length := by simp; omega
    rw [List.drop_append_of_le_length enough]
    constructor
    · intro first
      exact List.prefix_of_prefix_length_le first (List.prefix_append _ _) room
    · intro first
      exact first.trans (List.prefix_append _ _)
  constructor
  · rintro ⟨occurs, leftmost⟩
    refine ⟨(inside _ (Nat.le_refl _)).mp occurs, ?_⟩
    intro earlier bound first
    exact leftmost earlier bound ((inside earlier (Nat.le_of_lt bound)).mpr first)
  · rintro ⟨occurs, leftmost⟩
    refine ⟨(inside _ (Nat.le_refl _)).mpr occurs, ?_⟩
    intro earlier bound first
    exact leftmost earlier bound ((inside earlier (Nat.le_of_lt bound)).mp first)

/-- Where the mark first occurs behind a name, it does not occur in the name. -/
theorem not_infix_of_leftmost (mark name : List Char) (filled : mark ≠ [])
    (leftmost : LeftmostAt mark (name ++ mark) name.length) : ¬ mark <:+: name := by
  rintro ⟨before, after, whole⟩
  have positive : 0 < mark.length := List.length_pos_iff.mpr filled
  have shorter : before.length < name.length := by
    rw [← whole]
    simp only [List.length_append]
    omega
  apply leftmost.2 before.length shorter
  have dropped : (name ++ mark).drop before.length = mark ++ (after ++ mark) := by
    rw [← whole]
    simp
  rw [dropped]
  exact List.prefix_append _ _

/-- A joined text is cut behind the first name exactly when the separator first occurs
there. -/
theorem cut_joined_iff (separator : Separator) (name rest : List Char) :
    cut separator.chars (name ++ separator.chars ++ rest) = some (name, rest) ↔
      LeftmostAt separator.chars (name ++ separator.chars) name.length := by
  rw [← leftmost_append_iff separator.chars name rest]
  constructor
  · intro found
    exact leftmost_of_cut _ _ _ _ found
  · intro leftmost
    have occurs : cut separator.chars (name ++ separator.chars ++ rest) ≠ none := by
      rw [ne_eq, cut_eq_none_iff separator.nonempty, not_not]
      exact ⟨name, rest, rfl⟩
    obtain ⟨⟨before, after⟩, found⟩ := Option.ne_none_iff_exists'.mp occurs
    have samePlace : before.length = name.length :=
      leftmost_unique _ _ _ _ (leftmost_of_cut _ _ _ _ found) leftmost
    have whole := eq_of_cut found
    rw [List.append_assoc, List.append_assoc] at whole
    obtain ⟨sameName, tails⟩ := List.append_inj whole samePlace.symm
    have sameRest : rest = after := List.append_cancel_left tails
    rw [found, ← sameName, ← sameRest]

/-- A text without the separator is one part. -/
theorem splitChars_of_none (separator : Separator) (text : List Char)
    (uncut : cut separator.chars text = none) : separator.splitChars text = [text] := by
  rw [splitChars]
  split
  · rfl
  · next found => rw [uncut] at found; cases found

/-- A text is split into what stands before its first cut and the parts of what stands
behind it. -/
theorem splitChars_of_some (separator : Separator) (text before after : List Char)
    (found : cut separator.chars text = some (before, after)) :
    separator.splitChars text = before :: separator.splitChars after := by
  rw [splitChars]
  split
  · next uncut => rw [uncut] at found; cases found
  · next first rest again =>
    rw [again, Option.some.injEq, Prod.mk.injEq] at found
    rw [found.1, found.2]

/-- Splitting gives a single name back exactly when the separator is not in it. -/
theorem splitChars_single_iff (separator : Separator) (name : List Char) :
    separator.splitChars name = [name] ↔ ¬ separator.chars <:+: name := by
  rw [← cut_eq_none_iff separator.nonempty]
  constructor
  · intro single
    cases found : cut separator.chars name with
    | none => rfl
    | some parts =>
      have several := splitChars_of_some separator name parts.1 parts.2 found
      rw [single, List.cons.injEq] at several
      exact absurd several.2.symm (splitChars_ne_nil separator parts.2)
  · exact splitChars_of_none separator name

/-- The separator is not in a name exactly when that is its only part. -/
theorem split_single_iff (separator : Separator) (name : String) :
    separator.split name = [name] ↔ separator.occursIn name = false := by
  have onChars : separator.split name = [name] ↔
      separator.splitChars name.toList = [name.toList] := by
    rw [split]
    constructor
    · intro same
      have again := congrArg (List.map String.toList) same
      simpa [Function.comp_def] using again
    · intro same
      rw [same]
      simp
  rw [onChars, splitChars_single_iff, ← cut_eq_none_iff separator.nonempty,
    ← Option.isNone_iff_eq_none, occursIn]
  simp

/-- The separator stands behind a name that others follow. -/
theorem joinChars_cons (separator : Separator) (name : List Char) (names : List (List Char))
    (filled : names ≠ []) : separator.joinChars (name :: names) =
      name ++ separator.chars ++ separator.joinChars names := by
  cases names with
  | nil => exact absurd rfl filled
  | cons next rest => rfl

/-- Splitting gives a joined text's first name back exactly when the separator first
occurs behind it and the other names are given back. -/
theorem splitChars_joined_iff (separator : Separator) (name rest : List Char)
    (names : List (List Char)) (joined : separator.joinChars names = rest) :
    separator.splitChars (name ++ separator.chars ++ rest) = name :: names ↔
      LeftmostAt separator.chars (name ++ separator.chars) name.length ∧
        separator.splitChars rest = names := by
  rw [← cut_joined_iff separator name rest]
  constructor
  · intro split
    have occurs : cut separator.chars (name ++ separator.chars ++ rest) ≠ none := by
      rw [ne_eq, cut_eq_none_iff separator.nonempty, not_not]
      exact ⟨name, rest, rfl⟩
    obtain ⟨⟨before, after⟩, found⟩ := Option.ne_none_iff_exists'.mp occurs
    rw [splitChars_of_some separator _ before after found, List.cons.injEq] at split
    obtain ⟨rfl, others⟩ := split
    have sameRest : after = rest := by
      rw [← joined, ← others, joinChars_splitChars]
    exact ⟨by rw [found, sameRest], by rw [← sameRest, others]⟩
  · rintro ⟨found, others⟩
    rw [splitChars_of_some separator _ name rest found, others]

/-- Splitting gives joined names back exactly when they stay apart. -/
theorem splitChars_joinChars_iff (separator : Separator) (names : List (List Char))
    (filled : names ≠ []) :
    separator.splitChars (separator.joinChars names) = names ↔
      (∀ name ∈ names.getLast?, ¬ separator.chars <:+: name) ∧
        ∀ name ∈ names.dropLast,
          LeftmostAt separator.chars (name ++ separator.chars) name.length := by
  induction names with
  | nil => exact absurd rfl filled
  | cons name rest ih =>
    cases rest with
    | nil =>
      rw [joinChars, splitChars_single_iff separator name]
      simp
    | cons next more =>
      rw [joinChars_cons separator name (next :: more) (by simp),
        splitChars_joined_iff separator name _ (next :: more) rfl, ih (by simp)]
      simp only [List.getLast?_cons_cons, List.dropLast_cons_cons, List.mem_cons,
        forall_eq_or_imp]
      tauto

/-- Splitting gives a joined path back exactly when its names stay apart. -/
theorem split_join_iff (separator : Separator) (path : List String) (filled : path ≠ []) :
    separator.split (separator.join path) = path ↔ separator.KeepsApart path := by
  have onChars : separator.split (separator.join path) = path ↔
      separator.splitChars (separator.joinChars (path.map String.toList)) =
        path.map String.toList := by
    rw [split, join, String.toList_ofList]
    constructor
    · intro same
      have again := congrArg (List.map String.toList) same
      simpa [Function.comp_def] using again
    · intro same
      rw [same]
      simp [Function.comp_def]
  rw [onChars, splitChars_joinChars_iff separator _ (by simpa using filled)]
  constructor
  · rintro ⟨last, earlier⟩
    exact ⟨by simpa using last, by simpa [← List.map_dropLast] using earlier⟩
  · rintro ⟨last, earlier⟩
    exact ⟨by simpa using last, by simpa [← List.map_dropLast] using earlier⟩

/-- Splitting gives at least one name. -/
theorem split_ne_nil (separator : Separator) (text : String) : separator.split text ≠ [] := by
  simpa [split] using separator.splitChars_ne_nil text.toList

/-- The names that a text is split into stay apart. -/
theorem keepsApart_split (separator : Separator) (text : String) :
    separator.KeepsApart (separator.split text) := by
  rw [← split_join_iff separator _ (separator.split_ne_nil text), join_split]

/-- The first names of a path that stays apart stay apart. -/
theorem KeepsApart.initial {separator : Separator} {path first : List String}
    (apart : separator.KeepsApart path) (starts : first <+: path) :
    separator.KeepsApart first := by
  obtain ⟨rest, rfl⟩ := starts
  cases rest with
  | nil => simpa using apart
  | cons next more =>
    -- Every name of the first part has another name behind it in the whole path.
    have behind : ∀ name ∈ first,
        LeftmostAt separator.chars (name.toList ++ separator.chars) name.toList.length := by
      intro name member
      apply apart.earlier name
      rw [List.dropLast_append_of_ne_nil (by simp)]
      exact List.mem_append_left _ member
    refine ⟨?_, fun name member => behind name (List.mem_of_mem_dropLast member)⟩
    intro name isLast
    exact not_infix_of_leftmost _ _ separator.nonempty
      (behind name (List.mem_of_getLast? isLast))

end Stepwise.Separator
