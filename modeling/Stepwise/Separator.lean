import Stepwise.Failure

/-!
# Separators

A separator is a non-empty text that stands between the names of a flat key. `join`
puts it between names; `split` cuts a text at its leftmost occurrence, then cuts the
rest, so that occurrences never overlap. Joining what was split gives the text back.
The converse fails where the end of a name and the separator make an earlier
occurrence; no name has to be free of the separator for that.
-/

namespace Stepwise

/-- A non-empty text between names. -/
structure Separator where
  chars : List Char
  nonempty : chars ≠ []

namespace Separator

/-- The separator that a text is; the empty text is none. -/
def ofString (text : String) : Attempt Separator :=
  if filled : text.toList ≠ [] then .ok ⟨text.toList, filled⟩
  else .error (.refused .emptySeparator)

/-- The separator as a text. -/
def text (separator : Separator) : String := String.ofList separator.chars

/-- The underscore, which is used where no separator is chosen. -/
def underscore : Separator := ⟨['_'], by simp⟩

/-- The text before the leftmost occurrence of `mark` and the text after it. -/
def cut (mark : List Char) : List Char → Option (List Char × List Char)
  | [] => none
  | c :: rest =>
    if mark.isPrefixOf (c :: rest) then some ([], (c :: rest).drop mark.length)
    else (cut mark rest).map fun parts => (c :: parts.1, parts.2)

/-- A cut loses the mark and nothing else. -/
theorem eq_of_cut {mark text before after : List Char}
    (found : cut mark text = some (before, after)) : text = before ++ mark ++ after := by
  induction text generalizing before with
  | nil => simp [cut] at found
  | cons c rest ih =>
    by_cases here : mark.isPrefixOf (c :: rest)
    · simp only [cut, here, if_true, Option.some.injEq, Prod.mk.injEq] at found
      obtain ⟨rfl, rfl⟩ := found
      obtain ⟨tail, same⟩ := List.isPrefixOf_iff_prefix.mp here
      simp [← same]
    · simp only [cut, here, Bool.false_eq_true, if_false, Option.map_eq_some_iff] at found
      obtain ⟨⟨first, last⟩, inner, same⟩ := found
      simp only [Prod.mk.injEq] at same
      obtain ⟨rfl, rfl⟩ := same
      simp [ih inner]

/-- Nothing is cut exactly where the mark does not occur. -/
theorem cut_eq_none_iff {mark : List Char} (filled : mark ≠ []) (text : List Char) :
    cut mark text = none ↔ ¬ mark <:+: text := by
  induction text with
  | nil => simp [cut, filled]
  | cons c rest ih =>
    by_cases here : mark.isPrefixOf (c :: rest)
    · have first : mark <+: c :: rest := List.isPrefixOf_iff_prefix.mp here
      simp [cut, here, first.isInfix]
    · have apart : ¬ mark <+: c :: rest := fun first => here (List.isPrefixOf_iff_prefix.mpr first)
      simp [cut, here, ih, List.infix_cons_iff, apart]

/-- The parts of a text between occurrences of the separator. -/
def splitChars (separator : Separator) (text : List Char) : List (List Char) :=
  match _found : cut separator.chars text with
  | none => [text]
  | some (before, after) => before :: splitChars separator after
termination_by text.length
decreasing_by
  have whole := congrArg List.length (eq_of_cut _found)
  have positive := List.length_pos_iff.mpr separator.nonempty
  simp only [List.length_append] at whole
  omega

/-- Names with the separator between them. -/
def joinChars (separator : Separator) : List (List Char) → List Char
  | [] => []
  | [last] => last
  | name :: rest => name ++ separator.chars ++ joinChars separator rest

/-- The names that a text consists of. -/
def split (separator : Separator) (text : String) : List String :=
  (separator.splitChars text.toList).map String.ofList

/-- The text that names make up. -/
def join (separator : Separator) (names : List String) : String :=
  String.ofList (separator.joinChars (names.map String.toList))

/-- Whether the separator occurs in a text. -/
def occursIn (separator : Separator) (text : String) : Bool :=
  (cut separator.chars text.toList).isSome

/-- A text always has at least one part. -/
theorem splitChars_ne_nil (separator : Separator) (text : List Char) :
    separator.splitChars text ≠ [] := by
  rw [splitChars]; split <;> simp

/-- Joining the parts of a text gives it back. -/
theorem joinChars_splitChars (separator : Separator) (text : List Char) :
    separator.joinChars (separator.splitChars text) = text := by
  fun_induction splitChars separator text with
  | case1 text found => simp [joinChars]
  | case2 text before after found ih =>
    rw [eq_of_cut found]
    cases parts : separator.splitChars after with
    | nil => exact absurd parts (separator.splitChars_ne_nil after)
    | cons first rest => rw [parts] at ih; simp [joinChars, ih]

/-- Joining the names that a text consists of gives it back. -/
theorem join_split (separator : Separator) (text : String) :
    separator.join (separator.split text) = text := by
  have chars : (separator.split text).map String.toList = separator.splitChars text.toList := by
    simp [split, Function.comp_def]
  rw [join, chars, joinChars_splitChars, String.ofList_toList]

end Separator
end Stepwise
