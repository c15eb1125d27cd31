import Stepwise.Proofs.Rearranged
import Stepwise.Value.Equality

/-!
# Values that equality tells apart

Equality takes a truth value for a number, a whole fraction for an integer, and a frozen
set for one that can change. A value is sharp when it holds nothing of the kind and when
no set holds a member twice and no mapping a key twice. Sharp values are equal only if
they are rearranged, and a rearrangement of a sharp value is sharp.
-/

namespace Stepwise

/-- A key without truth values and fractions, whose sets hold each member once. -/
inductive Key.Sharp : Key → Prop
  | null : Key.Sharp .null
  | int (n : Int) : Key.Sharp (.int n)
  | text (s : String) : Key.Sharp (.text s)
  | tuple {items : List Key} (parts : ∀ item ∈ items, Key.Sharp item) : Key.Sharp (.tuple items)
  | set {members : List Key} (parts : ∀ member ∈ members, Key.Sharp member)
      (apart : members.Pairwise fun member other => ¬ member.Rearranged other) :
      Key.Sharp (.set members)
  | replacement {held : Key} (inside : Key.Sharp held) : Key.Sharp (.replacement held)

/-- A value without truth values, fractions and frozen sets, whose sets hold each member
and whose mappings each key once. -/
inductive Value.Sharp : Value → Prop
  | null : Value.Sharp .null
  | int (n : Int) : Value.Sharp (.int n)
  | text (s : String) : Value.Sharp (.text s)
  | list {items : List Value} (parts : ∀ item ∈ items, Value.Sharp item) :
      Value.Sharp (.list items)
  | tuple {items : List Value} (parts : ∀ item ∈ items, Value.Sharp item) :
      Value.Sharp (.tuple items)
  | set {members : List Key} (whole : Key.Sharp (.set members)) : Value.Sharp (.set false members)
  | mapping {entries : List (Key × Value)} (keys : ∀ entry ∈ entries, entry.1.Sharp)
      (values : ∀ entry ∈ entries, Value.Sharp entry.2)
      (apart : entries.Pairwise fun entry other => ¬ entry.1.Rearranged other.1) :
      Value.Sharp (.mapping entries)
  | replacement {held : Value} (inside : Value.Sharp held) : Value.Sharp (.replacement held)

/-- What stands on the right of a matching has a partner on the left. -/
theorem exists_left_of_forall₂ {α β : Type} {relation : α → β → Prop} {items : List α}
    {others : List β} (matched : List.Forall₂ relation items others) (other : β)
    (member : other ∈ others) : ∃ item ∈ items, relation item other := by
  induction matched with
  | nil => cases member
  | cons here _ ih =>
    rcases List.mem_cons.mp member with rfl | later
    · exact ⟨_, List.mem_cons_self, here⟩
    · obtain ⟨item, inItems, related⟩ := ih later
      exact ⟨item, List.mem_cons_of_mem _ inItems, related⟩

/-- Elements that are pairwise apart have partners that are pairwise apart. -/
theorem pairwise_of_forall₂ {α β : Type} {relation : α → β → Prop} {apart : α → α → Prop}
    {otherApart : β → β → Prop} {items : List α} {others : List β}
    (carry : ∀ item other next nextOther, relation item other → relation next nextOther →
      apart item next → otherApart other nextOther)
    (matched : List.Forall₂ relation items others) (pairwise : items.Pairwise apart) :
    others.Pairwise otherApart := by
  induction matched with
  | nil => exact .nil
  | cons here rest ih =>
    obtain ⟨first, later⟩ := List.pairwise_cons.mp pairwise
    refine List.pairwise_cons.mpr ⟨fun nextOther member => ?_, ih later⟩
    obtain ⟨next, inItems, related⟩ := exists_left_of_forall₂ rest nextOther member
    exact carry _ _ _ _ here related (first next inItems)

/-- Elements that each have a partner, and no two the same one, can be put into the order
of their partners if there are as many.

Proof: by induction on the elements. The partner of the first is taken out of the others;
the rest have their partners in what is left, since none of them shares that one. -/
theorem exists_perm_forall₂ {α β : Type} (relation : α → β → Prop) (items : List α)
    (others : List β) (sizes : items.length = others.length)
    (partner : ∀ item ∈ items, ∃ other ∈ others, relation item other)
    (apart : items.Pairwise fun item next => ∀ other, relation item other → ¬ relation next other) :
    ∃ moved, items.Perm moved ∧ List.Forall₂ relation moved others := by
  induction items generalizing others with
  | nil =>
    obtain rfl := List.length_eq_zero_iff.mp sizes.symm
    exact ⟨[], List.Perm.refl _, .nil⟩
  | cons item rest ih =>
    obtain ⟨first, later⟩ := List.pairwise_cons.mp apart
    obtain ⟨other, inOthers, related⟩ := partner item List.mem_cons_self
    obtain ⟨before, after, rfl⟩ := List.append_of_mem inOthers
    have takenOut : (before ++ other :: after).Perm (other :: (before ++ after)) :=
      List.perm_middle
    have restSizes : rest.length = (before ++ after).length := by
      have same := takenOut.length_eq
      simp only [List.length_cons] at sizes same
      omega
    obtain ⟨moved, order, matched⟩ := ih (before ++ after) restSizes (by
      intro next member
      obtain ⟨nextOther, inAll, nextRelated⟩ := partner next (List.mem_cons_of_mem _ member)
      refine ⟨nextOther, ?_, nextRelated⟩
      rcases List.mem_cons.mp (takenOut.mem_iff.mp inAll) with rfl | left
      · exact absurd nextRelated (first next member _ related)
      · exact left) later
    obtain ⟨reordered, again, whole⟩ := perm_before_of_behind relation (item :: moved)
      (other :: (before ++ after)) _ (.cons related matched) takenOut.symm
    exact ⟨reordered, (order.cons item).trans again, whole⟩

namespace Key

/-- Sequences that are alike are related part by part, if parts that are alike are. -/
theorem forall₂_of_allAlike (nanIsEqual : Bool) {relation : Key → Key → Prop}
    (items others : List Key)
    (each : ∀ item ∈ items, ∀ other ∈ others, item.alike nanIsEqual other = true →
      relation item other)
    (same : allAlike nanIsEqual items others = true) : List.Forall₂ relation items others := by
  induction items generalizing others with
  | nil =>
    cases others with
    | nil => exact .nil
    | cons => simp [allAlike] at same
  | cons item rest ih =>
    cases others with
    | nil => simp [allAlike] at same
    | cons other more =>
      rw [allAlike, Bool.and_eq_true] at same
      refine .cons (each _ List.mem_cons_self _ List.mem_cons_self same.1) (ih more ?_ same.2)
      intro next member nextOther inMore
      exact each _ (List.mem_cons_of_mem _ member) _ (List.mem_cons_of_mem _ inMore)

/-- Among the members of an alike set there is one for each member. -/
theorem exists_alike_of_allAmong (nanIsEqual : Bool) (items others : List Key)
    (among : allAmong nanIsEqual items others = true) (item : Key) (member : item ∈ items) :
    ∃ other ∈ others, item.alike nanIsEqual other = true := by
  induction items with
  | nil => cases member
  | cons first rest ih =>
    rw [allAmong, Bool.and_eq_true, List.any_eq_true] at among
    rcases List.mem_cons.mp member with rfl | later
    · exact among.1
    · exact ih among.2 later

/-- Integers are alike only if they are the same. -/
theorem eq_of_numbersAlike_int (nanIsEqual : Bool) (n m : Int)
    (same : numbersAlike nanIsEqual (.int n) (.int m) = true) : n = m := by
  by_cases less : n < m
  · simp [numbersAlike, Number.compare, Number.toRatio?, Number.payload?, less] at same
  · by_cases equal : n = m
    · exact equal
    · simp [numbersAlike, Number.compare, Number.toRatio?, Number.payload?, less, equal] at same

/-- Sharp keys that are alike are rearranged. -/
theorem Sharp.rearranged_of_alike (nanIsEqual : Bool) {key : Key} (sharp : key.Sharp) (other : Key)
    (otherSharp : other.Sharp) (same : key.alike nanIsEqual other = true) :
    key.Rearranged other := by
  induction sharp generalizing other with
  | null =>
    cases otherSharp <;> simp [alike, number?] at same
    exact .same _
  | int n =>
    cases otherSharp <;> simp only [alike, number?, Bool.false_eq_true] at same
    case int m => exact eq_of_numbersAlike_int nanIsEqual n m same ▸ .same _
  | text s =>
    cases otherSharp <;> simp [alike, number?] at same
    exact same ▸ .same _
  | tuple parts ih =>
    cases otherSharp <;> simp only [alike, number?, Bool.false_eq_true] at same
    case tuple others otherParts =>
      refine .tuple (forall₂_of_allAlike nanIsEqual _ _ ?_ same)
      intro item member other inOthers
      exact ih item member other (otherParts other inOthers)
  | @set members parts apart ih =>
    cases otherSharp <;> simp only [alike, number?, Bool.false_eq_true] at same
    case set others otherParts otherApart =>
      rw [Bool.and_eq_true, beq_iff_eq] at same
      obtain ⟨moved, order, matched⟩ := exists_perm_forall₂ Rearranged members others same.1
        (by
          intro member inMembers
          obtain ⟨other, inOthers, likeIt⟩ :=
            exists_alike_of_allAmong nanIsEqual _ _ same.2 member inMembers
          exact ⟨other, inOthers, ih member inMembers other (otherParts other inOthers) likeIt⟩)
        (apart.imp fun distinct other first second => distinct (first.trans second.symm))
      exact .set order matched
  | replacement inside ih =>
    cases otherSharp <;> simp only [alike, number?, Bool.false_eq_true] at same
    case replacement other otherInside => exact .replacement (ih other otherInside same)

/-- A rearrangement of a sharp key is sharp. -/
theorem Sharp.of_rearranged {key : Key} (sharp : key.Sharp) (other : Key)
    (related : key.Rearranged other) : other.Sharp := by
  induction sharp generalizing other with
  | null =>
    cases related
    exact .null
  | int n =>
    cases related
    exact .int n
  | text s =>
    cases related
    exact .text s
  | tuple parts ih =>
    cases related with
    | same => exact .tuple parts
    | tuple matched =>
      refine .tuple fun other member => ?_
      obtain ⟨item, inItems, itemRelated⟩ := exists_left_of_forall₂ matched other member
      exact ih item inItems other itemRelated
  | set parts apart ih =>
    cases related with
    | same => exact .set parts apart
    | set order matched =>
      refine .set (fun other member => ?_) ?_
      · obtain ⟨moved, inMoved, memberRelated⟩ := exists_left_of_forall₂ matched other member
        exact ih moved (order.mem_iff.mpr inMoved) other memberRelated
      · have movedApart := (order.pairwise_iff fun distinct back => distinct back.symm).mp apart
        refine pairwise_of_forall₂ ?_ matched movedApart
        intro member other next nextOther first second distinct between
        exact distinct ((first.trans between).trans second.symm)
  | replacement inside ih =>
    cases related with
    | same => exact .replacement inside
    | replacement matched => exact .replacement (ih _ matched)

end Key

namespace Value

/-- Sequences that are alike are related part by part, if parts that are alike are. -/
theorem forall₂_of_allAlike (nanIsEqual : Bool) {relation : Value → Value → Prop}
    (items others : List Value)
    (each : ∀ item ∈ items, ∀ other ∈ others, item.alike nanIsEqual other = true →
      relation item other)
    (same : allAlike nanIsEqual items others = true) : List.Forall₂ relation items others := by
  induction items generalizing others with
  | nil =>
    cases others with
    | nil => exact .nil
    | cons => simp [allAlike] at same
  | cons item rest ih =>
    cases others with
    | nil => simp [allAlike] at same
    | cons other more =>
      rw [allAlike, Bool.and_eq_true] at same
      refine .cons (each _ List.mem_cons_self _ List.mem_cons_self same.1) (ih more ?_ same.2)
      intro next member nextOther inMore
      exact each _ (List.mem_cons_of_mem _ member) _ (List.mem_cons_of_mem _ inMore)

/-- Among the entries of an alike mapping there is one for each entry. -/
theorem exists_alike_of_allMatched (nanIsEqual : Bool) (entries others : List (Key × Value))
    (matched : allMatched nanIsEqual entries others = true) (entry : Key × Value)
    (member : entry ∈ entries) : ∃ other ∈ others, entry.1.alike nanIsEqual other.1 = true ∧
      entry.2.alike nanIsEqual other.2 = true := by
  induction entries with
  | nil => cases member
  | cons first rest ih =>
    rw [allMatched, Bool.and_eq_true, List.any_eq_true] at matched
    rcases List.mem_cons.mp member with rfl | later
    · simpa only [Bool.and_eq_true] using matched.1
    · exact ih matched.2 later

/-- Sharp values that are alike are rearranged.

Proof: by induction on how the first is sharp. Sequences are alike part by part. Sets and
mappings are alike if they are of one size and each part of the first has its like in the
second; since no two parts of the first are one, the parts can be put in order. -/
theorem Sharp.rearranged_of_alike (nanIsEqual : Bool) {value : Value} (sharp : value.Sharp)
    (other : Value) (otherSharp : other.Sharp) (same : value.alike nanIsEqual other = true) :
    value.Rearranged other := by
  induction sharp generalizing other with
  | null =>
    cases otherSharp <;> simp [alike, number?] at same
    exact .same _
  | int n =>
    cases otherSharp <;> simp only [alike, number?, Bool.false_eq_true] at same
    case int m => exact Key.eq_of_numbersAlike_int nanIsEqual n m same ▸ .same _
  | text s =>
    cases otherSharp <;> simp [alike, number?] at same
    exact same ▸ .same _
  | list parts ih =>
    cases otherSharp <;> simp only [alike, number?, Bool.false_eq_true] at same
    case list others otherParts =>
      refine .list (forall₂_of_allAlike nanIsEqual _ _ ?_ same)
      intro item member other inOthers
      exact ih item member other (otherParts other inOthers)
  | tuple parts ih =>
    cases otherSharp <;> simp only [alike, number?, Bool.false_eq_true] at same
    case tuple others otherParts =>
      refine .tuple (forall₂_of_allAlike nanIsEqual _ _ ?_ same)
      intro item member other inOthers
      exact ih item member other (otherParts other inOthers)
  | set whole =>
    cases otherSharp <;> simp only [alike, number?, Bool.false_eq_true] at same
    case set others otherWhole =>
      exact .set false (whole.rearranged_of_alike nanIsEqual _ otherWhole same)
  | @mapping entries keys values apart ih =>
    cases otherSharp <;> simp only [alike, number?, Bool.false_eq_true] at same
    case mapping others otherKeys otherValues otherApart =>
      rw [Bool.and_eq_true, beq_iff_eq] at same
      have partner : ∀ entry ∈ entries, ∃ other ∈ others, EntryRearranged entry other := by
        intro entry member
        obtain ⟨other, inOthers, keyAlike, valueAlike⟩ :=
          exists_alike_of_allMatched nanIsEqual _ _ same.2 entry member
        refine ⟨other, inOthers, .of ?_ ?_⟩
        · exact (keys entry member).rearranged_of_alike nanIsEqual _ (otherKeys other inOthers)
            keyAlike
        · exact ih entry member _ (otherValues other inOthers) valueAlike
      obtain ⟨moved, order, matched⟩ := exists_perm_forall₂ EntryRearranged entries others same.1
        partner (apart.imp (by
          rintro entry next distinct other ⟨firstKeys, -⟩ ⟨secondKeys, -⟩
          exact distinct (firstKeys.trans secondKeys.symm)))
      exact .mapping order matched
  | replacement inside ih =>
    cases otherSharp <;> simp only [alike, number?, Bool.false_eq_true] at same
    case replacement other otherInside => exact .replacement (ih other otherInside same)

/-- A rearrangement of a sharp value is sharp. -/
theorem Sharp.of_rearranged {value : Value} (sharp : value.Sharp) (other : Value)
    (related : value.Rearranged other) : other.Sharp := by
  induction sharp generalizing other with
  | null =>
    cases related
    exact .null
  | int n =>
    cases related
    exact .int n
  | text s =>
    cases related
    exact .text s
  | list parts ih =>
    cases related with
    | same => exact .list parts
    | list matched =>
      refine .list fun other member => ?_
      obtain ⟨item, inItems, itemRelated⟩ := exists_left_of_forall₂ matched other member
      exact ih item inItems other itemRelated
  | tuple parts ih =>
    cases related with
    | same => exact .tuple parts
    | tuple matched =>
      refine .tuple fun other member => ?_
      obtain ⟨item, inItems, itemRelated⟩ := exists_left_of_forall₂ matched other member
      exact ih item inItems other itemRelated
  | set whole =>
    cases related with
    | same => exact .set whole
    | set frozen matched => exact .set (whole.of_rearranged _ matched)
  | mapping keys values apart ih =>
    cases related with
    | same => exact .mapping keys values apart
    | @mapping _ moved others order matched =>
      have partner : ∀ other ∈ others, other.1.Sharp ∧ other.2.Sharp := by
        intro other member
        obtain ⟨entry, inMoved, ⟨keyRelated, valueRelated⟩⟩ :=
          exists_left_of_forall₂ matched other member
        have inEntries := order.mem_iff.mpr inMoved
        exact ⟨(keys _ inEntries).of_rearranged _ keyRelated, ih _ inEntries _ valueRelated⟩
      refine .mapping (fun other member => (partner other member).1)
        (fun other member => (partner other member).2) ?_
      have movedApart := (order.pairwise_iff fun distinct back => distinct back.symm).mp apart
      refine pairwise_of_forall₂ ?_ matched movedApart
      rintro entry other next nextOther ⟨first, -⟩ ⟨second, -⟩ distinct between
      exact distinct ((first.trans between).trans second.symm)
  | replacement inside ih =>
    cases related with
    | same => exact .replacement inside
    | replacement matched => exact .replacement (ih _ matched)

end Value
end Stepwise
