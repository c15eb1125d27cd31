import Mathlib.Algebra.Order.Field.Basic
import Mathlib.Data.Rat.Lemmas
import Mathlib.Tactic.FieldSimp
import Mathlib.Tactic.Ring
import Stepwise.Proofs.Sharp

/-!
# What equality says

Two values are equal when they are built alike from equal parts. Numbers and truth values
are equal by what they measure: a rational number, an infinity, or a NaN that is told from
other NaNs by its payload. Sequences are equal part by part, and mappings and sets if their
parts can be put into an order in which they are; whether a set is frozen does not matter.

A computed equality that looks for each part of a set or mapping among the other's parts
says this only where the first one holds no part twice. A value is proper if that is so at
every depth, as it is of every set and mapping that was made by adding parts.
-/

namespace Stepwise

/-! ## Numbers -/

/-- What a number measures. -/
inductive Extent where
  | finite (value : ℚ)
  | infinite (negative : Bool)
  | nan (payload : Nat)

namespace Number

/-- The mathematical value of a number, if it has one. -/
def extent : Number → Extent
  | .int n => .finite n
  | .real (.finite negative significand exponent) =>
    .finite ((if negative then -(significand : ℚ) else significand) * 2 ^ exponent)
  | .real (.infinite negative) => .infinite negative
  | .real (.nan payload) => .nan payload

/-- The fraction that a finite number is computed with has its mathematical value. -/
theorem exists_toRatio?_finite (negative : Bool) (significand : Nat) (exponent : Int) :
    ∃ n d, (Binary64.finite negative significand exponent).toRatio? = some (n, d) ∧ 0 < d ∧
      (if negative then -(significand : ℚ) else significand) * 2 ^ exponent = (n : ℚ) / d := by
  cases exponent with
  | ofNat up =>
    refine ⟨_, 1, rfl, Nat.one_pos, ?_⟩
    cases negative <;> simp
  | negSucc down =>
    refine ⟨_, Nat.pow 2 (down + 1), rfl, Nat.two_pow_pos _, ?_⟩
    cases negative <;> simp [zpow_negSucc, div_eq_mul_inv]

/-- What is computed with of a number, by what it measures. -/
theorem measured (number : Number) :
    match number.extent with
    | .finite value => (∃ n d, number.toRatio? = some (n, d) ∧ 0 < d ∧ value = (n : ℚ) / d) ∧
      number.payload? = none
    | .infinite negative => number.toRatio? = none ∧ number.infiniteSign? = some negative ∧
      number.payload? = none
    | .nan payload => number.toRatio? = none ∧ number.infiniteSign? = none ∧
      number.payload? = some payload := by
  cases number with
  | int n => exact ⟨⟨n, 1, rfl, Nat.one_pos, by simp⟩, rfl⟩
  | real x =>
    cases x with
    | finite negative significand exponent =>
      exact ⟨exists_toRatio?_finite negative significand exponent, rfl⟩
    | infinite negative => exact ⟨rfl, rfl, rfl⟩
    | nan payload => exact ⟨rfl, rfl, rfl⟩

/-- Fractions compare as equal exactly when they have one value. -/
theorem compare_eq_equal_iff (a b : Number) (n m : Int) (d c : Nat)
    (ratio : a.toRatio? = some (n, d)) (otherRatio : b.toRatio? = some (m, c)) (positive : 0 < d)
    (otherPositive : 0 < c) : a.compare b = .equal ↔ (n : ℚ) / d = m / c := by
  have crosswise : (n : ℚ) / d = m / c ↔ n * c = m * d := by
    rw [div_eq_div_iff (Nat.cast_ne_zero.mpr positive.ne') (Nat.cast_ne_zero.mpr otherPositive.ne')]
    exact_mod_cast Iff.rfl
  rw [crosswise]
  simp only [compare, ratio, otherRatio]
  split_ifs with less equal
  · simp only [false_iff]
    omega
  · simp [equal]
  · simp [equal]

end Number

/-- Numbers are equal by computation exactly when they measure the same. -/
theorem Key.numbersAlike_iff (a b : Number) :
    Key.numbersAlike true a b = true ↔ a.extent = b.extent := by
  have first := a.measured
  have second := b.measured
  revert first second
  cases a.extent <;> cases b.extent <;> intro first second
  case finite.finite value other =>
    obtain ⟨⟨n, d, ratio, positive, rfl⟩, noPayload⟩ := first
    obtain ⟨⟨m, c, otherRatio, otherPositive, rfl⟩, -⟩ := second
    simp [numbersAlike, noPayload,
      Number.compare_eq_equal_iff a b n m d c ratio otherRatio positive otherPositive]
  case finite.infinite value negative =>
    obtain ⟨⟨n, d, ratio, -, -⟩, noPayload⟩ := first
    obtain ⟨none, sign, -⟩ := second
    cases negative <;> simp [numbersAlike, Number.compare, ratio, none, sign, noPayload]
  case finite.nan value payload =>
    obtain ⟨⟨n, d, ratio, -, -⟩, noPayload⟩ := first
    obtain ⟨none, sign, -⟩ := second
    simp [numbersAlike, Number.compare, ratio, none, sign, noPayload]
  case infinite.finite negative value =>
    obtain ⟨none, sign, noPayload⟩ := first
    obtain ⟨⟨n, d, ratio, -, -⟩, -⟩ := second
    cases negative <;> simp [numbersAlike, Number.compare, ratio, none, sign, noPayload]
  case infinite.infinite negative other =>
    obtain ⟨none, sign, noPayload⟩ := first
    obtain ⟨otherNone, otherSign, -⟩ := second
    cases negative <;> cases other <;>
      simp [numbersAlike, Number.compare, none, sign, otherNone, otherSign, noPayload]
  case infinite.nan negative payload =>
    obtain ⟨none, sign, noPayload⟩ := first
    obtain ⟨otherNone, otherSign, -⟩ := second
    simp [numbersAlike, Number.compare, none, sign, otherNone, otherSign, noPayload]
  case nan.finite payload value =>
    obtain ⟨none, sign, hasPayload⟩ := first
    obtain ⟨⟨n, d, ratio, -, -⟩, noPayload⟩ := second
    simp [numbersAlike, Number.compare, ratio, none, sign, hasPayload, noPayload]
  case nan.infinite payload negative =>
    obtain ⟨none, sign, hasPayload⟩ := first
    obtain ⟨otherNone, otherSign, noPayload⟩ := second
    simp [numbersAlike, Number.compare, none, sign, otherNone, otherSign, hasPayload, noPayload]
  case nan.nan payload other =>
    obtain ⟨none, sign, hasPayload⟩ := first
    obtain ⟨otherNone, otherSign, otherPayload⟩ := second
    simp [numbersAlike, Number.compare, none, sign, otherNone, otherSign, hasPayload, otherPayload]

/-! ## Keys and values -/

/-- Two keys that are built alike from equal parts. -/
inductive Key.Equals : Key → Key → Prop
  | null : Key.Equals .null .null
  | number {key other : Key} {n m : Number} (first : key.number? = some n)
      (second : other.number? = some m) (same : n.extent = m.extent) : Key.Equals key other
  | text (s : String) : Key.Equals (.text s) (.text s)
  | tuple {items others : List Key} (matched : List.Forall₂ Key.Equals items others) :
      Key.Equals (.tuple items) (.tuple others)
  | set {members moved others : List Key} (order : members.Perm moved)
      (matched : List.Forall₂ Key.Equals moved others) : Key.Equals (.set members) (.set others)
  | replacement {held other : Key} (matched : Key.Equals held other) :
      Key.Equals (.replacement held) (.replacement other)

mutual

/-- Two values that are built alike from equal parts. -/
inductive Value.Equals : Value → Value → Prop
  | null : Value.Equals .null .null
  | number {value other : Value} {n m : Number} (first : value.number? = some n)
      (second : other.number? = some m) (same : n.extent = m.extent) : Value.Equals value other
  | text (s : String) : Value.Equals (.text s) (.text s)
  | list {items others : List Value} (matched : List.Forall₂ Value.Equals items others) :
      Value.Equals (.list items) (.list others)
  | tuple {items others : List Value} (matched : List.Forall₂ Value.Equals items others) :
      Value.Equals (.tuple items) (.tuple others)
  | set (frozen otherFrozen : Bool) {members others : List Key}
      (matched : Key.Equals (.set members) (.set others)) :
      Value.Equals (.set frozen members) (.set otherFrozen others)
  | mapping {entries moved others : List (Key × Value)} (order : entries.Perm moved)
      (matched : List.Forall₂ Value.EntryEquals moved others) :
      Value.Equals (.mapping entries) (.mapping others)
  | replacement {held other : Value} (matched : Value.Equals held other) :
      Value.Equals (.replacement held) (.replacement other)

/-- Two entries whose keys and values are equal. -/
inductive Value.EntryEquals : Key × Value → Key × Value → Prop
  | of {key otherKey : Key} {value other : Value} (keys : key.Equals otherKey)
      (values : Value.Equals value other) : Value.EntryEquals (key, value) (otherKey, other)

end

/-- A key whose sets hold each member once. -/
inductive Key.Proper : Key → Prop
  | null : Key.Proper .null
  | bool (b : Bool) : Key.Proper (.bool b)
  | int (n : Int) : Key.Proper (.int n)
  | real (x : Binary64) : Key.Proper (.real x)
  | text (s : String) : Key.Proper (.text s)
  | tuple {items : List Key} (parts : ∀ item ∈ items, Key.Proper item) : Key.Proper (.tuple items)
  | set {members : List Key} (parts : ∀ member ∈ members, Key.Proper member)
      (apart : members.Pairwise fun member other => ¬ member.Equals other) :
      Key.Proper (.set members)
  | replacement {held : Key} (inside : Key.Proper held) : Key.Proper (.replacement held)

/-- A value whose sets hold each member and whose mappings each key once. -/
inductive Value.Proper : Value → Prop
  | null : Value.Proper .null
  | bool (b : Bool) : Value.Proper (.bool b)
  | int (n : Int) : Value.Proper (.int n)
  | real (x : Binary64) : Value.Proper (.real x)
  | text (s : String) : Value.Proper (.text s)
  | list {items : List Value} (parts : ∀ item ∈ items, Value.Proper item) :
      Value.Proper (.list items)
  | tuple {items : List Value} (parts : ∀ item ∈ items, Value.Proper item) :
      Value.Proper (.tuple items)
  | set (frozen : Bool) {members : List Key} (whole : Key.Proper (.set members)) :
      Value.Proper (.set frozen members)
  | mapping {entries : List (Key × Value)} (keys : ∀ entry ∈ entries, entry.1.Proper)
      (values : ∀ entry ∈ entries, Value.Proper entry.2)
      (apart : entries.Pairwise fun entry other => ¬ entry.1.Equals other.1) :
      Value.Proper (.mapping entries)
  | replacement {held : Value} (inside : Value.Proper held) : Value.Proper (.replacement held)

namespace Key

namespace Equals

/-- Every key is equal to itself. -/
theorem refl (key : Key) : key.Equals key := by
  match key with
  | .null => exact .null
  | .bool b | .int n | .real x => exact .number rfl rfl rfl
  | .text s => exact .text s
  | .tuple items =>
    refine .tuple (List.forall₂_same.mpr fun item member => ?_)
    exact refl item
  | .set members =>
    refine .set (List.Perm.refl _) (List.forall₂_same.mpr fun member inMembers => ?_)
    exact refl member
  | .replacement held => exact .replacement (refl held)
termination_by sizeOf key
decreasing_by
  · have smaller := List.sizeOf_lt_of_mem member
    simp only [Key.tuple.sizeOf_spec]
    omega
  · have smaller := List.sizeOf_lt_of_mem inMembers
    simp only [Key.set.sizeOf_spec]
    omega
  · simp

/-- Equality of keys can be turned round. -/
theorem symm {key other : Key} (equal : key.Equals other) : other.Equals key := by
  match key, other, equal with
  | _, _, .null => exact .null
  | _, _, .number first second same => exact .number second first same.symm
  | _, _, .text s => exact .text s
  | _, _, .tuple matched =>
    refine .tuple (forall₂_flip_of Key.Equals _ _ _ ?_ matched)
    intro item member other itemEqual
    exact symm itemEqual
  | .set members, .set others, @Key.Equals.set _ moved _ order matched =>
    have turned : List.Forall₂ Key.Equals others moved := by
      refine forall₂_flip_of Key.Equals _ _ _ ?_ matched
      intro item member other itemEqual
      have inMembers := order.mem_iff.mpr member
      exact symm itemEqual
    obtain ⟨reordered, first, before⟩ := perm_before_of_behind _ _ _ _ turned order.symm
    exact .set first before
  | _, _, .replacement matched => exact .replacement (symm matched)
termination_by sizeOf key
decreasing_by
  · have smaller := List.sizeOf_lt_of_mem member
    simp only [Key.tuple.sizeOf_spec]
    omega
  · have smaller := List.sizeOf_lt_of_mem inMembers
    simp only [Key.set.sizeOf_spec]
    omega
  · simp

/-- Equalities of keys compose. -/
theorem trans {key other last : Key} (equal : key.Equals other) (next : other.Equals last) :
    key.Equals last := by
  match key, other, last, equal, next with
  | _, _, _, .null, next => exact next
  | _, _, _, .text s, next => exact next
  | _, _, _, .number first second same, .number again third sameNext =>
    rw [second, Option.some.injEq] at again
    exact .number first third (same.trans (again ▸ sameNext))
  | _, _, _, .tuple matched, .tuple matchedNext =>
    refine .tuple (forall₂_comp_of Key.Equals Key.Equals _ _ _ _ ?_ matched matchedNext)
    intro item member other last itemEqual itemNext
    exact trans itemEqual itemNext
  | _, _, _, .set order matched, .set orderNext matchedNext =>
    obtain ⟨reordered, first, before⟩ := perm_before_of_behind _ _ _ _ matched orderNext
    refine .set (order.trans first)
      (forall₂_comp_of Key.Equals Key.Equals _ _ _ _ ?_ before matchedNext)
    intro item member other last itemEqual itemNext
    have inMembers := (order.trans first).mem_iff.mpr member
    exact trans itemEqual itemNext
  | _, _, _, .replacement matched, .replacement matchedNext =>
    exact .replacement (trans matched matchedNext)
termination_by sizeOf key
decreasing_by
  · have smaller := List.sizeOf_lt_of_mem member
    simp only [Key.tuple.sizeOf_spec]
    omega
  · have smaller := List.sizeOf_lt_of_mem inMembers
    simp only [Key.set.sizeOf_spec]
    omega
  · simp

end Equals

/-- A number is alike exactly to numbers that are alike. -/
theorem alike_of_number (nanIsEqual : Bool) (key other : Key) (n : Number)
    (number : key.number? = some n) : key.alike nanIsEqual other =
      match other.number? with
      | some m => numbersAlike nanIsEqual n m
      | none => false := by
  cases key <;> simp only [number?, reduceCtorEq, Option.some.injEq] at number <;> subst number <;>
    cases other <;> simp only [alike, number?]

/-- Numbers that are alike measure the same. -/
theorem extent_eq_of_numbersAlike (nanIsEqual : Bool) (n m : Number)
    (same : numbersAlike nanIsEqual n m = true) : n.extent = m.extent := by
  apply (numbersAlike_iff n m).mp
  cases nanIsEqual with
  | true => exact same
  | false =>
    have equal : n.compare m = .equal := by simpa [numbersAlike] using same
    simp [numbersAlike, equal]

/-- What a number is alike to is equal to it. -/
theorem equals_of_number (nanIsEqual : Bool) (key other : Key) (n : Number)
    (number : key.number? = some n) (same : key.alike nanIsEqual other = true) :
    key.Equals other := by
  rw [alike_of_number nanIsEqual key other n number] at same
  split at same
  · next m found => exact .number number found (extent_eq_of_numbersAlike nanIsEqual n m same)
  · cases same

/-- Whatever a proper key is alike to is equal to it.

Proof: by induction on how the key is proper. The members of a set of one size each have their
like in the other one, and no two of them the same, so they can be put in order. -/
theorem Proper.equals_of_alike (nanIsEqual : Bool) {key : Key} (proper : key.Proper) (other : Key)
    (same : key.alike nanIsEqual other = true) : key.Equals other := by
  induction proper generalizing other with
  | null =>
    cases other <;> simp only [alike, number?, Bool.false_eq_true] at same
    exact .null
  | bool b => exact equals_of_number nanIsEqual _ _ _ rfl same
  | int n => exact equals_of_number nanIsEqual _ _ _ rfl same
  | real x => exact equals_of_number nanIsEqual _ _ _ rfl same
  | text s =>
    cases other <;> simp only [alike, number?, Bool.false_eq_true, beq_iff_eq] at same
    exact same ▸ .text s
  | tuple parts ih =>
    cases other <;> simp only [alike, number?, Bool.false_eq_true] at same
    case tuple others =>
      refine .tuple (forall₂_of_allAlike nanIsEqual _ _ ?_ same)
      intro item member other _
      exact ih item member other
  | @set members parts apart ih =>
    cases other <;> simp only [alike, number?, Bool.false_eq_true] at same
    case set others =>
      rw [Bool.and_eq_true, beq_iff_eq] at same
      obtain ⟨moved, order, matched⟩ := exists_perm_forall₂ Equals members others same.1
        (by
          intro member inMembers
          obtain ⟨other, inOthers, likeIt⟩ :=
            exists_alike_of_allAmong nanIsEqual _ _ same.2 member inMembers
          exact ⟨other, inOthers, ih member inMembers other likeIt⟩)
        (apart.imp fun distinct other first second => distinct (first.trans second.symm))
      exact .set order matched
  | replacement inside ih =>
    cases other <;> simp only [alike, number?, Bool.false_eq_true] at same
    case replacement other => exact .replacement (ih other same)

/-- Sequences whose parts are related are alike, if related parts are. -/
theorem allAlike_of_forall₂ (nanIsEqual : Bool) {relation : Key → Key → Prop}
    (items others : List Key)
    (each : ∀ item ∈ items, ∀ other, relation item other → item.alike nanIsEqual other = true)
    (matched : List.Forall₂ relation items others) : allAlike nanIsEqual items others = true := by
  induction matched with
  | nil => rfl
  | cons here _ ih =>
    rw [allAlike, Bool.and_eq_true]
    exact ⟨each _ List.mem_cons_self _ here,
      ih fun item member => each item (List.mem_cons_of_mem _ member)⟩

/-- Keys are among others if each has its like there. -/
theorem allAmong_of_exists (nanIsEqual : Bool) (items others : List Key)
    (like : ∀ item ∈ items, ∃ other ∈ others, item.alike nanIsEqual other = true) :
    allAmong nanIsEqual items others = true := by
  induction items with
  | nil => rfl
  | cons item rest ih =>
    rw [allAmong, Bool.and_eq_true, List.any_eq_true]
    exact ⟨like item List.mem_cons_self,
      ih fun next member => like next (List.mem_cons_of_mem _ member)⟩

/-- Equal keys are the same by computation. -/
theorem Equals.alike {key other : Key} (equal : key.Equals other) :
    key.alike true other = true := by
  match key, other, equal with
  | _, _, .null => rfl
  | key, other, @Equals.number _ _ n m first second same =>
    rw [alike_of_number true key other n first, second]
    exact (numbersAlike_iff n m).mpr same
  | _, _, .text s => simp [Key.alike]
  | .tuple items, .tuple others, .tuple matched =>
    rw [Key.alike]
    refine allAlike_of_forall₂ true _ _ ?_ matched
    intro item member other itemEqual
    exact Equals.alike itemEqual
  | .set members, .set others, @Equals.set _ moved _ order matched =>
    rw [Key.alike, Bool.and_eq_true, beq_iff_eq]
    refine ⟨order.length_eq.trans matched.length_eq, ?_⟩
    apply allAmong_of_exists
    intro item member
    obtain ⟨other, inOthers, itemEqual⟩ :=
      exists_left_of_forall₂ matched.flip item (order.mem_iff.mp member)
    exact ⟨other, inOthers, Equals.alike itemEqual⟩
  | .replacement held, .replacement other, .replacement matched =>
    rw [Key.alike]
    exact Equals.alike matched
termination_by sizeOf key
decreasing_by
  · have smaller := List.sizeOf_lt_of_mem member
    simp only [Key.tuple.sizeOf_spec]
    omega
  · have smaller := List.sizeOf_lt_of_mem member
    simp only [Key.set.sizeOf_spec]
    omega
  · simp

end Key

namespace Value

/-- Every value is equal to itself. -/
theorem Equals.refl (value : Value) : value.Equals value := by
  match value with
  | .null => exact .null
  | .bool b | .int n | .real x => exact .number rfl rfl rfl
  | .text s => exact .text s
  | .list items =>
    refine .list (List.forall₂_same.mpr fun item member => ?_)
    exact refl item
  | .tuple items =>
    refine .tuple (List.forall₂_same.mpr fun item member => ?_)
    exact refl item
  | .set frozen members => exact .set frozen frozen (Key.Equals.refl _)
  | .mapping entries =>
    refine .mapping (List.Perm.refl _) (List.forall₂_same.mpr ?_)
    intro (key, held) member
    exact .of (Key.Equals.refl key) (refl held)
  | .replacement held => exact .replacement (refl held)
termination_by sizeOf value
decreasing_by
  · have smaller := List.sizeOf_lt_of_mem member
    simp only [Value.list.sizeOf_spec]
    omega
  · have smaller := List.sizeOf_lt_of_mem member
    simp only [Value.tuple.sizeOf_spec]
    omega
  · have smaller := List.sizeOf_lt_of_mem member
    simp only [Prod.mk.sizeOf_spec] at smaller
    simp only [Value.mapping.sizeOf_spec]
    omega
  · simp

/-- Equality of values can be turned round. -/
theorem Equals.symm {value other : Value} (equal : value.Equals other) : other.Equals value := by
  match value, other, equal with
  | _, _, .null => exact .null
  | _, _, .number first second same => exact .number second first same.symm
  | _, _, .text s => exact .text s
  | _, _, .list matched =>
    refine .list (forall₂_flip_of Value.Equals _ _ _ ?_ matched)
    intro item member other itemEqual
    exact symm itemEqual
  | _, _, .tuple matched =>
    refine .tuple (forall₂_flip_of Value.Equals _ _ _ ?_ matched)
    intro item member other itemEqual
    exact symm itemEqual
  | _, _, .set frozen otherFrozen matched => exact .set otherFrozen frozen matched.symm
  | .mapping entries, .mapping others, @Value.Equals.mapping _ moved _ order matched =>
    have turned : List.Forall₂ EntryEquals others moved := by
      refine forall₂_flip_of EntryEquals _ _ _ ?_ matched
      rintro ⟨key, held⟩ member ⟨otherKey, otherHeld⟩ ⟨keys, values⟩
      have inEntries := order.mem_iff.mpr member
      exact .of keys.symm (symm values)
    obtain ⟨reordered, first, before⟩ := perm_before_of_behind _ _ _ _ turned order.symm
    exact .mapping first before
  | _, _, .replacement matched => exact .replacement (symm matched)
termination_by sizeOf value
decreasing_by
  · have smaller := List.sizeOf_lt_of_mem member
    simp only [Value.list.sizeOf_spec]
    omega
  · have smaller := List.sizeOf_lt_of_mem member
    simp only [Value.tuple.sizeOf_spec]
    omega
  · have smaller := List.sizeOf_lt_of_mem inEntries
    simp only [Prod.mk.sizeOf_spec] at smaller
    simp only [Value.mapping.sizeOf_spec]
    omega
  · simp

/-- Only a list is equal to a list, and then part by part. -/
theorem Equals.exists_list {value : Value} {items : List Value}
    (equal : value.Equals (.list items)) :
    ∃ held, value = .list held ∧ List.Forall₂ Equals held items := by
  cases equal with
  | number first second same => cases second
  | list matched => exact ⟨_, rfl, matched⟩

/-- A number is alike exactly to numbers that are alike. -/
theorem alike_of_number (nanIsEqual : Bool) (value other : Value) (n : Number)
    (number : value.number? = some n) : value.alike nanIsEqual other =
      match other.number? with
      | some m => Key.numbersAlike nanIsEqual n m
      | none => false := by
  cases value <;> simp only [number?, reduceCtorEq, Option.some.injEq] at number <;>
    subst number <;> cases other <;> simp only [alike, number?]

/-- What a number is alike to is equal to it. -/
theorem equals_of_number (nanIsEqual : Bool) (value other : Value) (n : Number)
    (number : value.number? = some n) (same : value.alike nanIsEqual other = true) :
    value.Equals other := by
  rw [alike_of_number nanIsEqual value other n number] at same
  split at same
  · next m found => exact .number number found (Key.extent_eq_of_numbersAlike nanIsEqual n m same)
  · cases same

/-- Whatever a proper value is alike to is equal to it.

Proof: by induction on how the value is proper. The entries of a mapping of one size each have
their like in the other one, and no two of them the same since their keys are apart, so they
can be put in order. -/
theorem Proper.equals_of_alike (nanIsEqual : Bool) {value : Value} (proper : value.Proper)
    (other : Value) (same : value.alike nanIsEqual other = true) : value.Equals other := by
  induction proper generalizing other with
  | null =>
    cases other <;> simp only [alike, number?, Bool.false_eq_true] at same
    exact .null
  | bool b => exact equals_of_number nanIsEqual _ _ _ rfl same
  | int n => exact equals_of_number nanIsEqual _ _ _ rfl same
  | real x => exact equals_of_number nanIsEqual _ _ _ rfl same
  | text s =>
    cases other <;> simp only [alike, number?, Bool.false_eq_true, beq_iff_eq] at same
    exact same ▸ .text s
  | list parts ih =>
    cases other <;> simp only [alike, number?, Bool.false_eq_true] at same
    case list others =>
      refine .list (forall₂_of_allAlike nanIsEqual _ _ ?_ same)
      intro item member other _
      exact ih item member other
  | tuple parts ih =>
    cases other <;> simp only [alike, number?, Bool.false_eq_true] at same
    case tuple others =>
      refine .tuple (forall₂_of_allAlike nanIsEqual _ _ ?_ same)
      intro item member other _
      exact ih item member other
  | set frozen whole =>
    cases other <;> simp only [alike, number?, Bool.false_eq_true] at same
    case set otherFrozen others =>
      exact .set frozen otherFrozen (whole.equals_of_alike nanIsEqual _ same)
  | @mapping entries keys values apart ih =>
    cases other <;> simp only [alike, number?, Bool.false_eq_true] at same
    case mapping others =>
      rw [Bool.and_eq_true, beq_iff_eq] at same
      obtain ⟨moved, order, matched⟩ := exists_perm_forall₂ EntryEquals entries others same.1
        (by
          intro entry member
          obtain ⟨other, inOthers, keyAlike, valueAlike⟩ :=
            exists_alike_of_allMatched nanIsEqual _ _ same.2 entry member
          exact ⟨other, inOthers, .of ((keys entry member).equals_of_alike nanIsEqual _ keyAlike)
            (ih entry member _ valueAlike)⟩)
        (apart.imp (by
          rintro entry next distinct other ⟨firstKeys, -⟩ ⟨secondKeys, -⟩
          exact distinct (firstKeys.trans secondKeys.symm)))
      exact .mapping order matched
  | replacement inside ih =>
    cases other <;> simp only [alike, number?, Bool.false_eq_true] at same
    case replacement other => exact .replacement (ih other same)

/-- Sequences whose parts are related are alike, if related parts are. -/
theorem allAlike_of_forall₂ (nanIsEqual : Bool) {relation : Value → Value → Prop}
    (items others : List Value)
    (each : ∀ item ∈ items, ∀ other, relation item other → item.alike nanIsEqual other = true)
    (matched : List.Forall₂ relation items others) : allAlike nanIsEqual items others = true := by
  induction matched with
  | nil => rfl
  | cons here _ ih =>
    rw [allAlike, Bool.and_eq_true]
    exact ⟨each _ List.mem_cons_self _ here,
      ih fun item member => each item (List.mem_cons_of_mem _ member)⟩

/-- Entries are matched by others if each has its like there. -/
theorem allMatched_of_exists (nanIsEqual : Bool) (entries others : List (Key × Value))
    (like : ∀ entry ∈ entries, ∃ other ∈ others, entry.1.alike nanIsEqual other.1 = true ∧
      entry.2.alike nanIsEqual other.2 = true) :
    allMatched nanIsEqual entries others = true := by
  induction entries with
  | nil => rfl
  | cons entry rest ih =>
    rw [allMatched, Bool.and_eq_true, List.any_eq_true]
    refine ⟨?_, ih fun next member => like next (List.mem_cons_of_mem _ member)⟩
    simpa only [Bool.and_eq_true] using like entry List.mem_cons_self

/-- Equal values are the same by computation. -/
theorem Equals.alike {value other : Value} (equal : value.Equals other) :
    value.alike true other = true := by
  match value, other, equal with
  | _, _, .null => rfl
  | value, other, @Equals.number _ _ n m first second same =>
    rw [alike_of_number true value other n first, second]
    exact (Key.numbersAlike_iff n m).mpr same
  | _, _, .text s => simp [Value.alike]
  | .list items, .list others, .list matched =>
    rw [Value.alike]
    refine allAlike_of_forall₂ true _ _ ?_ matched
    intro item member other itemEqual
    exact Equals.alike itemEqual
  | .tuple items, .tuple others, .tuple matched =>
    rw [Value.alike]
    refine allAlike_of_forall₂ true _ _ ?_ matched
    intro item member other itemEqual
    exact Equals.alike itemEqual
  | .set _ _, .set _ _, .set frozen otherFrozen matched =>
    rw [Value.alike]
    exact matched.alike
  | .mapping entries, .mapping others, @Equals.mapping _ moved _ order matched =>
    rw [Value.alike, Bool.and_eq_true, beq_iff_eq]
    refine ⟨order.length_eq.trans matched.length_eq, ?_⟩
    apply allMatched_of_exists
    rintro ⟨key, held⟩ member
    obtain ⟨⟨otherKey, otherHeld⟩, inOthers, ⟨keys, values⟩⟩ :=
      exists_left_of_forall₂ matched.flip _ (order.mem_iff.mp member)
    exact ⟨_, inOthers, keys.alike, Equals.alike values⟩
  | .replacement held, .replacement other, .replacement matched =>
    rw [Value.alike]
    exact Equals.alike matched
termination_by sizeOf value
decreasing_by
  · have smaller := List.sizeOf_lt_of_mem member
    simp only [Value.list.sizeOf_spec]
    omega
  · have smaller := List.sizeOf_lt_of_mem member
    simp only [Value.tuple.sizeOf_spec]
    omega
  · have smaller := List.sizeOf_lt_of_mem member
    simp only [Prod.mk.sizeOf_spec] at smaller
    simp only [Value.mapping.sizeOf_spec]
    omega
  · simp

end Value

end Stepwise
