import Stepwise.Value

/-!
# Members of sets

A set holds each member once. A set of numbers keeps them in slots and is gone through
slot by slot: a number goes to the slot that its code names, or where that is taken to
the first free one of those tried next, and as soon as three in five slots are taken the
set moves to more of them. A set with any other member is gone through in the order in
which the members were added.

A set that is made again from its members in this order need not keep it.
-/

namespace Stepwise

/-- The prime modulo which numbers have their codes. -/
def codePrime : Nat := Nat.pow 2 61 - 1

/-- The code of an infinite number. -/
def infiniteCode : Int := 314159

/-- The code of a fraction whose denominator is a power of two: its residue modulo the
    prime, with its sign. Powers of two repeat there after 61, which makes the division a
    multiplication. One code is left out; the next stands for it as well. -/
def codeOfRatio (numerator : Int) (denominator : Nat) : Int :=
  let factor := Nat.pow 2 (61 - denominator.log2 % 61)
  let residue : Int := (numerator.natAbs * factor % codePrime : Nat)
  let code := if numerator < 0 then -residue else residue
  if code = -1 then -2 else code

/-- The code of a number, by which equal numbers have equal ones. NaN has none. -/
def Number.code? (number : Number) : Option Int :=
  match number.toRatio? with
  | some (numerator, denominator) => some (codeOfRatio numerator denominator)
  | none =>
    number.infiniteSign?.map fun negative => if negative then -infiniteCode else infiniteCode

namespace Key

/-- Keys without those that are one with an earlier key. -/
def distinct (keys : List Key) : List Key :=
  keys.foldl (fun found key => if found.contains key then found else found ++ [key]) []

/-- The code of a key; only numbers have one. -/
def code? (key : Key) : Option Int := key.number?.bind Number.code?

/-- The code of a key as a word of 64 bits. -/
def word (key : Key) : Nat := ((key.code?.getD 0) % (Nat.pow 2 64 : Int)).toNat

/-- The slots that are tried together: the one named and the nine behind it, if there are
    as many. -/
def neighbours (size slot : Nat) : List Nat :=
  if slot + 9 < size then List.range' slot 10 else [slot]

/-- The first free slot for a word. Each time all that are tried together are taken, the
    place of the next ones is made of the last place and of what is left of the word. -/
def freeSlot (isTaken : Nat → Bool) (size : Nat) : Nat → Nat → Nat → Nat
  | 0, slot, _ => slot
  | tries + 1, slot, word =>
    match (neighbours size slot).find? fun tried => !isTaken tried with
    | some free => free
    | none =>
      freeSlot isTaken size tries ((5 * slot + 1 + word / 32) % size) (word / 32)

end Key

/-- Numbers in slots. -/
structure Slots where
  size : Nat
  taken : List (Nat × Key)

namespace Slots

/-- No number in eight slots. -/
def empty : Slots := ⟨8, []⟩

/-- The numbers slot by slot. -/
def members (slots : Slots) : List Key :=
  (slots.taken.mergeSort fun a b => a.1 ≤ b.1).map Prod.snd

/-- Put a number into its slot. -/
def put (slots : Slots) (key : Key) : Slots :=
  let isTaken := fun slot => slots.taken.any fun entry => entry.1 == slot
  let slot := Key.freeSlot isTaken slots.size (slots.size + 64) (key.word % slots.size) key.word
  { slots with taken := (slot, key) :: slots.taken }

/-- The number of slots that so many numbers move to: the least power of two that is more
    than four times as much. -/
def sizeFor (count : Nat) : Nat := Nat.pow 2 ((4 * count).log2 + 1)

/-- Add a number. -/
def add (slots : Slots) (key : Key) : Slots :=
  let filled := slots.put key
  let count := filled.taken.length
  if 5 * count < 3 * (filled.size - 1) then filled
  else filled.members.foldl put ⟨sizeFor count, []⟩

end Slots

namespace Key

/-- Members, added in this order, in the order in which their set is gone through. -/
def inSetOrder (members : List Key) : List Key :=
  if members.all fun key => key.code?.isSome then (members.foldl Slots.add Slots.empty).members
  else members

/-- The members of the set of some keys. -/
def membersOf (keys : List Key) : List Key := inSetOrder (distinct keys)

end Key
end Stepwise
