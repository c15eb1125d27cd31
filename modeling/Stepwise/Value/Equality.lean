import Stepwise.Value

/-!
# Equality of values

Numbers and truth values are equal when their exact values are, lists only to lists
and tuples only to tuples, mappings and sets whatever the order of what they hold. NaN
is equal to nothing under `equal`; `same` differs from it in that NaN is the same as
NaN of the same payload, and is therefore reflexive.
-/

namespace Stepwise.Value

mutual

/-- Equality by exact value, with NaN equal to itself or not. -/
def alike (nanIsEqual : Bool) : Value → Value → Bool
  | .null, .null => true
  | .text s, .text t => s == t
  | .list xs, .list ys => allAlike nanIsEqual xs ys
  | .tuple xs, .tuple ys => allAlike nanIsEqual xs ys
  | .set _ xs, .set _ ys => (Key.set xs).alike nanIsEqual (.set ys)
  | .mapping xs, .mapping ys => xs.length == ys.length && allMatched nanIsEqual xs ys
  | .replacement x, .replacement y => alike nanIsEqual x y
  | a, b =>
    match a.number?, b.number? with
    | some n, some m => Key.numbersAlike nanIsEqual n m
    | _, _ => false

/-- Equality of sequences, part by part. -/
def allAlike (nanIsEqual : Bool) : List Value → List Value → Bool
  | [], [] => true
  | x :: xs, y :: ys => alike nanIsEqual x y && allAlike nanIsEqual xs ys
  | _, _ => false

/-- Every entry of the first list has its equal among the second's. -/
def allMatched (nanIsEqual : Bool) : List (Key × Value) → List (Key × Value) → Bool
  | [], _ => true
  | (key, value) :: rest, ys =>
    (ys.any fun entry => key.alike nanIsEqual entry.1 && alike nanIsEqual value entry.2) &&
      allMatched nanIsEqual rest ys

end

/-- Equality, under which NaN differs from itself. -/
def equal (a b : Value) : Bool := alike false a b

/-- Equality, under which NaN is the same as NaN of the same payload. -/
def same (a b : Value) : Bool := alike true a b

/-- Equality of a value with what became of it. A NaN that stands inside it and was kept
    is the same; a NaN by itself differs from itself. -/
def equalIfKept (a b : Value) : Bool :=
  match a with
  | .real (.nan _) => false
  | _ => same a b

end Stepwise.Value
