/-!
# Numbers in the 64-bit binary floating-point format

A finite number is held by its exact value: a sign, a significand and a power of
two. Every operation is computed exactly on those parts and rounded once, to the
nearest representable number and on a tie to the even significand, so nothing here
depends on the machine's own arithmetic. Texts are read and written in
`Binary64.Reader` and `Binary64.Shortest`.

NaN carries a payload, by which one NaN can be told from another. Comparisons and texts
do not look at it.
-/

namespace Stepwise

/-- A number of the 64-bit binary format. `finite negative m e` stands for
    `m * 2 ^ e`, negated when `negative` holds; zero keeps its sign. -/
inductive Binary64 where
  | finite (negative : Bool) (significand : Nat) (exponent : Int)
  | infinite (negative : Bool)
  | nan (payload : Nat)
deriving DecidableEq

namespace Binary64

/-- The least exponent of a finite number. -/
def leastExponent : Int := -1074

/-- The greatest exponent of a finite number. -/
def greatestExponent : Int := 971

/-- Zero with the given sign. -/
def zero (negative : Bool) : Binary64 := .finite negative 0 leastExponent

/-- The quotient rounded to the nearest natural number, a tie to the even one. -/
def roundedQuotient (numerator denominator : Nat) : Nat :=
  let quotient := numerator / denominator
  let rest := numerator % denominator
  if 2 * rest > denominator ∨ (2 * rest = denominator ∧ quotient % 2 = 1) then quotient + 1
  else quotient

/-- Multiply both sides of a ratio so that `numerator / denominator` is divided by
    `2 ^ exponent`. -/
def scaledRatio (numerator denominator : Nat) (exponent : Int) : Nat × Nat :=
  match exponent with
  | .ofNat up => (numerator, denominator * Nat.pow 2 up)
  | .negSucc down => (numerator * Nat.pow 2 (down + 1), denominator)

/-- The exponent of the power of two just below a positive ratio. -/
def floorLog2 (numerator denominator : Nat) : Int :=
  let guess : Int := numerator.log2 - denominator.log2
  let (upper, lower) := scaledRatio numerator denominator guess
  if upper < lower then guess - 1 else guess

/-- The representable number nearest to a non-negative ratio, with a sign. A result
    past the greatest finite number is infinite. -/
def ofRatio (negative : Bool) (numerator denominator : Nat) : Binary64 :=
  if numerator = 0 then zero negative
  else
    let exponent := max (floorLog2 numerator denominator - 52) leastExponent
    let (upper, lower) := scaledRatio numerator denominator exponent
    let significand := roundedQuotient upper lower
    if significand = Nat.pow 2 53 then
      if exponent + 1 > greatestExponent then .infinite negative
      else .finite negative (Nat.pow 2 52) (exponent + 1)
    else if exponent > greatestExponent then .infinite negative
    else .finite negative significand exponent

/-- The representable number nearest to an integer. -/
def ofInt (n : Int) : Binary64 := ofRatio (decide (n < 0)) n.natAbs 1

/-- The exact value as a signed numerator over a power of two; nothing for the
    infinite numbers and for NaN. -/
def toRatio? : Binary64 → Option (Int × Nat)
  | .finite negative significand exponent =>
    let signed : Int := if negative then -significand else significand
    match exponent with
    | .ofNat up => some (signed * (Nat.pow 2 up : Nat), 1)
    | .negSucc down => some (signed, Nat.pow 2 (down + 1))
  | _ => none

/-- The NaN that results where there is no number. -/
def noNumber : Binary64 := .nan 0

/-- The sum rounded once. A NaN is passed on, opposite infinities have no sum, and a zero
    sum is negative only when both terms are. -/
def add : Binary64 → Binary64 → Binary64
  | .nan payload, _ => .nan payload
  | _, .nan payload => .nan payload
  | .infinite a, .infinite b => if a = b then .infinite a else noNumber
  | .infinite a, .finite .. => .infinite a
  | .finite .., .infinite b => .infinite b
  | x@(.finite a ..), y@(.finite b ..) =>
    match x.toRatio?, y.toRatio? with
    | some (n, d), some (m, c) =>
      let total := n * c + m * d
      if total = 0 then zero (a && b) else ofRatio (decide (total < 0)) total.natAbs (d * c)
    | _, _ => noNumber

/-- The integer that a number is, if it is one. -/
def toInt? (x : Binary64) : Option Int :=
  match x.toRatio? with
  | some (n, d) => if n % d = 0 then some (n / d) else none
  | none => none

/-- Whether the number is finite. -/
def isFinite : Binary64 → Bool
  | .finite .. => true
  | _ => false

end Binary64

/-- How two numbers stand to each other; `unordered` when one of them is NaN. -/
inductive Standing where
  | less | equal | greater | unordered
deriving DecidableEq

/-- A number of either kind: an integer of any size or a floating-point number. -/
inductive Number where
  | int (n : Int)
  | real (x : Binary64)
deriving DecidableEq

namespace Number

/-- The exact value of a finite number as a fraction. -/
def toRatio? : Number → Option (Int × Nat)
  | .int n => some (n, 1)
  | .real x => x.toRatio?

/-- The sign of an infinite number. -/
def infiniteSign? : Number → Option Bool
  | .real (.infinite negative) => some negative
  | _ => none

/-- Numbers are compared by their exact values; no conversion rounds. -/
def compare (a b : Number) : Standing :=
  match a.toRatio?, b.toRatio? with
  | some (n, d), some (m, c) =>
    if n * c < m * d then .less else if n * c = m * d then .equal else .greater
  | some _, none =>
    match b.infiniteSign? with
    | some negative => if negative then .greater else .less
    | none => .unordered
  | none, some _ =>
    match a.infiniteSign? with
    | some negative => if negative then .less else .greater
    | none => .unordered
  | none, none =>
    match a.infiniteSign?, b.infiniteSign? with
    | some p, some q => if p = q then .equal else if p then .less else .greater
    | _, _ => .unordered

/-- The payload of NaN. -/
def payload? : Number → Option Nat
  | .real (.nan payload) => some payload
  | _ => none

/-- Zero of either kind and either sign. -/
def isZero : Number → Bool
  | .int n => n = 0
  | .real (.finite _ significand _) => significand = 0
  | .real _ => false

/-- A number in the floating-point format; an integer beyond the finite ones is not in
    it. -/
def toReal? : Number → Option Binary64
  | .int n =>
    let x := Binary64.ofInt n
    if x.isFinite then some x else none
  | .real x => some x

/-- Addition is exact on integers; with a floating-point term both are taken to that
    format first. -/
def add? : Number → Number → Option Number
  | .int n, .int m => some (.int (n + m))
  | a, b =>
    match a.toReal?, b.toReal? with
    | some x, some y => some (.real (x.add y))
    | _, _ => none

/-- Whether the number is an even integer. -/
def isEven : Number → Bool
  | .int n => n % 2 = 0
  | .real x =>
    match x.toInt? with
    | some n => n % 2 = 0
    | none => false

end Number
end Stepwise
