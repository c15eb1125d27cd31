import Stepwise.Binary64

/-!
# Shortest decimal text

The text of a finite number is the fewest significant digits that read back as the
same number and, of those, the nearest to it. The digits are found by exact integer
arithmetic: a decimal grid is tried for one digit, two digits and so on, and on each
grid only the two neighbours of the number need to be looked at, because an interval
around the number that meets the grid at all meets it at a neighbour.
-/

namespace Stepwise.Binary64

/-- The number of decimal digits of a natural number. -/
def digitCount (n : Nat) : Nat := (Nat.toDigits 10 n).length

/-- The exponent of the power of ten at or below a positive ratio. -/
def floorLog10 (numerator denominator : Nat) : Int :=
  if denominator ≤ numerator then (digitCount (numerator / denominator) : Int) - 1
  else -(digitCount ((denominator - 1) / numerator) : Int)

/-- The positive reals that round to one number: a pair of bounds over a common
    denominator, both included or both not. -/
structure Interval where
  lower : Nat
  upper : Nat
  denominator : Nat
  closed : Bool

/-- The reals that round to `significand * 2 ^ exponent`, over four times the grid of
    that number, so that both half steps are whole. Below a power of two the step
    is half as wide. A bound rounds to the even significand. -/
def roundingInterval (significand : Nat) (exponent : Int) : Interval × Nat :=
  let below := if significand = Nat.pow 2 52 ∧ leastExponent < exponent then 1 else 2
  let closed := significand % 2 = 0
  match exponent with
  | .ofNat up =>
    (⟨(4 * significand - below) * Nat.pow 2 up, (4 * significand + 2) * Nat.pow 2 up, 4, closed⟩,
      4 * significand * Nat.pow 2 up)
  | .negSucc down =>
    (⟨4 * significand - below, 4 * significand + 2, 4 * Nat.pow 2 (down + 1), closed⟩,
      4 * significand)

/-- Whether `count * 10 ^ scale` lies in the interval. -/
def Interval.holds (interval : Interval) (count : Nat) (scale : Int) : Bool :=
  let (point, unit) : Nat × Nat :=
    match scale with
    | .ofNat up => (count * Nat.pow 10 up * interval.denominator, 1)
    | .negSucc down => (count * interval.denominator, Nat.pow 10 (down + 1))
  if interval.closed then interval.lower * unit ≤ point ∧ point ≤ interval.upper * unit
  else interval.lower * unit < point ∧ point < interval.upper * unit

/-- The grid neighbours of `value / denominator` at `scale`, as counts of grid steps,
    with the standing of twice the rest to a whole step. -/
def neighbours (value denominator : Nat) (scale : Int) : Nat × Ordering :=
  let (upper, lower) : Nat × Nat :=
    match scale with
    | .ofNat up => (value, denominator * Nat.pow 10 up)
    | .negSucc down => (value * Nat.pow 10 (down + 1), denominator)
  (upper / lower, compare (2 * (upper % lower)) lower)

/-- Try grids from the coarsest on; the first that meets the interval wins, and of
    two hits on it the nearer, a tie going to the even one. -/
def searchGrids (interval : Interval) (value : Nat) (scale : Int) : Nat → Nat × Int
  | 0 => ((neighbours value interval.denominator scale).1, scale)
  | left + 1 =>
    let (low, rest) := neighbours value interval.denominator scale
    match interval.holds low scale, interval.holds (low + 1) scale with
    | true, true =>
      match rest with
      | .lt => (low, scale)
      | .gt => (low + 1, scale)
      | .eq => (if low % 2 = 0 then low else low + 1, scale)
    | true, false => (low, scale)
    | false, true => (low + 1, scale)
    | false, false => searchGrids interval value (scale - 1) left

/-- The shortest decimal of a positive finite number, as a count and a power of ten. -/
def shortest (significand : Nat) (exponent : Int) : Nat × Int :=
  let (interval, value) := roundingInterval significand exponent
  searchGrids interval value (floorLog10 value interval.denominator) 17

/-- Drop the trailing zeros of a count into the power of ten. The count bounds the
    number of its digits. -/
def dropZeros : Nat → Nat → Int → Nat × Int
  | 0, count, scale => (count, scale)
  | fuel + 1, count, scale =>
    if count ≠ 0 ∧ count % 10 = 0 then dropZeros fuel (count / 10) (scale + 1) else (count, scale)

/-- How decimal texts are laid out: positional from `10 ^ least` up to below
    `10 ^ bound`, with an exponent of at least `exponentDigits` digits elsewhere. -/
structure Layout where
  least : Int
  bound : Int
  exponentDigits : Nat

/-- Numbers from a ten-thousandth up to below ten to the sixteenth are positional. -/
def standardLayout : Layout := ⟨-4, 16, 2⟩

/-- Digits padded on the left with zeros. -/
def padded (width : Nat) (digits : List Char) : List Char :=
  List.replicate (width - digits.length) '0' ++ digits

/-- The text of digits `d₁d₂…` standing for `d₁.d₂… * 10 ^ power`. A positional text
    always has a point and a digit after it. -/
def Layout.render (layout : Layout) (digits : List Char) (power : Int) : List Char :=
  if layout.least ≤ power ∧ power < layout.bound then
    if power < 0 then '0' :: '.' :: List.replicate (-power - 1).toNat '0' ++ digits
    else
      let whole := power.toNat + 1
      if digits.length ≤ whole then
        digits ++ List.replicate (whole - digits.length) '0' ++ ['.', '0']
      else digits.take whole ++ '.' :: digits.drop whole
  else
    let mantissa :=
      match digits with
      | first :: second :: rest => first :: '.' :: second :: rest
      | _ => digits
    let sign := if power < 0 then '-' else '+'
    mantissa ++ 'e' :: sign :: padded layout.exponentDigits (Nat.toDigits 10 power.natAbs)

/-- The text of a number: shortest digits, `inf`, `-inf` and `nan`; a zero keeps its
    sign. -/
def toText : Binary64 → String
  | .nan _ => "nan"
  | .infinite negative => if negative then "-inf" else "inf"
  | .finite negative significand exponent =>
    let sign := if negative then ['-'] else []
    if significand = 0 then String.ofList (sign ++ ['0', '.', '0'])
    else
      let (count, scale) := shortest significand exponent
      let (count, scale) := dropZeros (digitCount count) count scale
      let digits := Nat.toDigits 10 count
      let power := scale + digits.length - 1
      String.ofList (sign ++ standardLayout.render digits power)

end Stepwise.Binary64
