import Stepwise.Binary64.Reader
import Stepwise.Text.Blank
import Stepwise.Text.Digit

/-!
# Numerals in texts

A plain numeral is zero or digits that do not start with a zero, with a minus sign or
without. Texts that are no plain numerals are first brought towards one: blanks around
them, a plus sign, zeros in front, a fraction of zeros and underscores between digits
are taken away, in this order and each by its own rule. A minus sign in front stays, and
what is behind it is brought towards digits by the same rules.

Zeros in front are taken away together with any underscores among them, and what they
uncover may be a minus sign. Only a plain numeral can be too long; whatever had to be
brought towards one and is too long then is no numeral at all. The sign adds nothing to
the length.
-/

namespace Stepwise.Text

/-- What a text says about an integer. -/
inductive Numeral where
  | value (n : Int)
  | tooLong
  | none

namespace Numeral

/-- The most digits of a plain numeral. -/
def longest : Nat := 4300

/-- Whether a character is a digit other than zero. -/
def isLeadingDigit (c : Char) : Bool := c.isDigit && c ≠ '0'

/-- The number that digits stand for, without needless zeros in front. -/
def magnitude? (digits : List Char) : Option Nat :=
  match digits with
  | [] => Option.none
  | ['0'] => some 0
  | first :: rest =>
    if isLeadingDigit first && rest.all Char.isDigit then some (Binary64.digitsValue digits)
    else Option.none

/-- The number that a plain numeral stands for. -/
def plain? : List Char → Option Int
  | '-' :: digits => (magnitude? digits).map fun n => -(n : Int)
  | digits => (magnitude? digits).map fun n => (n : Int)

/-- The number of digits that a text starts with, none if the first of them is zero. -/
def leadingDigits (text : List Char) : Nat :=
  if (text.head?.map isLeadingDigit).getD false then (text.takeWhile Char.isDigit).length else 0

/-- The number of digits of the numeral that a text starts with, behind its sign if it
    has one. -/
def leadingLength : List Char → Nat
  | '-' :: digits => leadingDigits digits
  | digits => leadingDigits digits

/-- A text without a plus sign; behind one no minus sign may stand. -/
def withoutPlus? : List Char → Option (List Char)
  | '+' :: '-' :: _ => Option.none
  | '+' :: rest => some rest
  | text => some text

/-- What is left behind zeros and underscores, `last` being the one passed last. A
    point needs a zero before it, and where nothing follows the last one stays. -/
def behindZeros? (last : Char) : List Char → Option (List Char)
  | [] => some [last]
  | c :: rest =>
    if c = '0' ∨ c = '_' then behindZeros? c rest
    else if isLeadingDigit c ∨ c = '-' then some (c :: rest)
    else if c = '.' then some (last :: c :: rest)
    else Option.none

/-- A text without zeros in front; it must start as a numeral does. -/
def withoutLeadingZeros? : List Char → Option (List Char)
  | [] => Option.none
  | c :: rest =>
    if c = '0' then behindZeros? c rest
    else if isLeadingDigit c ∨ c = '-' then some (c :: rest)
    else Option.none

/-- A text without a fraction that consists of zeros. -/
def withoutZeroFraction (text : List Char) : List Char :=
  let fraction := (text.dropWhile (· ≠ '.')).tail
  if !fraction.isEmpty && fraction.all (· = '0') then text.takeWhile (· ≠ '.') else text

/-- Whether every underscore stands alone and has characters on both sides. -/
def underscoresInside (text : List Char) : Bool :=
  text.head? ≠ some '_' && text.getLast? ≠ some '_' && (text.zip text.tail).all (· ≠ ('_', '_'))

/-- A text without its underscores, where they stand as they may. -/
def withoutUnderscores (text : List Char) : List Char :=
  if underscoresInside text then text.filter (· ≠ '_') else text

/-- A text behind its sign brought towards digits. -/
def unpadded? (text : List Char) : Option (List Char) :=
  (withoutLeadingZeros? text).map fun stripped => withoutUnderscores (withoutZeroFraction stripped)

/-- A text brought towards a plain numeral. -/
def cleaned? (text : List Char) : Option (List Char) :=
  match withoutPlus? (trimmed text) with
  | some ('-' :: digits) => (unpadded? digits).map ('-' :: ·)
  | some digits => unpadded? digits
  | Option.none => Option.none

/-- The integer that digits of any script stand for, whatever zeros are in front; blanks
    around them, a sign and single underscores between them are admitted. -/
def loose? (text : List Char) : Option Int :=
  let (negative, body) := Binary64.spanSign (trimmed (text.map asciiDigit))
  let digits := withoutUnderscores body
  if !digits.isEmpty && digits.all Char.isDigit then
    some (if negative then -(Binary64.digitsValue digits : Int) else Binary64.digitsValue digits)
  else Option.none

/-- What a text says about an integer. -/
def read (text : List Char) : Numeral :=
  if longest < leadingLength text then .tooLong
  else
    match plain? text with
    | some n => .value n
    | Option.none =>
      match (cleaned? text).filter (fun cleaned => leadingLength cleaned ≤ longest) with
      | some cleaned =>
        match plain? cleaned with
        | some n => .value n
        | Option.none => .none
      | Option.none => .none

end Numeral
end Stepwise.Text
