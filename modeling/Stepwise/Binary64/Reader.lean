import Stepwise.Binary64

/-!
# Reading decimal numbers

A decimal text is an optional sign, digits with an optional point, and an optional
exponent; `inf`, `infinity` and `nan` are read in any case. The value is taken
exactly and rounded once.
-/

namespace Stepwise.Binary64

/-- Leading decimal digits and what follows them. -/
def spanDigits (text : List Char) : List Char × List Char :=
  (text.takeWhile Char.isDigit, text.dropWhile Char.isDigit)

/-- The number that a list of decimal digits stands for. -/
def digitsValue (digits : List Char) : Nat :=
  digits.foldl (fun value digit => 10 * value + (digit.toNat - '0'.toNat)) 0

/-- A leading sign, and whether it is negative. -/
def spanSign : List Char → Bool × List Char
  | '-' :: rest => (true, rest)
  | '+' :: rest => (false, rest)
  | text => (false, text)

/-- The exponent part of a text, which it must use up. -/
def readExponent : List Char → Option Int
  | [] => some 0
  | mark :: rest =>
    if mark = 'e' ∨ mark = 'E' then
      let (negative, rest) := spanSign rest
      let (digits, rest) := spanDigits rest
      if digits.isEmpty ∨ !rest.isEmpty then none
      else some (if negative then -(digitsValue digits : Int) else digitsValue digits)
    else none

/-- The number nearest to `count * 10 ^ scale`. Past four hundred places the result
    is known without the power. -/
def ofDecimal (negative : Bool) (count : Nat) (scale : Int) : Binary64 :=
  let power := scale + (Nat.toDigits 10 count).length
  if count = 0 then zero negative
  else if power > 400 then .infinite negative
  else if power < -400 then zero negative
  else
    match scale with
    | .ofNat up => ofRatio negative (count * Nat.pow 10 up) 1
    | .negSucc down => ofRatio negative count (Nat.pow 10 (down + 1))

/-- Whether a text is one of the given words, letters in any case. -/
def isWord (text : List Char) (words : List String) : Bool :=
  words.any fun word => text.map Char.toLower = word.toList

/-- Read an unsigned decimal text. -/
def readUnsigned (negative : Bool) (text : List Char) : Option Binary64 :=
  if isWord text ["inf", "infinity"] then some (.infinite negative)
  else if isWord text ["nan"] then some noNumber
  else
    let (whole, rest) := spanDigits text
    let (fraction, rest) :=
      match rest with
      | '.' :: after => spanDigits after
      | _ => ([], rest)
    if whole.isEmpty ∧ fraction.isEmpty then none
    else
      (readExponent rest).map fun exponent =>
        ofDecimal negative (digitsValue (whole ++ fraction)) (exponent - fraction.length)

/-- Read a decimal text, using it up. -/
def read? (text : List Char) : Option Binary64 :=
  let (negative, rest) := spanSign text
  readUnsigned negative rest

end Stepwise.Binary64
