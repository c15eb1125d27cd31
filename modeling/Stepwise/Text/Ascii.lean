import Stepwise.Value.Text

/-!
# Texts in ASCII

A text between double quotes in which every character outside printable ASCII is
escaped: a few controls by a letter, the others by their 16-bit units, of which
characters past the first 65536 have two.
-/

namespace Stepwise.Text

/-- A 16-bit unit as an escape. -/
def escapedUnit (unit : Nat) : List Char := backslash :: 'u' :: hexadecimal 4 unit

/-- A code point as 16-bit units. -/
def units (point : Nat) : List Nat :=
  if point < 65536 then [point]
  else [55296 + (point - 65536) / 1024, 56320 + (point - 65536) % 1024]

/-- The letters of controls that have an escape of their own. -/
def controlLetters : List (Nat × Char) :=
  [(8, 'b'), (9, 't'), (10, 'n'), (12, 'f'), (13, 'r')]

/-- One character of a text in ASCII. -/
def asciiChar (c : Char) : List Char :=
  if c = doubleQuote ∨ c = backslash then [backslash, c]
  else if 32 ≤ c.toNat ∧ c.toNat ≤ 126 then [c]
  else
    match controlLetters.lookup c.toNat with
    | some letter => [backslash, letter]
    | none => (units c.toNat).flatMap escapedUnit

/-- A text between double quotes, in ASCII. -/
def inAscii (s : String) : String :=
  String.ofList (doubleQuote :: s.toList.flatMap asciiChar ++ [doubleQuote])

end Stepwise.Text
