import Stepwise.Value
import Stepwise.Binary64.Shortest
import Stepwise.Text.Printable

/-!
# Texts of keys and values

Two texts of a value are used: the plain one, which writes a text as it is, and the
quoted one, which writes it as a literal between quotes. They differ only on texts;
whatever stands inside another value is quoted.
-/

namespace Stepwise

namespace Text

/-- A number in hexadecimal digits, padded with zeros. -/
def hexadecimal (width n : Nat) : List Char :=
  let digits := Nat.toDigits 16 n
  List.replicate (width - digits.length) '0' ++ digits

/-- The quote that stands around most literals. -/
def singleQuote : Char := Char.ofNat 39

/-- The quote around literals that hold single quotes. -/
def doubleQuote : Char := Char.ofNat 34

/-- The character that begins an escape. -/
def backslash : Char := Char.ofNat 92

/-- The quote around a literal: single, unless the text holds single quotes and no
    double ones. -/
def quoteFor (text : List Char) : Char :=
  if text.contains singleQuote && !text.contains doubleQuote then doubleQuote else singleQuote

/-- One character inside a literal. Backslashes and the literal's quote are escaped;
    tab, line feed and carriage return have escapes of their own; every other
    character that is not printable is written by its number. -/
def quotedChar (quote c : Char) : List Char :=
  if c = quote ∨ c = backslash then [backslash, c]
  else if c.toNat = 9 then [backslash, 't']
  else if c.toNat = 10 then [backslash, 'n']
  else if c.toNat = 13 then [backslash, 'r']
  else if isPrintable c then [c]
  else if c.toNat < 256 then backslash :: 'x' :: hexadecimal 2 c.toNat
  else if c.toNat < 65536 then backslash :: 'u' :: hexadecimal 4 c.toNat
  else backslash :: 'U' :: hexadecimal 8 c.toNat

/-- A text as a literal. -/
def quoted (s : String) : String :=
  let quote := quoteFor s.toList
  String.ofList (quote :: s.toList.flatMap (quotedChar quote) ++ [quote])

end Text

/-- Texts with a separator between them. -/
def joinTexts (separator : String) (texts : List String) : String :=
  separator.intercalate texts

namespace Text

/-- Items in a row. -/
def row (items : List String) : String := joinTexts ", " items

/-- The text of a list of items. -/
def ofList (items : List String) : String := "[" ++ row items ++ "]"

/-- The text of a tuple of items; a comma tells a single item from a bracketed one. -/
def ofTuple : List String → String
  | [item] => "(" ++ item ++ ",)"
  | items => "(" ++ row items ++ ")"

/-- Texts between braces. -/
def braced (text : String) : String := "\x7b" ++ text ++ "\x7d"

/-- The text of a set. Braces without anything between them mean an empty mapping, so
    an empty set is named. -/
def ofSet (frozen : Bool) (members : List String) : String :=
  match frozen, members with
  | false, [] => "set()"
  | true, [] => "frozenset()"
  | false, members => braced (row members)
  | true, members => "frozenset(" ++ braced (row members) ++ ")"

/-- The text of a replacement mark. -/
def ofMark (held : String) : String := "Replace(value=" ++ held ++ ")"

/-- The text of a mapping's entry. -/
def ofEntry (key value : String) : String := key ++ ": " ++ value

/-- The text of a truth value. -/
def ofBool (b : Bool) : String := if b then "True" else "False"

end Text

namespace Key

mutual

/-- The text of a key with texts quoted. -/
def quoted : Key → String
  | .null => "None"
  | .bool b => Text.ofBool b
  | .int n => toString n
  | .real x => x.toText
  | .text s => Text.quoted s
  | .tuple items => Text.ofTuple (allQuoted items)
  | .set members => Text.ofSet true (allQuoted members)
  | .replacement held => Text.ofMark (quoted held)

/-- The quoted texts of keys. -/
def allQuoted : List Key → List String
  | [] => []
  | key :: rest => quoted key :: allQuoted rest

end

/-- The text of a key. -/
def plain : Key → String
  | .text s => s
  | key => key.quoted

end Key

namespace Value

mutual

/-- The text of a value with texts quoted. -/
def quoted : Value → String
  | .null => Key.quoted .null
  | .bool b => Key.quoted (.bool b)
  | .int n => Key.quoted (.int n)
  | .real x => Key.quoted (.real x)
  | .text s => Text.quoted s
  | .list items => Text.ofList (allQuoted items)
  | .tuple items => Text.ofTuple (allQuoted items)
  | .set frozen members => Text.ofSet frozen (Key.allQuoted members)
  | .mapping entries => Text.braced (Text.row (entriesQuoted entries))
  | .replacement held => Text.ofMark (quoted held)

/-- The quoted texts of values. -/
def allQuoted : List Value → List String
  | [] => []
  | value :: rest => quoted value :: allQuoted rest

/-- The texts of entries. -/
def entriesQuoted : List (Key × Value) → List String
  | [] => []
  | (key, value) :: rest => Text.ofEntry key.quoted (quoted value) :: entriesQuoted rest

end

/-- The text of a value. -/
def plain : Value → String
  | .text s => s
  | value => value.quoted

/-- The text of a value that stands for a single thing: a scalar, a set or a mark. Lists,
    tuples and mappings have no such text. -/
def inlineText? : Value → Option String
  | .list _ => none
  | .tuple _ => none
  | .mapping _ => none
  | value => some value.plain

end Value

end Stepwise
