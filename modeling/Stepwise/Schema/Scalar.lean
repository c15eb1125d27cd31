import Stepwise.Schema.Complaint
import Stepwise.Text.Numeral

/-!
# Reading scalars

How a value is read as an integer, a number, a truth value or one of given options. A
reading may change the kind: an integral number is an integer, a numeral in a text is
the number, and a few words are truth values. Between integers and floating-point
numbers only so much is carried over as the other side can hold.
-/

namespace Stepwise.Scalar

/-- Whether an integer has at most 63 binary digits. Integral floating-point numbers are
    read as integers only up to there. -/
def isShort (n : Int) : Bool := n.natAbs < Nat.pow 2 63

/-- Whether an integer is one of the machine's 64-bit words. -/
def inWordRange (n : Int) : Bool := isShort n || n == -(Nat.pow 2 63 : Nat)

/-- A text without underscores, where each stands alone and inside. -/
def withoutUnderscores? : List Char → Option (List Char)
  | [] => some []
  | ['_'] => none
  | '_' :: '_' :: _ => none
  | '_' :: rest => withoutUnderscores? rest
  | c :: rest => (withoutUnderscores? rest).map (c :: ·)

/-- The number that a text spells, with blanks around it or else with underscores in
    it. -/
def realOfText? (text : String) : Option Binary64 :=
  match Binary64.read? (Text.trimmed text.toList) with
  | some x => some x
  | none =>
    if text.toList.head? = some '_' then none
    else (withoutUnderscores? text.toList).bind Binary64.read?

/-- The words for the two truth values; letters may be in any case. -/
def falseWords : List String := ["0", "off", "f", "false", "n", "no"]

/-- The words that stand for true. -/
def trueWords : List String := ["1", "on", "t", "true", "y", "yes"]

/-- The truth value that a text spells. -/
def truthOfText? (text : String) : Option Bool :=
  if Binary64.isWord text.toList falseWords then some false
  else if Binary64.isWord text.toList trueWords then some true
  else none

/-- Read an integer as a truth value. -/
def truthOfInt (n : Int) : Reading Bool :=
  if n = 0 then .ok false else if n = 1 then .ok true else .error .notTruthWord

/-- Read a value as an integer. -/
def readInt : Value → Reading Int
  | .int n => .ok n
  | .bool b => .ok (if b then 1 else 0)
  | .real x =>
    match x.toInt? with
    | some n => if isShort n then .ok n else .error .integerTooLarge
    | none => .error (if x.isFinite then .fractional else .notFinite)
  | .text s =>
    match Text.Numeral.read s.toList with
    | .value n => .ok n
    | .tooLong => .error .integerTooLarge
    | .none => .error .notIntegerText
  | _ => .error .notInteger

/-- Read a value as a floating-point number. An integer beyond the finite ones has no
    reading. -/
def readReal : Value → Reading Binary64
  | .real x => .ok x
  | .int n =>
    let x := Binary64.ofInt n
    if x.isFinite then .ok x else .error .notNumber
  | .bool b => .ok (Binary64.ofInt (if b then 1 else 0))
  | .text s =>
    match realOfText? s with
    | some x => .ok x
    | none => .error .notNumberText
  | _ => .error .notNumber

/-- Read a value as a truth value. -/
def readTruth : Value → Reading Bool
  | .bool b => .ok b
  | .int n => if inWordRange n then truthOfInt n else .error .notTruth
  | .text s =>
    match truthOfText? s with
    | some b => .ok b
    | none => .error .notTruthWord
  | .real x =>
    match x.toInt? with
    | some n => if isShort n then truthOfInt n else .error .notTruth
    | none => .error .notTruth
  | _ => .error .notTruth

/-- Read a value as a text; nothing is converted. -/
def readText : Value → Reading String
  | .text s => .ok s
  | _ => .error .notText

/-- Whether an option is an integer among the machine's words. -/
def isWordOption : Choice → Bool
  | .int n => inWordRange n
  | .text _ => false

/-- Whether a value is an integer that cannot be looked up among the options: beyond the
    machine's words, where some option is such a word. -/
def isBeyond (options : List Choice) : Value → Bool
  | .int n => !inWordRange n && options.any isWordOption
  | _ => false

/-- Read a value as one of the options: the first that is one key with it. What can
    change is no option. -/
def readChoice (options : List Choice) (value : Value) : Reading Choice :=
  if isBeyond options value then .error .integerTooLarge
  else
    match value.key?.bind fun key => options.find? fun option => option.toKey == key with
    | some option => .ok option
    | none => .error (.notAmong options)

end Stepwise.Scalar
