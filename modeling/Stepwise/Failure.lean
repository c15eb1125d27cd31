import Stepwise.Value.Text
import Stepwise.Section

/-!
# Failures

Why an operation stops without a result. The failures that the engine reports on its
own behalf form families, of which reaching the iteration ceiling is a kind of broken
chain. The others are misuses of values (a key that is absent, an operation that a
value does not have) and whatever a procedure's body raises.

`message?` gives a failure's text; where the wording belongs to nobody it is absent.
-/

namespace Stepwise

/-- A place in a value, as a dotted path, and what is wrong there. The empty path is
    the value as a whole. -/
structure Issue where
  path : String
  message : String
deriving DecidableEq

/-- Why an argument is refused. -/
inductive Refusal where
  | emptySeparator
  | noModel
  | unknownSection (name : String)
  | reservedNode (name : String)
  | reservedNodeName (name : String)
  | reservedCharacter (c : Char)
  | unknownLevel (level : String)
  | unevenPair (position length : Nat)
  | stated (message : String)
deriving DecidableEq

/-- The wording of a refusal. -/
def Refusal.message : Refusal → String
  | .emptySeparator => "separator must be a non-empty string"
  | .noModel => "No model was provided; graph compilation needs at least one model."
  | .unknownSection name => "Unknown state section: " ++ Text.quoted name
  | .reservedNode name => "Node `" ++ name ++ "` is reserved."
  | .reservedNodeName name => "Node name " ++ Text.quoted name ++ " is reserved"
  | .reservedCharacter c =>
    Text.quoted (String.singleton c) ++
      " is a reserved character and is not allowed in the node names."
  | .unknownLevel level => "Unknown level: " ++ Text.quoted level
  | .unevenPair position length =>
    "dictionary update sequence element #" ++ toString position ++ " has length " ++
      toString length ++ "; 2 is required"
  | .stated message => message

/-- Why an operation has no result. -/
inductive Failure where
  /-- A failure of the engine that belongs to no narrower family. -/
  | general (message : String)
  /-- Names of procedures are at fault. -/
  | names (message : String) (names : List String)
  /-- Procedures do not lead on to one another as they must. -/
  | chain (message : String) (procedures : List String)
  /-- The ceiling of iterations was reached. -/
  | iterationLimit (limit : Int)
  /-- A section does not fit its schema. -/
  | mismatch (summary : String) (issues : List Issue)
  /-- An argument is refused. -/
  | refused (why : Refusal)
  /-- A mapping lacks a key. -/
  | keyAbsent (key : Key)
  /-- A list has no such position. -/
  | outOfRange
  /-- An operation is applied to a value of the wrong kind. -/
  | wrongKind
  /-- A value lacks an operation altogether. -/
  | noOperation
  /-- An integer is too large for the floating-point format. -/
  | tooLarge
  /-- The graph engine's own limit of steps was reached. -/
  | stepLimit
  /-- A body gave up. -/
  | aborted (message : String)
  /-- A run was cancelled. -/
  | cancelled (message : String)

/-- The families of the engine's own failures. -/
inductive Family where
  | general | names | chain | iterationLimit | mismatch
deriving DecidableEq

namespace Family

/-- A family and all wider ones, from the narrowest on. -/
def lineage : Family → List Family
  | .general => [.general]
  | .names => [.names, .general]
  | .chain => [.chain, .general]
  | .iterationLimit => [.iterationLimit, .chain, .general]
  | .mismatch => [.mismatch, .general]

end Family

namespace Issue

/-- An issue as part of a longer text; the whole value is written `<root>`. -/
def text (issue : Issue) : String :=
  (if issue.path = "" then "<root>" else issue.path) ++ ": " ++ issue.message

end Issue

namespace Failure

/-- The family of a failure, if it is one of the engine's own. -/
def family? : Failure → Option Family
  | .general _ => some .general
  | .names .. => some .names
  | .chain .. => some .chain
  | .iterationLimit _ => some .iterationLimit
  | .mismatch .. => some .mismatch
  | _ => none

/-- What is said when the ceiling of iterations is reached. -/
def iterationLimitMessage (limit : Int) : String :=
  "Agent reached the maximum of " ++ toString limit ++
    " iterations. Possible loop detected in the procedure graph."

/-- A summary with its issues in parentheses, if there are any. -/
def mismatchMessage (summary : String) (issues : List Issue) : String :=
  if issues.isEmpty then summary
  else summary ++ " (" ++ joinTexts "; " (issues.map Issue.text) ++ ")"

/-- The text of a failure. -/
def message? : Failure → Option String
  | .general message => some message
  | .names message _ => some message
  | .chain message _ => some message
  | .iterationLimit limit => some (iterationLimitMessage limit)
  | .mismatch summary issues => some (mismatchMessage summary issues)
  | .refused why => some why.message
  | .keyAbsent key => some key.quoted
  | .aborted message => some message
  | .cancelled message => some message
  | .tooLarge => some "int too large to convert to float"
  | .outOfRange | .wrongKind | .noOperation | .stepLimit => none

end Failure

/-- The result of an operation that can fail. -/
abbrev Attempt (α : Type) : Type := Except Failure α

end Stepwise
