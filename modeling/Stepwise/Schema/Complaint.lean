import Stepwise.Shape
import Stepwise.Failure

/-!
# Complaints

What can be wrong with a value, and how it is worded. A finding is a complaint with
the place it is about, as the names and positions on the way there. Checking collects
all findings; it stops early only where it fails outright, and then nothing that was
found counts.
-/

namespace Stepwise

/-- What is wrong with a value. -/
inductive Complaint where
  | notInteger
  | notIntegerText
  | integerTooLarge
  | fractional
  | notFinite
  | notNumber
  | notNumberText
  | notTruth
  | notTruthWord
  | notText
  | notNull
  | notList
  | notTuple
  | notSet (frozen : Bool)
  | notMapping
  | notRecord (name : String)
  | notAmong (options : List Choice)
  | missing
  | unexpected
  | keyNotText
  | memberCanChange
  | notPositive
  | tooShort

namespace Choice

/-- An option as complaints spell it: texts in quotes. -/
def quoted (option : Choice) : String := option.toKey.quoted

/-- Options in a row: commas between them and `or` before the last. -/
def enumerate : List String → String
  | [] => ""
  | [only] => only
  | [first, last] => first ++ " or " ++ last
  | first :: rest => first ++ ", " ++ enumerate rest

/-- Options without those that occur earlier. -/
def distinct (options : List Choice) : List Choice :=
  options.foldl (fun found option => if found.contains option then found else found ++ [option]) []

end Choice

/-- The wording of a complaint. -/
def Complaint.message : Complaint → String
  | .notInteger => "Input should be a valid integer"
  | .notIntegerText => "Input should be a valid integer, unable to parse string as an integer"
  | .integerTooLarge => "Unable to parse input string as an integer, exceeded maximum size"
  | .fractional => "Input should be a valid integer, got a number with a fractional part"
  | .notFinite => "Input should be a finite number"
  | .notNumber => "Input should be a valid number"
  | .notNumberText => "Input should be a valid number, unable to parse string as a number"
  | .notTruth => "Input should be a valid boolean"
  | .notTruthWord => "Input should be a valid boolean, unable to interpret input"
  | .notText => "Input should be a valid string"
  | .notNull => "Input should be None"
  | .notList => "Input should be a valid list"
  | .notTuple => "Input should be a valid tuple"
  | .notSet frozen => "Input should be a valid " ++ if frozen then "frozenset" else "set"
  | .notMapping => "Input should be a valid dictionary"
  | .notRecord name => "Input should be a valid dictionary or instance of " ++ name
  | .notAmong options =>
    "Input should be " ++ Choice.enumerate ((Choice.distinct options).map Choice.quoted)
  | .missing => "Field required"
  | .unexpected => "Extra inputs are not permitted"
  | .keyNotText => "Keys should be strings"
  | .memberCanChange => "Set items should be hashable"
  | .notPositive => "Input should be greater than 0"
  | .tooShort => "String should have at least 1 character"

/-- A complaint and the place it is about. -/
structure Finding where
  path : List String
  complaint : Complaint

/-- A finding as an issue: the place as a dotted path. -/
def Finding.issue (finding : Finding) : Issue :=
  ⟨joinTexts "." finding.path, finding.complaint.message⟩

/-- A scalar that is read, or what is wrong with it. -/
abbrev Reading (α : Type) : Type := Except Complaint α

/-- Why a value is not read: everything that is wrong with it, or a failure that ends
    checking where it happens. -/
inductive Rejection where
  | findings (found : List Finding)
  | failure (why : Failure)

namespace Rejection

/-- A rejection of a part that stands at a place. -/
def under (place : List String) : Rejection → Rejection
  | .findings found =>
    .findings (found.map fun finding => ⟨place ++ finding.path, finding.complaint⟩)
  | .failure why => .failure why

/-- Two rejections of one value. A failure hides all findings, and the first failure the
    second. -/
def append : Rejection → Rejection → Rejection
  | .findings first, .findings second => .findings (first ++ second)
  | .failure why, _ => .failure why
  | .findings _, .failure why => .failure why

/-- A rejection as a failure, given what is said of a value that does not fit. -/
def toFailure (summary : String) : Rejection → Failure
  | .findings found => .mismatch summary (found.map Finding.issue)
  | .failure why => why

end Rejection

/-- The result of checking: what a value is read as, or why it is not. -/
abbrev Checked (α : Type) : Type := Except Rejection α

namespace Checked

/-- A single complaint at a place. -/
def complainAt {α : Type} (place : List String) (complaint : Complaint) : Checked α :=
  .error (.findings [⟨place, complaint⟩])

/-- A single complaint about the value as a whole. -/
def complain {α : Type} (complaint : Complaint) : Checked α := complainAt [] complaint

/-- A scalar's reading as the result of checking it. -/
def ofReading {α : Type} : Reading α → Checked α
  | .ok result => .ok result
  | .error complaint => complain complaint

/-- An attempt that ends checking if it fails. -/
def ofAttempt {α : Type} : Attempt α → Checked α
  | .ok result => .ok result
  | .error why => .error (.failure why)

/-- Findings below a place. -/
def under {α : Type} (place : List String) (result : Checked α) : Checked α :=
  result.mapError (Rejection.under place)

/-- Both results, or the findings of both in order. -/
def both {α β : Type} : Checked α → Checked β → Checked (α × β)
  | .ok a, .ok b => .ok (a, b)
  | .ok _, .error why => .error why
  | .error why, .ok _ => .error why
  | .error first, .error second => .error (first.append second)

@[simp] theorem both_ok {α β : Type} (a : α) (b : β) : both (.ok a) (.ok b) = .ok (a, b) := rfl

/-- Both succeed only if each does. -/
theorem both_eq_ok_iff {α β : Type} {a : Checked α} {b : Checked β} {pair : α × β} :
    both a b = .ok pair ↔ a = .ok pair.1 ∧ b = .ok pair.2 := by
  obtain ⟨x, y⟩ := pair
  cases a <;> cases b <;> simp [both]

/-- All results, or the findings of all in order. -/
def all {α : Type} : List (Checked α) → Checked (List α)
  | [] => .ok []
  | first :: rest =>
    match both first (all rest) with
    | .ok (result, results) => .ok (result :: results)
    | .error why => .error why

end Checked
end Stepwise
