import Stepwise.Procedure
import Stepwise.Value.Place
import Stepwise.Value.Order
import Stepwise.Value.Renewed
import Stepwise.Text.UpperCase

/-!
# Scripts

Bodies of procedures as data: statements on the record, then a result for an action or
rules for a check. Scripts share a stage, on which counters stand, calls are noted, and
models remember prompts and give the answers prepared for them.

A value that a script states is made anew each time it is needed, and not before: one
that cannot be made fails there, and its NaNs are the same as no others.
-/

namespace Stepwise.Script

/-- A value that a script states, or why it cannot be made. -/
abbrev Literal : Type := Attempt Value

/-- What scripts act on besides the record. Models are told by their numbers, and `nans`
    counts the payloads in use. -/
structure Stage where
  calls : List String
  counters : List (String × Int)
  prompts : List (Nat × String)
  answers : List (Nat × List String)
  nans : Nat

namespace Stage

/-- The stage with these answers prepared and so many payloads in use. -/
def ofAnswers (answers : List (Nat × List String)) (nans : Nat) : Stage :=
  ⟨[], [], [], answers, nans⟩

/-- The stage with calls and prompts forgotten. -/
def cleared (stage : Stage) : Stage := { stage with calls := [], prompts := [] }

/-- Note a call. -/
def called (stage : Stage) (name : String) : Stage := { stage with calls := stage.calls ++ [name] }

/-- The value of a counter; counters start at zero. -/
def counter (stage : Stage) (name : String) : Int := (Entries.get? name stage.counters).getD 0

/-- Count one more. -/
def tick (stage : Stage) (name : String) : Stage :=
  { stage with counters := Entries.insert name (stage.counter name + 1) stage.counters }

/-- Make a value that a script states. -/
def make (stage : Stage) (literal : Literal) : Attempt Value × Stage :=
  match literal with
  | .ok value =>
    let (made, nans) := value.renewed stage.nans
    (.ok made, { stage with nans })
  | .error why => (.error why, stage)

/-- Put a prompt to a model and take its next answer, empty when there is none left. -/
def ask (stage : Stage) (model : Model) (prompt : String) : String × Stage :=
  let left := (Entries.get? model.number stage.answers).getD []
  (left.headD "",
    { stage with
      prompts := stage.prompts ++ [(model.number, prompt)]
      answers := Entries.insert model.number left.tail stage.answers })

end Stage

/-- A path into the record. -/
abbrev Path : Type := List Value

/-- A part of a text that is put together. -/
inductive Part where
  | literal (text : String)
  | at (path : Path)

/-- A statement of a script. -/
inductive Statement where
  | set (path : Path) (value : Literal)
  | copy (source target : Path)
  | remove (path : Path)
  | append (path : Path) (value : Literal)
  | add (path : Path) (n : Int)
  | parity (source target : Path)
  | upper (source target : Path)
  | concat (target : Path) (parts : List Part)
  | ask (key : Key) (parts : List Part) (target : Path)
  | whoAmI (path : Path)
  | tick (counter : String)
  | fail (why : Failure)

/-- A comparison of a value with another. -/
inductive Comparison where
  | equal | unequal | less | atLeast | shorter | truthy

/-- A condition on the stage or the record. -/
inductive Condition where
  | counterBelow (name : String) (n : Int)
  | compare (comparison : Comparison) (path : Path) (value : Literal)

/-- The text of one part. -/
def Part.text (part : Part) (record : Value) : Attempt String :=
  match part with
  | .literal text => .ok text
  | .at path => do
    match (← record.read path).inlineText? with
    | some text => return text
    | none => .error .wrongKind

/-- The text of parts one behind the other. -/
def textOfParts (parts : List Part) (record : Value) : Attempt String := do
  return String.join (← parts.mapM fun part => part.text record)

/-- The number at a path. -/
def numberAt (path : Path) (record : Value) : Attempt Number := do
  match (← record.read path).number? with
  | some n => return n
  | none => .error .wrongKind

/-- A number as a value. -/
def ofNumber : Number → Value
  | .int n => .int n
  | .real x => .real x

/-- The model that a key means. A single model is meant by every key. -/
def modelFor (models : Models) (key : Key) : Attempt (Option Model) :=
  match models with
  | .single model => .ok model
  | .table entries =>
    match key.text?.bind fun name => Entries.get? name entries with
    | some model => .ok (some model)
    | none => .error (.keyAbsent key)

/-- What a body can tell of the models that it was given. -/
def describe : Models → Value
  | .single none => .null
  | .single (some model) => .text model.label
  | .table entries => .ofFields (entries.map fun entry => (entry.1, .text entry.2.label))

/-- The number at a path increased by an integer. -/
def increased (path : Path) (n : Int) (record : Value) : Attempt Value := do
  match (← numberAt path record).add? (.int n) with
  | some sum => return ofNumber sum
  | none => .error .tooLarge

/-- Carry out a statement that touches only the record. -/
def Statement.onRecord (statement : Statement) (models : Models) (record : Value) :
    Attempt Value :=
  match statement with
  | .copy source target => do record.write target (← record.read source)
  | .remove path => record.remove path
  | .parity source target => do record.write target (.bool (← numberAt source record).isEven)
  | .upper source target => do
    match ← record.read source with
    | .text s => record.write target (.text (Text.upperCase s))
    | _ => .error .noOperation
  | .concat target parts => do record.write target (.text (← textOfParts parts record))
  | .whoAmI path => record.write path (describe models)
  | .fail why => .error why
  | .set .. | .append .. | .add .. | .ask .. | .tick _ => .ok record

/-- Carry out a statement. A model is found before anything is put to it. -/
def Statement.run (statement : Statement) (models : Models) (record : Value) (stage : Stage) :
    Attempt Value × Stage :=
  match statement with
  | .tick counter => (.ok record, stage.tick counter)
  | .set path literal =>
    let (value, stage) := stage.make literal
    (value.bind (record.write path), stage)
  | .append path literal =>
    let (value, stage) := stage.make literal
    (record.append path value, stage)
  | .add path n =>
    let (sum, stage) := stage.make (increased path n record)
    (sum.bind (record.write path), stage)
  | .ask key parts target =>
    match modelFor models key with
    | .error why => (.error why, stage)
    | .ok none => (.error .noOperation, stage)
    | .ok (some model) =>
      match textOfParts parts record with
      | .error why => (.error why, stage)
      | .ok prompt =>
        let (answer, asked) := stage.ask model prompt
        (record.write target (.text answer), asked)
  | _ => (statement.onRecord models record, stage)

/-- Carry out statements until one fails. -/
def runAll (models : Models) : List Statement → Value → Stage → Attempt Value × Stage
  | [], record, stage => (.ok record, stage)
  | statement :: rest, record, stage =>
    match statement.run models record stage with
    | (.ok changed, stage) => runAll models rest changed stage
    | (.error why, stage) => (.error why, stage)

/-- Whether a comparison holds between a value and another. -/
def Comparison.holds (comparison : Comparison) (a b : Value) : Attempt Bool :=
  match comparison with
  | .equal => .ok (a.equal b)
  | .unequal => .ok (!a.equal b)
  | .truthy => .ok a.truthy
  | .less => standing a b fun standing => standing = .less
  | .atLeast => standing a b fun standing => standing = .greater ∨ standing = .equal
  | .shorter =>
    match a.size? with
    | none => .error .wrongKind
    | some size => standing (.int size) b fun standing => standing = .less
where
  /-- Test how two values stand to each other. -/
  standing (a b : Value) (test : Standing → Bool) : Attempt Bool :=
    match a.order? b with
    | some standing => .ok (test standing)
    | none => .error .wrongKind

/-- Whether a condition holds. -/
def Condition.holds (condition : Condition) (record : Value) (stage : Stage) : Attempt Bool :=
  match condition with
  | .counterBelow name n => .ok (decide (stage.counter name < n))
  | .compare comparison path value => do comparison.holds (← record.read path) (← value)

/-- The target of the first rule whose condition holds, else the other target. Neither
    later rules nor their targets are looked at. -/
def firstTarget (record : Value) (stage : Stage) (otherwise : Literal) :
    List (Condition × Literal) → Attempt Value
  | [] => otherwise
  | (condition, target) :: rest => do
    if ← condition.holds record stage then target
    else firstTarget record stage otherwise rest

/-- The body of an action: statements, and the value it returns in place of the record
    if there is one. -/
def actionBody (name : String) (statements : List Statement) (result : Option Literal) :
    Body Stage := fun models record stage =>
  match runAll models statements record (stage.called name), result with
  | (.ok _, stage), some literal => stage.make literal
  | ending, _ => ending

/-- The body of a check: statements on its own copy of the record, then rules. -/
def checkBody (name : String) (statements : List Statement) (rules : List (Condition × Literal))
    (otherwise : Literal) : Body Stage := fun models record stage =>
  match runAll models statements record (stage.called name) with
  | (.ok changed, stage) => (firstTarget changed stage otherwise rules, stage)
  | (.error why, stage) => (.error why, stage)

end Stepwise.Script
