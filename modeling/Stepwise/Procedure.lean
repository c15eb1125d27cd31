import Stepwise.Models
import Stepwise.Value.Equality

/-!
# Procedures

A workflow goes through a list of procedures. An action may change the record and can
name the procedure that comes next; a check reads the record and answers where to go
on. Bodies act on a world of their own, which the engine only passes on; so a body is
any function of what it is given, and it can fail.

A list of procedures is accepted if no name occurs twice and if, as soon as there is a
check, every action names its successor: with checks jumping about, the order of the
list says nothing about what comes next.
-/

namespace Stepwise

/-- What a procedure does, given the models and a copy of the record. -/
abbrev Body (World : Type) : Type := Models → Value → World → Attempt Value × World

/-- A step of a workflow. -/
inductive Procedure (World : Type) where
  | action (name : String) (body : Body World) (next : Option String)
  | check (name : String) (body : Body World)

/-- The name that ends a run. -/
def endName : String := "__end__"

/-- Whether the answer of a check ends the run: the end's name, or nothing. -/
def endsRun (answer : Value) : Bool := !answer.truthy || answer.equal (.text endName)

/-- Where a successor's name leads: to the end, to a name, or on in the list. -/
inductive Successor where
  | finish
  | named (name : String)
  | following
deriving DecidableEq

/-- What an action's successor means. A missing and an empty name are the same. -/
def Successor.ofNext : Option String → Successor
  | none => .following
  | some name => if name = endName then .finish else if name = "" then .following else .named name

namespace Procedure

variable {World : Type}

/-- The name of a procedure. -/
def name : Procedure World → String
  | .action name .. => name
  | .check name _ => name

/-- Whether a procedure is an action. -/
def isAction : Procedure World → Bool
  | .action .. => true
  | .check .. => false

/-- Whether a procedure is a check. -/
def isCheck : Procedure World → Bool
  | .action .. => false
  | .check .. => true

/-- A procedure is a check exactly if it is no action. -/
theorem isCheck_eq_not_isAction (procedure : Procedure World) :
    procedure.isCheck = !procedure.isAction := by
  cases procedure <;> rfl

/-- The word for the kind of a procedure. -/
def kind : Procedure World → String
  | .action .. => "action"
  | .check .. => "check"

/-- Whether a procedure is an action that leaves its successor to the list. -/
def leavesNextOpen : Procedure World → Bool
  | .action _ _ next => Successor.ofNext next = .following
  | .check .. => false

/-- The names of a list, in order. -/
def names (procedures : List (Procedure World)) : List String := procedures.map name

/-- The procedure of a name; of several the last. -/
def find? (procedures : List (Procedure World)) (wanted : String) : Option (Procedure World) :=
  procedures.reverse.find? fun procedure => procedure.name == wanted

/-- The position of every name; of several the last. -/
def index (procedures : List (Procedure World)) : List (String × Nat) :=
  Entries.ofWrites (procedures.zipIdx.map fun (procedure, position) => (procedure.name, position))

end Procedure

/-- Why a list of procedures is not accepted. -/
inductive ListFault where
  | repeated (names : List String)
  | openEnded (actions : List String)
deriving DecidableEq

namespace ListFault

/-- The names that occur again, each once and in the order in which it first does. -/
def repeatedNames (seen found : List String) : List String → List String
  | [] => found
  | name :: rest =>
    let again := if seen.contains name ∧ !found.contains name then found ++ [name] else found
    repeatedNames (name :: seen) again rest

/-- What is wrong with a list, if anything. Repeated names come first. -/
def ofList? {World : Type} (procedures : List (Procedure World)) : Option ListFault :=
  match repeatedNames [] [] (Procedure.names procedures) with
  | name :: rest => some (.repeated (name :: rest))
  | [] =>
    if procedures.any (·.isCheck) then
      match Procedure.names (procedures.filter (·.leavesNextOpen)) with
      | [] => none
      | name :: rest => some (.openEnded (name :: rest))
    else none

/-- The failure that a fault is reported as. -/
def toFailure : ListFault → Failure
  | .repeated names =>
    .names ("Procedure names must be unique; duplicated: " ++ joinTexts ", " names) names
  | .openEnded actions =>
    .chain ("When a 'check' procedure is present, every 'action' procedure must declare " ++
      "its next procedure; missing on: " ++ joinTexts ", " actions) actions

end ListFault

/-- Accept a list of procedures or say what is wrong with it. -/
def Procedure.validate {World : Type} (procedures : List (Procedure World)) : Attempt Unit :=
  match ListFault.ofList? procedures with
  | none => .ok ()
  | some fault => .error fault.toFailure

end Stepwise
