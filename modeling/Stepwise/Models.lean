import Stepwise.Failure

/-!
# Models

Bodies may ask a language model. A workflow is given one model, or none, or a table of
models under names. Whoever needs exactly one takes the model of a preferred name or
else the first of the table; what was passed over is said in a diagnostic.
-/

namespace Stepwise

/-- A model. The number tells models with one label apart. -/
structure Model where
  number : Nat
  label : String
deriving DecidableEq

/-- What bodies are given to ask. -/
inductive Models where
  | single (model : Option Model)
  | table (entries : List (String × Model))

/-- One model taken out of those given, with its name in the table. -/
structure Selection where
  model : Option Model
  key : Option String
  diagnostics : List String

namespace Models

/-- The models given, in their order. -/
def all : Models → List Model
  | .single model => model.toList
  | .table entries => entries.map Prod.snd

/-- What is said of the models that were passed over. -/
def ignoredDiagnostic (chosen : String) (ignored : List String) : String :=
  "Graph compilation uses only the model \"" ++ chosen ++ "\"; ignored models: " ++
    joinTexts ", " ignored ++ "."

/-- Take one model: the preferred one if the table has it, else the table's first. -/
def select (models : Models) (preferred : Option String) : Attempt Selection :=
  match models with
  | .single model => .ok ⟨model, none, []⟩
  | .table [] => .error (.refused .noModel)
  | .table ((firstKey, first) :: rest) =>
    let entries := (firstKey, first) :: rest
    let (key, model) :=
      (preferred.bind fun name => (Entries.get? name entries).map fun model => (name, model)).getD
        (firstKey, first)
    let ignored := (Entries.keys entries).filter (· ≠ key)
    .ok ⟨some model, some key, if rest.isEmpty then [] else [ignoredDiagnostic key ignored]⟩

end Models
end Stepwise
