import Stepwise.Schema.Scalar
import Stepwise.Separator
import Stepwise.Log

/-!
# Options

How the engine is set up. Each option has a default and can be given outright or
through an environment variable; what is given outright wins, whatever it is, and only
the winning source is checked. Names are matched in any case.

The application that embeds the engine has a service name of its own and a text that
its environment variables start with.
-/

namespace Stepwise

/-- Where the engine is deployed. -/
inductive Deployment where
  | dev | test | prod
deriving DecidableEq

namespace Deployment

/-- The word for a deployment. -/
def name : Deployment → String
  | .dev => "dev"
  | .test => "test"
  | .prod => "prod"

/-- All deployments. -/
def all : List Deployment := [.dev, .test, .prod]

end Deployment

/-- The embedding application. -/
structure Application where
  serviceName : String
  variableStart : String

/-- The options of the engine. Without a ceiling runs are not bounded. -/
structure Options where
  deployment : Deployment
  serviceName : String
  agentName : String
  logLevel : String
  ceiling : Option Nat
  verbose : Bool
  preferredModel : String
  separator : Separator

namespace Options

/-- The options when nothing is given. -/
def defaults (application : Application) : Options where
  deployment := .dev
  serviceName := application.serviceName
  agentName := "agent"
  logLevel := "INFO"
  ceiling := some 100
  verbose := false
  preferredModel := "default"
  separator := .underscore

/-- What options are read from: values given outright, and environment variables. -/
structure Sources where
  given : List (String × Value)
  environment : List (String × String)

/-- The sign of the unit of temperature, whose lower case is the letter `k`. -/
def kelvinSign : Char := Char.ofNat 0x212a

/-- A character in lower case. Outside ASCII no other character becomes a letter that
    names of options are spelled with. -/
def foldedChar (c : Char) : Char := if c = kelvinSign then 'k' else c.toLower

/-- A name in lower case, by which names are matched. -/
def folded (name : String) : String := String.ofList (name.toList.map foldedChar)

/-- The value of an option from the source that wins. Among values given outright the
    first of its name counts, among variables the last. -/
def Sources.find? (sources : Sources) (application : Application) (option : String) :
    Option Value :=
  match sources.given.find? fun entry => folded entry.1 == option with
  | some entry => some entry.2
  | none =>
    (sources.environment.reverse.find? fun entry =>
      folded entry.1 == folded application.variableStart ++ option).map fun entry => .text entry.2

/-- Read a deployment. -/
def readDeployment (value : Value) : Reading Deployment :=
  match value.key?.bind fun key =>
      Deployment.all.find? fun deployment => .text deployment.name == key with
  | some deployment => .ok deployment
  | none => .error (.notAmong (Deployment.all.map fun deployment => .text deployment.name))

/-- Read a ceiling: null for none, else a positive integer. -/
def readCeiling : Value → Reading (Option Nat)
  | .null => .ok none
  | value => do
    let n ← Scalar.readInt value
    if 0 < n then return some n.toNat else .error .notPositive

/-- Read a separator, which must not be empty. -/
def readSeparator (value : Value) : Reading Separator := do
  match Separator.ofString (← Scalar.readText value) with
  | .ok separator => return separator
  | .error _ => .error .tooShort

/-- The names of the options, in their order. -/
def names : List String :=
  ["env", "service_name", "agent_name", "log_level", "max_iterations", "verbose",
    "default_model_key", "state_separator"]

/-- Given names that belong to no option. -/
def unknown (sources : Sources) : List Finding :=
  (sources.given.filter fun entry => !names.contains (folded entry.1)).map
    fun entry => ⟨[entry.1], .unexpected⟩

/-- Options that are read, or everything that is wrong with them. -/
abbrev Outcome (α : Type) : Type := Except (List Finding) α

/-- Read one option, or take its default. -/
def readOption {α : Type} (sources : Sources) (application : Application) (option : String)
    (fallback : α) (read : Value → Reading α) : Outcome α :=
  match sources.find? application option with
  | some value => (read value).mapError fun complaint => [⟨[option], complaint⟩]
  | none => .ok fallback

/-- What is wrong with one option. -/
def findings {α : Type} : Outcome α → List Finding
  | .ok _ => []
  | .error findings => findings

/-- Read all options. What is wrong is answered in the order of the options, unknown
    names behind. -/
def read (application : Application) (sources : Sources) : Outcome Options :=
  let fallback := defaults application
  let text := fun option fallback => readOption sources application option fallback Scalar.readText
  let deployment := readOption sources application "env" fallback.deployment readDeployment
  let serviceName := text "service_name" fallback.serviceName
  let agentName := text "agent_name" fallback.agentName
  let logLevel := text "log_level" fallback.logLevel
  let ceiling := readOption sources application "max_iterations" fallback.ceiling readCeiling
  let verbose := readOption sources application "verbose" fallback.verbose Scalar.readTruth
  let preferredModel := text "default_model_key" fallback.preferredModel
  let separator := readOption sources application "state_separator" fallback.separator readSeparator
  match deployment, serviceName, agentName, logLevel, ceiling, verbose, preferredModel, separator,
      unknown sources with
  | .ok deployment, .ok serviceName, .ok agentName, .ok logLevel, .ok ceiling, .ok verbose,
      .ok preferredModel, .ok separator, [] =>
    .ok {
      deployment, serviceName, agentName, logLevel, ceiling, verbose, preferredModel, separator }
  | _, _, _, _, _, _, _, _, extra =>
    .error (findings deployment ++ findings serviceName ++ findings agentName ++
      findings logLevel ++ findings ceiling ++ findings verbose ++ findings preferredModel ++
      findings separator ++ extra)

/-- What a run's events are bound to: the service, the agent and, where it is known,
    the run. -/
def bound (options : Options) (run : Option String) : Bound :=
  [("service", .text options.serviceName), ("agent", .text options.agentName)] ++
    match run with
    | some run => [("run_id", .text run)]
    | none => []

end Options

/-- The options that are kept once they were read, with a number that tells whether
    they are the same as before. -/
structure OptionsCache where
  kept : Option (Options × Nat)
  made : Nat

namespace OptionsCache

/-- Nothing kept yet. -/
def empty : OptionsCache := ⟨none, 0⟩

/-- Forget what is kept. -/
def clear (cache : OptionsCache) : OptionsCache := { cache with kept := none }

/-- The options kept, or else the environment's, which are kept if they are valid. -/
def get (cache : OptionsCache) (application : Application)
    (environment : List (String × String)) : Options.Outcome (Options × Nat) × OptionsCache :=
  match cache.kept with
  | some kept => (.ok kept, cache)
  | none =>
    match Options.read application ⟨[], environment⟩ with
    | .ok options =>
      let kept := (options, cache.made + 1)
      (.ok kept, ⟨some kept, cache.made + 1⟩)
    | .error findings => (.error findings, cache)

end OptionsCache
end Stepwise
