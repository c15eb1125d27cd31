import Stepwise.Procedure
import Stepwise.Channels
import Stepwise.Ending

/-!
# Plans

A plan is the graph form of a workflow. Its nodes are the actions. From the start and
from every action leads one route: straight to a node or to the end, or through a
branch, which asks a check, and on through further checks, until an action or the end
is named. The routes say the same as walking the list does: an explicit end, an
explicit successor, or the next in the list; a name that no procedure has is the end.

Making a plan runs no body. Nodes must not have the names that the graph keeps for
itself.
-/

namespace Stepwise

/-- Where a route leads in the end. -/
inductive Stop where
  | node (name : String)
  | finish
deriving DecidableEq

/-- A route out of a node. -/
inductive Route (World : Type) where
  | straight (target : Stop)
  | branch (name : String) (body : Body World)

/-- How often the record is collected to resolve a route. -/
def Route.reads {World : Type} : Route World → Nat
  | .straight _ => 0
  | .branch .. => 1

/-- The graph form of a workflow. -/
structure Plan (World : Type) where
  procedures : List (Procedure World)
  channels : Channels
  selection : Selection
  ceiling : Option Nat
  start : Route World
  routes : List (String × Route World)
  diagnostics : List String

namespace Plan

variable {World : Type}

/-- The name of the place where every run starts. -/
def startName : String := "__start__"

/-- The names under which the graph files what it writes, sends and reads itself. -/
def reservedNames : List String :=
  ["__input__", "__interrupt__", "__resume__", "__error__", "__no_writes__", "__pregel_send",
    "__pregel_read", "__pregel_checkpointer", "__pregel_stream", "__pregel_resuming",
    "__pregel_resume_map", "__pregel_replay_state", "__pregel_strict_resume",
    "__pregel_timed_attempt_observer", "__pregel_task_id", "__pregel_push", "__pregel_pull",
    "__snapshot_bumps__", "checkpoint_map", "checkpoint_id", "checkpoint_ns", "configurable"]

/-- The characters that stand for structure in the names of nodes. -/
def reservedCharacters : List Char := ['|', ':']

/-- Why a node cannot be added under a name. -/
def nodeFault? (name : String) : Option Refusal :=
  if name = endName ∨ name = startName then some (.reservedNode name)
  else (reservedCharacters.find? fun c => name.toList.contains c).map .reservedCharacter

/-- Why the nodes cannot make a graph: the first that cannot be added, or else the first
    that is refused in the finished graph. -/
def nodesFault? (nodes : List String) : Option Refusal :=
  (nodes.findSome? nodeFault?).or
    ((nodes.find? reservedNames.contains).map .reservedNodeName)

/-- The names of the actions, in the order of the list. -/
def actionNames (procedures : List (Procedure World)) : List String :=
  Procedure.names (procedures.filter (·.isAction))

/-- The route to a name; no name, the empty name and an unknown one lead to the end. -/
def routeTo (procedures : List (Procedure World)) : Option String → Route World
  | none => .straight .finish
  | some name =>
    if name = "" then .straight .finish
    else
      match Procedure.find? procedures name with
      | none => .straight .finish
      | some (.action name ..) => .straight (.node name)
      | some (.check name body) => .branch name body

/-- The route out of an action, given the names that follow it in the list. -/
def routeFrom (procedures : List (Procedure World)) (following : List String) :
    Successor → Route World
  | .finish => .straight .finish
  | .named name => routeTo procedures (some name)
  | .following => routeTo procedures following.head?

/-- The routes out of the actions of a part of the list. -/
def routesFrom (procedures : List (Procedure World)) : List (Procedure World) →
    List (String × Route World)
  | [] => []
  | .action name _ next :: rest =>
    (name, routeFrom procedures (Procedure.names rest) (Successor.ofNext next)) ::
      routesFrom procedures rest
  | .check .. :: rest => routesFrom procedures rest

/-- Make a plan for a list of procedures. -/
def make (procedures : List (Procedure World)) (schemas : Schemas) (models : Models)
    (separator : Separator) (preferredModel : String) (ceiling : Option Nat) :
    Attempt (Plan World) := do
  let selection ← models.select (some preferredModel)
  let channels := Channels.ofSchemas separator schemas
  match nodesFault? (actionNames procedures) with
  | some why => .error (.refused why)
  | none =>
    return {
      procedures, channels, selection, ceiling
      start := routeTo procedures (Procedure.names procedures).head?
      routes := routesFrom procedures procedures
      diagnostics := selection.diagnostics ++ channels.diagnostics }

/-- The route out of a node. -/
def routeOf (plan : Plan World) (node : String) : Route World :=
  (plan.routes.lookup node).getD (.straight .finish)

/-- The models that bodies get: the one that was selected. -/
def models (plan : Plan World) : Models := .single plan.selection.model

/-- Ask checks until one names an action or the end. `asked` counts the checks asked so
    far in this resolution; as many as the ceiling says may be asked, and without a
    ceiling at most `left` more are followed. -/
def askChecks (plan : Plan World) (values : Value) : Nat → Nat → Body World → World →
    Ending Stop × World
  | left, asked, body, world =>
    match plan.ceiling.filter fun ceiling => ceiling ≤ asked with
    | some ceiling => (.failed (.iterationLimit ceiling), world)
    | none =>
      match left with
      | 0 => (.unfinished, world)
      | left + 1 =>
        match body plan.models values world with
        | (.error why, world) => (.failed why, world)
        | (.ok answer, world) =>
          if endsRun answer then (.finished .finish, world)
          else
            match answer.key? with
            | none => (.failed .wrongKind, world)
            | some key =>
              match key.text?.bind (Procedure.find? plan.procedures) with
              | none => (.finished .finish, world)
              | some (.action name ..) => (.finished (.node name), world)
              | some (.check _ next) => askChecks plan values left (asked + 1) next world

/-- Where a route leads for the values in the channels. -/
def resolve (plan : Plan World) (patience : Nat) (flat : Flat) (route : Route World)
    (world : World) : Ending Stop × World :=
  match route with
  | .straight target => (.finished target, world)
  | .branch _ body =>
    match plan.channels.decode flat with
    | .error why => (.failed why, world)
    | .ok nested => plan.askChecks nested.toValue patience 0 body world

/-- The name of the place where a route leads. -/
def Stop.name : Stop → String
  | .node name => name
  | .finish => endName

/-- All routes with the places they start from. -/
def allRoutes (plan : Plan World) : List (String × Route World) :=
  (startName, plan.start) :: plan.routes

/-- The nodes in alphabetical order. -/
def nodes (plan : Plan World) : List String :=
  (actionNames plan.procedures).mergeSort fun a b => decide (a ≤ b)

/-- The straight routes in alphabetical order. -/
def edges (plan : Plan World) : List (String × String) :=
  (plan.allRoutes.filterMap fun (source, route) =>
    match route with
    | .straight target => some (source, Stop.name target)
    | .branch .. => none).mergeSort fun a b => decide (a.1 < b.1 ∨ (a.1 = b.1 ∧ a.2 ≤ b.2))

/-- The branches in alphabetical order, by the place they start from and their check. -/
def branches (plan : Plan World) : List (String × String) :=
  (plan.allRoutes.filterMap fun (source, route) =>
    match route with
    | .straight _ => none
    | .branch name _ => some (source, "route_" ++ name)).mergeSort
      fun a b => decide (a.1 < b.1 ∨ (a.1 = b.1 ∧ a.2 ≤ b.2))

/-- Where a branch may lead: to any node or to the end, in alphabetical order. -/
def destinations (plan : Plan World) : List String :=
  (endName :: actionNames plan.procedures).mergeSort fun a b => decide (a ≤ b)

end Plan
end Stepwise
