import Stepwise.Plan
import Stepwise.Rereading

/-!
# Running a plan

A run of a plan keeps the record in channels. The initial state is written and the
route from the start is resolved; then one node runs at a time: its body gets the
record that the channels hold, the record it returns is spread over the channels, and
the updates are written. The route out of a node is resolved on the state with the
updates in it. Every state and every node's updates are put out as chunks.

Checks and bodies get the record from the same channels: if a check was asked for the
route, the node that it leads to collects the record for the second time.

A limit bounds the number of nodes. When as many have run, the run fails, even if the
last of them led to the end; a run of no node never fails so.
-/

namespace Stepwise

/-- What a run puts out on its way. -/
inductive Chunk where
  | values (flat : Flat)
  | updates (node : String) (flat : Flat)

/-- A run of a plan: the channels, what was put out, and the bodies' world. -/
structure Flow (World : Type) where
  flat : Flat
  chunks : List Chunk
  world : World

namespace Flow

variable {World : Type}

/-- Put out a chunk. -/
def emit (flow : Flow World) (chunk : Chunk) : Flow World :=
  { flow with chunks := flow.chunks ++ [chunk] }

/-- The values of the last state that was put out. -/
def lastValues? (chunks : List Chunk) : Option Flat :=
  chunks.reverse.findSome? fun chunk =>
    match chunk with
    | .values flat => some flat
    | .updates .. => none

/-- The nodes whose updates were put out, in order. -/
def nodesRun (chunks : List Chunk) : List String :=
  chunks.filterMap fun chunk =>
    match chunk with
    | .values _ => none
    | .updates node _ => some node

/-- How often the record was collected from the channels since the last node wrote them:
    once, if a check was asked where to go. -/
def readsBehind (plan : Plan World) (chunks : List Chunk) : Nat :=
  match (nodesRun chunks).getLast? with
  | some node => (plan.routeOf node).reads
  | none => plan.start.reads

/-- The updates that a node's body makes of the channels, from which the record was
    collected so many times before. -/
def nodeUpdates (plan : Plan World) (body : Body World) (times : Nat) (flat : Flat)
    (world : World) : Attempt Flat × World :=
  match plan.channels.decodeAfter times flat with
  | .error why => (.error why, world)
  | .ok nested =>
    match body plan.models nested.toValue world with
    | (.error why, world) => (.error why, world)
    | (.ok returned, world) =>
      ((plan.channels.encode returned).map (plan.channels.updates flat), world)

/-- Run one node and resolve its route. -/
def runNode (plan : Plan World) (patience : Nat) (name : String) (flow : Flow World) :
    Ending Stop × Flow World :=
  match Procedure.find? plan.procedures name with
  | some (.action _ body _) =>
    match nodeUpdates plan body (readsBehind plan flow.chunks) flow.flat flow.world with
    | (.error why, world) => (.failed why, { flow with world })
    | (.ok updates, world) =>
      let reported := { flow with world }.emit (.updates name updates)
      match plan.channels.writeAll flow.flat updates with
      | .error why => (.failed why, reported)
      | .ok flat =>
        match plan.resolve patience flat (plan.routeOf name) reported.world with
        | (.finished stop, world) =>
          (.finished stop, { reported with flat, world }.emit (.values flat))
        | (ending, world) => (ending, { reported with world })
  | _ => (.finished .finish, flow)

/-- Run nodes from a stop on, for at most `limit` of them. -/
def runFrom (plan : Plan World) (patience : Nat) : Nat → Stop → Flow World →
    Ending Unit × Flow World
  | _, .finish, flow => (.finished (), flow)
  | 0, .node _, flow => (.failed .stepLimit, flow)
  | limit + 1, .node name, flow =>
    match runNode plan patience name flow with
    | (.finished next, moved) =>
      if limit = 0 then (.failed .stepLimit, moved) else runFrom plan patience limit next moved
    | (.failed why, stopped) => (.failed why, stopped)
    | (.unfinished, stopped) => (.unfinished, stopped)

/-- The limit of a run without a ceiling. -/
def unboundedLimit : Nat := 9223372036854775807

/-- Run a plan on an initial state of the channels. -/
def run (plan : Plan World) (patience : Nat) (initial : Flat) (world : World) :
    Ending Unit × Flow World :=
  match plan.channels.writeAll [] initial with
  | .error why => (.failed why, ⟨[], [], world⟩)
  | .ok flat =>
    match plan.resolve patience flat plan.start world with
    | (.finished stop, world) =>
      runFrom plan patience (plan.ceiling.getD unboundedLimit) stop
        ⟨flat, [.values flat], world⟩
    | (.failed why, world) => (.failed why, ⟨flat, [], world⟩)
    | (.unfinished, world) => (.unfinished, ⟨flat, [], world⟩)

/-- How often a run has collected the record from the channels as they were at the start:
    for the route from there, and by the first node or at the end. -/
def readsOfStart (plan : Plan World) (chunks : List Chunk) : Nat :=
  plan.start.reads + if chunks.isEmpty then 0 else 1

end Flow
end Stepwise
