import Stepwise.Proofs.Turns

/-!
# What bodies keep, runs keep

A run only hands the world on from one body to the next. So whatever every body keeps
between the world before it and the world behind it is kept by a run as a whole, however
it ends, if it holds of no change at all and of two changes together.
-/

namespace Stepwise

variable {World : Type}

/-- A procedure whose body leads from a world to one that the relation holds of. -/
def Procedure.Keeps (relation : World → World → Prop) (procedure : Procedure World) : Prop :=
  ∀ models record world, relation world (procedure.body models record world).2

/-- A relation that holds of no change and of two changes together. -/
structure Chains (relation : World → World → Prop) : Prop where
  reflexive : ∀ world, relation world world
  transitive : ∀ first second third, relation first second → relation second third →
    relation first third

namespace Walk

/-- Moving the cursor to a name does not touch the world. -/
theorem world_jump (itinerary : Itinerary World) (walk : Walk World) (name : Key) :
    (walk.jump itinerary name).world = walk.world := by
  rw [jump]
  split <;> rfl

/-- Moving the cursor to a successor does not touch the world. -/
theorem world_continueTo (itinerary : Itinerary World) (walk : Walk World) (position : Nat)
    (successor : Successor) :
    (walk.continueTo itinerary position successor).world = walk.world := by
  cases successor with
  | finish => rfl
  | named name => exact world_jump itinerary walk _
  | following => rfl

/-- Taking over a returned record does not touch the world. -/
theorem world_adopt (walk : Walk World) (returned : Value) :
    (walk.adopt returned).2.world = walk.world := by
  rw [adopt]
  split
  · rfl
  · dsimp only
    split <;> rfl

/-- Following an answer does not touch the world. -/
theorem world_follow (itinerary : Itinerary World) (walk : Walk World) (answer : Value) :
    (walk.follow itinerary answer).2.world = walk.world := by
  rw [follow]
  split
  · rfl
  · split
    · exact world_jump itinerary walk _
    · rfl

/-- The world behind a dispatch is what the body leaves. -/
theorem world_dispatch (itinerary : Itinerary World) (position : Nat)
    (procedure : Procedure World) (walk : Walk World) :
    (walk.dispatch itinerary position procedure).2.world =
      (procedure.body itinerary.models walk.sections.toValue walk.world).2 := by
  apply dispatch_preserves itinerary walk position procedure fun moved =>
    moved.world = (procedure.body itinerary.models walk.sections.toValue walk.world).2
  · rfl
  · intro moved returned same
    rwa [world_adopt]
  · intro moved successor same
    rwa [world_continueTo]
  · intro moved answer same
    rwa [world_follow]

/-- A walk keeps what every body of its list keeps. -/
theorem run_keeps {relation : World → World → Prop} (chains : Chains relation)
    (itinerary : Itinerary World)
    (kept : ∀ procedure ∈ itinerary.procedures, procedure.Keeps relation) (left : Nat)
    (walk : Walk World) : relation walk.world (run itinerary left walk).2.world := by
  apply run_preserves itinerary fun later => relation walk.world later.world
  · intro later ending final related isOver
    rwa [over_of_turn itinerary later final ending isOver]
  · intro later position procedure related next
    rw [world_dispatch]
    exact chains.transitive _ _ _ related
      (kept procedure (mem_of_turn itinerary later position procedure next) _ _ _)
  · exact chains.reflexive _

/-- A walk keeps, from where the first body leaves the world on, what every body of its list
keeps. -/
theorem run_keeps_from {relation : World → World → Prop} (chains : Chains relation)
    (itinerary : Itinerary World)
    (kept : ∀ procedure ∈ itinerary.procedures, procedure.Keeps relation) (left : Nat)
    (walk : Walk World) (position : Nat) (procedure : Procedure World)
    (dispatched : turn itinerary walk = .dispatch position procedure) :
    relation (procedure.body itinerary.models walk.sections.toValue walk.world).2
      (run itinerary (left + 1) walk).2.world := by
  rw [← world_dispatch itinerary position procedure walk, run, dispatched]
  dsimp only
  split
  · next failed =>
    rw [failed]
    exact chains.reflexive _
  · next moved =>
    rw [moved]
    exact run_keeps chains itinerary kept left _

end Walk

namespace Plan

/-- Asking checks keeps what every body of the list keeps. -/
theorem askChecks_keeps {relation : World → World → Prop} (chains : Chains relation)
    (plan : Plan World) (kept : ∀ procedure ∈ plan.procedures, procedure.Keeps relation)
    (values : Value) (left asked : Nat) (name : String) (body : Body World)
    (member : .check name body ∈ plan.procedures) (world : World) :
    relation world (plan.askChecks values left asked body world).2 := by
  induction left generalizing asked name body world with
  | zero =>
    rw [askChecks]
    split <;> exact chains.reflexive _
  | succ left ih =>
    have first := kept _ member plan.models values world
    rw [askChecks]
    split
    · exact chains.reflexive _
    · simp only [Procedure.body] at first
      split
      · next failed =>
        rw [failed] at first
        exact first
      · next answered =>
        rw [answered] at first
        split
        · exact first
        · split
          · exact first
          · split
            · exact first
            · exact first
            · next found =>
              obtain ⟨text, -, found⟩ := Option.bind_eq_some_iff.mp found
              have nextMember := (Procedure.of_find? plan.procedures text _ found).1
              exact chains.transitive _ _ _ first (ih _ _ _ nextMember _)

/-- Resolving a route keeps what every body of the list keeps. -/
theorem resolve_keeps {relation : World → World → Prop} (chains : Chains relation)
    (plan : Plan World) (kept : ∀ procedure ∈ plan.procedures, procedure.Keeps relation)
    (patience : Nat) (flat : Flat) (route : Route World)
    (branches : ∀ name body, route = .branch name body → .check name body ∈ plan.procedures)
    (world : World) : relation world (plan.resolve patience flat route world).2 := by
  cases route with
  | straight target => exact chains.reflexive _
  | branch name body =>
    rw [resolve]
    split
    · exact chains.reflexive _
    · exact askChecks_keeps chains plan kept _ _ _ name body
        (branches name body rfl) world

end Plan

namespace Flow

/-- A run of a node keeps, from where its body leaves the world on, what every body of the
list keeps. -/
theorem runNode_keeps_from {relation : World → World → Prop} (chains : Chains relation)
    (plan : Plan World) (kept : ∀ procedure ∈ plan.procedures, procedure.Keeps relation)
    (branches : ∀ node name body, plan.routeOf node = .branch name body →
      .check name body ∈ plan.procedures)
    (patience : Nat) (name stored : String) (body : Body World) (next : Option String)
    (found : Procedure.find? plan.procedures name = some (.action stored body next))
    (flow : Flow World) (nested : Flat.Nested)
    (decoded : plan.channels.decodeAfter (readsBehind plan flow.chunks) flow.flat =
      .ok nested) :
    relation (body plan.models nested.toValue flow.world).2
      (runNode plan patience name flow).2.world := by
  have updates : (nodeUpdates plan body (readsBehind plan flow.chunks) flow.flat flow.world).2 =
      (body plan.models nested.toValue flow.world).2 := by
    rw [nodeUpdates, decoded]
    dsimp only
    split
    · next failed => rw [failed]
    · next returned => rw [returned]
  rw [runNode, found, ← updates]
  dsimp only
  split
  · next failed =>
    rw [failed]
    exact chains.reflexive _
  · next made world written =>
    rw [written]
    dsimp only
    split
    · exact chains.reflexive _
    · next flat _ =>
      have resolved := Plan.resolve_keeps chains plan kept patience flat (plan.routeOf name)
        (branches name) world
      split
      · next finished =>
        have finished : plan.resolve patience flat (plan.routeOf name) world = _ := finished
        rw [finished] at resolved
        exact resolved
      · next other =>
        have other : plan.resolve patience flat (plan.routeOf name) world = _ := other
        rw [other] at resolved
        exact resolved

/-- A run of a node keeps what every body of the list keeps. -/
theorem runNode_keeps {relation : World → World → Prop} (chains : Chains relation)
    (plan : Plan World) (kept : ∀ procedure ∈ plan.procedures, procedure.Keeps relation)
    (branches : ∀ node name body, plan.routeOf node = .branch name body →
      .check name body ∈ plan.procedures)
    (patience : Nat) (name : String) (flow : Flow World) :
    relation flow.world (runNode plan patience name flow).2.world := by
  cases found : Procedure.find? plan.procedures name with
  | none =>
    rw [runNode, found]
    exact chains.reflexive _
  | some procedure =>
    cases procedure with
    | check stored body =>
      rw [runNode, found]
      exact chains.reflexive _
    | action stored body next =>
      cases decoded : plan.channels.decodeAfter (readsBehind plan flow.chunks) flow.flat with
      | error why =>
        simp only [runNode, found, nodeUpdates, decoded]
        exact chains.reflexive _
      | ok nested =>
        have member := (Procedure.of_find? plan.procedures name _ found).1
        exact chains.transitive _ _ _ (kept _ member plan.models nested.toValue flow.world)
          (runNode_keeps_from chains plan kept branches patience name stored body next found flow
            nested decoded)

/-- A run from a stop on keeps what every body of the list keeps. -/
theorem runFrom_keeps {relation : World → World → Prop} (chains : Chains relation)
    (plan : Plan World) (kept : ∀ procedure ∈ plan.procedures, procedure.Keeps relation)
    (branches : ∀ node name body, plan.routeOf node = .branch name body →
      .check name body ∈ plan.procedures)
    (patience limit : Nat) (stop : Stop) (flow : Flow World) :
    relation flow.world (runFrom plan patience limit stop flow).2.world := by
  induction limit generalizing stop flow with
  | zero => cases stop <;> exact chains.reflexive _
  | succ limit ih =>
    cases stop with
    | finish => exact chains.reflexive _
    | node name =>
      have first := runNode_keeps chains plan kept branches patience name flow
      rw [runFrom]
      split
      · next moved =>
        rw [moved] at first
        split
        · exact first
        · exact chains.transitive _ _ _ first (ih _ _)
      · next failed =>
        rw [failed] at first
        exact first
      · next unfinished =>
        rw [unfinished] at first
        exact first

end Flow

/-! ## Runs that come to their end -/

namespace Flow

end Flow
end Stepwise
