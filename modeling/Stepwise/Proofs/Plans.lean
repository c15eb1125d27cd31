import Mathlib.Data.List.Nodup
import Stepwise.Proofs.Repeats
import Stepwise.Workflow

/-!
# What a plan is made of

A workflow has a plan exactly if its list is accepted, a model can be selected and its
actions can be nodes. The plan then holds the list, the channels of the schemas and the
routes that the list says. An accepted list has no name twice, so a name stands for one
position of the list, and every branch of a route asks a check of the list.
-/

namespace Stepwise

variable {World : Type}

namespace Procedure

/-- What a procedure does. -/
def body : Procedure World → Body World
  | .action _ body _ => body
  | .check _ body => body

/-- A procedure that is found has the wanted name and stands in the list. -/
theorem of_find? (procedures : List (Procedure World)) (wanted : String)
    (procedure : Procedure World) (found : find? procedures wanted = some procedure) :
    procedure ∈ procedures ∧ procedure.name = wanted := by
  have inReverse := List.mem_of_find?_eq_some found
  have matches' := List.find?_some found
  exact ⟨List.mem_reverse.mp inReverse, by simpa using matches'⟩

/-- In a list without repeated names every procedure is found by its name. -/
theorem find?_of_mem (procedures : List (Procedure World)) (distinct : (names procedures).Nodup)
    (procedure : Procedure World) (member : procedure ∈ procedures) :
    find? procedures procedure.name = some procedure := by
  cases found : find? procedures procedure.name with
  | none =>
    have nowhere := List.find?_eq_none.mp found procedure (List.mem_reverse.mpr member)
    simp at nowhere
  | some other =>
    obtain ⟨otherMember, same⟩ := of_find? procedures _ other found
    rw [List.inj_on_of_nodup_map distinct otherMember member same]

end Procedure

/-- An accepted list has no name twice. -/
theorem Procedure.nodup_names_of_validate (procedures : List (Procedure World))
    (accepted : Procedure.validate procedures = .ok ()) : (Procedure.names procedures).Nodup := by
  rw [Procedure.validate] at accepted
  cases fault : ListFault.ofList? procedures with
  | some why =>
    rw [fault] at accepted
    cases accepted
  | none =>
    rw [ListFault.ofList?] at fault
    split at fault
    · cases fault
    · next none => exact (ListFault.repeatedNames_eq_nil_iff _).mp none

namespace Plan

/-- The parts of a plan that a workflow has, apart from what is said in diagnostics. -/
structure MadeFor (workflow : Workflow World) (plan : Plan World) : Prop where
  accepted : Procedure.validate workflow.procedures = .ok ()
  nodes : nodesFault? (actionNames workflow.procedures) = none
  selected : workflow.models.select (some workflow.options.preferredModel) = .ok plan.selection
  procedures : plan.procedures = workflow.procedures
  channels : plan.channels = Channels.ofSchemas workflow.separator workflow.schemas
  ceiling : plan.ceiling = workflow.options.ceiling
  start : plan.start = routeTo workflow.procedures (Procedure.names workflow.procedures).head?
  routes : plan.routes = routesFrom workflow.procedures workflow.procedures

/-- The plan that a workflow has is made for it. -/
theorem madeFor_of_plan (workflow : Workflow World) (plan : Plan World)
    (planned : workflow.plan = .ok plan) : MadeFor workflow plan := by
  rw [Workflow.plan] at planned
  cases accepted : Procedure.validate workflow.procedures with
  | error why =>
    rw [accepted] at planned
    cases planned
  | ok _ =>
    rw [accepted] at planned
    cases selected : workflow.models.select (some workflow.options.preferredModel) with
    | error why =>
      simp only [make, selected] at planned
      cases planned
    | ok selection =>
      simp only [make, selected] at planned
      cases nodes : nodesFault? (actionNames workflow.procedures) with
      | some why =>
        rw [nodes] at planned
        cases planned
      | none =>
        rw [nodes] at planned
        obtain rfl := Except.ok.inj planned
        exact ⟨accepted, nodes, selected, rfl, rfl, rfl, rfl, rfl⟩

/-- Where a list is accepted, a model selected and the actions can be nodes, there is a
plan. -/
theorem exists_plan (workflow : Workflow World) (selection : Selection)
    (accepted : Procedure.validate workflow.procedures = .ok ())
    (nodes : nodesFault? (actionNames workflow.procedures) = none)
    (selected : workflow.models.select (some workflow.options.preferredModel) = .ok selection) :
    ∃ plan, workflow.plan = .ok plan ∧ plan.selection = selection := by
  simp only [Workflow.plan, make, accepted, selected, nodes]
  exact ⟨_, rfl, rfl⟩

/-- A route that branches asks a check of the list. -/
theorem mem_of_routeTo (procedures : List (Procedure World)) (wanted : Option String)
    (name : String) (body : Body World)
    (branches : routeTo procedures wanted = .branch name body) :
    Procedure.check name body ∈ procedures := by
  cases wanted with
  | none => cases branches
  | some target =>
    rw [routeTo] at branches
    split at branches
    · cases branches
    · split at branches
      · cases branches
      · cases branches
      · next found =>
        cases branches
        exact (Procedure.of_find? procedures _ _ found).1

/-- A branch out of an action asks a check of the list. -/
theorem mem_of_routeFrom (procedures : List (Procedure World)) (following : List String)
    (successor : Successor) (name : String) (body : Body World)
    (branches : routeFrom procedures following successor = .branch name body) :
    Procedure.check name body ∈ procedures := by
  cases successor with
  | finish => cases branches
  | named wanted => exact mem_of_routeTo procedures (some wanted) name body branches
  | following => exact mem_of_routeTo procedures following.head? name body branches

/-- A branch out of a node asks a check of the list. -/
theorem mem_of_lookup_routesFrom (procedures part : List (Procedure World)) (node name : String)
    (body : Body World)
    (branches : (routesFrom procedures part).lookup node = some (.branch name body)) :
    Procedure.check name body ∈ procedures := by
  induction part with
  | nil => cases branches
  | cons procedure rest ih =>
    cases procedure with
    | check => exact ih branches
    | action first firstBody next =>
      rw [routesFrom, List.lookup_cons] at branches
      split at branches
      · exact mem_of_routeFrom procedures _ _ name body (Option.some.inj branches)
      · exact ih branches

/-- A branch of a plan asks a check of its list. -/
theorem MadeFor.mem_of_branch {workflow : Workflow World} {plan : Plan World}
    (made : MadeFor workflow plan) (name : String) (body : Body World)
    (branches : plan.start = .branch name body ∨ ∃ node, plan.routeOf node = .branch name body) :
    Procedure.check name body ∈ workflow.procedures := by
  rcases branches with start | ⟨node, route⟩
  · rw [made.start] at start
    exact mem_of_routeTo _ _ name body start
  · rw [routeOf, made.routes] at route
    cases found : (routesFrom workflow.procedures workflow.procedures).lookup node with
    | none =>
      rw [found] at route
      cases route
    | some other =>
      rw [found, Option.getD_some] at route
      exact mem_of_lookup_routesFrom _ _ node name body (route ▸ found)

end Plan
end Stepwise
