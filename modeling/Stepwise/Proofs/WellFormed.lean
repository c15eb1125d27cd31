import Stepwise.Proofs.Limits

/-!
# The form of a plan's graph

However the procedures of a list name each other, the graph of its plan has one form. Its
nodes are the actions. The start and every node have one way out, an edge or a branch, and no
other place has any. An edge leads to a node or to the end, and so does a branch whenever the
checks that it asks come to an answer. They may fail instead, and without a ceiling they may
hand over to each other for ever.
-/

namespace Stepwise.Plan

variable {World : Type}

/-- A graph with its form: the nodes are the actions of a list, and there is exactly one way
out of the start and of every node, to a node or to the end. -/
structure WellFormed (plan : Plan World) (procedures : List (Procedure World)) : Prop where
  actions : ∀ name, name ∈ plan.nodes ↔ ∃ body next, .action name body next ∈ procedures
  distinct : plan.nodes.Nodup
  unreserved : startName ∉ plan.nodes ∧ endName ∉ plan.nodes
  oneWay : ∀ place, place = startName ∨ place ∈ plan.nodes →
    (plan.edges.map Prod.fst).count place + (plan.branches.map Prod.fst).count place = 1
  sources : ∀ place, place ∈ plan.edges.map Prod.fst ∨ place ∈ plan.branches.map Prod.fst →
    place = startName ∨ place ∈ plan.nodes
  targets : ∀ edge ∈ plan.edges, edge.2 = endName ∨ edge.2 ∈ plan.nodes
  destinations : ∀ name, name ∈ plan.destinations ↔ name = endName ∨ name ∈ plan.nodes

/-- What a route comes to for a state and a world: one of the destinations, or a failure,
however much more patience there is. Only without a ceiling the checks of a branch may go on
beyond all patience. -/
inductive Settles (plan : Plan World) (flat : Flat) (route : Route World) (world : World) :
    Prop where
  | leads (enough : Nat) (stop : Stop) (after : World)
      (settled : ∀ more, plan.resolve (enough + more) flat route world = (.finished stop, after))
      (inside : Stop.name stop ∈ plan.destinations)
  | fails (enough : Nat) (why : Failure) (after : World)
      (settled : ∀ more, plan.resolve (enough + more) flat route world = (.failed why, after))
  | never (unbounded : plan.ceiling = none)
      (unfinished : ∀ patience, (plan.resolve patience flat route world).1 = .unfinished)

/-- Whether a stop is the end or one of some nodes. -/
def IsAmong (nodes : List String) : Stop → Prop
  | .node name => name ∈ nodes
  | .finish => True

/-- The edge of a route that leads straight. -/
def edgeOf? : String × Route World → Option (String × String)
  | (source, .straight target) => some (source, Stop.name target)
  | (_, .branch ..) => none

/-- The branch of a route that branches. -/
def branchOf? : String × Route World → Option (String × String)
  | (_, .straight _) => none
  | (source, .branch name _) => some (source, "route_" ++ name)

variable {plan : Plan World} {workflow : Workflow World}

/-- The edges of a plan are those of its routes. -/
theorem edges_perm (plan : Plan World) : plan.edges.Perm (plan.allRoutes.filterMap edgeOf?) := by
  refine (List.mergeSort_perm _ _).trans (.of_eq (List.filterMap_congr ?_))
  rintro ⟨source, route⟩ -
  cases route <;> rfl

/-- The branches of a plan are those of its routes. -/
theorem branches_perm (plan : Plan World) :
    plan.branches.Perm (plan.allRoutes.filterMap branchOf?) := by
  refine (List.mergeSort_perm _ _).trans (.of_eq (List.filterMap_congr ?_))
  rintro ⟨source, route⟩ -
  cases route <;> rfl

/-- Every route is an edge or a branch out of its place. -/
theorem count_sources (routes : List (String × Route World)) (place : String) :
    ((routes.filterMap edgeOf?).map Prod.fst).count place +
        ((routes.filterMap branchOf?).map Prod.fst).count place =
      (routes.map Prod.fst).count place := by
  induction routes with
  | nil => rfl
  | cons entry rest ih =>
    obtain ⟨source, route⟩ := entry
    cases route with
    | straight target =>
      have edge : edgeOf? (source, (Route.straight target : Route World)) =
        some (source, Stop.name target) := rfl
      have noBranch : branchOf? (source, (Route.straight target : Route World)) = none := rfl
      simp only [List.filterMap_cons, edge, noBranch, List.map_cons, List.count_cons]
      omega
    | branch name body =>
      have noEdge : edgeOf? (source, Route.branch name body) = none := rfl
      have branch : branchOf? (source, Route.branch name body) =
        some (source, "route_" ++ name) := rfl
      simp only [List.filterMap_cons, noEdge, branch, List.map_cons, List.count_cons]
      omega

/-- The routes out of the actions of a part of a list are filed under these. -/
theorem sources_routesFrom (procedures part : List (Procedure World)) :
    (routesFrom procedures part).map Prod.fst = actionNames part := by
  induction part with
  | nil => rfl
  | cons procedure rest ih =>
    cases procedure with
    | action name body next => exact congrArg (name :: ·) ih
    | check name body => exact ih

/-- The actions of a list without repeated names have distinct names. -/
theorem nodup_actionNames (procedures : List (Procedure World))
    (distinct : (Procedure.names procedures).Nodup) : (actionNames procedures).Nodup :=
  distinct.sublist (List.filter_sublist.map Procedure.name)

/-- No node that can be added has the name of the start or of the end. -/
theorem ne_reserved_of_nodesFault? {nodes : List String} (sound : nodesFault? nodes = none)
    {name : String} (member : name ∈ nodes) : name ≠ startName ∧ name ≠ endName := by
  obtain ⟨added, -⟩ := Option.or_eq_none_iff.mp sound
  have fine := List.findSome?_eq_none_iff.mp added name member
  rw [nodeFault?] at fine
  split at fine
  · cases fine
  · next free => exact ⟨fun same => free (.inr same), fun same => free (.inl same)⟩

/-- The nodes of a plan are the names of its actions. -/
theorem mem_nodes_iff (plan : Plan World) (name : String) :
    name ∈ plan.nodes ↔ name ∈ actionNames plan.procedures :=
  (List.mergeSort_perm _ _).mem_iff

/-- A branch may lead to the end and to every node. -/
theorem mem_destinations_iff (plan : Plan World) (name : String) :
    name ∈ plan.destinations ↔ name = endName ∨ name ∈ plan.nodes := by
  rw [mem_nodes_iff, ← List.mem_cons]
  exact (List.mergeSort_perm _ _).mem_iff

/-- The places that routes lead out of are the start and the nodes, each once. -/
theorem MadeFor.sources (made : MadeFor workflow plan) :
    plan.allRoutes.map Prod.fst = startName :: actionNames plan.procedures := by
  rw [allRoutes, List.map_cons, made.routes, made.procedures, sources_routesFrom]

/-- The start and the nodes are distinct places. -/
theorem MadeFor.nodup_sources (made : MadeFor workflow plan) :
    (plan.allRoutes.map Prod.fst).Nodup := by
  rw [made.sources, made.procedures]
  refine List.nodup_cons.mpr ⟨fun member => ?_, nodup_actionNames _
    (Procedure.nodup_names_of_validate _ made.accepted)⟩
  exact (ne_reserved_of_nodesFault? made.nodes member).1 rfl

/-- A route to a name leads straight to an action or to the end, or it branches. -/
theorem target_of_routeTo (procedures : List (Procedure World)) (wanted : Option String)
    (target : Stop) (straight : routeTo procedures wanted = .straight target) :
    IsAmong (actionNames procedures) target := by
  cases wanted with
  | none =>
    cases straight
    trivial
  | some name =>
    rw [routeTo] at straight
    split at straight
    · cases straight
      trivial
    · split at straight
      · cases straight
        trivial
      · next found =>
        cases straight
        exact (mem_actionNames_iff _ _).mpr ⟨_, _, (Procedure.of_find? _ _ _ found).1⟩
      · cases straight

/-- A route out of an action leads straight to an action or to the end, or it branches. -/
theorem target_of_mem_routesFrom (procedures part : List (Procedure World)) (source : String)
    (target : Stop) (member : (source, .straight target) ∈ routesFrom procedures part) :
    IsAmong (actionNames procedures) target := by
  induction part with
  | nil => cases member
  | cons procedure rest ih =>
    cases procedure with
    | check => exact ih member
    | action name body next =>
      rcases List.mem_cons.mp member with same | later
      · obtain ⟨-, straight⟩ := Prod.mk.inj same
        cases successor : Successor.ofNext next with
        | finish =>
          rw [successor] at straight
          cases straight
          trivial
        | named wanted =>
          rw [successor] at straight
          exact target_of_routeTo procedures (some wanted) target straight.symm
        | following =>
          rw [successor] at straight
          exact target_of_routeTo procedures _ target straight.symm
      · exact ih later

/-- A straight route of a plan leads to one of its actions or to the end. -/
theorem MadeFor.target (made : MadeFor workflow plan) {source : String} {target : Stop}
    (isRoute : (source, .straight target) ∈ plan.allRoutes) :
    IsAmong (actionNames workflow.procedures) target := by
  rcases List.mem_cons.mp isRoute with start | later
  · obtain ⟨-, straight⟩ := Prod.mk.inj start
    rw [made.start] at straight
    exact target_of_routeTo _ _ target straight.symm
  · rw [made.routes] at later
    exact target_of_mem_routesFrom _ _ source target later

/-- A plan that a workflow has is well-formed, whatever names its procedures have and give. -/
theorem MadeFor.wellFormed (made : MadeFor workflow plan) :
    plan.WellFormed workflow.procedures := by
  have isNode : ∀ name, name ∈ plan.nodes ↔ name ∈ actionNames workflow.procedures := by
    intro name
    rw [mem_nodes_iff, made.procedures]
  have places : ∀ place, place ∈ plan.allRoutes.map Prod.fst ↔
      place = startName ∨ place ∈ plan.nodes := by
    intro place
    rw [made.sources, List.mem_cons, mem_nodes_iff]
  have counted : ∀ place, (plan.edges.map Prod.fst).count place +
      (plan.branches.map Prod.fst).count place =
        (plan.allRoutes.map Prod.fst).count place := by
    intro place
    rw [((edges_perm plan).map Prod.fst).count_eq, ((branches_perm plan).map Prod.fst).count_eq,
      count_sources]
  refine ⟨fun name => (isNode name).trans (mem_actionNames_iff _ _), ?_, ⟨?_, ?_⟩, ?_, ?_, ?_,
    mem_destinations_iff plan⟩
  · rw [Plan.nodes, (List.mergeSort_perm _ _).nodup_iff, made.procedures]
    exact nodup_actionNames _ (Procedure.nodup_names_of_validate _ made.accepted)
  · exact fun member =>
      (ne_reserved_of_nodesFault? made.nodes ((isNode _).mp member)).1 rfl
  · exact fun member =>
      (ne_reserved_of_nodesFault? made.nodes ((isNode _).mp member)).2 rfl
  · intro place there
    rw [counted, List.count_eq_one_of_mem made.nodup_sources ((places place).mpr there)]
  · intro place leaves
    rw [← places, ← List.count_pos_iff, ← counted]
    rcases leaves with edge | branch
    · have some := List.count_pos_iff.mpr edge
      omega
    · have some := List.count_pos_iff.mpr branch
      omega
  · intro edge member
    obtain ⟨⟨source, route⟩, isRoute, straight⟩ :=
      List.mem_filterMap.mp ((edges_perm plan).mem_iff.mp member)
    cases route with
    | branch => cases straight
    | straight target =>
      obtain rfl := Option.some.inj straight
      cases target with
      | finish => exact .inl rfl
      | node name => exact .inr ((isNode name).mpr (made.target isRoute))

/-- When as many checks have been asked as the ceiling says, asking one more fails. -/
theorem askChecks_of_reached (plan : Plan World) (values : Value) (left asked limit : Nat)
    (body : Body World) (world : World)
    (reached : (plan.ceiling.filter fun ceiling => ceiling ≤ asked) = some limit) :
    plan.askChecks values left asked body world = (.failed (.iterationLimit limit), world) := by
  cases left <;> rw [askChecks, reached]

/-- Checks that come to an answer come to the same with more patience. -/
theorem askChecks_more (plan : Plan World) (values : Value) (left more asked : Nat)
    (body : Body World) (world : World)
    (settled : (plan.askChecks values left asked body world).1 ≠ .unfinished) :
    plan.askChecks values (left + more) asked body world =
      plan.askChecks values left asked body world := by
  induction left generalizing asked body world with
  | zero =>
    rw [askChecks] at settled
    cases limit : plan.ceiling.filter fun ceiling => ceiling ≤ asked with
    | none =>
      rw [limit] at settled
      exact absurd rfl settled
    | some ceiling =>
      rw [askChecks_of_reached _ _ _ _ _ _ _ limit, askChecks_of_reached _ _ _ _ _ _ _ limit]
  | succ left ih =>
    rw [Nat.add_right_comm, askChecks, askChecks]
    rw [askChecks] at settled
    cases limit : plan.ceiling.filter fun ceiling => ceiling ≤ asked with
    | some ceiling => rfl
    | none =>
      rw [limit] at settled
      dsimp only at settled ⊢
      cases answered : body plan.models values world with
      | mk outcome after =>
        rw [answered] at settled
        cases outcome with
        | error why => rfl
        | ok answer =>
          dsimp only at settled ⊢
          split
          · rfl
          · next goesOn =>
            rw [if_neg goesOn] at settled
            cases isKey : answer.key? with
            | none => rfl
            | some key =>
              rw [isKey] at settled
              dsimp only at settled ⊢
              cases found : key.text?.bind (Procedure.find? plan.procedures) with
              | none => rfl
              | some procedure =>
                rw [found] at settled
                cases procedure with
                | action => rfl
                | check => exact ih _ _ _ settled

/-- Under a ceiling checks come to an answer: as many as it says may be asked, no more. -/
theorem askChecks_bounded (plan : Plan World) (values : Value) (limit : Nat)
    (ceiling : plan.ceiling = some limit) (left asked : Nat) (enough : limit ≤ left + asked)
    (body : Body World) (world : World) :
    (plan.askChecks values left asked body world).1 ≠ .unfinished := by
  induction left generalizing asked body world with
  | zero =>
    have reached : (plan.ceiling.filter fun ceiling => ceiling ≤ asked) = some limit := by
      rw [ceiling]
      exact Option.filter_some_pos (by simpa using enough)
    rw [askChecks_of_reached _ _ _ _ _ _ _ reached]
    simp
  | succ left ih =>
    rw [askChecks]
    split
    · simp
    · split
      · simp
      · split
        · simp
        · split
          · simp
          · split
            · simp
            · simp
            · exact ih _ (by omega) _ _

/-- Without a ceiling a check that names itself is asked as long as there is patience. -/
theorem askChecks_of_self (plan : Plan World) (unbounded : plan.ceiling = none) (name : String)
    (body : Body World)
    (found : Procedure.find? plan.procedures name = some (.check name body))
    (names : ∀ models values world, body models values world = (.ok (.text name), world))
    (goesOn : endsRun (.text name) = false) (values : Value) (left asked : Nat) (world : World) :
    plan.askChecks values left asked body world = (.unfinished, world) := by
  have isKey : (Value.text name).key? = some (.text name) := rfl
  induction left generalizing asked with
  | zero => rw [askChecks, unbounded, Option.filter_none]
  | succ left ih =>
    rw [askChecks, unbounded, Option.filter_none]
    dsimp only
    rw [names]
    dsimp only
    rw [if_neg (by simp [goesOn]), isKey]
    dsimp only [Key.text?]
    rw [Option.bind_some, found]
    exact ih (asked + 1)

/-- Checks lead to an action of the list or to the end. -/
theorem askChecks_among (plan : Plan World) (values : Value) (left asked : Nat)
    (body : Body World) (world after : World) (stop : Stop)
    (leads : plan.askChecks values left asked body world = (.finished stop, after)) :
    IsAmong (actionNames plan.procedures) stop := by
  induction left generalizing asked body world with
  | zero =>
    rw [askChecks] at leads
    split at leads <;> cases leads
  | succ left ih =>
    rw [askChecks] at leads
    split at leads
    · cases leads
    · split at leads
      · cases leads
      · split at leads
        · cases leads
          trivial
        · split at leads
          · cases leads
          · split at leads
            · cases leads
              trivial
            · next found =>
              cases leads
              obtain ⟨text, -, found⟩ := Option.bind_eq_some_iff.mp found
              exact (mem_actionNames_iff _ _).mpr ⟨_, _, (Procedure.of_find? _ _ _ found).1⟩
            · exact ih _ _ _ leads

/-- What the checks of a branch come to, they come to with any more patience; and with enough
patience they come to something, unless there is no ceiling. -/
theorem resolve_settled (plan : Plan World) (flat : Flat) (route : Route World) (world : World) :
    (∃ enough outcome, outcome.1 ≠ .unfinished ∧
      ∀ more, plan.resolve (enough + more) flat route world = outcome) ∨
    plan.ceiling = none ∧ ∀ patience, (plan.resolve patience flat route world).1 = .unfinished := by
  by_cases settles : ∃ patience, (plan.resolve patience flat route world).1 ≠ .unfinished
  · obtain ⟨enough, settled⟩ := settles
    refine .inl ⟨enough, plan.resolve enough flat route world, settled, fun more => ?_⟩
    cases route with
    | straight target => rfl
    | branch name body =>
      simp only [resolve] at settled ⊢
      cases decoded : plan.channels.decode flat with
      | error why => rfl
      | ok nested =>
        rw [decoded] at settled
        exact askChecks_more plan nested.toValue enough more 0 body world settled
  · have never : ∀ patience, (plan.resolve patience flat route world).1 = .unfinished := by
      simpa using settles
    refine .inr ⟨?_, never⟩
    by_contra bounded
    obtain ⟨limit, ceiling⟩ := Option.ne_none_iff_exists'.mp bounded
    have unfinished := never limit
    cases route with
    | straight target => cases unfinished
    | branch name body =>
      rw [resolve] at unfinished
      cases decoded : plan.channels.decode flat with
      | error why =>
        rw [decoded] at unfinished
        cases unfinished
      | ok nested =>
        rw [decoded] at unfinished
        exact askChecks_bounded plan nested.toValue limit ceiling limit 0 (Nat.le_refl _) body world
          unfinished

/-- Wherever a route of a plan leads, it is one of the actions or the end. -/
theorem MadeFor.resolve_among (made : MadeFor workflow plan) {source : String}
    {route : Route World} (isRoute : (source, route) ∈ plan.allRoutes) {patience : Nat}
    {flat : Flat} {world after : World} {stop : Stop}
    (leads : plan.resolve patience flat route world = (.finished stop, after)) :
    IsAmong (actionNames workflow.procedures) stop := by
  cases route with
  | straight target =>
    cases leads
    exact made.target isRoute
  | branch name body =>
    rw [resolve] at leads
    cases decoded : plan.channels.decode flat with
    | error why =>
      rw [decoded] at leads
      cases leads
    | ok nested =>
      rw [decoded] at leads
      exact made.procedures ▸ plan.askChecks_among nested.toValue _ 0 body world after stop leads

/-- Every route of a plan that a workflow has settles, whatever the channels hold and whatever
the checks answer. -/
theorem MadeFor.settles (made : MadeFor workflow plan) {source : String} {route : Route World}
    (isRoute : (source, route) ∈ plan.allRoutes) (flat : Flat) (world : World) :
    plan.Settles flat route world := by
  rcases plan.resolve_settled flat route world with
    ⟨enough, ⟨ending, after⟩, ended, settled⟩ | ⟨unbounded, unfinished⟩
  · cases ending with
    | unfinished => exact absurd rfl ended
    | failed why => exact .fails enough why after settled
    | finished stop =>
      refine .leads enough stop after settled ?_
      rw [mem_destinations_iff, mem_nodes_iff, made.procedures]
      have among := made.resolve_among isRoute (settled 0)
      cases stop with
      | finish => exact .inl rfl
      | node name => exact .inr among
  · exact .never unbounded unfinished

end Stepwise.Plan
