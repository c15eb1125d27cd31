import Stepwise.Proofs.Envelope
import Stepwise.Proofs.Routes

/-!
# Lists of procedures

A list is refused for its repeated names, or else for its open ends, or it is accepted. Open
ends are told, if there is a check, of every action without a successor's name, in the order
of the list.

In an accepted list a name stands for one position, to which a walk moves the cursor, and for
the procedure there, to which a plan leads its routes. The order of the list says what comes
next only if there is no check.
-/

namespace Stepwise

variable {World : Type}

/-! ## Open ends -/

/-- An action leaves its successor to the list exactly if it names none or an empty one. -/
theorem Successor.ofNext_eq_following_iff (next : Option String) :
    ofNext next = .following ↔ next = none ∨ next = some "" := by
  cases next with
  | none => simp [ofNext]
  | some name =>
    by_cases ends : name = endName
    · subst ends
      simp [ofNext, endName]
    · by_cases empty : name = ""
      · subst empty
        simp [ofNext, endName]
      · simp [ofNext, ends, empty]

namespace Procedure

/-- An action whose successor has no name, or an empty one. -/
def LacksSuccessor : Procedure World → Prop
  | .action _ _ next => next = none ∨ next = some ""
  | .check .. => False

instance (procedure : Procedure World) : Decidable procedure.LacksSuccessor :=
  match procedure with
  | .action _ _ next => inferInstanceAs (Decidable (next = none ∨ next = some ""))
  | .check .. => inferInstanceAs (Decidable False)

/-- The actions whose successors are left to the list are those that lack one. -/
theorem leavesNextOpen_iff (procedure : Procedure World) :
    procedure.leavesNextOpen = true ↔ procedure.LacksSuccessor := by
  cases procedure with
  | action name body next =>
    exact decide_eq_true_iff.trans (Successor.ofNext_eq_following_iff next)
  | check => simp [leavesNextOpen, LacksSuccessor]

/-- A list in which a check stands. -/
def HasCheck (procedures : List (Procedure World)) : Prop :=
  ∃ procedure ∈ procedures, procedure.isCheck = true

/-- A list has open ends if it has a check, and an action that lacks a successor. -/
theorem hasOpenEnds_iff (procedures : List (Procedure World)) :
    HasOpenEnds procedures ↔
      HasCheck procedures ∧ ∃ procedure ∈ procedures, procedure.LacksSuccessor := by
  simp only [HasOpenEnds, HasCheck, leavesNextOpen_iff]

/-- The names of the actions whose successors are left to the list. -/
theorem names_leavesNextOpen (procedures : List (Procedure World)) :
    names (procedures.filter (·.leavesNextOpen)) =
      names (procedures.filter fun procedure => procedure.LacksSuccessor) := by
  congr 1
  apply List.filter_congr
  intro procedure _
  rw [Bool.eq_iff_iff, leavesNextOpen_iff, decide_eq_true_iff]

/-! ## What an accepted list is good for -/

/-- What walks and plans rely on in a list. A name stands for one position in the index of a
walk, and for the procedure at that position in a plan. An action goes on in the order of the
list only if the list has no check. So with a check a dispatch does not depend on where the
procedure stands, nor the route out of an action on what follows it. -/
structure Reliable (procedures : List (Procedure World)) : Prop where
  position : ∀ name position, Entries.get? name (index procedures) = some position ↔
    ∃ procedure, procedures[position]? = some procedure ∧ procedure.name = name
  found : ∀ name procedure, find? procedures name = some procedure ↔
    ∃ position, Entries.get? name (index procedures) = some position ∧
      procedures[position]? = some procedure
  ordered : ∀ name body next, .action name body next ∈ procedures →
    Successor.ofNext next = .following → ¬ HasCheck procedures
  dispatched : HasCheck procedures → ∀ procedure ∈ procedures,
    ∀ (itinerary : Itinerary World) (walk : Walk World) (position other : Nat),
      walk.dispatch itinerary position procedure = walk.dispatch itinerary other procedure
  routed : HasCheck procedures → ∀ source route,
    (source, route) ∈ Plan.routesFrom procedures procedures →
      ∃ body next, .action source body next ∈ procedures ∧
        route = Plan.routeFrom procedures [] (Successor.ofNext next)

/-- Only the order of the list makes a dispatch depend on where the procedure stands. -/
theorem dispatch_position (procedure : Procedure World)
    (closed : ¬ procedure.LacksSuccessor) (itinerary : Itinerary World) (walk : Walk World)
    (position other : Nat) :
    walk.dispatch itinerary position procedure = walk.dispatch itinerary other procedure := by
  cases procedure with
  | check => rfl
  | action name body next =>
    have elsewhere : ∀ moved : Walk World,
        moved.continueTo itinerary position (Successor.ofNext next) =
          moved.continueTo itinerary other (Successor.ofNext next) := by
      intro moved
      cases successor : Successor.ofNext next with
      | finish => rfl
      | named => rfl
      | following => exact absurd ((Successor.ofNext_eq_following_iff next).mp successor) closed
    simp only [Walk.dispatch, elsewhere]

/-- Where no action of a part of a list lacks a successor, each route out of the part is that
of an action with nothing behind it. -/
theorem routesFrom_of_closed (procedures part : List (Procedure World))
    (closed : ∀ procedure ∈ part, ¬ procedure.LacksSuccessor) (source : String)
    (route : Route World) (member : (source, route) ∈ Plan.routesFrom procedures part) :
    ∃ body next, .action source body next ∈ part ∧
      route = Plan.routeFrom procedures [] (Successor.ofNext next) := by
  induction part with
  | nil => cases member
  | cons procedure rest ih =>
    have later : (source, route) ∈ Plan.routesFrom procedures rest →
        ∃ body next, .action source body next ∈ procedure :: rest ∧
          route = Plan.routeFrom procedures [] (Successor.ofNext next) := by
      intro inRest
      obtain ⟨body, next, isAction, same⟩ :=
        ih (fun other behind => closed other (List.mem_cons_of_mem _ behind)) inRest
      exact ⟨body, next, List.mem_cons_of_mem _ isAction, same⟩
    cases procedure with
    | check => exact later member
    | action name body next =>
      rcases List.mem_cons.mp member with here | inRest
      · obtain ⟨rfl, rfl⟩ := Prod.mk.inj here
        refine ⟨body, next, List.mem_cons_self, ?_⟩
        cases successor : Successor.ofNext next with
        | finish => rfl
        | named => rfl
        | following =>
          exact absurd ((Successor.ofNext_eq_following_iff next).mp successor)
            (closed _ List.mem_cons_self)
      · exact later inRest

/-- A list without repeated names and open ends can be relied on. -/
theorem reliable_of_closed (procedures : List (Procedure World))
    (distinct : (names procedures).Nodup) (closed : ¬ HasOpenEnds procedures) :
    Reliable procedures := by
  have allClosed : HasCheck procedures → ∀ procedure ∈ procedures,
      ¬ procedure.LacksSuccessor := fun checked procedure member isOpen =>
    closed ((hasOpenEnds_iff procedures).mpr ⟨checked, procedure, member, isOpen⟩)
  refine ⟨get?_index_iff procedures distinct, fun name procedure => ?_, ?_, ?_, ?_⟩
  · rw [find?_eq_at_index procedures distinct, Option.bind_eq_some_iff]
  · intro name body next member following checked
    exact allClosed checked _ member ((Successor.ofNext_eq_following_iff next).mp following)
  · intro checked procedure member
    exact dispatch_position procedure (allClosed checked procedure member)
  · intro checked
    exact routesFrom_of_closed procedures procedures (allClosed checked)

/-- A list is refused for its names exactly if some name occurs at least twice, and each such
name is told once, in the order of the second occurrences. Otherwise it is refused for its
chain exactly if it has a check and an action that lacks a successor, and those actions are
told in the order of the list. Otherwise it is accepted, and can be relied on. -/
theorem validate_exactly (procedures : List (Procedure World)) :
    ((∃ message repeated, validate procedures = .error (.names message repeated)) ↔
      ∃ name, 2 ≤ (names procedures).count name) ∧
    (∀ message repeated, validate procedures = .error (.names message repeated) →
      ListFault.Repeats (names procedures) repeated) ∧
    ((∃ message lacking, validate procedures = .error (.chain message lacking)) ↔
      (∀ name, (names procedures).count name ≤ 1) ∧ HasCheck procedures ∧
        ∃ procedure ∈ procedures, procedure.LacksSuccessor) ∧
    (∀ message lacking, validate procedures = .error (.chain message lacking) →
      lacking = names (procedures.filter fun procedure => procedure.LacksSuccessor)) ∧
    (validate procedures = .ok () ↔
      (∀ name, (names procedures).count name ≤ 1) ∧
        ¬ (HasCheck procedures ∧ ∃ procedure ∈ procedures, procedure.LacksSuccessor)) ∧
    (validate procedures = .ok () → Reliable procedures) := by
  have twice : (∃ name, 2 ≤ (names procedures).count name) ↔ ¬ (names procedures).Nodup := by
    simp only [List.nodup_iff_count_le_one, not_forall, Nat.not_le, Nat.lt_iff_add_one_le]
  rw [twice, ← List.nodup_iff_count_le_one, ← hasOpenEnds_iff, ← names_leavesNextOpen]
  rcases validate_cases procedures with
    ⟨again, refused⟩ | ⟨distinct, openEnds, refused⟩ | ⟨distinct, closed, accepted⟩
  · have repeats := ListFault.repeats_repeatedNames (names procedures)
    rw [refused]
    simp [ListFault.toFailure, again, repeats]
  · rw [refused]
    simp [ListFault.toFailure, distinct, openEnds]
  · rw [accepted]
    simp [distinct, closed, reliable_of_closed procedures distinct closed]

/-- Actions and checks of two names in turn, the second of which occurs again first. -/
def interleaved : List (Procedure Unit) :=
  let idle : Body Unit := fun _ record world => (.ok record, world)
  [.action "a" idle none, .check "b" idle, .action "b" idle none, .check "a" idle,
    .action "a" idle (some "")]

/-- Of names in turn that one is told first which first occurs again, and each is told once. -/
theorem validate_exactly_interleaved :
    (∃ message, validate interleaved = .error (.names message ["b", "a"])) ∧
      ListFault.Repeats ["a", "b", "b", "a", "a"] ["b", "a"] := by
  have refused : validate interleaved = .error (.names
      "Procedure names must be unique; duplicated: b, a" ["b", "a"]) := by rfl
  exact ⟨⟨_, refused⟩, (validate_exactly interleaved).2.1 _ _ refused⟩

end Procedure
end Stepwise
