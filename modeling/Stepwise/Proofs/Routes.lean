import Stepwise.Proofs.Plans
import Stepwise.Proofs.Sharp

/-!
# Where a run goes on

A walk knows where it stands by a position in the list, a plan by the names that its
routes lead to. Where no name occurs twice and none is empty, both are one: the route out
of a node leads to where the cursor goes behind that action, and so does the route from
the start. What an answer says depends on no order, so a walk and a plan also read it alike.
-/

namespace Stepwise

variable {World : Type}

namespace Value

/-- Values that are rearranged are both true or both not. -/
theorem Rearranged.truthy_eq {value other : Value} (related : value.Rearranged other) :
    value.truthy = other.truthy := by
  cases related with
  | same => rfl
  | list matched => cases matched <;> rfl
  | tuple matched => cases matched <;> rfl
  | set frozen matched =>
    cases matched with
    | same => rfl
    | set order matched =>
      rw [truthy, truthy, order.isEmpty_eq]
      cases matched <;> rfl
  | mapping order matched =>
    rw [truthy, truthy, order.isEmpty_eq]
    cases matched <;> rfl
  | replacement => rfl

/-- Values that are rearranged are both equal to a text or both not. -/
theorem Rearranged.equal_text_eq {value other : Value} (related : value.Rearranged other)
    (s : String) : value.equal (.text s) = other.equal (.text s) := by
  cases related <;> simp [equal, alike, number?]

/-- Parts that are keys are matched only to parts that are matched keys. -/
theorem keys?_matched (items others : List Value)
    (each : ∀ item ∈ items, ∀ other key, item.Rearranged other → item.key? = some key →
      ∃ otherKey, other.key? = some otherKey ∧ key.Rearranged otherKey)
    (matched : List.Forall₂ Rearranged items others) (keys : List Key)
    (found : keys? items = some keys) :
    ∃ otherKeys, keys? others = some otherKeys ∧ List.Forall₂ Key.Rearranged keys otherKeys := by
  induction matched generalizing keys with
  | nil =>
    obtain rfl : [] = keys := by simpa [keys?] using found
    exact ⟨[], rfl, .nil⟩
  | cons here _ ih =>
    rw [keys?] at found
    split at found
    · next key rest firstFound restFound =>
      obtain rfl := Option.some.inj found
      obtain ⟨otherKey, otherFound, related⟩ := each _ List.mem_cons_self _ key here firstFound
      obtain ⟨otherKeys, othersFound, keysRelated⟩ := ih
        (fun item member => each item (List.mem_cons_of_mem _ member)) rest restFound
      exact ⟨otherKey :: otherKeys, by rw [keys?, otherFound, othersFound],
        .cons related keysRelated⟩
    · cases found

/-- A value that is a key is rearranged only to values that are rearranged keys. -/
theorem Rearranged.exists_key {value other : Value} (related : value.Rearranged other) (key : Key)
    (found : value.key? = some key) :
    ∃ otherKey, other.key? = some otherKey ∧ key.Rearranged otherKey := by
  match value, other, related with
  | _, _, .same _ => exact ⟨key, found, .same _⟩
  | _, _, .list _ => simp [key?] at found
  | .tuple items, .tuple others, .tuple matched =>
    obtain ⟨keys, keysFound, rfl⟩ := Option.map_eq_some_iff.mp found
    obtain ⟨otherKeys, othersFound, keysRelated⟩ := keys?_matched items others
      (fun item member other key itemRelated itemFound => exists_key itemRelated key itemFound)
      matched keys keysFound
    exact ⟨.tuple otherKeys, by rw [key?, othersFound]; rfl, .tuple keysRelated⟩
  | _, _, .set frozen matched =>
    cases frozen with
    | false => simp [key?] at found
    | true =>
      obtain rfl := Option.some.inj found
      exact ⟨_, rfl, matched⟩
  | _, _, .mapping _ _ => simp [key?] at found
  | .replacement held, .replacement other, .replacement matched =>
    obtain ⟨heldKey, heldFound, rfl⟩ := Option.map_eq_some_iff.mp found
    obtain ⟨otherKey, otherFound, keyRelated⟩ := exists_key matched heldKey heldFound
    exact ⟨.replacement otherKey, by rw [key?, otherFound]; rfl, .replacement keyRelated⟩
termination_by sizeOf value
decreasing_by
  · have smaller := List.sizeOf_lt_of_mem member
    simp only [Value.tuple.sizeOf_spec]
    omega
  · simp

end Value

/-- Keys that are rearranged are the same text or no text. -/
theorem Key.Rearranged.text?_eq {key other : Key} (related : key.Rearranged other) :
    key.text? = other.text? := by
  cases related <;> rfl

/-- Answers that are rearranged both end a run or both do not. -/
theorem endsRun_rearranged (answer other : Value) (related : answer.Rearranged other) :
    endsRun answer = endsRun other := by
  rw [endsRun, endsRun, related.truthy_eq, related.equal_text_eq]

namespace Procedure

/-- The position of a name is where a procedure of that name stands. -/
theorem get?_index_iff (procedures : List (Procedure World))
    (distinct : (names procedures).Nodup) (name : String) (position : Nat) :
    Entries.get? name (index procedures) = some position ↔
      ∃ procedure, procedures[position]? = some procedure ∧ procedure.name = name := by
  let writes := procedures.zipIdx.map fun entry => (entry.1.name, entry.2)
  have sameNames : Entries.keys writes = names procedures := by
    calc Entries.keys writes = (procedures.zipIdx.map Prod.fst).map Procedure.name := by
          rw [Entries.keys, List.map_map, List.map_map]
          rfl
      _ = names procedures := by rw [List.zipIdx_map_fst, names]
  have exact : Entries.AllExact writes := fun key _ => Entries.isExact_of_lawful key
  have whole : index procedures = writes :=
    Entries.ofWrites_of_nodup writes exact (sameNames ▸ distinct)
  have member : (name, position) ∈ writes ↔
      ∃ procedure, procedures[position]? = some procedure ∧ procedure.name = name := by
    simp only [writes, List.mem_map, Prod.exists, List.mem_zipIdx_iff_getElem?, Prod.mk.injEq]
    constructor
    · rintro ⟨procedure, other, there, rfl, rfl⟩
      exact ⟨procedure, there, rfl⟩
    · rintro ⟨procedure, there, rfl⟩
      exact ⟨procedure, position, there, rfl, rfl⟩
  rw [whole, ← member]
  constructor
  · exact Entries.mem_of_get? name (Entries.isExact_of_lawful name) position writes
  · exact Entries.get?_of_mem name (Entries.isExact_of_lawful name) position writes
      (sameNames ▸ distinct)

/-- The procedure of a name is the one at the name's position. -/
theorem find?_eq_at_index (procedures : List (Procedure World))
    (distinct : (names procedures).Nodup) (name : String) :
    find? procedures name =
      (Entries.get? name (index procedures)).bind fun position => procedures[position]? := by
  cases position : Entries.get? name (index procedures) with
  | some found =>
    obtain ⟨procedure, there, rfl⟩ := (get?_index_iff procedures distinct name found).mp position
    rw [Option.bind_some, there, find?_of_mem procedures distinct procedure
      (List.mem_of_getElem? there)]
  | none =>
    cases found : find? procedures name with
    | none => rfl
    | some procedure =>
      obtain ⟨member, same⟩ := of_find? procedures name procedure found
      obtain ⟨other, there⟩ := List.mem_iff_getElem?.mp member
      have read := (get?_index_iff procedures distinct name other).mpr ⟨procedure, there, same⟩
      rw [position] at read
      cases read

end Procedure

namespace Plan

/-- The route to the procedure at a position; where none stands it leads to the end. -/
def routeAt (procedures : List (Procedure World)) (cursor : Option Nat) : Route World :=
  match cursor.bind fun position => procedures[position]? with
  | none => .straight .finish
  | some (.action name ..) => .straight (.node name)
  | some (.check name body) => .branch name body

/-- A route that leads straight to a node leads from an action of its name. -/
theorem exists_of_routeAt_node (procedures : List (Procedure World)) (cursor : Option Nat)
    (name : String) (leads : routeAt procedures cursor = .straight (.node name)) :
    ∃ position body next, cursor = some position ∧
      procedures[position]? = some (.action name body next) := by
  unfold routeAt at leads
  split at leads
  · cases leads
  · next found =>
    cases leads
    obtain ⟨position, here, there⟩ := Option.bind_eq_some_iff.mp found
    exact ⟨position, _, _, here, there⟩
  · cases leads

/-- A route that branches leads from a check. -/
theorem exists_of_routeAt_branch (procedures : List (Procedure World)) (cursor : Option Nat)
    (name : String) (body : Body World) (branches : routeAt procedures cursor = .branch name body) :
    ∃ position, cursor = some position ∧ procedures[position]? = some (.check name body) := by
  unfold routeAt at branches
  split at branches
  · cases branches
  · cases branches
  · next found =>
    cases branches
    exact Option.bind_eq_some_iff.mp found

/-- Where the cursor goes behind the action at a position. -/
def cursorBehind (procedures : List (Procedure World)) (position : Nat) :
    Successor → Option Nat
  | .finish => none
  | .named name => Entries.get? name (Procedure.index procedures)
  | .following => if position + 1 < procedures.length then some (position + 1) else none

/-- The route to a name leads to its position. -/
theorem routeTo_eq_routeAt (procedures : List (Procedure World))
    (distinct : (Procedure.names procedures).Nodup)
    (filled : ∀ procedure ∈ procedures, procedure.name ≠ "") (name : String) :
    routeTo procedures (some name) =
      routeAt procedures (Entries.get? name (Procedure.index procedures)) := by
  rw [routeTo, routeAt, ← Procedure.find?_eq_at_index procedures distinct]
  by_cases empty : name = ""
  · have nowhere : Procedure.find? procedures name = none := by
      cases found : Procedure.find? procedures name with
      | none => rfl
      | some procedure =>
        obtain ⟨member, same⟩ := Procedure.of_find? procedures name procedure found
        exact absurd (same.trans empty) (filled procedure member)
    rw [if_pos empty, nowhere]
  · cases Procedure.find? procedures name with
    | none => exact if_neg empty
    | some procedure => cases procedure <;> exact if_neg empty

/-- The position of a procedure's name is its own. -/
theorem get?_index_name (procedures : List (Procedure World))
    (distinct : (Procedure.names procedures).Nodup) (position : Nat) (procedure : Procedure World)
    (there : procedures[position]? = some procedure) :
    Entries.get? procedure.name (Procedure.index procedures) = some position :=
  (Procedure.get?_index_iff procedures distinct _ _).mpr ⟨procedure, there, rfl⟩

/-- The route to the first name of a part of the list leads to the part's position. -/
theorem routeTo_head?_drop (procedures : List (Procedure World))
    (distinct : (Procedure.names procedures).Nodup)
    (filled : ∀ procedure ∈ procedures, procedure.name ≠ "") (position : Nat) :
    routeTo procedures (Procedure.names (procedures.drop position)).head? =
      routeAt procedures (if position < procedures.length then some position else none) := by
  rw [Procedure.names, List.head?_map, List.head?_drop]
  cases there : procedures[position]? with
  | none =>
    rw [if_neg (Nat.not_lt.mpr (List.getElem?_eq_none_iff.mp there))]
    rfl
  | some procedure =>
    rw [if_pos (List.getElem?_eq_some_iff.mp there).1, Option.map_some,
      routeTo_eq_routeAt procedures distinct filled,
      get?_index_name procedures distinct position procedure there]

/-- The route out of an action leads to where the cursor goes behind it. -/
theorem routeFrom_eq_routeAt (procedures : List (Procedure World))
    (distinct : (Procedure.names procedures).Nodup)
    (filled : ∀ procedure ∈ procedures, procedure.name ≠ "") (position : Nat)
    (successor : Successor) :
    routeFrom procedures (Procedure.names (procedures.drop (position + 1))) successor =
      routeAt procedures (cursorBehind procedures position successor) := by
  cases successor with
  | finish => rfl
  | named name => exact routeTo_eq_routeAt procedures distinct filled name
  | following => exact routeTo_head?_drop procedures distinct filled (position + 1)

/-- The routes out of the actions of a list are filed under their names. -/
theorem lookup_routesFrom (procedures part : List (Procedure World))
    (distinct : (Procedure.names part).Nodup) (position : Nat) (name : String)
    (body : Body World) (next : Option String)
    (there : part[position]? = some (.action name body next)) :
    (routesFrom procedures part).lookup name = some (routeFrom procedures
      (Procedure.names (part.drop (position + 1))) (Successor.ofNext next)) := by
  induction part generalizing position with
  | nil => cases there
  | cons procedure rest ih =>
    obtain ⟨fresh, restDistinct⟩ := List.nodup_cons.mp distinct
    cases position with
    | zero =>
      obtain rfl : procedure = .action name body next := Option.some.inj there
      rw [routesFrom, List.lookup_cons, beq_self_eq_true]
      rfl
    | succ position =>
      have later : rest[position]? = some (.action name body next) := there
      have found := ih restDistinct position later
      cases procedure with
      | check => exact found
      | action first firstBody firstNext =>
        have apart : name ≠ first := by
          intro same
          have member := List.mem_of_getElem? later
          exact fresh (List.mem_map.mpr ⟨_, member, same⟩)
        rw [routesFrom, List.lookup_cons, beq_false_of_ne apart]
        exact found

variable {workflow : Workflow World} {plan : Plan World}

/-- The route out of a node leads to where the cursor goes behind the action. -/
theorem MadeFor.routeOf_eq_routeAt (made : MadeFor workflow plan)
    (filled : ∀ procedure ∈ workflow.procedures, procedure.name ≠ "") (position : Nat)
    (name : String) (body : Body World) (next : Option String)
    (there : workflow.procedures[position]? = some (.action name body next)) :
    plan.routeOf name = routeAt workflow.procedures
      (cursorBehind workflow.procedures position (Successor.ofNext next)) := by
  have distinct := Procedure.nodup_names_of_validate _ made.accepted
  rw [routeOf, made.routes, lookup_routesFrom _ _ distinct position name body next there,
    Option.getD_some, routeFrom_eq_routeAt _ distinct filled]

/-- The route from the start leads to the first procedure. -/
theorem MadeFor.start_eq_routeAt (made : MadeFor workflow plan)
    (filled : ∀ procedure ∈ workflow.procedures, procedure.name ≠ "") :
    plan.start = routeAt workflow.procedures (Progress.start workflow.procedures).cursor := by
  have distinct := Procedure.nodup_names_of_validate _ made.accepted
  have first := routeTo_head?_drop workflow.procedures distinct filled 0
  rw [List.drop_zero] at first
  rw [made.start, first]
  cases workflow.procedures <;> rfl

/-- A key leads a plan to the procedure at the position that a walk moves to. -/
theorem MadeFor.find?_of_key (made : MadeFor workflow plan) (key : Key) :
    key.text?.bind (Procedure.find? plan.procedures) =
      (key.text?.bind fun text => Entries.get? text (Procedure.index workflow.procedures)).bind
        fun position => workflow.procedures[position]? := by
  have distinct := Procedure.nodup_names_of_validate _ made.accepted
  rw [made.procedures]
  cases key.text? with
  | none => rfl
  | some text => exact Procedure.find?_eq_at_index _ distinct text

end Plan
end Stepwise
