import Mathlib.Data.List.Perm.Subperm
import Stepwise.Proofs.Envelope
import Stepwise.Proofs.PlainFailures

/-!
# The chain of successors

In a list of actions with distinct names the way of a walk is written in the list: an action
is followed by the one that it names, or by the next one, or by none, whatever its body
computes. The chain of successors is a path in the list. If it stops, no name occurs twice on
it, because behind the same position it would be the same chain again; so it is no longer than
the list. If it does not stop, it is longer than the list some time, and then a name has
occurred twice. A ceiling that is not below the length of the list is therefore reached
exactly if the chain comes back to an action.
-/

namespace Stepwise

variable {World : Type}

namespace Procedure

/-- Where the procedure at a position of a list is followed on: at the position of the name, at
the next position, or nowhere. -/
def onward? (procedures : List (Procedure World)) (position : Nat) : Successor → Option Nat
  | .finish => none
  | .named name => (names procedures).idxOf? name
  | .following => if position + 1 < procedures.length then some (position + 1) else none

/-- The position of the first procedure. -/
def first? (procedures : List (Procedure World)) : Option Nat :=
  if procedures.isEmpty then none else some 0

/-- The actions that follow one another in a list from a position on, and where they lead. -/
inductive Succession (procedures : List (Procedure World)) :
    Option Nat → List (Procedure World) → Option Nat → Prop where
  | here (position : Option Nat) : Succession procedures position [] position
  | on {position : Nat} {name : String} {body : Body World} {next : Option String}
      {passed : List (Procedure World)} {final : Option Nat}
      (there : procedures[position]? = some (.action name body next))
      (onward : Succession procedures (onward? procedures position (Successor.ofNext next))
        passed final) :
      Succession procedures (some position) (.action name body next :: passed) final

/-- The chain of successors from the first procedure comes to an action a second time. -/
def Revisits (procedures : List (Procedure World)) : Prop :=
  ∃ passed final, Succession procedures (first? procedures) passed final ∧
    ¬ (names passed).Nodup

variable {procedures passed all : List (Procedure World)} {position middle final : Option Nat}

/-- In a list with distinct names there is one position for a name. -/
theorem position_unique (distinct : (names procedures).Nodup) {here other : Nat}
    {procedure same : Procedure World} (there : procedures[here]? = some procedure)
    (otherwise : procedures[other]? = some same) (named : procedure.name = same.name) :
    here = other := by
  have first := (get?_index_iff procedures distinct _ here).mpr ⟨procedure, there, named⟩
  have second := (get?_index_iff procedures distinct _ other).mpr ⟨same, otherwise, rfl⟩
  exact Option.some.inj (first.symm.trans second)

/-- The position that a walk looks up behind an action is the one where the chain goes on. -/
theorem cursorBehind_eq_onward? (distinct : (names procedures).Nodup) (here : Nat)
    (successor : Successor) :
    Plan.cursorBehind procedures here successor = onward? procedures here successor := by
  cases successor with
  | finish => rfl
  | following => rfl
  | named name =>
    rw [Plan.cursorBehind, onward?]
    cases found : (names procedures).idxOf? name with
    | none =>
      cases read : Entries.get? name (index procedures) with
      | none => rfl
      | some place =>
        obtain ⟨procedure, there, rfl⟩ := (get?_index_iff procedures distinct name place).mp read
        have member : procedure.name ∈ names procedures :=
          List.mem_map_of_mem (List.mem_of_getElem? there)
        exact absurd member (List.idxOf?_eq_none_iff.mp found)
    | some place =>
      obtain ⟨inside, named, -⟩ := List.idxOf?_eq_some_iff.mp found
      have inList : place < procedures.length := by simpa [names] using inside
      refine (get?_index_iff procedures distinct name place).mpr
        ⟨procedures[place], List.getElem?_eq_getElem inList, ?_⟩
      simpa [names] using named

/-- The chain goes on inside the list. -/
theorem lt_of_onward? {here there : Nat} {successor : Successor}
    (onward : onward? procedures here successor = some there) : there < procedures.length := by
  cases successor with
  | finish => cases onward
  | named name =>
    obtain ⟨inside, -⟩ := List.idxOf?_eq_some_iff.mp onward
    simpa [names] using inside
  | following =>
    rw [onward?] at onward
    split at onward
    · next inside => exact Option.some.inj onward ▸ inside
    · cases onward

namespace Succession

/-- From nowhere nothing follows. -/
theorem of_nowhere (chain : Succession procedures none passed final) :
    passed = [] ∧ final = none := by
  cases chain
  exact ⟨rfl, rfl⟩

/-- What follows stands in the list. -/
theorem mem (chain : Succession procedures position passed final) :
    ∀ procedure ∈ passed, procedure ∈ procedures := by
  induction chain with
  | here => exact fun procedure member => absurd member List.not_mem_nil
  | on there onward ih =>
    intro procedure member
    rcases List.mem_cons.mp member with rfl | later
    · exact List.mem_of_getElem? there
    · exact ih procedure later

/-- Of two chains from one position the longer begins with the shorter. -/
theorem split (short : Succession procedures position passed middle)
    (long : Succession procedures position all final) (fewer : passed.length ≤ all.length) :
    ∃ rest, all = passed ++ rest ∧ Succession procedures middle rest final := by
  induction short generalizing all with
  | here position => exact ⟨all, rfl, long⟩
  | on there onward ih =>
    cases long with
    | here => cases fewer
    | on elsewhere longOnward =>
      obtain ⟨rfl, rfl, rfl⟩ := Procedure.action.inj (Option.some.inj (there.symm.trans elsewhere))
      obtain ⟨rest, rfl, behind⟩ := ih longOnward (Nat.le_of_succ_le_succ fewer)
      exact ⟨rest, rfl, behind⟩

/-- No chain from a position is longer than one that stops, which it begins. -/
theorem prefix_of_stopped (stopped : Succession procedures position all none)
    (chain : Succession procedures position passed final) : passed <+: all := by
  rcases Nat.le_total passed.length all.length with fewer | more
  · obtain ⟨rest, whole, -⟩ := chain.split stopped fewer
    exact ⟨rest, whole.symm⟩
  · obtain ⟨rest, rfl, behind⟩ := stopped.split chain more
    obtain ⟨rfl, -⟩ := behind.of_nowhere
    rw [List.append_nil]

/-- Only one chain from a position stops. -/
theorem eq_of_stopped (stopped : Succession procedures position all none)
    (other : Succession procedures position passed none) : passed = all :=
  (stopped.prefix_of_stopped other).eq_of_length_le (other.prefix_of_stopped stopped).length_le

/-- The chain stands at each of its actions. -/
theorem at_mem (chain : Succession procedures position passed final) {procedure : Procedure World}
    (member : procedure ∈ passed) :
    ∃ here rest, procedures[here]? = some procedure ∧
      Succession procedures (some here) (procedure :: rest) final ∧
      rest.length + 1 ≤ passed.length := by
  induction chain with
  | here => exact absurd member List.not_mem_nil
  | @on here name body next passed final there onward ih =>
    rcases List.mem_cons.mp member with rfl | later
    · exact ⟨here, passed, there, .on there onward, Nat.le_refl _⟩
    · obtain ⟨other, rest, stands, onwards, fewer⟩ := ih later
      exact ⟨other, rest, stands, onwards, Nat.le_succ_of_le fewer⟩

/-- A chain that stops comes to no name twice.

Proof: by induction on the actions. If the first one came again, the chain from its position
would stop after fewer actions as well. -/
theorem nodup_of_stopped (distinct : (names procedures).Nodup)
    (stopped : Succession procedures position passed none) : (names passed).Nodup := by
  induction passed generalizing position with
  | nil => exact List.nodup_nil
  | cons first later ih =>
    cases stopped with
    | @on here name body next _ _ there onward =>
      refine List.nodup_cons.mpr ⟨fun again => ?_, ih onward⟩
      obtain ⟨procedure, member, named⟩ := List.mem_map.mp again
      obtain ⟨other, rest, elsewhere, fromThere, fewer⟩ := onward.at_mem member
      obtain rfl := position_unique distinct elsewhere there named
      have same := eq_of_stopped (.on there onward) fromThere
      have longer := congrArg List.length same
      simp only [List.length_cons] at longer
      omega

/-- A chain that comes to no name twice is no longer than the list. -/
theorem length_le_of_nodup (chain : Succession procedures position passed final)
    (once : (names passed).Nodup) : passed.length ≤ procedures.length := by
  have within : names passed ⊆ names procedures := List.map_subset _ chain.mem
  have shorter := (List.subperm_of_subset once within).length_le
  simpa [names] using shorter

end Succession

/-- In a list of actions a chain goes on for any number of actions, unless it stops before. -/
theorem exists_succession (acts : ∀ procedure ∈ procedures, procedure.isAction = true)
    (count : Nat) (position : Option Nat)
    (inside : ∀ here, position = some here → here < procedures.length) :
    ∃ passed final, Succession procedures position passed final ∧
      (final = none ∧ passed.length ≤ count ∨ final ≠ none ∧ passed.length = count) := by
  induction count generalizing position with
  | zero =>
    refine ⟨[], position, .here position, ?_⟩
    cases position with
    | none => exact .inl ⟨rfl, Nat.le_refl 0⟩
    | some here => exact .inr ⟨nofun, rfl⟩
  | succ count ih =>
    cases position with
    | none => exact ⟨[], none, .here none, .inl ⟨rfl, Nat.zero_le _⟩⟩
    | some here =>
      have inList : here < procedures.length := inside here rfl
      have there := List.getElem?_eq_getElem inList
      have acting := acts _ (List.getElem_mem inList)
      generalize procedures[here] = procedure at there acting
      cases procedure with
      | check => cases acting
      | action name body next =>
        obtain ⟨passed, final, onward, ends⟩ :=
          ih (onward? procedures here (Successor.ofNext next)) fun _ => lt_of_onward?
        refine ⟨_, final, .on there onward, ?_⟩
        simpa only [List.length_cons, Nat.add_le_add_iff_right, Nat.add_right_cancel_iff] using ends

/-- The first position is in the list. -/
theorem lt_of_first? {here : Nat} (starts : first? procedures = some here) :
    here < procedures.length := by
  cases procedures with
  | nil => cases starts
  | cons procedure rest =>
    obtain rfl : 0 = here := Option.some.inj starts
    exact Nat.zero_lt_succ _

/-- The chain of a list of actions stops exactly if it comes to no action twice. -/
theorem stops_iff_not_revisits (acts : ∀ procedure ∈ procedures, procedure.isAction = true)
    (distinct : (names procedures).Nodup) :
    (∃ passed, Succession procedures (first? procedures) passed none) ↔
      ¬ Revisits procedures := by
  constructor
  · rintro ⟨all, stopped⟩ ⟨passed, final, chain, again⟩
    have initial : names passed <+: names all := (stopped.prefix_of_stopped chain).map name
    exact again ((stopped.nodup_of_stopped distinct).sublist initial.sublist)
  · intro never
    obtain ⟨passed, final, chain, ⟨rfl, -⟩ | ⟨-, length⟩⟩ :=
      exists_succession acts (procedures.length + 1) (first? procedures)
        fun _ starts => lt_of_first? starts
    · exact ⟨passed, chain⟩
    · have once : (names passed).Nodup := by
        by_contra again
        exact never ⟨passed, final, chain, again⟩
      have short := chain.length_le_of_nodup once
      omega

/-- Where every action leaves its successor to the list, the chain from a position is the rest
of the list.

Proof: by induction on the length of the rest. -/
theorem succession_of_open (openEnds : ∀ procedure ∈ procedures, procedure.leavesNextOpen = true)
    (here : Nat) :
    Succession procedures (if here < procedures.length then some here else none)
      (procedures.drop here) none := by
  induction rest : procedures.length - here generalizing here with
  | zero =>
    have behind : procedures.length ≤ here := Nat.le_of_sub_eq_zero rest
    rw [if_neg (Nat.not_lt.mpr behind), List.drop_eq_nil_of_le behind]
    exact .here none
  | succ count ih =>
    have inside : here < procedures.length := by omega
    have onward := ih (here + 1) (by omega)
    have there := List.getElem?_eq_getElem inside
    have isOpen := openEnds _ (List.getElem_mem inside)
    rw [if_pos inside, List.drop_eq_getElem_cons inside]
    generalize procedures[here] = procedure at there isOpen
    cases procedure with
    | check => cases isOpen
    | action name body next =>
      have following : Successor.ofNext next = .following := by
        simpa [leavesNextOpen] using isOpen
      refine .on there ?_
      rw [following]
      exact onward

/-- A body that never fails and returns a record with both sections. -/
def ReturnsPairs (models : Models) (procedure : Procedure World) : Prop :=
  ∀ record world, ∃ returned after input output,
    procedure.body models record world = (.ok returned, after) ∧
      returned.child (.text Section.input.name) = .ok input ∧
      returned.child (.text Section.output.name) = .ok output

/-- The sections and the world behind a body: those of the record that it returns. Where it
returns no record, the sections are as before. -/
def applied (models : Models) (state : Sections × World) (procedure : Procedure World) :
    Sections × World :=
  match procedure.body models state.1.toValue state.2 with
  | (.error _, after) => (state.1, after)
  | (.ok returned, after) =>
    match returned.child (.text Section.input.name), returned.child (.text Section.output.name) with
    | .ok input, .ok output => (⟨input, output⟩, after)
    | _, _ => (state.1, after)

end Procedure

namespace Walk

/-- A walk that stands somewhere when the ceiling is reached is over and fails. -/
theorem turn_of_reached {itinerary : Itinerary World} {walk : Walk World} {limit here : Nat}
    (ceiling : itinerary.options.ceiling = some limit) (stands : walk.progress.cursor = some here)
    (reached : limit ≤ walk.progress.iteration) :
    turn itinerary walk =
      .over (.failed (.iterationLimit limit)) (walk.log itinerary (limitEvent limit)) := by
  have atLimit : atCeiling itinerary.options walk.progress = some limit := by
    rw [atCeiling, ceiling]
    exact Option.filter_some_pos (by simpa using reached)
  rw [turn, stands]
  dsimp only
  rw [atLimit]
  rfl

/-- A walk that stands at a procedure below the ceiling dispatches it. -/
theorem turn_of_below {itinerary : Itinerary World} {walk : Walk World} {limit here : Nat}
    {procedure : Procedure World} (ceiling : itinerary.options.ceiling = some limit)
    (stands : walk.progress.cursor = some here)
    (there : itinerary.procedures[here]? = some procedure)
    (below : walk.progress.iteration < limit) :
    turn itinerary walk = .dispatch here procedure := by
  have unlimited : atCeiling itinerary.options walk.progress = none := by
    rw [atCeiling, ceiling]
    exact Option.filter_some_neg (by simpa using below)
  rw [turn, stands]
  dsimp only
  rw [unlimited]
  dsimp only
  rw [there]

/-- A walk of actions that return records goes the way of the chain as long as the ceiling is
not reached, and applies one body after the other. -/
theorem exists_passage_of_succession (itinerary : Itinerary World) (walk : Walk World)
    {position final : Option Nat} {passed : List (Procedure World)} {limit : Nat}
    (distinct : (Procedure.names itinerary.procedures).Nodup)
    (pairs : ∀ procedure ∈ itinerary.procedures, procedure.ReturnsPairs itinerary.models)
    (ceiling : itinerary.options.ceiling = some limit)
    (chain : Procedure.Succession itinerary.procedures position passed final)
    (indexed : walk.progress.index = Procedure.index itinerary.procedures)
    (stands : walk.progress.cursor = position)
    (room : walk.progress.iteration + passed.length ≤ limit) :
    ∃ way here, Passage itinerary walk way here ∧ way.map (·.procedure) = passed ∧
      here.progress.cursor = final ∧
      (here.sections, here.world) =
        passed.foldl (Procedure.applied itinerary.models) (walk.sections, walk.world) := by
  induction chain generalizing walk with
  | here position => exact ⟨[], walk, .here walk, rfl, stands, rfl⟩
  | @on position name body next passed final there onward ih =>
    obtain ⟨returned, after, input, output, answered, hasInput, hasOutput⟩ :=
      pairs _ (List.mem_of_getElem? there) walk.sections.toValue walk.world
    obtain ⟨events, dispatched⟩ := dispatch_action itinerary walk indexed position name body next
      returned after answered input output hasInput hasOutput
    rw [List.length_cons] at room
    have turns : turn itinerary walk = .dispatch position (.action name body next) :=
      turn_of_below ceiling stands there (by omega)
    rw [Procedure.cursorBehind_eq_onward? distinct] at dispatched
    have left : walk.progress.iteration + 1 + passed.length ≤ limit := by omega
    obtain ⟨way, here, passage, names, cursor, composed⟩ := ih
      ⟨⟨input, output⟩, { walk.progress.dispatched name with
        cursor := Procedure.onward? itinerary.procedures position (Successor.ofNext next) },
        events, after⟩ indexed rfl left
    refine ⟨_, here, .on turns answered dispatched passage, ?_, cursor, ?_⟩
    · rw [List.map_cons, names]
    · have step : Procedure.applied itinerary.models (walk.sections, walk.world)
          (.action name body next) = (⟨input, output⟩, after) := by
        rw [Procedure.applied, answered]
        dsimp only
        rw [hasInput, hasOutput]
      rw [List.foldl_cons, step]
      exact composed

end Walk

namespace Workflow

/-- A walk on checked data has gone through a row of procedures and has come to its end: these
are the bodies called and the procedures visited, the record and the world are what one body
after the other made of them, and the output decides how the walk ends. -/
structure GoesThrough (workflow : Workflow World) (patience : Nat) (input data : Value)
    (world : World) (passed : List (Procedure World)) : Prop where
  called : (workflow.walkCalls patience input world).map Call.name = Procedure.names passed
  remembered : ∃ progress,
    (workflow.walk patience input world).2.workflow.lastRun = some progress ∧
      progress.visited = Procedure.names passed ∧ progress.iteration = passed.length
  composed : ((workflow.walk patience input world).2.workflow.sections,
      (workflow.walk patience input world).2.world) =
    passed.foldl (Procedure.applied workflow.models) (⟨data, workflow.sections.output⟩, world)
  ended : (workflow.walk patience input world).1 =
    .ofAttempt (workflow.accept .output
      (workflow.walk patience input world).2.workflow.sections.output)

variable {workflow : Workflow World} {input data : Value}

/-- A list of actions with distinct names is accepted. -/
theorem listed_of_actions (acts : ∀ procedure ∈ workflow.procedures, procedure.isAction = true)
    (distinct : (Procedure.names workflow.procedures).Nodup) :
    Procedure.validate workflow.procedures = .ok () := by
  rcases Procedure.validate_cases workflow.procedures with
    ⟨repeated, -⟩ | ⟨-, ⟨⟨procedure, member, isCheck⟩, -⟩, -⟩ | ⟨-, -, listed⟩
  · exact absurd distinct repeated
  · rw [procedure.isCheck_eq_not_isAction, acts procedure member] at isCheck
    cases isCheck
  · exact listed

/-- How turns that finish leave a workflow. -/
theorem afterTurns_finished (workflow : Workflow World) (walked : Walk World) :
    (workflow.afterTurns walked (.finished ())).1 =
        .ofAttempt (workflow.accept .output walked.sections.output) ∧
      (workflow.afterTurns walked (.finished ())).2.workflow.sections = walked.sections ∧
      (workflow.afterTurns walked (.finished ())).2.world = walked.world ∧
      ∃ status, (workflow.afterTurns walked (.finished ())).2.workflow.lastRun =
        some { walked.progress with status } := by
  rw [afterTurns, closeWalk]
  cases workflow.accept .output walked.sections.output with
  | error why => exact ⟨rfl, rfl, rfl, _, rfl⟩
  | ok result => exact ⟨rfl, rfl, rfl, _, rfl⟩

/-- A walk of actions whose chain stops before the ceiling goes through the chain. -/
theorem Accepts.goesThrough (accepts : workflow.Accepts input data)
    (pairs : ∀ procedure ∈ workflow.procedures, procedure.ReturnsPairs workflow.models)
    (limit more : Nat) (ceiling : workflow.options.ceiling = some limit)
    {passed : List (Procedure World)}
    (chain : Procedure.Succession workflow.procedures (Procedure.first? workflow.procedures)
      passed none) (room : passed.length ≤ limit) (world : World) :
    workflow.GoesThrough (limit + more) input data world passed := by
  obtain ⟨way, here, passage, rfl, nowhere, composed⟩ :=
    Walk.exists_passage_of_succession workflow.itinerary (workflow.walkStart data world)
      (Procedure.nodup_names_of_validate _ accepts.listed) pairs ceiling chain rfl rfl
      (by simpa [walkStart, Progress.start] using room)
  have visited : here.progress.visited = Procedure.names (way.map (·.procedure)) := by
    rw [passage.visited_eq, Procedure.names, List.map_map]
    rfl
  have counted : here.progress.iteration = (way.map (·.procedure)).length := by
    rw [passage.progress_eq.2.2, List.length_map]
    exact Nat.zero_add _
  have isOver : Walk.turn workflow.itinerary here = .over (.finished ()) here := by
    rw [Walk.turn, nowhere]
  have turns : Walk.run workflow.itinerary (limit + more) (workflow.walkStart data world) =
      (.finished (), here) := by
    rw [List.length_map] at room
    have split : limit + more = way.length + (limit - way.length + more) := by omega
    rw [split, passage.run_eq, Walk.run_of_over _ _ _ _ isOver]
  have walked := accepts.walk_eq (limit + more) world
  have called := accepts.names_walkCalls (limit + more) world
  rw [turns] at walked called
  obtain ⟨ended, sections, after, status, last⟩ := workflow.afterTurns_finished here
  refine ⟨called.trans visited, ?_, ?_, ?_⟩
  · rw [walked]
    exact ⟨_, last, visited, counted⟩
  · rw [walked, sections, after]
    exact composed
  · rw [walked, sections]
    exact ended

/-- A walk of actions whose chain goes on under the ceiling reaches it. -/
theorem Accepts.limited (accepts : workflow.Accepts input data)
    (pairs : ∀ procedure ∈ workflow.procedures, procedure.ReturnsPairs workflow.models)
    (limit more : Nat) (ceiling : workflow.options.ceiling = some limit)
    {passed : List (Procedure World)} {position : Option Nat}
    (chain : Procedure.Succession workflow.procedures (Procedure.first? workflow.procedures)
      passed position) (onward : position ≠ none) (full : passed.length = limit) (world : World) :
    (workflow.walk (limit + more) input world).1 = .failed (.iterationLimit limit) := by
  obtain ⟨there, rfl⟩ := Option.ne_none_iff_exists'.mp onward
  obtain ⟨way, here, passage, rfl, stands, -⟩ :=
    Walk.exists_passage_of_succession workflow.itinerary (workflow.walkStart data world)
      (Procedure.nodup_names_of_validate _ accepts.listed) pairs ceiling chain rfl rfl
      (by simpa [walkStart, Progress.start] using full.le)
  rw [List.length_map] at full
  have reached : limit ≤ here.progress.iteration := by
    rw [passage.progress_eq.2.2, full]
    exact Nat.le_add_left _ _
  have turns := passage.run_eq more
  rw [Walk.run_of_over _ _ _ _ (Walk.turn_of_reached ceiling stands reached), full] at turns
  rw [accepts.walk_eq, turns]
  rfl

/-- A walk of a list of actions with distinct names whose bodies return records, under a ceiling
not below the length of the list. It reaches the ceiling exactly if the chain of successors
comes to an action twice. Otherwise it goes through the chain, on which no name occurs twice;
and where every action leaves its successor to the list, this is the list.

Proof: the chain is followed up to the ceiling. If it stops, the walk does; if not, the walk
stands somewhere when the ceiling is reached. By counting names one of the two says whether
the chain comes back. -/
theorem walk_of_actions (workflow : Workflow World)
    (acts : ∀ procedure ∈ workflow.procedures, procedure.isAction = true)
    (distinct : (Procedure.names workflow.procedures).Nodup)
    (pairs : ∀ procedure ∈ workflow.procedures, procedure.ReturnsPairs workflow.models)
    (limit more : Nat) (ceiling : workflow.options.ceiling = some limit)
    (enough : workflow.procedures.length ≤ limit) (input : Value) (world : World) :
    (∃ why, workflow.accept .input input = .error why ∧ (∀ n, why ≠ .iterationLimit n) ∧
      workflow.walk (limit + more) input world = (.failed why, ⟨workflow, [], world⟩)) ∨
    ∃ data, workflow.accept .input input = .ok data ∧
      ((∃ n, (workflow.walk (limit + more) input world).1 = .failed (.iterationLimit n)) ↔
        Procedure.Revisits workflow.procedures) ∧
      (Procedure.Revisits workflow.procedures →
        (workflow.walk (limit + more) input world).1 = .failed (.iterationLimit limit)) ∧
      (¬ Procedure.Revisits workflow.procedures → ∃ passed,
        Procedure.Succession workflow.procedures (Procedure.first? workflow.procedures)
          passed none ∧
        (Procedure.names passed).Nodup ∧ passed.length ≤ workflow.procedures.length ∧
        workflow.GoesThrough (limit + more) input data world passed) ∧
      ((∀ procedure ∈ workflow.procedures, procedure.leavesNextOpen = true) →
        workflow.GoesThrough (limit + more) input data world workflow.procedures) := by
  have listed := listed_of_actions acts distinct
  cases accepted : workflow.accept .input input with
  | error why =>
    have rejects : workflow.Rejects input why := .input listed accepted
    have plain := workflow.failsPlainly_accept .input input why accepted
    refine .inl ⟨why, rfl, ?_, rejects.walk_eq _ world⟩
    rintro n rfl
    cases plain
  | ok data =>
    have accepts : workflow.Accepts input data := ⟨listed, accepted⟩
    have stops := Procedure.stops_iff_not_revisits acts distinct
    have through : ∀ passed, Procedure.Succession workflow.procedures
        (Procedure.first? workflow.procedures) passed none →
          (Procedure.names passed).Nodup ∧ passed.length ≤ workflow.procedures.length ∧
            workflow.GoesThrough (limit + more) input data world passed := by
      intro passed chain
      have once := chain.nodup_of_stopped distinct
      have short := chain.length_le_of_nodup once
      exact ⟨once, short,
        accepts.goesThrough pairs limit more ceiling chain (short.trans enough) world⟩
    have reaches : Procedure.Revisits workflow.procedures →
        (workflow.walk (limit + more) input world).1 = .failed (.iterationLimit limit) := by
      intro revisits
      obtain ⟨passed, final, chain, ⟨rfl, -⟩ | ⟨onward, full⟩⟩ :=
        Procedure.exists_succession acts limit (Procedure.first? workflow.procedures)
          fun _ starts => Procedure.lt_of_first? starts
      · exact absurd revisits (stops.mp ⟨passed, chain⟩)
      · exact accepts.limited pairs limit more ceiling chain onward full world
    refine .inr ⟨data, rfl, ⟨?_, fun revisits => ⟨limit, reaches revisits⟩⟩, reaches, ?_, ?_⟩
    · rintro ⟨n, limited⟩
      by_contra never
      obtain ⟨passed, chain⟩ := stops.mpr never
      obtain ⟨-, -, goes⟩ := through passed chain
      rw [goes.ended] at limited
      cases checked : workflow.accept .output
          (workflow.walk (limit + more) input world).2.workflow.sections.output with
      | ok result =>
        rw [checked] at limited
        cases limited
      | error why =>
        rw [checked] at limited
        obtain rfl := Ending.failed.inj limited
        cases workflow.failsPlainly_accept .output _ _ checked
    · intro never
      obtain ⟨passed, chain⟩ := stops.mpr never
      exact ⟨passed, chain, through passed chain⟩
    · intro openEnds
      have chain := Procedure.succession_of_open openEnds 0
      have starts : (if 0 < workflow.procedures.length then some 0 else none) =
          Procedure.first? workflow.procedures := by
        cases workflow.procedures <;> rfl
      rw [starts, List.drop_zero] at chain
      exact (through _ chain).2.2

/-- An action that returns an empty record and adds its name to the world. -/
def naming (name next : String) : Procedure (List String) :=
  .action name (fun _ _ world => (.ok (.ofFields [("input", .mapping []),
    ("output", .mapping [])]), world ++ [name])) (some next)

/-- A workflow under a ceiling of three that jumps over its second action and back to it. -/
def jumping (next : String) : Workflow (List String) :=
  withList noFields (some 3)
    [naming "first" "third", naming "second" next, naming "third" "second"]

/-- Where the second action ends the run, each is dispatched once, in the order of the chain.
Where it leads back to the first, the ceiling is reached. -/
theorem walk_of_actions_jumping :
    ((jumping endName).GoesThrough 3 (.mapping []) (.mapping []) []
      [naming "first" "third", naming "third" "second", naming "second" endName]) ∧
    ((jumping "first").walk 3 (.mapping []) []).1 = .failed (.iterationLimit 3) := by
  have acts : ∀ next, ∀ procedure ∈ (jumping next).procedures, procedure.isAction = true := by
    simp [jumping, naming, Procedure.isAction]
  have distinct : ∀ next, (Procedure.names (jumping next).procedures).Nodup := by
    simp [jumping, naming, Procedure.names, Procedure.name]
  have pairs : ∀ next, ∀ procedure ∈ (jumping next).procedures,
      procedure.ReturnsPairs (jumping next).models := by
    intro next procedure member record world
    simp only [jumping, procedures_withList, List.mem_cons, List.not_mem_nil, or_false] at member
    rcases member with rfl | rfl | rfl <;> exact ⟨_, _, _, _, rfl, rfl, rfl⟩
  have walked := fun next => walk_of_actions (jumping next) (acts next) (distinct next)
    (pairs next) 3 0 rfl (Nat.le_refl 3) (.mapping []) []
  constructor
  · obtain ⟨why, refused, -⟩ | ⟨data, accepted, -, -, through, -⟩ := walked endName
    · cases refused
    · obtain rfl := Except.ok.inj accepted
      have chain : Procedure.Succession (jumping endName).procedures (some 0)
          [naming "first" "third", naming "third" "second", naming "second" endName] none :=
        .on rfl (.on rfl (.on rfl (.here none)))
      obtain ⟨passed, stopped, -, -, goes⟩ := through
        ((Procedure.stops_iff_not_revisits (acts _) (distinct _)).mp ⟨_, chain⟩)
      rw [stopped.eq_of_stopped chain]
      exact goes
  · obtain ⟨why, refused, -⟩ | ⟨data, accepted, -, limited, -⟩ := walked "first"
    · cases refused
    · have chain : Procedure.Succession (jumping "first").procedures (some 0)
          [naming "first" "third", naming "third" "second", naming "second" "first",
            naming "first" "third"] (some 2) :=
        .on rfl (.on rfl (.on rfl (.on rfl (.here (some 2)))))
      exact limited ⟨_, _, chain, by simp [Procedure.names, naming, Procedure.name]⟩

end Workflow
end Stepwise
