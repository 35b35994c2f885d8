import StateFlow.Proofs.Execution.Effect

/-!
# What observers are told

The events of an execution follow a protocol. After the start, each completed state is told as
entered and left, a choice also as resolved; then comes the state, if any, that was entered and did
not complete; and one event concludes. The protocol is read off the completed visits, the machine
and the way in which the execution ended.
-/

namespace StateFlow

variable {σ : Type}

/-- What is told between entering and leaving a state that leads to the target. -/
inductive State.Tells (document : Json) (name target : String) : State → List Happening → Prop
  | task {body} : Tells document name target (.task body) []
  | pass {body} : Tells document name target (.pass body) []
  | choice {body rule} (htakes : body.Takes document ⟨rule, target⟩) :
      Tells document name target (.choice body) [.choiceResolved name target rule]

/-- The state of the first of some visits, or the one behind them if there is none. -/
def Visit.ahead (final : String) (visits : List Visit) : String :=
  (visits.head?.map Visit.state).getD final

/-- What is told of completed visits, from a step and a document on, when the execution stands in
the final state behind them. -/
inductive Machine.Tells (machine : Machine) (final : String) :
    (step : Nat) → Json → List Visit → List Happening → Prop
  | nil {step document} : Tells machine final step document [] []
  | cons {step document visit rest state between next told}
      (hfind : machine.states.find? visit.state = some state) (hkind : visit.kind = state.kind)
      (hbetween : state.Tells document visit.state (Visit.ahead final rest) between)
      (heffect : machine.effect? document visit = some next)
      (tail : Tells machine final (step + 1) next rest told) :
      Tells machine final step document (visit :: rest)
        (.stateEntered visit.state visit.kind step :: between
          ++ .stateExited visit.state visit.kind (visit.left - visit.entered) :: told)

/-- What is told of a state when its invocation gave no value. -/
def State.complaints (name : String) (state : State) (error : Option ExecutionError) :
    List Happening :=
  match state, error with
  | .task body, some (.invocation _ _ cause) => [.taskFailed name body.resource cause.message]
  | .task body, some (.taskTimeout state milliseconds) =>
    [.taskFailed name body.resource (ExecutionError.taskTimeout state milliseconds).message]
  | _, _ => []

/-- What is told of the state that was entered as this step and did not complete. -/
def Machine.pending (machine : Machine) (step : Nat) (execution : Execution σ) :
    List Happening :=
  if execution.completed.length < execution.steps then
    match machine.states.find? execution.state with
    | none => []
    | some state =>
      .stateEntered execution.state state.kind step
        :: state.complaints execution.state execution.error
  else []

variable {setting : Setting σ} {step now : Nat} {name : String} {context written : Context}
  {world after : σ} {state : State} {visit : Visit}

namespace Stay

/-- A state that did what it is for is told as entered and left. -/
theorem tells (h : Stay setting step now name context world state visit written after)
    (hsucceeded : visit.departure.succeeded = true) {target : String}
    (htarget : ∀ other, visit.departure = .next other → other = target) :
    ∃ between, state.Tells context.document name target between ∧
      visit.happenings = .stateEntered name visit.kind step :: between
        ++ [.stateExited name visit.kind (visit.left - visit.entered)] := by
  cases h with
  | chosen body =>
      have htakes := body.takes_resolve context.document
      obtain rfl := htarget _ rfl
      exact ⟨_, State.Tells.choice htakes, rfl⟩
  | @passed body =>
      refine ⟨[], State.Tells.pass, ?_⟩
      cases body.transition <;> rfl
  | @done body =>
      refine ⟨[], State.Tells.task, ?_⟩
      cases body.transition <;> rfl
  | interrupted _ _ hinterruption =>
      cases (interrupts_interruption hinterruption).succeeded_eq_false.symm.trans hsucceeded
  | refused | unresolved | failed | unmerged => cases hsucceeded

/-- A state that failed is told as entered, with what its invocation complains of. -/
theorem tells_failed (h : Stay setting step now name context world state visit written after)
    {e : ExecutionError} (hdeparture : visit.departure = .failed e) :
    visit.happenings = .stateEntered name state.kind step :: state.complaints name (some e) := by
  cases h with
  | chosen => cases hdeparture
  | passed | done =>
      have hsucceeded := congrArg Departure.succeeded hdeparture
      cases (Transition.succeeded_departure _).symm.trans hsucceeded
  | refused | unresolved | failed =>
      cases hdeparture
      rfl
  | @unmerged _ _ _ _ _ cause =>
      cases hdeparture
      cases cause <;> rfl
  | interrupted _ _ hinterruption =>
      have hinterrupts := interrupts_interruption hinterruption
      cases hdeparture
      cases hinterrupts <;> rfl

theorem tells_cut (h : Stay setting step now name context world state visit written after)
    {limit : Nat} (hdeparture : visit.departure = .cut limit) :
    visit.happenings = [.stateEntered name state.kind step] := by
  cases h with
  | chosen | refused | unresolved | failed | unmerged => cases hdeparture
  | passed | done =>
      have hsucceeded := congrArg Departure.succeeded hdeparture
      cases (Transition.succeeded_departure _).symm.trans hsucceeded
  | interrupted =>
      cases hdeparture
      rfl

end Stay

/-! ## The whole run -/

namespace Execution

variable {machine : Machine} {execution : Execution σ} {spare entered : Nat}

/-- The first completed visit is one to the state that the execution went on from; without any the
execution still stands there. -/
theorem ahead_completed
    (course : Course machine setting spare entered now name context world execution) :
    Visit.ahead execution.state execution.completed = name := by
  cases course with
  | cancelled | stepLimit | unknown => rfl
  | onward _ _ stay hdeparture =>
      rw [completed_prepend (congrArg Departure.succeeded hdeparture)]
      exact stay.state_eq
  | finished _ _ stay hdeparture =>
      rw [completed_stopped (congrArg Departure.succeeded hdeparture)]
      exact stay.state_eq
  | failed _ _ _ hdeparture | cut _ _ _ hdeparture =>
      rw [completed_failed (congrArg Departure.succeeded hdeparture)]
      rfl

theorem pending_prepend (h : visit.departure.succeeded = true) :
    machine.pending step (execution.prepend visit) = machine.pending step execution := by
  have hlength : (execution.prepend visit).completed.length < (execution.prepend visit).steps ↔
      execution.completed.length < execution.steps := by
    rw [completed_prepend h]
    exact Nat.add_lt_add_iff_right
  simp only [Machine.pending, hlength]
  rfl

theorem pending_finished {error : Option ExecutionError} {time : Nat}
    (h : visit.departure.succeeded = true) :
    machine.pending step (stopped [visit] name error context time world) = [] := by
  have hlength : ¬ (stopped [visit] name error context time world).completed.length <
      (stopped [visit] name error context time world).steps := by
    rw [completed_stopped h]
    exact Nat.lt_irrefl 1
  rw [Machine.pending, if_neg hlength]

theorem pending_failed {error : Option ExecutionError} {time : Nat}
    (hfind : machine.states.find? name = some state) (h : visit.departure.succeeded = false) :
    machine.pending step (stopped [visit] name error context time world) =
      .stateEntered name state.kind step :: state.complaints name error := by
  have hlength : (stopped [visit] name error context time world).completed.length <
      (stopped [visit] name error context time world).steps := by
    rw [completed_failed h]
    exact Nat.one_pos
  rw [Machine.pending, if_pos hlength]
  simp only [stopped, hfind]

/-- A completed visit is told in front of what is told of the visits behind it. -/
theorem tells_cons (hfind : machine.states.find? name = some state)
    (stay : Stay setting step now name context world state visit written after)
    (hsucceeded : visit.departure.succeeded = true) {final : String} {rest : List Visit}
    {told : List Happening}
    (htarget : ∀ other, visit.departure = .next other → other = Visit.ahead final rest)
    (tail : machine.Tells final (step + 1) written.document rest told) :
    machine.Tells final step context.document (visit :: rest) (visit.happenings ++ told) := by
  obtain ⟨between, hbetween, hvisit⟩ := stay.tells hsucceeded htarget
  have heffect := effect?_eq_some hfind stay hsucceeded
  rw [← stay.state_eq] at hfind hbetween hvisit
  rw [hvisit, List.append_assoc, List.singleton_append]
  exact Machine.Tells.cons hfind stay.kind_eq hbetween heffect tail

/-- From every state on, what is told is told as the protocol demands. -/
theorem tells_of_course
    (course : Course machine setting spare entered now name context world execution) :
    ∃ told, machine.Tells execution.state (entered + 1) context.document execution.completed told ∧
      execution.visits.flatMap Visit.happenings =
        told ++ machine.pending (entered + execution.steps) execution := by
  induction course with
  | cancelled | stepLimit | unknown => exact ⟨[], Machine.Tells.nil, rfl⟩
  | @onward _ _ _ _ _ _ _ visit _ _ _ execution _ hfind stay hdeparture rest ih =>
      have hsucceeded := congrArg Departure.succeeded hdeparture
      obtain ⟨told, htold, hrest⟩ := ih
      refine ⟨visit.happenings ++ told, ?_, ?_⟩
      · rw [completed_prepend hsucceeded]
        refine tells_cons hfind stay hsucceeded ?_ htold
        intro other hother
        cases hother.symm.trans hdeparture
        exact (ahead_completed rest).symm
      · rw [pending_prepend hsucceeded, steps_prepend, ← Nat.add_assoc, Nat.add_right_comm,
          List.append_assoc, ← hrest]
        rfl
  | @finished _ _ _ _ _ _ _ visit _ _ _ hfind stay hdeparture =>
      have hsucceeded := congrArg Departure.succeeded hdeparture
      refine ⟨visit.happenings ++ [], ?_, ?_⟩
      · rw [completed_stopped hsucceeded]
        refine tells_cons hfind stay hsucceeded ?_ Machine.Tells.nil
        intro other hother
        cases hother.symm.trans hdeparture
      · rw [pending_finished hsucceeded]
        exact (List.flatMap_singleton _ _).trans (by simp)
  | failed _ hfind stay hdeparture =>
      have hfailed := congrArg Departure.succeeded hdeparture
      refine ⟨[], ?_, ?_⟩
      · rw [completed_failed hfailed]
        exact Machine.Tells.nil
      · rw [pending_failed hfind hfailed]
        exact (List.flatMap_singleton _ _).trans (stay.tells_failed hdeparture)
  | @cut _ _ _ _ _ _ state _ _ _ _ _ hfind stay hdeparture =>
      have hfailed := congrArg Departure.succeeded hdeparture
      refine ⟨[], ?_, ?_⟩
      · rw [completed_failed hfailed]
        exact Machine.Tells.nil
      · rw [pending_failed hfind hfailed]
        refine (List.flatMap_singleton _ _).trans ((stay.tells_cut hdeparture).trans ?_)
        cases state <;> rfl

theorem count_leaving (visit : Visit) :
    (visit.leaving.map Happening.type).count .stateEntered = 0 := by
  rw [Visit.leaving]
  split
  · rfl
  · rfl
  · split <;> rfl
  · rfl

/-- Every visit is told as entered once. -/
theorem count_happenings (visit : Visit) :
    (visit.happenings.map Happening.type).count .stateEntered = 1 := by
  have hleaving := count_leaving visit
  cases hresolution : visit.resolution <;>
    simp [Visit.happenings, hresolution, Happening.type, hleaving]

theorem count_conclusion (execution : Execution σ) :
    [execution.conclusion.type].count .stateEntered = 0 := by
  rw [conclusion]
  cases execution.error <;> rfl

/-- As many states are told as entered as the execution counts. -/
theorem count_stateEntered (execution : Execution σ) (startAt : String) :
    ((execution.happenings startAt).map Happening.type).count .stateEntered =
      execution.steps := by
  have hvisits (visits : List Visit) :
      ((visits.flatMap Visit.happenings).map Happening.type).count .stateEntered =
        visits.length := by
    induction visits with
    | nil => rfl
    | cons visit rest ih =>
        rw [List.flatMap_cons, List.map_append, List.count_append, count_happenings, ih,
          List.length_cons, Nat.add_comm]
  rw [happenings, List.map_append, List.count_append, List.map_cons,
    List.count_cons_of_ne (by simp [Happening.type]), hvisits, List.map_singleton,
    count_conclusion]
  rfl

/-- The events of an execution follow the protocol. They tell as many states as entered as the
execution counts, and all of them carry its identifier. -/
theorem events_execute (machine : Machine) (setting : Setting σ) (input : Json) (world : σ)
    (id : Uuid) :
    let execution := execute machine setting input world
    (∃ told, machine.Tells execution.state 1 input execution.completed told ∧
      execution.events id machine.startAt =
        (.executionStarted machine.startAt :: told ++ machine.pending execution.steps execution
          ++ [execution.conclusion]).map (Event.mk id)) ∧
      execution.history.filter Entry.succeeded =
        execution.completed.map (fun visit => ⟨visit.state, visit.kind, true⟩) ∧
      ((execution.events id machine.startAt).map (·.happening.type)).count .stateEntered =
        execution.steps := by
  obtain ⟨told, htold, hvisits⟩ := tells_of_course (course_execute machine setting input world)
  refine ⟨⟨told, htold, ?_⟩, filter_history _, ?_⟩
  · rw [events, happenings, hvisits, Nat.zero_add]
    simp
  · rw [events, List.map_map]
    exact count_stateEntered _ _

end Execution

end StateFlow
