import StateFlow.Proofs.Machine.Reach
import StateFlow.Proofs.Machine.State

/-!
# What compiles, and what is reported first

A definition compiles exactly when it is valid. Any other definition is refused with an error that
is true of it, and nothing is wrong that is looked for earlier. The compiled states name the same
targets as the written ones, so what leads where, and what can be reached, is the same in both.
-/

namespace StateFlow.Machine

open StateFlow.State

variable {definition : Definition} {states : NameTable State}

/-! ## The table of compiled states -/

theorem names_eq (h : definition.states.traverse ofDefinition = .ok states) :
    states.names = definition.states.names :=
  NameTable.names_traverse h

/-- A state of the table is the compiled state of the same name. -/
theorem find?_eq_some (h : definition.states.traverse ofDefinition = .ok states) {name : String}
    {compiled : State} (hcompiled : states.find? name = some compiled) :
    ∃ state, definition.states.find? name = some state ∧
      ofDefinition name state = .ok compiled := by
  have hname : name ∈ definition.states.names :=
    names_eq h ▸ NameTable.mem_names_iff.mpr ⟨compiled, hcompiled⟩
  obtain ⟨state, hstate⟩ := NameTable.mem_names_iff.mp hname
  obtain ⟨image, himage, hfind⟩ := NameTable.find?_traverse h hstate
  rw [hcompiled] at hfind
  cases hfind
  exact ⟨state, hstate, himage⟩

theorem names_iff {name : String} {state : StateDefinition} {compiled : State}
    (h : ofDefinition name state = .ok compiled) {field : TargetField} {target : String} :
    (field, target) ∈ compiled.targets ↔ state.Names field target := by
  have hdecides := decides_ofDefinition name state
  rw [h] at hdecides
  exact hdecides.2 field target

/-- What leads where is the same in the table and in the definition. -/
theorem leads_iff (h : definition.states.traverse ofDefinition = .ok states)
    {name target : String} : Leads states name target ↔ definition.Leads name target := by
  constructor
  · rintro ⟨compiled, hcompiled, htarget⟩
    obtain ⟨state, hstate, himage⟩ := find?_eq_some h hcompiled
    obtain ⟨⟨field, found⟩, hfound, rfl⟩ := List.mem_map.mp htarget
    exact ⟨state, field, hstate, (names_iff himage).mp hfound⟩
  · rintro ⟨state, field, hstate, hnames⟩
    obtain ⟨compiled, himage, hcompiled⟩ := NameTable.find?_traverse h hstate
    have htarget := (names_iff himage).mpr hnames
    exact ⟨compiled, hcompiled, List.mem_map.mpr ⟨(field, target), htarget, rfl⟩⟩

theorem reachable_iff (h : definition.states.traverse ofDefinition = .ok states) {name : String} :
    Reachable states definition.startAt name ↔ definition.Reachable name := by
  have heq : Leads states = definition.Leads := by
    funext a b
    exact propext (leads_iff h)
  rw [Reachable, heq, Definition.Reachable]

/-! ## Targets -/

/-- The state of this name, if there is one, names no state that is missing from the table. -/
def Known (table : NameTable State) (name : String) : Prop :=
  ∀ target, Leads table name target → target ∈ table.names

theorem known_iff (h : definition.states.traverse ofDefinition = .ok states) {name : String} :
    Known states name ↔ definition.KnownAt name := by
  simp only [Known, Definition.KnownAt, leads_iff h, names_eq h]

theorem known_of_find? {table : NameTable State} {name : String} {state : State}
    (hstate : table.find? name = some state)
    (h : (state.targets.find? fun target => !table.contains target.2) = none) :
    Known table name := by
  rintro target ⟨found, hfound, htarget⟩
  rw [hstate] at hfound
  cases hfound
  obtain ⟨named, hnamed, rfl⟩ := List.mem_map.mp htarget
  have := List.find?_eq_none.mp h named hnamed
  exact NameTable.contains_iff.mp (by simpa using this)

/-- The error names a missing target, and all states with smaller names have theirs. -/
theorem firstUnknownTarget?_eq_some {table : NameTable State} {e : DefinitionError}
    (h : firstUnknownTarget? table = some e) :
    ∃ name field target, e = .unknownTarget name field target ∧
      (∃ state, table.find? name = some state ∧ (field, target) ∈ state.targets) ∧
      target ∉ table.names ∧ ∀ other, other < name → Known table other := by
  obtain ⟨front, ⟨name, state⟩, back, hsplit, hfound, hfront⟩ := List.findSome?_eq_some_iff.mp h
  obtain ⟨⟨field, target⟩, hfind, rfl⟩ := Option.map_eq_some_iff.mp hfound
  have hmissing := List.find?_some hfind
  have hstate : table.find? name = some state := by
    rw [NameTable.find?_eq_some_iff, hsplit]
    exact List.mem_append_right _ List.mem_cons_self
  refine ⟨name, field, target, rfl, ⟨state, hstate, List.mem_of_find?_eq_some hfind⟩, ?_, ?_⟩
  · rw [← NameTable.contains_iff]
    simpa using hmissing
  · intro other hlt target' hlead
    have ⟨old, hold, _⟩ := hlead
    have hmem : (other, old) ∈ front := by
      have hold' := NameTable.find?_eq_some_iff.mp hold
      rw [hsplit] at hold'
      exact Entries.mem_front (hsplit ▸ table.pairwise) hlt hold'
    exact known_of_find? hold (Option.map_eq_none_iff.mp (hfront _ hmem)) target' hlead

theorem firstUnknownTarget?_eq_none {table : NameTable State} :
    firstUnknownTarget? table = none ↔ ∀ name, Known table name := by
  constructor
  · intro h name target hlead
    have ⟨state, hstate, _⟩ := hlead
    have hmem := NameTable.find?_eq_some_iff.mp hstate
    have hnone := List.findSome?_eq_none_iff.mp h (name, state) hmem
    exact known_of_find? hstate (Option.map_eq_none_iff.mp hnone) target hlead
  · intro h
    cases hfound : firstUnknownTarget? table with
    | none => rfl
    | some e =>
        obtain ⟨name, field, target, -, ⟨state, hstate, htarget⟩, hmissing, -⟩ :=
          firstUnknownTarget?_eq_some hfound
        exact absurd (h name target ⟨state, hstate, List.mem_map.mpr ⟨_, htarget, rfl⟩⟩) hmissing

/-! ## The definition as a whole -/

/-- Once the definition as a whole is sound, the states are compiled, and then looked at. -/
theorem compile_of_sound (hsound : definition.Sound) :
    compile definition = (definition.states.traverse ofDefinition).bind fun states =>
      match firstUnknownTarget? states with
      | some e => .error e
      | none =>
        match firstUnreachable? states definition.startAt with
        | some name => .error (.unreachable name)
        | none =>
          .ok { comment := definition.comment, startAt := definition.startAt, states,
                timeoutSeconds := definition.timeoutSeconds } := by
  have hempty : ¬ definition.states.isEmpty = true := fun h =>
    hsound.states (NameTable.isEmpty_iff.mp h)
  have hstart := NameTable.contains_iff.mpr hsound.startAt
  rw [compile, if_neg hempty, hstart, if_neg (by simp), if_neg hsound.timeout]
  rfl

theorem compile_eq_ok (hsound : definition.Sound)
    (htraverse : definition.states.traverse ofDefinition = .ok states)
    (hunknown : firstUnknownTarget? states = none)
    (hreach : firstUnreachable? states definition.startAt = none) :
    compile definition =
      .ok { comment := definition.comment, startAt := definition.startAt, states,
            timeoutSeconds := definition.timeoutSeconds } := by
  rw [compile_of_sound hsound, htraverse]
  simp only [Except.bind, hunknown, hreach]

/-- A definition that is not sound is refused at once, and for the first reason. -/
theorem compile_of_not_sound (h : ¬ definition.Sound) :
    ∃ e, compile definition = .error e ∧ e.Truthful definition ∧ e.First definition := by
  by_cases hstates : definition.states.names = []
  · exact ⟨.noStates, by rw [compile, if_pos (NameTable.isEmpty_iff.mpr hstates)], hstates, trivial⟩
  · have hempty : ¬ definition.states.isEmpty = true := fun h =>
      hstates (NameTable.isEmpty_iff.mp h)
    by_cases hstart : definition.startAt ∈ definition.states.names
    · by_cases htimeout : definition.timeoutSeconds = some 0
      · refine ⟨.zeroTimeout, ?_, htimeout, hstates, hstart⟩
        rw [compile, if_neg hempty, NameTable.contains_iff.mpr hstart, if_neg (by simp),
          if_pos htimeout]
      · exact absurd ⟨hstates, hstart, htimeout⟩ h
    · refine ⟨.unknownStart definition.startAt, ?_, ⟨rfl, hstart⟩, hstates⟩
      have hcontains : (!definition.states.contains definition.startAt) = true := by
        rw [Bool.not_eq_true', ← Bool.not_eq_true, NameTable.contains_iff]
        exact hstart
      rw [compile, if_neg hempty, if_pos hcontains]

theorem sound_of_compile {machine : Machine} (h : compile definition = .ok machine) :
    definition.Sound := by
  by_cases hsound : definition.Sound
  · exact hsound
  · obtain ⟨e, he, -⟩ := compile_of_not_sound hsound
    rw [h] at he
    cases he

/-- What a compiled machine is made of. -/
theorem eq_of_compile {machine : Machine} (h : compile definition = .ok machine) :
    ∃ states, definition.states.traverse ofDefinition = .ok states ∧
      firstUnknownTarget? states = none ∧
      machine = { comment := definition.comment, startAt := definition.startAt, states,
                  timeoutSeconds := definition.timeoutSeconds } := by
  rw [compile_of_sound (sound_of_compile h)] at h
  cases htraverse : definition.states.traverse ofDefinition with
  | error e =>
      rw [htraverse] at h
      cases h
  | ok states =>
      simp only [htraverse, Except.bind] at h
      cases hunknown : firstUnknownTarget? states with
      | some e =>
          rw [hunknown] at h
          cases h
      | none =>
          simp only [hunknown] at h
          split at h
          · cases h
          · cases h
            exact ⟨states, rfl, hunknown, rfl⟩

/-- An error that explains a state is true of the definition. -/
theorem truthful_of_explains {name : String} {state : StateDefinition} {e : DefinitionError}
    (hstate : definition.states.find? name = some state)
    (h : StateDefinition.Explains name state e) : e.Truthful definition := by
  cases e with
  | invalidState | invalidPath | invalidRule =>
      obtain ⟨rfl, hfault⟩ := h
      exact ⟨state, hstate, hfault⟩
  | _ => exact h.elim

theorem first_of_explains {name : String} {state : StateDefinition} {e : DefinitionError}
    (hsound : definition.Sound) (hbefore : DefinitionError.Before name definition.ValidAt)
    (h : StateDefinition.Explains name state e) : e.First definition := by
  cases e with
  | invalidState | invalidPath | invalidRule =>
      obtain ⟨rfl, -⟩ := h
      exact ⟨hsound, hbefore⟩
  | _ => exact h.elim

/-- When states are compiled one by one, all are valid or the first invalid one is blamed. -/
theorem traverse_error_first (hsound : definition.Sound) {e : DefinitionError}
    (h : definition.states.traverse ofDefinition = .error e) :
    ¬ definition.Valid ∧ e.Truthful definition ∧ e.First definition := by
  obtain ⟨name, state, hstate, hfail, hfront⟩ := NameTable.traverse_error h
  have hdecides := decides_ofDefinition name state
  rw [hfail] at hdecides
  refine ⟨fun h => hdecides.1 (h.valid name state hstate),
    truthful_of_explains hstate hdecides.2, first_of_explains hsound ?_ hdecides.2⟩
  intro other hlt old hold
  have hok := hfront other old (Text.bytes_lt_iff.mp hlt) hold
  exact (decides_ofDefinition other old).isOk_iff.mp hok

theorem traverse_ok_valid (h : definition.states.traverse ofDefinition = .ok states) :
    ∀ name, definition.ValidAt name := by
  intro name state hstate
  obtain ⟨compiled, himage, -⟩ := NameTable.find?_traverse h hstate
  exact (decides_ofDefinition name state).isOk_iff.mp ⟨compiled, himage⟩

/-- Once the states are compiled, the first missing target is blamed. -/
theorem unknownTarget_first (hsound : definition.Sound)
    (htraverse : definition.states.traverse ofDefinition = .ok states) {e : DefinitionError}
    (h : firstUnknownTarget? states = some e) :
    ¬ definition.Valid ∧ e.Truthful definition ∧ e.First definition := by
  obtain ⟨name, field, target, rfl, ⟨compiled, hcompiled, htarget⟩, hmissing, hfront⟩ :=
    firstUnknownTarget?_eq_some h
  obtain ⟨state, hstate, himage⟩ := find?_eq_some htraverse hcompiled
  have hnames := (names_iff himage).mp htarget
  rw [names_eq htraverse] at hmissing
  refine ⟨fun h => hmissing (h.known name target ⟨state, field, hstate, hnames⟩),
    ⟨⟨state, hstate, hnames⟩, hmissing⟩, hsound, traverse_ok_valid htraverse, ?_⟩
  intro other hlt
  exact (known_iff htraverse).mp (hfront other (Text.bytes_lt_iff.mp hlt))

theorem unknownTarget_none (htraverse : definition.states.traverse ofDefinition = .ok states)
    (h : firstUnknownTarget? states = none) : ∀ name, definition.KnownAt name :=
  fun name => (known_iff htraverse).mp (firstUnknownTarget?_eq_none.mp h name)

/-- When all targets exist, the first state that cannot be reached is blamed. -/
theorem unreachable_first (hsound : definition.Sound)
    (htraverse : definition.states.traverse ofDefinition = .ok states)
    (hunknown : firstUnknownTarget? states = none) {name : String}
    (h : firstUnreachable? states definition.startAt = some name) :
    ¬ definition.Valid ∧ (DefinitionError.unreachable name).Truthful definition ∧
      (DefinitionError.unreachable name).First definition := by
  obtain ⟨hname, hunreached, hfront⟩ := firstUnreachable?_eq_some h
  rw [names_eq htraverse] at hname
  rw [reachable_iff htraverse] at hunreached
  refine ⟨fun h => hunreached (h.reachable name hname), ⟨hname, hunreached⟩, hsound,
    traverse_ok_valid htraverse, unknownTarget_none htraverse hunknown, ?_⟩
  intro other hlt hother
  rw [← names_eq htraverse] at hother
  exact (reachable_iff htraverse).mp (hfront other hother (Text.bytes_lt_iff.mp hlt))

theorem unreachable_none (htraverse : definition.states.traverse ofDefinition = .ok states)
    (h : firstUnreachable? states definition.startAt = none) :
    ∀ name ∈ definition.states.names, definition.Reachable name := by
  intro name hname
  rw [← names_eq htraverse] at hname
  exact (reachable_iff htraverse).mp (firstUnreachable?_eq_none.mp h name hname)

/-- A sound definition is judged by its states, by its targets and by what can be reached. -/
theorem decides_compile (definition : Definition) :
    Decides definition.Valid (fun _ => True)
      (fun e => e.Truthful definition ∧ e.First definition) (compile definition) := by
  by_cases hsound : definition.Sound
  · rw [compile_of_sound hsound]
    cases htraverse : definition.states.traverse ofDefinition with
    | error e => exact traverse_error_first hsound htraverse
    | ok states =>
        simp only [Except.bind]
        cases hunknown : firstUnknownTarget? states with
        | some e => exact unknownTarget_first hsound htraverse hunknown
        | none =>
            simp only
            cases hreach : firstUnreachable? states definition.startAt with
            | some name => exact unreachable_first hsound htraverse hunknown hreach
            | none =>
                exact ⟨⟨hsound, traverse_ok_valid htraverse,
                  unknownTarget_none htraverse hunknown, unreachable_none htraverse hreach⟩,
                  trivial⟩
  · obtain ⟨e, he, htruthful, hfirst⟩ := compile_of_not_sound hsound
    rw [he]
    exact ⟨fun hvalid => hsound hvalid.toSound, htruthful, hfirst⟩

/-- The start and every target of the machine are states of the machine. -/
structure Closed (machine : Machine) : Prop where
  startAt : machine.startAt ∈ machine.states.names
  known : ∀ name, Known machine.states name

theorem startAt_of_compile {machine : Machine} (h : compile definition = .ok machine) :
    machine.startAt = definition.startAt := by
  obtain ⟨states, -, -, rfl⟩ := eq_of_compile h
  rfl

theorem closed_of_compile {machine : Machine} (h : compile definition = .ok machine) :
    machine.Closed := by
  have hsound := sound_of_compile h
  obtain ⟨states, htraverse, hunknown, rfl⟩ := eq_of_compile h
  refine ⟨?_, firstUnknownTarget?_eq_none.mp hunknown⟩
  rw [names_eq htraverse]
  exact hsound.startAt

/-- A definition compiles exactly when it is valid; the error of any other definition is true, and
nothing is wrong that is looked for earlier. -/
theorem compile_iff_valid (definition : Definition) :
    ((∃ machine, compile definition = .ok machine) ↔ definition.Valid) ∧
      ∀ e, compile definition = .error e → e.Truthful definition ∧ e.First definition := by
  have h := decides_compile definition
  refine ⟨h.isOk_iff, fun e he => ?_⟩
  rw [he] at h
  exact h.2

/-- A state that leads to a missing one, and behind it one that has no way on. -/
def faultyStates : Definition where
  startAt := "A"
  states := .ofList [("A", .pass { next := some "C" }), ("B", .pass {})]

/-- The states are looked at before the targets, so the second state is blamed. -/
theorem compile_faultyStates :
    compile faultyStates = .error (.invalidState "B" .noTransition) ∧
      DefinitionError.Truthful faultyStates (.invalidState "B" .noTransition) ∧
      DefinitionError.First faultyStates (.invalidState "B" .noTransition) :=
  have h : compile faultyStates = .error (.invalidState "B" .noTransition) := rfl
  ⟨h, (compile_iff_valid faultyStates).2 _ h⟩

end StateFlow.Machine
