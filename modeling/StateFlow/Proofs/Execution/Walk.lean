import Mathlib.Data.List.Chain
import StateFlow.Proofs.Execution.Course
import StateFlow.Proofs.Machine.Compile

/-!
# Executions are walks through the machine

The history of an execution follows the edges of the machine from its start, and only its last
entry can have failed. How history, number of steps and final state go together depends on the way
in which the execution ended, and on nothing else.
-/

namespace StateFlow

open StateFlow.Machine

variable {σ : Type}

/-- A history that follows the edges of the machine from a state on. -/
structure Machine.IsWalk (machine : Machine) (start : String) (history : List Entry) : Prop where
  head : ∀ entry, history.head? = some entry → entry.state = start
  edges : history.IsChain fun entry next => Leads machine.states entry.state next.state
  kinds : ∀ entry ∈ history, ∃ state, machine.states.find? entry.state = some state ∧
    state.kind = entry.kind
  succeeded : ∀ entry ∈ history.dropLast, entry.succeeded = true

/-- The state comes next behind the history. -/
def Machine.Continues (machine : Machine) (start : String) (history : List Entry) (name : String) :
    Prop :=
  match history.getLast? with
  | none => name = start
  | some entry => Leads machine.states entry.state name

namespace Execution

/-- The execution came to its end in a state without a way on. -/
structure Completes (machine : Machine) (execution : Execution σ) : Prop where
  succeeded : ∀ entry ∈ execution.history, entry.succeeded = true
  steps : execution.steps = execution.history.length
  nonempty : 1 ≤ execution.steps
  last : ∃ entry, execution.history.getLast? = some entry ∧ entry.state = execution.state
  isLast : ∃ state, machine.states.find? execution.state = some state ∧ state.IsLast

/-- The last entry, and no other, failed; it is of this kind, and the execution stands in its
state. -/
structure FailsIn (kind : StateKind) (execution : Execution σ) : Prop where
  others : ∀ entry ∈ execution.history.dropLast, entry.succeeded = true
  steps : execution.steps = execution.history.length
  last : execution.history.getLast? = some ⟨execution.state, kind, false⟩

/-- The execution stands before a state that it did not enter. -/
structure StopsBefore (machine : Machine) (start : String) (execution : Execution σ) : Prop where
  succeeded : ∀ entry ∈ execution.history, entry.succeeded = true
  steps : execution.steps = execution.history.length
  next : machine.Continues start execution.history execution.state

/-- The execution stands in a task that it entered and that has no entry. -/
structure CutIn (machine : Machine) (start : String) (execution : Execution σ) : Prop where
  succeeded : ∀ entry ∈ execution.history, entry.succeeded = true
  steps : execution.steps = execution.history.length + 1
  next : machine.Continues start execution.history execution.state
  task : ∃ task, machine.states.find? execution.state = some (.task task)

/-- History, number of steps and final state are as the end of the execution demands. -/
def EndsFittingly (machine : Machine) (start : String) (execution : Execution σ) : Prop :=
  match execution.error with
  | none => execution.Completes machine
  | some (.invocation name _ _) | some (.taskTimeout name _) | some (.unresolved name _) =>
    name = execution.state ∧ execution.FailsIn .task
  | some (.merge name _) | some (.tooLarge name _ _) =>
    name = execution.state ∧ ∃ kind, execution.FailsIn kind
  | some (.stepLimit _) => execution.StopsBefore machine start
  | some .cancelled => execution.StopsBefore machine start ∨ execution.FailsIn .task
  | some (.executionTimeout _) => execution.CutIn machine start
  | some (.unknownState _) => False

end Execution

/-! ## An entry more in front -/

variable {machine : Machine} {start target : String} {history : List Entry} {entry : Entry}

namespace Machine

theorem isWalk_nil : machine.IsWalk start [] where
  head := by simp
  edges := List.isChain_nil
  kinds := by simp
  succeeded := by simp

theorem isWalk_singleton {name : String} {state : State} {kind : StateKind} {succeeded : Bool}
    (hfind : machine.states.find? name = some state) (hkind : kind = state.kind) :
    machine.IsWalk name [⟨name, kind, succeeded⟩] where
  head := by simp
  edges := List.isChain_singleton _
  kinds := by
    intro entry hentry
    rw [List.mem_singleton.mp hentry]
    exact ⟨state, hfind, hkind.symm⟩
  succeeded := by simp

theorem IsWalk.cons {name : String} {state : State} {kind : StateKind}
    (h : machine.IsWalk target history) (hfind : machine.states.find? name = some state)
    (hkind : kind = state.kind) (htarget : target ∈ state.successors) :
    machine.IsWalk name (⟨name, kind, true⟩ :: history) where
  head := by simp
  edges := by
    cases history with
    | nil => exact List.isChain_singleton _
    | cons next rest =>
        refine List.isChain_cons_cons.mpr ⟨?_, h.edges⟩
        rw [h.head next rfl]
        exact ⟨state, hfind, htarget⟩
  kinds := by
    intro entry hentry
    rcases List.mem_cons.mp hentry with rfl | hentry
    · exact ⟨state, hfind, hkind.symm⟩
    · exact h.kinds entry hentry
  succeeded := by
    cases history with
    | nil => simp
    | cons next rest =>
        intro entry hentry
        rcases List.mem_cons.mp hentry with rfl | hentry
        · rfl
        · exact h.succeeded entry hentry

theorem Continues.cons {name : String} (h : machine.Continues target history name)
    (hlead : Leads machine.states entry.state target) :
    machine.Continues start (entry :: history) name := by
  rw [Continues, List.getLast?_cons]
  rw [Continues] at h
  cases hlast : history.getLast? with
  | none =>
      rw [hlast] at h
      exact h ▸ hlead
  | some last =>
      rw [hlast] at h
      exact h

end Machine

namespace Execution

variable {execution : Execution σ} {visit : Visit} {name : String} {state : State}
  {context : Context} {time : Nat} {world : σ}

theorem history_prepend (h : visit.departure = .next target) :
    (execution.prepend visit).history =
      ⟨visit.state, visit.kind, true⟩ :: execution.history := by
  simp [history, prepend, Visit.entry?, h, Departure.succeeded]

/-- A visit that leads on adds one step and one entry. -/
theorem steps_eq_prepend {k : Nat} (h : execution.steps = execution.history.length + k)
    (hdeparture : visit.departure = .next target) :
    (execution.prepend visit).steps = (execution.prepend visit).history.length + k := by
  rw [steps_prepend, history_prepend hdeparture, List.length_cons, h, Nat.add_right_comm]

theorem forall_succeeded_prepend (h : ∀ entry ∈ execution.history, entry.succeeded = true)
    (hdeparture : visit.departure = .next target) :
    ∀ entry ∈ (execution.prepend visit).history, entry.succeeded = true := by
  rw [history_prepend hdeparture]
  intro entry hentry
  rcases List.mem_cons.mp hentry with rfl | hentry
  · rfl
  · exact h entry hentry

theorem getLast?_prepend {last : Entry} (h : execution.history.getLast? = some last)
    (hdeparture : visit.departure = .next target) :
    (execution.prepend visit).history.getLast? = some last := by
  rw [history_prepend hdeparture, List.getLast?_cons, h]
  rfl

theorem Completes.prepend (h : execution.Completes machine)
    (hdeparture : visit.departure = .next target) :
    (execution.prepend visit).Completes machine where
  succeeded := forall_succeeded_prepend h.succeeded hdeparture
  steps := steps_eq_prepend (k := 0) h.steps hdeparture
  nonempty := Nat.le_add_left 1 execution.steps
  last := by
    obtain ⟨entry, hlast, hstate⟩ := h.last
    exact ⟨entry, getLast?_prepend hlast hdeparture, hstate⟩
  isLast := h.isLast

theorem FailsIn.prepend {kind : StateKind} (h : execution.FailsIn kind)
    (hdeparture : visit.departure = .next target) : (execution.prepend visit).FailsIn kind where
  others := by
    -- The history behind ends with the failed entry, so the new entry is not the last one.
    have hne : execution.history ≠ [] := by
      intro hnil
      have hlast := h.last
      rw [hnil] at hlast
      cases hlast
    rw [history_prepend hdeparture, List.dropLast_cons_of_ne_nil hne]
    intro entry hentry
    rcases List.mem_cons.mp hentry with rfl | hentry
    · rfl
    · exact h.others entry hentry
  steps := steps_eq_prepend (k := 0) h.steps hdeparture
  last := getLast?_prepend h.last hdeparture

theorem StopsBefore.prepend (h : execution.StopsBefore machine target)
    (hdeparture : visit.departure = .next target)
    (hlead : Leads machine.states visit.state target) :
    (execution.prepend visit).StopsBefore machine start where
  succeeded := forall_succeeded_prepend h.succeeded hdeparture
  steps := steps_eq_prepend (k := 0) h.steps hdeparture
  next := by
    rw [history_prepend hdeparture]
    exact h.next.cons hlead

theorem CutIn.prepend (h : execution.CutIn machine target)
    (hdeparture : visit.departure = .next target)
    (hlead : Leads machine.states visit.state target) :
    (execution.prepend visit).CutIn machine start where
  succeeded := forall_succeeded_prepend h.succeeded hdeparture
  steps := steps_eq_prepend h.steps hdeparture
  next := by
    rw [history_prepend hdeparture]
    exact h.next.cons hlead
  task := h.task

theorem EndsFittingly.prepend (h : execution.EndsFittingly machine target)
    (hdeparture : visit.departure = .next target)
    (hlead : Leads machine.states visit.state target) :
    (execution.prepend visit).EndsFittingly machine start := by
  obtain ⟨visits, final, error, context, time, world⟩ := execution
  cases error with
  | none => exact Completes.prepend h hdeparture
  | some e =>
      cases e with
      | invocation | taskTimeout | unresolved => exact ⟨h.1, h.2.prepend hdeparture⟩
      | merge | tooLarge =>
          obtain ⟨hname, kind, hfails⟩ := h
          exact ⟨hname, kind, hfails.prepend hdeparture⟩
      | stepLimit => exact StopsBefore.prepend h hdeparture hlead
      | cancelled =>
          rcases h with hstops | hfails
          · exact Or.inl (hstops.prepend hdeparture hlead)
          · exact Or.inr (hfails.prepend hdeparture)
      | executionTimeout => exact CutIn.prepend h hdeparture hlead
      | unknownState => exact h

/-! ## The last visit -/

theorem history_stopped (h : visit.departure.succeeded = true) {error : Option ExecutionError} :
    (stopped [visit] name error context time world).history =
      [⟨visit.state, visit.kind, true⟩] := by
  cases hdeparture : visit.departure with
  | next | finish => simp [history, stopped, Visit.entry?, hdeparture, Departure.succeeded]
  | failed | cut =>
      rw [hdeparture] at h
      cases h

theorem history_failed {e : ExecutionError} (h : visit.departure = .failed e)
    {error : Option ExecutionError} :
    (stopped [visit] name error context time world).history =
      [⟨visit.state, visit.kind, false⟩] := by
  simp [history, stopped, Visit.entry?, h, Departure.succeeded]

theorem history_cut {limit : Nat} (h : visit.departure = .cut limit)
    {error : Option ExecutionError} :
    (stopped [visit] name error context time world).history = [] := by
  simp [history, stopped, Visit.entry?, h]

theorem stopsBefore_stopped {error : Option ExecutionError} :
    (stopped [] name error context time world).StopsBefore machine name where
  succeeded := by simp [history, stopped]
  steps := rfl
  next := rfl

theorem completes_finished (hfind : machine.states.find? name = some state)
    (hstate : visit.state = name) (hdeparture : visit.departure = .finish) (hlast : state.IsLast) :
    (stopped [visit] name none context time world).Completes machine where
  succeeded := by
    rw [history_stopped (by rw [hdeparture]; rfl)]
    simp
  steps := by
    rw [history_stopped (by rw [hdeparture]; rfl)]
    rfl
  nonempty := Nat.le_refl 1
  last := by
    rw [history_stopped (by rw [hdeparture]; rfl)]
    exact ⟨_, rfl, hstate⟩
  isLast := ⟨state, hfind, hlast⟩

theorem failsIn_failed {e : ExecutionError} (hstate : visit.state = name)
    (hdeparture : visit.departure = .failed e) {error : Option ExecutionError} :
    (stopped [visit] name error context time world).FailsIn visit.kind where
  others := by
    rw [history_failed hdeparture]
    simp
  steps := by
    rw [history_failed hdeparture]
    rfl
  last := by
    rw [history_failed hdeparture, hstate]
    rfl

/-- A failure that belongs to the state ends the execution as it should. -/
theorem endsFittingly_failed {e : ExecutionError} (hstate : visit.state = name)
    (hkind : visit.kind = state.kind) (hdeparture : visit.departure = .failed e)
    (hbelongs : e.BelongsTo name state.kind) :
    (stopped [visit] name (some e) context time world).EndsFittingly machine start := by
  have hfails : (stopped [visit] name (some e) context time world).FailsIn state.kind :=
    hkind ▸ failsIn_failed hstate hdeparture
  cases e with
  | invocation | taskTimeout | unresolved =>
      obtain ⟨hname, htask⟩ := hbelongs
      exact ⟨hname, htask ▸ hfails⟩
  | merge | tooLarge => exact ⟨hbelongs, state.kind, hfails⟩
  | cancelled =>
      have htask : state.kind = .task := hbelongs
      exact Or.inr (htask ▸ hfails)
  | unknownState | stepLimit | executionTimeout => exact hbelongs.elim

theorem cutIn_cut {task : TaskState} {limit : Nat}
    (hfind : machine.states.find? name = some (.task task))
    (hdeparture : visit.departure = .cut limit) {error : Option ExecutionError} :
    (stopped [visit] name error context time world).CutIn machine name where
  succeeded := by
    rw [history_cut hdeparture]
    simp
  steps := by
    rw [history_cut hdeparture]
    rfl
  next := by
    rw [history_cut hdeparture]
    rfl
  task := ⟨task, hfind⟩

/-! ## The whole run -/

/-- From a state of a machine without dangling targets every execution is a walk. -/
theorem isWalk_of_course {setting : Setting σ} {spare entered now : Nat}
    (hknown : ∀ name, Known machine.states name)
    (course : Course machine setting spare entered now name context world execution)
    (hname : name ∈ machine.states.names) :
    machine.IsWalk name execution.history ∧ execution.EndsFittingly machine name := by
  induction course with
  | cancelled => exact ⟨isWalk_nil, Or.inl stopsBefore_stopped⟩
  | stepLimit => exact ⟨isWalk_nil, stopsBefore_stopped⟩
  | unknown _ hfind =>
      obtain ⟨state, hstate⟩ := NameTable.mem_names_iff.mp hname
      rw [hfind] at hstate
      cases hstate
  | onward _ hfind stay hdeparture _ ih =>
      have htarget := stay.fits
      rw [hdeparture] at htarget
      have hlead : Leads machine.states _ _ := ⟨_, hfind, htarget⟩
      -- No target is missing, so the rest of the run starts from a state of the table again.
      obtain ⟨hwalk, hends⟩ := ih (hknown _ _ hlead)
      refine ⟨?_, hends.prepend hdeparture (stay.state_eq.symm ▸ hlead)⟩
      rw [history_prepend hdeparture, stay.state_eq]
      exact hwalk.cons hfind stay.kind_eq htarget
  | finished _ hfind stay hdeparture =>
      have hlast := stay.fits
      rw [hdeparture] at hlast
      refine ⟨?_, completes_finished hfind stay.state_eq hdeparture hlast⟩
      rw [history_stopped (by rw [hdeparture]; rfl), stay.state_eq]
      exact isWalk_singleton hfind stay.kind_eq
  | failed _ hfind stay hdeparture =>
      have hbelongs := stay.fits
      rw [hdeparture] at hbelongs
      refine ⟨?_, endsFittingly_failed stay.state_eq stay.kind_eq hdeparture hbelongs⟩
      rw [history_failed hdeparture, stay.state_eq]
      exact isWalk_singleton hfind stay.kind_eq
  | @cut _ _ _ _ _ _ state _ _ _ _ _ hfind stay hdeparture =>
      have hkind := stay.fits
      rw [hdeparture] at hkind
      cases state with
      | task task =>
          rw [history_cut hdeparture]
          exact ⟨isWalk_nil, cutIn_cut hfind hdeparture⟩
      | choice | pass => cases hkind

/-- Every execution of a compiled definition is a walk from its start through its states, and ends
as the way in which it ended demands. -/
theorem isWalk_execute {definition : Definition} (h : compile definition = .ok machine)
    (setting : Setting σ) (input : Json) (world : σ) :
    machine.IsWalk definition.startAt (execute machine setting input world).history ∧
      (execute machine setting input world).EndsFittingly machine definition.startAt := by
  have hclosed := closed_of_compile h
  rw [← startAt_of_compile h]
  exact isWalk_of_course hclosed.known (course_execute machine setting input world)
    hclosed.startAt

/-- A pass before a task. -/
def twoStates : Definition where
  startAt := "A"
  states := .ofList
    [("A", .pass { next := some "B" }), ("B", .task { resource := "r", ends := some true })]

def twoStatesMachine : Machine where
  comment := none
  startAt := "A"
  states := .ofList
    [("A", .pass ⟨none, some .root, .next "B"⟩),
      ("B", .task ⟨"r", none, none, some .root, none, .finish⟩)]
  timeoutSeconds := none

/-- A setting in which no resource is handled. -/
def bareSetting : Setting Unit where
  registry := {}
  limits := ⟨10, 1000, none, 1000⟩
  cancellation := none

theorem compile_twoStates : compile twoStates = .ok twoStatesMachine := by
  have hlead : Leads twoStatesMachine.states "A" "B" := ⟨_, rfl, List.mem_cons_self⟩
  refine compile_eq_ok ⟨by decide, by decide, by decide⟩ rfl rfl ?_
  exact firstUnreachable?_of_chain rfl (.cons_cons hlead (.singleton "B"))

/-- When nobody handles the resource of the task, its entry is the last one and failed. -/
theorem isWalk_twoStates :
    compile twoStates = .ok twoStatesMachine ∧
      (execute twoStatesMachine bareSetting .null ()).history =
        [⟨"A", .pass, true⟩, ⟨"B", .task, false⟩] ∧
      twoStatesMachine.IsWalk "A" (execute twoStatesMachine bareSetting .null ()).history ∧
      (execute twoStatesMachine bareSetting .null ()).EndsFittingly twoStatesMachine "A" := by
  refine ⟨compile_twoStates, ?_, isWalk_execute compile_twoStates bareSetting .null ()⟩
  decide +kernel

end Execution

end StateFlow
