import StateFlow.Proofs.Execution.Course
import StateFlow.Proofs.Machine.Compile

/-!
# The rounds of an execution

An execution goes round a loop. At the head of every round it stands before a state; the round
enters that state and leads on to the next one. `Round` says what one round does, `Rounds` what
several do. Since each round uses up a step, there are only so many of them, and the execution is
what comes of the place at which they stop.

In a machine without dangling targets a round leads from a state of the machine to another one, so
the execution never looks for a state that is not there.
-/

namespace StateFlow

open StateFlow.Machine

variable {σ : Type}

/-- Where an execution stands at the head of its loop: how many states it has entered, and the
moment, state, context and world that it goes on with. -/
structure Standing (σ : Type) where
  entered : Nat
  now : Nat
  name : String
  context : Context
  world : σ

/-- One round: the execution is neither cancelled nor out of steps, and the state before which it
stands is entered and leads on. -/
inductive Round (machine : Machine) (setting : Setting σ) :
    Standing σ → Visit → Standing σ → Prop
  | intro {place state visit target written after}
      (hrunning : setting.isCancelled place.entered place.now = false)
      (hspare : place.entered < setting.limits.maxSteps)
      (hfind : machine.states.find? place.name = some state)
      (hvisit : Visit.ofState setting (place.entered + 1) place.name state place.now place.context
        place.world = (visit, written, after))
      (hdeparture : visit.departure = .next target) :
      Round machine setting place visit ⟨place.entered + 1, visit.left, target, written, after⟩

/-- Rounds one after the other, with the visits that they make. -/
inductive Rounds (machine : Machine) (setting : Setting σ) :
    Standing σ → List Visit → Standing σ → Prop
  | nil {place} : Rounds machine setting place [] place
  | cons {place next last visit visits} (head : Round machine setting place visit next)
      (tail : Rounds machine setting next visits last) :
      Rounds machine setting place (visit :: visits) last

namespace Execution

/-- Where an execution stands before its first round. -/
def outset (machine : Machine) (setting : Setting σ) (input : Json) (world : σ) : Standing σ :=
  ⟨0, 0, machine.startAt, ⟨input, setting.limits.maxContextBytes⟩, world⟩

/-- What comes of an execution that stands at this place. -/
def resume (machine : Machine) (setting : Setting σ) (place : Standing σ) : Execution σ :=
  walk machine setting (setting.limits.maxSteps - place.entered) place.entered place.now place.name
    place.context place.world

theorem execute_eq_resume (machine : Machine) (setting : Setting σ) (input : Json) (world : σ) :
    execute machine setting input world =
      resume machine (setting.forMachine machine) (outset machine setting input world) :=
  rfl

end Execution

variable {machine : Machine} {setting : Setting σ} {place next last : Standing σ} {visit : Visit}
  {visits : List Visit}

/-! ## One round -/

namespace Round

theorem entered_eq (h : Round machine setting place visit next) :
    next.entered = place.entered + 1 := by
  cases h
  rfl

theorem entered_le (h : Round machine setting place visit next) :
    next.entered ≤ setting.limits.maxSteps := by
  cases h with
  | intro _ hspare => exact hspare

/-- A round enters the state before which the execution stands, and leads along an edge of the
machine. -/
theorem leads (h : Round machine setting place visit next) :
    visit.state = place.name ∧ Leads machine.states place.name next.name := by
  cases h with
  | @intro state visit target written after _ _ hfind hvisit hdeparture =>
      have stay := stay_ofState setting (place.entered + 1) place.now place.name place.context
        place.world state
      rw [hvisit] at stay
      have hfits := stay.fits
      simp only [hdeparture] at hfits
      exact ⟨stay.state_eq, state, hfind, hfits⟩

/-- The loop makes the visit of the round and goes on at the place to which it leads. -/
theorem resume_eq (h : Round machine setting place visit next) :
    Execution.resume machine setting place =
      (Execution.resume machine setting next).prepend visit := by
  cases h with
  | intro hrunning hspare hfind hvisit hdeparture =>
      have hsteps : setting.limits.maxSteps - place.entered =
          setting.limits.maxSteps - (place.entered + 1) + 1 := by omega
      rw [Execution.resume, Execution.resume, hsteps, Execution.walk,
        if_neg (by simp [hrunning])]
      simp only [hfind, hvisit, hdeparture]

end Round

/-- The loop ends: no execution can go round for ever. -/
theorem wellFounded_round (machine : Machine) (setting : Setting σ) :
    WellFounded fun next place : Standing σ => ∃ visit, Round machine setting place visit next := by
  refine Subrelation.wf ?_
    (measure fun place : Standing σ => setting.limits.maxSteps - place.entered).wf
  rintro next place ⟨visit, h⟩
  have hentered := h.entered_eq
  have hle := h.entered_le
  show setting.limits.maxSteps - next.entered < setting.limits.maxSteps - place.entered
  omega

/-- Where no round follows, the execution ends in the state before which it stands, having entered
it or not. It misses a state only if there is none of this name. -/
theorem resume_of_stopped (h : ∀ visit next, ¬ Round machine setting place visit next) :
    (Execution.resume machine setting place).state = place.name ∧
      (∀ visit ∈ (Execution.resume machine setting place).visits, visit.state = place.name) ∧
      ∀ name, (Execution.resume machine setting place).error = some (.unknownState name) →
        machine.states.find? place.name = none := by
  have course := Execution.course_walk machine setting
    (setting.limits.maxSteps - place.entered) place.entered place.now place.name place.context
    place.world
  rw [Execution.resume]
  generalize hspare : setting.limits.maxSteps - place.entered = spare at course ⊢
  generalize Execution.walk machine setting spare place.entered place.now place.name place.context
    place.world = execution at course ⊢
  cases course with
  | cancelled | stepLimit => simp [Execution.stopped]
  | unknown _ hfind => simp [Execution.stopped, hfind]
  | onward hrunning hfind stay hdeparture =>
      exact absurd (Round.intro hrunning (by omega) hfind (ofState_of_stay stay) hdeparture)
        (h _ _)
  | finished _ _ stay | cut _ _ stay => simp [Execution.stopped, stay.state_eq]
  | failed _ _ stay hdeparture =>
      refine ⟨rfl, by simp [Execution.stopped, stay.state_eq], ?_⟩
      rintro name hname
      have hbelongs := stay.fits
      rw [hdeparture, Option.some.inj hname] at hbelongs
      exact hbelongs.elim

/-! ## Several rounds -/

namespace Rounds

theorem entered_eq (h : Rounds machine setting place visits last) :
    last.entered = place.entered + visits.length := by
  induction h with
  | nil => rfl
  | cons head _ ih =>
      rw [ih, head.entered_eq, List.length_cons]
      omega

/-- What comes of an execution comes of it at the place to which some rounds lead. -/
theorem resume_eq (h : Rounds machine setting place visits last) :
    (Execution.resume machine setting place).visits =
        visits ++ (Execution.resume machine setting last).visits ∧
      (Execution.resume machine setting place).state =
        (Execution.resume machine setting last).state ∧
      (Execution.resume machine setting place).error =
        (Execution.resume machine setting last).error := by
  induction h with
  | nil => exact ⟨rfl, rfl, rfl⟩
  | cons head _ ih =>
      rw [head.resume_eq]
      exact ⟨congrArg (List.cons _) ih.1, ih.2⟩

/-- Rounds through a machine without dangling targets stay among its states. -/
theorem mem_names (hknown : ∀ name, Known machine.states name)
    (h : Rounds machine setting place visits last) (hname : place.name ∈ machine.states.names) :
    (∀ visit ∈ visits, visit.state ∈ machine.states.names) ∧
      last.name ∈ machine.states.names := by
  induction h with
  | nil => exact ⟨by simp, hname⟩
  | cons head _ ih =>
      obtain ⟨hstate, hlead⟩ := head.leads
      obtain ⟨hvisits, hlast⟩ := ih (hknown _ _ hlead)
      exact ⟨List.forall_mem_cons.mpr ⟨hstate ▸ hname, hvisits⟩, hlast⟩

/-- From every place some rounds lead to one where they stop. -/
theorem exists_stopped (machine : Machine) (setting : Setting σ) (place : Standing σ) :
    ∃ visits last, Rounds machine setting place visits last ∧
      ∀ visit next, ¬ Round machine setting last visit next := by
  induction place using (wellFounded_round machine setting).induction with
  | _ place ih =>
      by_cases h : ∃ visit next, Round machine setting place visit next
      · obtain ⟨visit, next, hround⟩ := h
        obtain ⟨visits, last, hrounds, hstopped⟩ := ih next ⟨visit, hround⟩
        exact ⟨visit :: visits, last, Rounds.cons hround hrounds, hstopped⟩
      · exact ⟨[], place, Rounds.nil, fun visit next hround => h ⟨visit, next, hround⟩⟩

end Rounds

/-! ## The states that an execution comes to -/

namespace Execution

/-- Wherever an execution of a compiled machine stands at the head of its loop, it stands before a
state of the machine. So it never fails because a state is not there, and the states that it enters
and the one that it names in the end are states of the machine. -/
theorem mem_names_execute {definition : Definition} (h : compile definition = .ok machine)
    (setting : Setting σ) (input : Json) (world : σ) :
    let execution := execute machine setting input world
    (∀ visits place,
        Rounds machine (setting.forMachine machine) (outset machine setting input world) visits
          place → visits <+: execution.visits ∧ place.name ∈ machine.states.names) ∧
      (∀ visit ∈ execution.visits, visit.state ∈ machine.states.names) ∧
      (∀ name, execution.error ≠ some (.unknownState name)) ∧
      execution.state ∈ machine.states.names := by
  have hclosed := closed_of_compile h
  obtain ⟨visits, last, hrounds, hstopped⟩ := Rounds.exists_stopped machine
    (setting.forMachine machine) (outset machine setting input world)
  obtain ⟨hvisits, hlast⟩ := hrounds.mem_names hclosed.known hclosed.startAt
  obtain ⟨hstate, hentered, hmissing⟩ := resume_of_stopped hstopped
  obtain ⟨hall, hend, herror⟩ := hrounds.resume_eq
  simp only [execute_eq_resume]
  refine ⟨?_, ?_, ?_, ?_⟩
  · intro front place hfront
    exact ⟨⟨_, hfront.resume_eq.1.symm⟩, (hfront.mem_names hclosed.known hclosed.startAt).2⟩
  · intro visit hvisit
    rw [hall] at hvisit
    rcases List.mem_append.mp hvisit with hround | hfinal
    · exact hvisits visit hround
    · rw [hentered visit hfinal]
      exact hlast
  · intro name hname
    rw [herror] at hname
    obtain ⟨state, hfind⟩ := NameTable.mem_names_iff.mp hlast
    cases hfind.symm.trans (hmissing name hname)
  · rw [hend, hstate]
    exact hlast

/-- Two passes that lead to each other. -/
def circle : Definition where
  startAt := "A"
  states := .ofList [("A", .pass { next := some "B" }), ("B", .pass { next := some "A" })]

def circleMachine : Machine where
  comment := none
  startAt := "A"
  states := .ofList
    [("A", .pass ⟨none, some .root, .next "B"⟩), ("B", .pass ⟨none, some .root, .next "A"⟩)]
  timeoutSeconds := none

/-- A setting in which executions have three steps. -/
def threeSteps : Setting Unit where
  registry := {}
  limits := ⟨3, 1000, none, 1000⟩
  cancellation := none

theorem compile_circle : compile circle = .ok circleMachine := by
  have hlead : Leads circleMachine.states "A" "B" := ⟨_, rfl, List.mem_cons_self⟩
  refine compile_eq_ok ⟨by decide, by decide, by decide⟩ rfl rfl ?_
  exact firstUnreachable?_of_chain rfl (.cons_cons hlead (.singleton "B"))

/-- The circle is left when the steps are used up, before the second state for the second time. -/
theorem mem_names_circle :
    compile circle = .ok circleMachine ∧
      (execute circleMachine threeSteps .null ()).visits.map Visit.state = ["A", "B", "A"] ∧
      (execute circleMachine threeSteps .null ()).state = "B" ∧
      (execute circleMachine threeSteps .null ()).state ∈ circleMachine.states.names :=
  ⟨compile_circle, by decide +kernel, by decide +kernel,
    (mem_names_execute compile_circle threeSteps .null ()).2.2.2⟩

end Execution

end StateFlow
