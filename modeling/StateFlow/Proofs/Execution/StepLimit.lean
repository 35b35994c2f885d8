import Mathlib.Algebra.Order.BigOperators.Group.List
import Mathlib.Algebra.Order.Group.Nat
import StateFlow.Proofs.Execution.Calls
import StateFlow.Proofs.Execution.Round

/-!
# The step limit

An execution enters no more states than its limit allows, so it makes no more calls than these many
states can make. It fails for want of steps exactly when all of them were used by states that did
what they are for and the last one leads on: the state that comes next is named, but not entered. A
last state without a way on may use the last step.

## Implementation notes

The rounds of an execution stop with all steps used up or with some left over. In the first case no
state is entered any more; in the second one the execution ends for another reason.
-/

namespace StateFlow

open StateFlow.Machine

variable {σ : Type}

/-- The largest number of attempts that any route of the registry allows. -/
def Registry.mostAttempts (registry : Registry σ) : Nat :=
  registry.routes.foldr (fun route most => max (max 1 route.maxAttempts) most) 0

namespace Execution

/-- So many states did what they are for, and the last of them has a way on. -/
structure GoesOnBehind (machine : Machine) (limit : Nat) (execution : Execution σ) : Prop where
  completed : (execution.history.filter Entry.succeeded).length = limit
  wayOn : ∃ entry target, (execution.history.filter Entry.succeeded).getLast? = some entry ∧
    Leads machine.states entry.state target

/-- So many states were entered, and the execution stands before the one to which the last of them
led. -/
structure StopsBehind (limit : Nat) (execution : Execution σ) : Prop where
  steps : execution.steps = limit
  history : execution.history.length = limit
  succeeded : ∀ entry ∈ execution.history, entry.succeeded = true
  next : ∃ front visit, execution.visits = front ++ [visit] ∧
    visit.departure = .next execution.state

end Execution

variable {machine : Machine} {setting : Setting σ} {place last : Standing σ} {visit : Visit}
  {visits : List Visit} {execution : Execution σ}

/-! ## Calls -/

theorem Registry.le_mostAttempts {registry : Registry σ} {route : Route σ}
    (h : route ∈ registry.routes) : max 1 route.maxAttempts ≤ registry.mostAttempts := by
  rw [mostAttempts]
  generalize registry.routes = routes at h ⊢
  induction routes with
  | nil => cases h
  | cons first rest ih =>
      rw [List.foldr_cons]
      rcases List.mem_cons.mp h with rfl | hrest
      · exact Nat.le_max_left _ _
      · exact Nat.le_trans (ih hrest) (Nat.le_max_right _ _)

/-- A visit makes no more calls than the route with the most attempts allows. -/
theorem State.Block.length_le {state : State} {registry : Registry σ} {document : Json}
    {calls : List Call} (h : state.Block registry document calls) :
    calls.length ≤ registry.mostAttempts := by
  cases state with
  | choice | pass =>
      have hnone : calls = [] := h
      simp [hnone]
  | task body =>
      have hblock : body.Block registry document calls := h
      cases hblock with
      | unresolved | unrouted => exact Nat.zero_le _
      | called _ hroute _ hlast =>
          exact Nat.le_trans hlast (Registry.le_mostAttempts hroute.mem)

theorem Execution.length_calls_le (machine : Machine) (setting : Setting σ) (input : Json)
    (world : σ) :
    (execute machine setting input world).calls.length ≤
      (execute machine setting input world).steps * setting.registry.mostAttempts := by
  have hvisit : ∀ visit ∈ (execute machine setting input world).visits,
      visit.calls.length ≤ setting.registry.mostAttempts := by
    intro visit hmem
    obtain ⟨front, back, hsplit⟩ := List.append_of_mem hmem
    obtain ⟨-, -, -, -, -, stay⟩ := enters_of_course (course_execute machine setting input world)
      hsplit
    exact stay.block.length_le
  rw [calls, List.length_flatMap, steps]
  have hsum := List.sum_le_card_nsmul
    ((execute machine setting input world).visits.map fun visit => visit.calls.length)
    setting.registry.mostAttempts (by simpa using hvisit)
  simpa using hsum

/-! ## Steps used up and steps left over -/

theorem State.IsLast.not_leads {state : State} (h : state.IsLast) {states : NameTable State}
    {name : String} (hfind : states.find? name = some state) (target : String) :
    ¬ Leads states name target := by
  rintro ⟨found, hfound, htarget⟩
  cases hfind.symm.trans hfound
  obtain ⟨field, hfield⟩ := State.mem_successors_iff.mp htarget
  cases state with
  | choice => exact h
  | task body | pass body =>
      have hfinish : body.transition = .finish := h
      simp [targets, hfinish, Transition.target?] at hfield

namespace Rounds

/-- There are no more rounds than steps. -/
theorem entered_le (h : Rounds machine setting place visits last)
    (hplace : place.entered ≤ setting.limits.maxSteps) :
    last.entered ≤ setting.limits.maxSteps := by
  induction h with
  | nil => exact hplace
  | cons head _ ih => exact ih head.entered_le

/-- Every round leads on, the last one to where the rounds stop. -/
theorem departs (h : Rounds machine setting place visits last) :
    (∀ visit ∈ visits, ∃ target, visit.departure = .next target) ∧
      ∀ visit, visits.getLast? = some visit →
        visit.departure = .next last.name ∧ Leads machine.states visit.state last.name := by
  induction h with
  | nil => simp
  | @cons place next last visit visits head tail ih =>
      obtain ⟨hstate, hlead⟩ := head.leads
      have hdeparture : visit.departure = .next next.name := by
        cases head with
        | intro _ _ _ _ hdeparture => exact hdeparture
      refine ⟨List.forall_mem_cons.mpr ⟨⟨_, hdeparture⟩, ih.1⟩, ?_⟩
      intro final hfinal
      cases tail with
      | nil =>
          cases hfinal
          exact ⟨hdeparture, hstate ▸ hlead⟩
      | cons head tail => exact ih.2 final (by simpa using hfinal)

end Rounds

theorem Departure.error?_eq_none {departure : Departure} (h : departure.succeeded = true) :
    departure.error? = none := by
  cases departure with
  | next | finish => rfl
  | failed | cut => cases h

namespace Execution

/-- Without a step left the execution ends before the state. -/
theorem resume_of_exhausted (h : place.entered = setting.limits.maxSteps) :
    (resume machine setting place).visits = [] ∧
      (resume machine setting place).state = place.name ∧
      ((resume machine setting place).error = some .cancelled ∨
        (resume machine setting place).error = some (.stepLimit setting.limits.maxSteps)) := by
  rw [resume, h, Nat.sub_self, walk]
  split
  · exact ⟨rfl, rfl, Or.inl rfl⟩
  · exact ⟨rfl, rfl, Or.inr rfl⟩

/-- With a step left, and where no round follows, the execution ends for another reason. At most one
more state is entered; the execution ends as that one does, which leads nowhere if it does what it
is for. -/
theorem resume_of_spare (hspare : place.entered < setting.limits.maxSteps)
    (hstopped : ∀ visit next, ¬ Round machine setting place visit next) :
    (∀ limit, (resume machine setting place).error ≠ some (.stepLimit limit)) ∧
      (resume machine setting place).visits.length ≤ 1 ∧
      ∀ visit ∈ (resume machine setting place).visits,
        (resume machine setting place).state = visit.state ∧
          (resume machine setting place).error = visit.departure.error? ∧
          (visit.departure.succeeded = true →
            ∀ target, ¬ Leads machine.states visit.state target) := by
  have course := course_walk machine setting (setting.limits.maxSteps - place.entered)
    place.entered place.now place.name place.context place.world
  obtain ⟨spare, hsteps⟩ : ∃ spare, setting.limits.maxSteps - place.entered = spare + 1 :=
    ⟨setting.limits.maxSteps - place.entered - 1, by omega⟩
  rw [resume, hsteps]
  rw [hsteps] at course
  generalize walk machine setting (spare + 1) place.entered place.now place.name place.context
    place.world = execution at course ⊢
  cases course with
  | cancelled | unknown => simp [stopped]
  | onward hrunning hfind stay hdeparture =>
      exact absurd (Round.intro hrunning hspare hfind (ofState_of_stay stay) hdeparture)
        (hstopped _ _)
  | finished _ hfind stay hdeparture =>
      have hlast := stay.fits
      rw [hdeparture] at hlast
      simpa [stopped, hdeparture, stay.state_eq, Departure.error?] using
        fun _ => hlast.not_leads hfind
  | failed _ _ stay hdeparture =>
      have hbelongs := stay.fits
      rw [hdeparture] at hbelongs
      refine ⟨?_, Nat.le_refl 1, ?_⟩
      · intro limit hlimit
        rw [Option.some.inj hlimit] at hbelongs
        exact hbelongs.elim
      · simp [stopped, hdeparture, stay.state_eq, Departure.error?, Departure.succeeded]
  | cut _ _ stay hdeparture =>
      simp [stopped, hdeparture, stay.state_eq, Departure.error?, Departure.succeeded]

/-- Where rounds have led on, the history is that of their visits, all of which succeeded. -/
theorem history_of_rounds (h : Rounds machine setting place visits last) {rest : List Visit}
    (hvisits : execution.visits = visits ++ rest) :
    execution.completed = visits ++ rest.filter (fun visit => visit.departure.succeeded) ∧
      execution.history = visits.map (fun visit => ⟨visit.state, visit.kind, true⟩) ++
        rest.filterMap Visit.entry? := by
  have hnext := h.departs.1
  rw [completed, history, hvisits, List.filter_append, List.filterMap_append]
  refine ⟨congrArg (· ++ _) (List.filter_eq_self.mpr ?_), congrArg (· ++ _) ?_⟩
  · intro visit hvisit
    obtain ⟨target, hdeparture⟩ := hnext visit hvisit
    rw [hdeparture]
    rfl
  · rw [← List.filterMap_eq_map]
    apply List.filterMap_congr
    intro visit hvisit
    obtain ⟨target, hdeparture⟩ := hnext visit hvisit
    simp [Visit.entry?, hdeparture, Departure.succeeded]

/-- Once all steps are used up, the execution stops behind the last of them. -/
theorem stopsBehind_of_exhausted (hrounds : Rounds machine setting place visits last)
    (hplace : place.entered = 0) (hsteps : 1 ≤ setting.limits.maxSteps)
    (hlast : last.entered = setting.limits.maxSteps) :
    (resume machine setting place).StopsBehind setting.limits.maxSteps ∧
      (resume machine setting place).GoesOnBehind machine setting.limits.maxSteps ∧
      ((resume machine setting place).error = some .cancelled ∨
        (resume machine setting place).error = some (.stepLimit setting.limits.maxSteps)) := by
  obtain ⟨hnone, hstate, herror⟩ := resume_of_exhausted hlast
  obtain ⟨hvisits, hend, hreason⟩ := hrounds.resume_eq
  rw [hnone] at hvisits
  rw [hstate] at hend
  rw [← hreason] at herror
  obtain ⟨hcompleted, hhistory⟩ := history_of_rounds hrounds hvisits
  simp only [List.filter_nil, List.filterMap_nil, List.append_nil] at hvisits hcompleted hhistory
  have hlength : visits.length = setting.limits.maxSteps := by
    rw [← hlast, hrounds.entered_eq, hplace, Nat.zero_add]
  have hne : visits ≠ [] := by
    rintro rfl
    rw [List.length_nil] at hlength
    omega
  obtain ⟨front, visit, hfront⟩ := (List.eq_nil_or_concat' visits).resolve_left hne
  obtain ⟨hdeparture, hlead⟩ := hrounds.departs.2 visit (by simp [hfront])
  refine ⟨⟨?_, ?_, ?_, ?_⟩, ⟨?_, ?_⟩, herror⟩
  · rw [steps, hvisits, hlength]
  · rw [hhistory, List.length_map, hlength]
  · simp [hhistory]
  · exact ⟨front, visit, hvisits.trans hfront, hend ▸ hdeparture⟩
  · rw [filter_history, hcompleted, List.length_map, hlength]
  · refine ⟨⟨visit.state, visit.kind, true⟩, last.name, ?_, hlead⟩
    rw [filter_history, hcompleted, hfront]
    simp

/-- With steps left over, the execution stops within its limit, and for another reason. -/
theorem not_goesOnBehind_of_spare (hrounds : Rounds machine setting place visits last)
    (hplace : place.entered = 0) (hspare : last.entered < setting.limits.maxSteps)
    (hstopped : ∀ visit next, ¬ Round machine setting last visit next) :
    (resume machine setting place).steps ≤ setting.limits.maxSteps ∧
      ¬ (resume machine setting place).GoesOnBehind machine setting.limits.maxSteps := by
  obtain ⟨-, hone, hfinal⟩ := resume_of_spare hspare hstopped
  obtain ⟨hvisits, -, -⟩ := hrounds.resume_eq
  have hlength : visits.length < setting.limits.maxSteps := by
    have := hrounds.entered_eq
    omega
  refine ⟨?_, ?_⟩
  · rw [steps, hvisits, List.length_append]
    omega
  · rintro ⟨hcount, entry, target, hentry, hlead⟩
    rw [filter_history, (history_of_rounds hrounds hvisits).1] at hcount hentry
    generalize (resume machine setting last).visits = rest at hone hfinal hcount hentry
    -- The last of so many states is none of the rounds, so it is the one entered behind them.
    match rest with
    | [] => simp at hcount; omega
    | [visit] =>
        cases hsucceeded : visit.departure.succeeded with
        | false => simp [hsucceeded] at hcount; omega
        | true =>
            simp [hsucceeded] at hentry
            subst hentry
            exact (hfinal visit List.mem_cons_self).2.2 hsucceeded target hlead
    | _ :: _ :: _ => simp at hone

/-- With steps left over, the state that is entered with the last step is the one in which the
execution ends. -/
theorem last_of_spare (hrounds : Rounds machine setting place visits last)
    (hplace : place.entered = 0) (hspare : last.entered < setting.limits.maxSteps)
    (hstopped : ∀ visit next, ¬ Round machine setting last visit next)
    (hat : (resume machine setting place).visits[setting.limits.maxSteps - 1]? = some visit) :
    (resume machine setting place).state = visit.state ∧
      (resume machine setting place).error = visit.departure.error? := by
  obtain ⟨hvisits, hend, hreason⟩ := hrounds.resume_eq
  have hbehind : visits.length ≤ setting.limits.maxSteps - 1 := by
    have := hrounds.entered_eq
    omega
  rw [hvisits, List.getElem?_append_right hbehind] at hat
  obtain ⟨-, -, hfinal⟩ := resume_of_spare hspare hstopped
  obtain ⟨hstate, hleft, -⟩ := hfinal visit (List.mem_of_getElem? hat)
  exact ⟨hend.trans hstate, hreason.trans hleft⟩

/-- Once all steps are used up, the state that was entered with the last step leads on. -/
theorem leads_of_exhausted (hrounds : Rounds machine setting place visits last)
    (hplace : place.entered = 0) (hlast : last.entered = setting.limits.maxSteps)
    (hat : (resume machine setting place).visits[setting.limits.maxSteps - 1]? = some visit) :
    Leads machine.states visit.state last.name := by
  have hlength : visits.length = setting.limits.maxSteps := by
    rw [← hlast, hrounds.entered_eq, hplace, Nat.zero_add]
  rw [hrounds.resume_eq.1, (resume_of_exhausted hlast).1, List.append_nil, ← hlength,
    ← List.getLast?_eq_getElem?] at hat
  exact (hrounds.departs.2 visit hat).2

/-- An execution ends, and it enters no more states than its limit allows; its calls are bounded by
the limit and by the attempts that routes allow. Unless it is cancelled, it fails for want of steps
exactly when that many states did what they are for and the last one has a way on. Then it stands
before the state that comes next, which it did not enter. If the last state that it may enter has no
way on, it ends as that state does, and so succeeds unless that state fails. -/
theorem stepLimit_execute (machine : Machine) (setting : Setting σ)
    (hsteps : 1 ≤ setting.limits.maxSteps) (input : Json) (world : σ) :
    let execution := execute machine setting input world
    let limit := setting.limits.maxSteps
    (WellFounded fun next place : Standing σ =>
        ∃ visit, Round machine (setting.forMachine machine) place visit next) ∧
      (∀ visits place, Rounds machine (setting.forMachine machine)
          (outset machine setting input world) visits place →
        place.entered = visits.length ∧ place.entered ≤ limit) ∧
      execution.steps ≤ limit ∧
      execution.calls.length ≤ limit * setting.registry.mostAttempts ∧
      (execution.error ≠ some .cancelled →
        (execution.error = some (.stepLimit limit) ↔ execution.GoesOnBehind machine limit)) ∧
      (∀ n, execution.error = some (.stepLimit n) → n = limit ∧ execution.StopsBehind limit) ∧
      ∀ visit, execution.visits[limit - 1]? = some visit →
        (∀ target, ¬ Leads machine.states visit.state target) →
        execution.state = visit.state ∧ execution.error = visit.departure.error? ∧
          (visit.departure.succeeded = true → execution.succeeded = true) ∧
          ∀ n, execution.error ≠ some (.stepLimit n) := by
  have hwithin {visits place}
      (h : Rounds machine (setting.forMachine machine) (outset machine setting input world) visits
        place) : place.entered = visits.length ∧ place.entered ≤ setting.limits.maxSteps :=
    ⟨h.entered_eq.trans (Nat.zero_add _), h.entered_le (Nat.zero_le _)⟩
  obtain ⟨visits, last, hrounds, hstopped⟩ := Rounds.exists_stopped machine
    (setting.forMachine machine) (outset machine setting input world)
  have hcalls := length_calls_le machine setting input world
  intro execution limit
  refine ⟨wellFounded_round _ _, fun _ _ h => hwithin h, ?_⟩
  have hcases : last.entered < (setting.forMachine machine).limits.maxSteps ∨
      last.entered = (setting.forMachine machine).limits.maxSteps :=
    Nat.lt_or_eq_of_le (hwithin hrounds).2
  rcases hcases with hspare | hexhausted
  · -- Steps are left over, so the execution ended with the state behind the last round.
    obtain ⟨hbound, hno⟩ := not_goesOnBehind_of_spare hrounds rfl hspare hstopped
    have herror (n : Nat) : execution.error ≠ some (.stepLimit n) := fun h =>
      (resume_of_spare hspare hstopped).1 n (hrounds.resume_eq.2.2.symm.trans h)
    refine ⟨hbound, Nat.le_trans hcalls (Nat.mul_le_mul_right _ hbound), ?_, ?_, ?_⟩
    · intro _
      exact ⟨fun h => absurd h (herror limit), fun h => absurd h hno⟩
    · intro n h
      exact absurd h (herror n)
    · intro visit hat _
      obtain ⟨hstate, hends⟩ := last_of_spare hrounds rfl hspare hstopped hat
      refine ⟨hstate, hends, fun hsucceeded => ?_, herror⟩
      have hnone : execution.error = none := hends.trans (Departure.error?_eq_none hsucceeded)
      rw [Execution.succeeded, hnone]
      rfl
  · obtain ⟨hstops, hgoes, hends⟩ := stopsBehind_of_exhausted hrounds rfl hsteps hexhausted
    have hbound : execution.steps ≤ limit := Nat.le_of_eq hstops.steps
    refine ⟨hbound, Nat.le_trans hcalls (Nat.mul_le_mul_right _ hbound), ?_, ?_, ?_⟩
    · intro hrunning
      exact ⟨fun _ => hgoes, fun _ => hends.resolve_left hrunning⟩
    · intro n h
      refine ⟨?_, hstops⟩
      rcases hends with hcancelled | hlimit
      · cases hcancelled.symm.trans h
      · cases hlimit.symm.trans h
        rfl
    · intro visit hat hlast
      exact absurd (leads_of_exhausted hrounds rfl hexhausted hat) (hlast _)

/-- Three steps lead around the circle and to its second state, which is not entered again. -/
theorem stepLimit_circle :
    1 ≤ threeSteps.limits.maxSteps ∧
      (execute circleMachine threeSteps .null ()).error = some (.stepLimit 3) ∧
      (execute circleMachine threeSteps .null ()).GoesOnBehind circleMachine 3 ∧
      (execute circleMachine threeSteps .null ()).StopsBehind 3 := by
  have hsteps : 1 ≤ threeSteps.limits.maxSteps := by decide
  have herror : (execute circleMachine threeSteps .null ()).error = some (.stepLimit 3) := by
    decide +kernel
  obtain ⟨-, -, -, -, hiff, hstops, -⟩ := stepLimit_execute circleMachine threeSteps hsteps .null ()
  exact ⟨hsteps, herror, (hiff (by rw [herror]; simp)).mp herror, (hstops 3 herror).2⟩

end Execution

end StateFlow
