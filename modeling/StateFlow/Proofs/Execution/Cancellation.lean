import StateFlow.Proofs.Execution.Entry
import StateFlow.Proofs.Execution.Protocol
import StateFlow.Proofs.Execution.Time
import StateFlow.Proofs.Execution.Walk

/-!
# Cancellations

An execution that is cancelled goes as it would go otherwise until the moment of the cancellation,
at which nothing else shall be due. If it has not ended by then, some task is under way: it fails
then, and what it would have done later is lost, the attempts that it would still have made among
it.
-/

namespace StateFlow

variable {σ : Type}

/-- The visit to a task as a cancellation at this moment leaves it. -/
def Visit.cancelledAt (visit : Visit) (moment : Nat) : Visit :=
  { visit with
    left := moment
    calls := visit.calls.filter fun call => call.time < moment
    departure := .failed .cancelled }

/-- The state is neither entered nor left at this moment, and calls nobody then. -/
structure Visit.Quiet (visit : Visit) (moment : Nat) : Prop where
  entered : visit.entered ≠ moment
  left : visit.left ≠ moment
  calls : ∀ call ∈ visit.calls, call.time ≠ moment

instance (visit : Visit) (moment : Nat) : Decidable (visit.Quiet moment) :=
  decidable_of_iff (visit.entered ≠ moment ∧ visit.left ≠ moment ∧
      ∀ call ∈ visit.calls, call.time ≠ moment)
    ⟨fun ⟨hentered, hleft, hcalls⟩ => ⟨hentered, hleft, hcalls⟩,
      fun h => ⟨h.entered, h.left, h.calls⟩⟩

variable {registry : Registry σ} {limits : Limits} {cancellation : Cancellation}
  {step now left : Nat} {name : String} {context written : Context} {world after : σ}
  {state : State} {visit : Visit} {task : TaskState} {input : Json} {outcome : Outcome}

/-! ## One state -/

namespace Setting

theorem isCancelled_of_lt {entered : Nat} (hnow : now < cancellation.moment) :
    isCancelled ⟨registry, limits, some cancellation⟩ entered now = false := by
  simp only [isCancelled, Bool.or_eq_false_iff, Bool.and_eq_false_iff, decide_eq_false_iff_not]
  omega

/-- A cancellation interrupts a task unless something else does so earlier. What is due at its very
moment may count or not. -/
theorem interruption_cancelled (registry : Registry σ) (limits : Limits)
    (cancellation : Cancellation) (step : Nat) (name : String) (task : TaskState) (now : Nat) :
    let expiry := expiry ⟨registry, limits, none⟩ name task now
    let cancelled := interruption ⟨registry, limits, some cancellation⟩ step name task now
    (cancelled = expiry ∧ expiry.moment ≤ cancellation.moment) ∨
      ∃ horizon, cancelled = ⟨cancellation.moment, horizon, .failed .cancelled⟩ ∧
        cancellation.moment ≤ expiry.moment ∧
        (horizon = cancellation.moment ∨ horizon + 1 = cancellation.moment) := by
  intro expiry cancelled
  obtain ⟨moment, entered⟩ := cancellation
  have hcancelled : cancelled = if entered < step then
      if moment ≤ expiry.moment then ⟨moment, moment - 1, .failed .cancelled⟩ else expiry
      else if moment < expiry.moment then ⟨moment, moment, .failed .cancelled⟩ else expiry := rfl
  rw [hcancelled]
  split
  · split
    · exact Or.inr ⟨moment - 1, rfl, by omega, by simp only; omega⟩
    · exact Or.inl ⟨rfl, by simp only; omega⟩
  · split
    · exact Or.inr ⟨moment, rfl, by simp only; omega, Or.inl rfl⟩
    · exact Or.inl ⟨rfl, by simp only; omega⟩

end Setting

/-- An answer that comes before the cancellation is waited for. -/
theorem TaskState.invocation_of_early
    (hending : (task.invocation ⟨registry, limits, none⟩ step now name input world).ending =
      some (left, outcome))
    (hleft : left < cancellation.moment) :
    task.invocation ⟨registry, limits, some cancellation⟩ step now name input world =
      task.invocation ⟨registry, limits, none⟩ step now name input world := by
  rcases Setting.interruption_cancelled registry limits cancellation step name task now with
    ⟨hsame, -⟩ | ⟨horizon, hcancelled, -, hhorizon⟩
  · rw [invocation, invocation, hsame, Setting.interruption_of_uncancelled rfl]
  · have hanswers := Registry.answers_of_ending hending
    have hintime : Clock.Horizon.passed (some horizon) left = false := by
      apply Clock.Horizon.passed_some_eq_false_iff.mpr
      omega
    calc _ = registry.invoke task.resource input (some horizon) now world := by
          rw [invocation, hcancelled]
      _ = registry.invoke task.resource input none now world := hanswers.invoke_eq hintime
      _ = _ := Registry.invoke_eq_of_ending hending fun _ hpassed => by cases hpassed

namespace Stay

/-- A task that has an input makes the calls of its invocation, whatever ends it. -/
theorem calls_eq {setting : Setting σ}
    (stay : Stay setting step now name context world (.task task) visit written after)
    (hinput : task.input context = .ok input) :
    visit.calls = (task.invocation setting step now name input world).calls := by
  cases stay with
  | unresolved herror => cases herror.symm.trans hinput
  | interrupted hother hinvocation | failed hother hinvocation | done hother hinvocation
  | unmerged hother hinvocation =>
      cases hother.symm.trans hinput
      rw [hinvocation]
      rfl

theorem cancelledAt_eq {setting : Setting σ} {moment : Nat}
    (stay : Stay setting step now name context world (.task task) visit written after) :
    visit.cancelledAt moment = task.visit step now name moment
      (visit.calls.filter fun call => call.time < moment) (.failed .cancelled) := by
  cases stay <;> rfl

/-- What is over before the cancellation happens as it would without it. -/
theorem withCancellation
    (stay : Stay ⟨registry, limits, none⟩ step now name context world state visit written after)
    (hleft : visit.left < cancellation.moment) :
    Stay ⟨registry, limits, some cancellation⟩ step now name context world state visit written
      after := by
  cases stay with
  | chosen choice => exact Stay.chosen choice
  | passed hmerge => exact Stay.passed hmerge
  | refused hmerge => exact Stay.refused hmerge
  | unresolved hinput => exact Stay.unresolved hinput
  | failed hinput hinvocation hending =>
      subst hinvocation
      exact Stay.failed hinput (TaskState.invocation_of_early hending hleft) hending
  | done hinput hinvocation hending hmerge =>
      subst hinvocation
      exact Stay.done hinput (TaskState.invocation_of_early hending hleft) hending hmerge
  | unmerged hinput hinvocation hending hmerge =>
      subst hinvocation
      exact Stay.unmerged hinput (TaskState.invocation_of_early hending hleft) hending hmerge
  | @interrupted body _ _ moment _ _ hinput hinvocation hinterruption hending =>
      -- The limits interrupt the task before the cancellation could.
      have hsame :
          Setting.interruption ⟨registry, limits, some cancellation⟩ step name body now =
            Setting.interruption ⟨registry, limits, none⟩ step name body now := by
        rcases Setting.interruption_cancelled registry limits cancellation step name body now with
          ⟨hsame, -⟩ | ⟨-, -, hle, -⟩
        · rw [hsame, Setting.interruption_of_uncancelled rfl]
        · rw [← Setting.interruption_of_uncancelled rfl, hinterruption] at hle
          exact (Nat.not_le.mpr hleft hle).elim
      rw [← hsame] at hinterruption
      rw [TaskState.invocation, ← hsame] at hinvocation
      exact Stay.interrupted hinput hinvocation hinterruption hending

/-- A task that would be left behind the cancellation fails then, and makes no call any more. -/
theorem cancelled_task (hallows : limits.Allows now) (hnow : now < cancellation.moment)
    (stay : Stay ⟨registry, limits, none⟩ step now name context world (.task task) visit written
      after)
    (hinput : task.input context = .ok input) (hlate : cancellation.moment < visit.left)
    (hquiet : ∀ call ∈ visit.calls, call.time ≠ cancellation.moment) :
    ∃ rest, Stay ⟨registry, limits, some cancellation⟩ step now name context world (.task task)
      (visit.cancelledAt cancellation.moment) context rest := by
  obtain ⟨left, outcome, hanswers⟩ := registry.exists_answers task.resource input now world
  obtain ⟨hexpiry, -⟩ :=
    Setting.moment_expiry_bounds ⟨registry, limits, none⟩ name task hallows
  -- Neither the answer nor the end of its time would have come before the task is left.
  have hbehind : cancellation.moment < left ∧ cancellation.moment <
      (Setting.expiry ⟨registry, limits, none⟩ name task now).moment := by
    rcases stay.answered_or_interrupted hinput hanswers (Setting.interruption_eq rfl) hexpiry
      with ⟨hle, hleft, -⟩ | ⟨hlt, hleft, -⟩
    · rw [hleft] at hlate
      exact ⟨hlate, Nat.lt_of_lt_of_le hlate hle⟩
    · rw [hleft] at hlate
      exact ⟨Nat.lt_trans hlate hlt, hlate⟩
  rcases Setting.interruption_cancelled registry limits cancellation step name task now with
    ⟨-, hle⟩ | ⟨horizon, hcancelled, hle, hhorizon⟩
  · exact (Nat.not_lt.mpr hle hbehind.2).elim
  · have hin : now ≤ horizon := by omega
    have hlateness : horizon < left := by omega
    have hending : (task.invocation ⟨registry, limits, some cancellation⟩ step now name input
        world).ending = none := by
      rw [TaskState.invocation, hcancelled]
      exact hanswers.ending_eq_none (Clock.Horizon.passed_some_eq_false_iff.mpr hin)
        (Clock.Horizon.passed_some_iff.mpr hlateness)
    have hcalls : (task.invocation ⟨registry, limits, some cancellation⟩ step now name input
        world).calls = visit.calls.filter fun call => call.time < cancellation.moment := by
      have hfree := (stay.calls_eq hinput).trans
        (congrArg Invocation.calls (TaskState.invocation_of_uncancelled rfl))
      rw [hfree] at hquiet ⊢
      rw [TaskState.invocation, hcancelled]
      exact Registry.calls_invoke_of_quiet hin hhorizon hle hquiet
    have hstay := Stay.interrupted hinput rfl hcancelled hending
    rw [hcalls, ← stay.cancelledAt_eq] at hstay
    exact ⟨_, hstay⟩

/-- A state that would be left behind the cancellation is a task. -/
theorem cancelled (hallows : limits.Allows now) (hnow : now < cancellation.moment)
    (stay : Stay ⟨registry, limits, none⟩ step now name context world state visit written after)
    (hlate : cancellation.moment < visit.left)
    (hquiet : ∀ call ∈ visit.calls, call.time ≠ cancellation.moment) :
    ∃ task rest, state = .task task ∧
      Stay ⟨registry, limits, some cancellation⟩ step now name context world (.task task)
        (visit.cancelledAt cancellation.moment) context rest := by
  cases state with
  | choice | pass => cases stay <;> exact (Nat.lt_asymm hnow hlate).elim
  | task task =>
      cases hinput : task.input context with
      | error path =>
          have hunresolved := (ofState_of_stay stay).symm
          rw [Visit.ofState, Visit.ofTask, hinput] at hunresolved
          cases hunresolved
          exact (Nat.lt_asymm hnow hlate).elim
      | ok input =>
          obtain ⟨rest, hstay⟩ := cancelled_task hallows hnow stay hinput hlate hquiet
          exact ⟨task, rest, rfl, hstay⟩

end Stay

/-- A completed state is not told as failed. -/
theorem Visit.type_ne_taskFailed (h : visit.departure.succeeded = true) :
    ∀ happening ∈ visit.happenings, happening.type ≠ .taskFailed := by
  cases hdeparture : visit.departure with
  | failed | cut =>
      rw [hdeparture] at h
      cases h
  | next | finish =>
      cases hresolution : visit.resolution <;>
        simp [happenings, leaving, hdeparture, hresolution, Happening.type]

/-! ## The whole run -/

namespace Execution

/-- Nothing in the execution is due at this moment. -/
structure Quiet (execution : Execution σ) (moment : Nat) : Prop where
  visits : ∀ visit ∈ execution.visits, visit.Quiet moment
  time : execution.time ≠ moment

instance (execution : Execution σ) (moment : Nat) : Decidable (execution.Quiet moment) :=
  decidable_of_iff ((∀ visit ∈ execution.visits, visit.Quiet moment) ∧ execution.time ≠ moment)
    ⟨fun ⟨hvisits, htime⟩ => ⟨hvisits, htime⟩, fun h => ⟨h.visits, h.time⟩⟩

/-- The execution goes like the free one until the moment, and fails then in the task that is in
flight in the free one. -/
inductive BreaksOff (machine : Machine) (moment : Nat) (free execution : Execution σ) : Prop
  | intro {front : List Visit} {visit : Visit} {task : TaskState}
      (hflight : free.InFlight moment front visit)
      (hfind : machine.states.find? visit.state = some (.task task))
      (hvisits : execution.visits = front ++ [visit.cancelledAt moment])

/-- What a cancellation at this moment leaves of the free execution, which would have this visit in
flight then behind those in front. -/
structure CancelledIn (machine : Machine) (input : Json) (moment : Nat) (free : Execution σ)
    (front : List Visit) (visit : Visit) (execution : Execution σ) : Prop where
  inFlight : free.InFlight moment front visit
  task : ∃ task, machine.states.find? visit.state = some (.task task)
  visits : execution.visits = front ++ [visit.cancelledAt moment]
  error : execution.error = some .cancelled
  state : execution.state = visit.state
  time : execution.time = moment
  entered : ∀ other ∈ execution.visits, other.entered < moment
  calls : execution.calls = free.calls.filter fun call => call.time < moment
  completed : ∀ other ∈ front, other.departure.succeeded = true
  history : execution.history =
    free.history.take front.length ++ [⟨visit.state, .task, false⟩]
  steps : execution.steps = front.length + 1
  document : front.foldlM machine.effect? input = some execution.context.document
  happenings : execution.happenings machine.startAt =
    .executionStarted machine.startAt :: front.flatMap Visit.happenings
      ++ [.stateEntered visit.state .task execution.steps, execution.conclusion]
  untold : ∀ happening ∈ execution.happenings machine.startAt, happening.type ≠ .taskFailed

variable {machine : Machine} {execution free : Execution σ} {spare entered moment : Nat}
  {other : Visit}

theorem Quiet.of_prepend (h : (execution.prepend visit).Quiet moment) :
    visit.Quiet moment ∧ execution.Quiet moment := by
  obtain ⟨hvisit, hrest⟩ := List.forall_mem_cons.mp h.visits
  exact ⟨hvisit, hrest, h.time⟩

/-- An execution that is over before it could be cancelled goes as it would go otherwise. -/
theorem course_withCancellation
    (course : Course machine ⟨registry, limits, none⟩ spare entered now name context world
      execution)
    (hallows : limits.Allows now) (htime : execution.time < cancellation.moment) :
    Course machine ⟨registry, limits, some cancellation⟩ spare entered now name context world
      execution := by
  have hnow := Nat.lt_of_le_of_lt (le_time_of_course course hallows) htime
  induction course with
  | cancelled hcancelled => cases hcancelled
  | stepLimit => exact Course.stepLimit (Setting.isCancelled_of_lt hnow)
  | unknown _ hfind => exact Course.unknown (Setting.isCancelled_of_lt hnow) hfind
  | onward _ hfind stay hdeparture rest ih =>
      have hleft := (stay.timely hallows).2
      have hearly := Nat.lt_of_le_of_lt (le_time_of_course rest hleft) htime
      exact Course.onward (Setting.isCancelled_of_lt hnow) hfind (stay.withCancellation hearly)
        hdeparture (ih hleft htime hearly)
  | finished _ hfind stay hdeparture =>
      exact Course.finished (Setting.isCancelled_of_lt hnow) hfind (stay.withCancellation htime)
        hdeparture
  | failed _ hfind stay hdeparture =>
      exact Course.failed (Setting.isCancelled_of_lt hnow) hfind (stay.withCancellation htime)
        hdeparture
  | cut _ hfind stay hdeparture =>
      exact Course.cut (Setting.isCancelled_of_lt hnow) hfind (stay.withCancellation htime)
        hdeparture

theorem BreaksOff.prepend (h : BreaksOff machine moment free execution)
    (hearly : other.left ≤ moment) :
    BreaksOff machine moment (free.prepend other) (execution.prepend other) := by
  obtain ⟨hflight, hfind, hvisits⟩ := h
  exact intro (hflight.prepend hearly) hfind (congrArg (other :: ·) hvisits)

/-- A state that would be left behind the cancellation is the last one with it. -/
theorem BreaksOff.of_stay {back : List Visit} (hvisits : free.visits = visit :: back)
    (hback : ∀ other ∈ back, visit.left ≤ other.entered)
    (hfind : machine.states.find? name = some state)
    (stay : Stay ⟨registry, limits, none⟩ (entered + 1) now name context world state visit written
      after)
    (hallows : limits.Allows now) (hnow : now < cancellation.moment)
    (hlate : cancellation.moment < visit.left) (hquiet : visit.Quiet cancellation.moment) :
    ∃ execution, Course machine ⟨registry, limits, some cancellation⟩ (spare + 1) entered now name
      context world execution ∧ BreaksOff machine cancellation.moment free execution := by
  obtain ⟨task, rest, rfl, hcancelled⟩ := stay.cancelled hallows hnow hlate hquiet.calls
  have hentered : visit.entered ≤ cancellation.moment := by
    rw [stay.entered_eq]
    exact Nat.le_of_lt hnow
  have hflight := InFlight.of_first hvisits hback hentered hlate
  have hvisit : machine.states.find? visit.state = some (.task task) := by
    rw [stay.state_eq]
    exact hfind
  exact ⟨_, Course.failed (Setting.isCancelled_of_lt hnow) hfind hcancelled rfl,
    intro hflight hvisit rfl⟩

/-- An execution that would go on behind its cancellation breaks off at it. -/
theorem breaksOff_of_course
    (course : Course machine ⟨registry, limits, none⟩ spare entered now name context world free)
    (hallows : limits.Allows now) (hquiet : free.Quiet cancellation.moment)
    (hnow : now ≤ cancellation.moment) (htime : cancellation.moment < free.time) :
    ∃ execution, Course machine ⟨registry, limits, some cancellation⟩ spare entered now name context
      world execution ∧ BreaksOff machine cancellation.moment free execution := by
  induction course with
  | cancelled hcancelled => cases hcancelled
  | stepLimit | unknown => exact (Nat.not_le.mpr htime hnow).elim
  | @onward _ _ _ _ _ _ _ visit _ _ _ _ hrunning hfind stay hdeparture rest ih =>
      obtain ⟨hvisit, hbehind⟩ := hquiet.of_prepend
      have hentered := Nat.lt_of_le_of_ne hnow (stay.entered_eq ▸ hvisit.entered)
      have hleft := (stay.timely hallows).2
      rcases Nat.lt_or_gt_of_ne hvisit.left with hearly | hlate
      · obtain ⟨execution, hcourse, hbreaks⟩ :=
          ih hleft hbehind (Nat.le_of_lt hearly) htime
        exact ⟨_, Course.onward (Setting.isCancelled_of_lt hentered) hfind
          (stay.withCancellation hearly) hdeparture hcourse, hbreaks.prepend (Nat.le_of_lt hearly)⟩
      · have hrest := timely_of_course rest hleft
        exact BreaksOff.of_stay rfl (fun other hother => (hrest other hother).1) hfind stay hallows
          hentered hlate hvisit
  | finished _ hfind stay | failed _ hfind stay | cut _ hfind stay =>
      have hvisit := hquiet.visits _ List.mem_cons_self
      have hentered := Nat.lt_of_le_of_ne hnow (stay.entered_eq ▸ hvisit.entered)
      exact BreaksOff.of_stay rfl (by simp) hfind stay hallows hentered htime hvisit

/-- An execution that breaks off makes those calls of the free one that are due by then. -/
theorem calls_of_breaksOff {front : List Visit}
    (htimely : ∀ other ∈ free.visits, other.Timely) (hquiet : free.Quiet moment)
    (hflight : free.InFlight moment front visit)
    (hvisits : execution.visits = front ++ [visit.cancelledAt moment]) :
    execution.calls = free.calls.filter fun call => call.time < moment := by
  obtain ⟨⟨back, hfree, hback⟩, hfront, -, -⟩ := hflight
  rw [hfree] at htimely
  have hquietly := hquiet.visits
  rw [hfree] at hquietly
  have hbefore : (front.flatMap Visit.calls).filter (fun call => call.time < moment) =
      front.flatMap Visit.calls := by
    apply List.filter_eq_self.mpr
    intro call hcall
    obtain ⟨other, hother, hmem⟩ := List.mem_flatMap.mp hcall
    have hle := ((htimely other (by simp [hother])).calls call hmem).2
    have hne := (hquietly other (by simp [hother])).calls call hmem
    have hleft := hfront other hother
    rw [decide_eq_true_eq]
    omega
  have hbehind : (back.flatMap Visit.calls).filter (fun call => call.time < moment) = [] := by
    apply List.filter_eq_nil_iff.mpr
    intro call hcall
    obtain ⟨other, hother, hmem⟩ := List.mem_flatMap.mp hcall
    have hle := ((htimely other (by simp [hother])).calls call hmem).1
    have hentered := hback other hother
    rw [decide_eq_true_eq]
    omega
  calc execution.calls
    _ = front.flatMap Visit.calls ++ (visit.cancelledAt moment).calls := by
      rw [calls, hvisits, List.flatMap_append, List.flatMap_singleton]
    _ = (front.flatMap Visit.calls ++ (visit.calls ++ back.flatMap Visit.calls)).filter
        fun call => call.time < moment := by
      rw [List.filter_append, List.filter_append, hbefore, hbehind, List.append_nil]
      rfl
    _ = free.calls.filter fun call => call.time < moment := by
      rw [calls, hfree, List.flatMap_append, List.flatMap_cons]

theorem entered_lt_of_breaksOff {front : List Visit}
    (htimely : ∀ other ∈ free.visits, other.Timely) (hquiet : free.Quiet moment)
    (hflight : free.InFlight moment front visit)
    (hvisits : execution.visits = front ++ [visit.cancelledAt moment]) :
    ∀ other ∈ execution.visits, other.entered < moment := by
  obtain ⟨⟨back, hfree, -⟩, hfront, hentered, -⟩ := hflight
  intro other hother
  rw [hvisits] at hother
  rcases List.mem_append.mp hother with hother | hlast
  · have hmem : other ∈ free.visits := by
      rw [hfree]
      exact List.mem_append_left _ hother
    have hle := Nat.le_trans (htimely other hmem).left (hfront other hother)
    exact Nat.lt_of_le_of_ne hle (hquiet.visits other hmem).entered
  · have hmem : visit ∈ free.visits := by
      rw [hfree]
      exact List.mem_append_right _ List.mem_cons_self
    rw [List.mem_singleton.mp hlast]
    exact Nat.lt_of_le_of_ne hentered (hquiet.visits visit hmem).entered

theorem type_conclusion_ne (execution : Execution σ) :
    execution.conclusion.type ≠ .taskFailed := by
  rw [conclusion]
  cases execution.error <;> simp [Happening.type]

/-- No task is told as failed if the last state is only told as entered. -/
theorem type_ne_of_happenings {front : List Visit} {startAt : String} {kind : StateKind}
    (hcompleted : ∀ other ∈ front, other.departure.succeeded = true)
    (hhappenings : execution.happenings startAt =
      .executionStarted startAt :: front.flatMap Visit.happenings
        ++ [.stateEntered name kind step, execution.conclusion]) :
    ∀ happening ∈ execution.happenings startAt, happening.type ≠ .taskFailed := by
  intro happening hmem
  rw [hhappenings] at hmem
  simp only [List.cons_append, List.mem_cons, List.mem_append, List.mem_flatMap,
    List.not_mem_nil, or_false] at hmem
  rcases hmem with rfl | ⟨other, hother, hmem⟩ | rfl | rfl
  · simp [Happening.type]
  · exact Visit.type_ne_taskFailed (hcompleted other hother) happening hmem
  · simp [Happening.type]
  · exact type_conclusion_ne execution

/-- What is left of an execution that breaks off is what was completed by then. -/
theorem BreaksOff.ends (h : BreaksOff machine moment free execution)
    (htimely : ∀ other ∈ free.visits, other.Timely) (hquiet : free.Quiet moment)
    {setting : Setting σ}
    (course : Course machine setting spare 0 now machine.startAt context world execution) :
    ∃ front visit, CancelledIn machine context.document moment free front visit execution := by
  obtain @⟨front, visit, task, hflight, hfind, hvisits⟩ := h
  obtain @⟨found, written, before, after, state, hcompleted, -, -, -, hstate, stay⟩ :=
    enters_of_course course hvisits
  obtain ⟨-, herror, hfinal, htime⟩ := ends_of_course course hvisits rfl
  obtain rfl : state = .task task := Option.some.inj (hstate.symm.trans hfind)
  have hsteps : execution.steps = front.length + 1 := by
    rw [steps, hvisits, List.length_append]
    rfl
  have hlast : (visit.cancelledAt moment).happenings =
      [.stateEntered visit.state .task execution.steps] := by
    rw [stay.tells_failed rfl, hsteps, Nat.zero_add]
    rfl
  have hhappenings : execution.happenings machine.startAt =
      .executionStarted machine.startAt :: front.flatMap Visit.happenings
        ++ [.stateEntered visit.state .task execution.steps, execution.conclusion] := by
    rw [happenings, hvisits, List.flatMap_append, List.flatMap_singleton, hlast]
    simp
  obtain ⟨back, hfree, hback⟩ := hflight.visits
  refine ⟨front, visit, ?_⟩
  constructor
  case inFlight => exact hflight
  case task => exact ⟨task, hfind⟩
  case visits => exact hvisits
  case error => exact herror
  case state => exact hfinal
  case time => exact htime
  case calls => exact calls_of_breaksOff htimely hquiet hflight hvisits
  case completed => exact hcompleted
  case steps => exact hsteps
  case happenings => exact hhappenings
  case entered => exact entered_lt_of_breaksOff htimely hquiet hflight hvisits
  case history =>
    have hkind : visit.kind = .task := stay.kind_eq
    rw [history, history, hvisits, hfree, List.filterMap_append, List.filterMap_append,
      history_of_succeeded hcompleted, List.take_left' (List.length_map _)]
    simp [Visit.entry?, Visit.cancelledAt, Departure.succeeded, hkind]
  case document =>
    rw [← completed_of_visits hvisits hcompleted rfl]
    exact foldlM_completed course
  case untold => exact type_ne_of_happenings hcompleted hhappenings

/-- A cancellation at a moment at which nothing else is due makes no difference to an execution that
is over by then. It ends any other one with a failure in the task that would be in flight then:
what was completed before has its effects, its entries and its events, and nothing begins any more.
An execution that is cancelled before its start does nothing. -/
theorem execute_cancelled (machine : Machine) (registry : Registry σ) (limits : Limits)
    (cancellation : Cancellation) (input : Json) (world : σ) :
    let execution := execute machine ⟨registry, limits, some cancellation⟩ input world
    let free := execute machine ⟨registry, limits, none⟩ input world
    (free.Quiet cancellation.moment →
      (free.time < cancellation.moment → execution = free) ∧
      (cancellation.moment ≤ free.time → ∃ front visit,
        CancelledIn machine input cancellation.moment free front visit execution)) ∧
    (cancellation = ⟨0, 0⟩ → execution =
      stopped [] machine.startAt (some .cancelled) ⟨input, limits.maxContextBytes⟩ 0 world) := by
  intro execution free
  have course : Course machine
      ⟨registry, { limits with executionTimeout := machine.timeout? limits }, some cancellation⟩
      limits.maxSteps 0 0 machine.startAt ⟨input, limits.maxContextBytes⟩ world execution :=
    course_execute machine ⟨registry, limits, some cancellation⟩ input world
  have freely : Course machine
      ⟨registry, { limits with executionTimeout := machine.timeout? limits }, none⟩
      limits.maxSteps 0 0 machine.startAt ⟨input, limits.maxContextBytes⟩ world free :=
    course_execute machine ⟨registry, limits, none⟩ input world
  have hallows : { limits with executionTimeout := machine.timeout? limits }.Allows 0 :=
    fun _ _ => Nat.zero_le _
  refine ⟨fun hquiet => ⟨fun htime => ?_, fun htime => ?_⟩, fun hcancellation => ?_⟩
  · have hsame := course_withCancellation freely hallows htime
    exact (walk_of_course course).symm.trans (walk_of_course hsame)
  · have hlate := Nat.lt_of_le_of_ne htime hquiet.time.symm
    obtain ⟨other, hother, hbreaks⟩ :=
      breaksOff_of_course freely hallows hquiet (Nat.zero_le _) hlate
    obtain rfl : other = execution :=
      (walk_of_course hother).symm.trans (walk_of_course course)
    have htimely := timely_of_course freely hallows
    exact hbreaks.ends (fun visit hvisit => (htimely visit hvisit).2.2) hquiet course
  · subst hcancellation
    have hcancelled : Course machine
        ⟨registry, { limits with executionTimeout := machine.timeout? limits }, some ⟨0, 0⟩⟩
        limits.maxSteps 0 0 machine.startAt ⟨input, limits.maxContextBytes⟩ world _ :=
      Course.cancelled rfl
    exact (walk_of_course course).symm.trans (walk_of_course hcancelled)

/-- One invoker that cannot be reached, and takes two milliseconds to find out. It is asked again,
first after ten milliseconds. -/
def unreachable : Registry Unit where
  routes := [⟨"", ⟨"unreachable", fun world _ _ _ =>
    (⟨2, .error (.transport "r" "down")⟩, world)⟩, some { intervalMs := 10 }⟩]

/-- The second attempt is not made when the wait for it is cancelled. -/
theorem execute_cancelled_waiting :
    let setting (cancellation : Option Cancellation) : Setting Unit :=
      ⟨unreachable, bareSetting.limits, cancellation⟩
    let execution := execute twoStatesMachine (setting (some ⟨5, 0⟩)) .null ()
    let free := execute twoStatesMachine (setting none) .null ()
    free.Quiet 5 ∧ 5 ≤ free.time ∧ free.calls.map Call.time = [0, 12, 34] ∧
      execution.calls.map Call.time = [0] ∧
      ∃ front visit, CancelledIn twoStatesMachine .null 5 free front visit execution := by
  intro setting execution free
  have hquiet : free.Quiet 5 := by decide +kernel
  have htime : 5 ≤ free.time := by decide +kernel
  refine ⟨hquiet, htime, by decide +kernel, by decide +kernel, ?_⟩
  exact ((execute_cancelled twoStatesMachine unreachable bareSetting.limits ⟨5, 0⟩ .null ()).1
    hquiet).2 htime

end Execution

end StateFlow
