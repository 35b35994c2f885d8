import StateFlow.Proofs.Execution.Entry
import StateFlow.Proofs.Execution.Interruption
import StateFlow.Proofs.Execution.Walk

/-!
# Limits only cut

Two executions of one machine on one input that differ in their limits alone go the same way until
the tighter limits end one of them. So an execution that no limit ended would have gone in just the
same way within wider limits, and any other one goes along the wider one as far as it comes.
-/

namespace StateFlow

variable {σ : Type}

/-- The limits are nowhere wider than the others; no limit at all is the widest. -/
structure Limits.Within (narrow wide : Limits) : Prop where
  maxSteps : narrow.maxSteps ≤ wide.maxSteps
  taskTimeout : narrow.taskTimeout ≤ wide.taskTimeout
  executionTimeout : ∀ later, wide.executionTimeout = some later →
    ∃ sooner, narrow.executionTimeout = some sooner ∧ sooner ≤ later
  maxContextBytes : narrow.maxContextBytes ≤ wide.maxContextBytes

/-- The same document within a tighter bound. -/
structure Context.Within (narrow wide : Context) : Prop where
  document : narrow.document = wide.document
  maxBytes : narrow.maxBytes ≤ wide.maxBytes

/-- The error says that a limit was reached. -/
def ExecutionError.IsLimit : ExecutionError → Prop
  | stepLimit _ | taskTimeout _ _ | executionTimeout _ | tooLarge _ _ _ => True
  | unknownState _ | invocation _ _ _ | cancelled | unresolved _ _ | merge _ _ => False

/-- What interrupts a task comes no later, and a cancellation is not moved at all. -/
structure Interruption.Before (sooner later : Interruption) : Prop where
  horizon : sooner.horizon ≤ later.horizon
  cancelled : sooner.departure = .failed .cancelled → later = sooner

namespace Limits

variable {narrow wide : Limits}

/-- The time of a machine comes before that of the limits on both sides. -/
theorem Within.ofMachine (h : narrow.Within wide) (machine : Machine) :
    Within { narrow with executionTimeout := machine.timeout? narrow }
      { wide with executionTimeout := machine.timeout? wide } where
  maxSteps := h.maxSteps
  taskTimeout := h.taskTimeout
  maxContextBytes := h.maxContextBytes
  executionTimeout := by
    intro later hlater
    simp only [Machine.timeout?] at hlater ⊢
    cases hseconds : machine.timeoutSeconds with
    | some seconds =>
        rw [hseconds] at hlater
        cases hlater
        exact ⟨_, rfl, Nat.le_refl _⟩
    | none =>
        rw [hseconds] at hlater
        exact h.executionTimeout later hlater

theorem Within.timeout (h : narrow.Within wide) (task : TaskState) :
    task.timeout narrow ≤ task.timeout wide := by
  rw [TaskState.timeout, TaskState.timeout]
  cases task.timeoutSeconds with
  | none => exact h.taskTimeout
  | some seconds => exact Nat.le_refl _

end Limits

section

variable {registry : Registry σ} {narrow wide : Limits} {cancellation : Option Cancellation}
  {step now : Nat} {name : String} {task : TaskState}

/-! ## Interruptions -/

namespace Setting

theorem moment_expiry_le (h : narrow.Within wide) :
    (expiry ⟨registry, narrow, cancellation⟩ name task now).moment ≤
      (expiry ⟨registry, wide, cancellation⟩ name task now).moment := by
  have htimeout : now + Clock.lasting (task.timeout narrow) ≤
      now + Clock.lasting (task.timeout wide) :=
    Nat.add_le_add_left (Clock.lasting_mono (h.timeout task)) now
  cases hwide : wide.executionTimeout with
  | none =>
      have hlater : (expiry ⟨registry, wide, cancellation⟩ name task now).moment =
          now + Clock.lasting (task.timeout wide) := moment_expiry_of_none hwide
      rw [hlater]
      exact Nat.le_trans moment_expiry_le_timeout htimeout
  | some later =>
      obtain ⟨sooner, hnarrow, hle⟩ := h.executionTimeout later hwide
      have hlater : (expiry ⟨registry, wide, cancellation⟩ name task now).moment =
          min (Clock.lasting later) (now + Clock.lasting (task.timeout wide)) :=
        moment_expiry_of_some hwide
      rw [hlater]
      calc (expiry ⟨registry, narrow, cancellation⟩ name task now).moment
          = min (Clock.lasting sooner) (now + Clock.lasting (task.timeout narrow)) :=
            moment_expiry_of_some hnarrow
        _ ≤ min (Clock.lasting later) (now + Clock.lasting (task.timeout wide)) :=
            Nat.le_min.mpr ⟨Nat.le_trans (Nat.min_le_left _ _) (Clock.lasting_mono hle),
              Nat.le_trans (Nat.min_le_right _ _) htimeout⟩

/-- A cancellation that comes first comes first also where the limits come later. -/
theorem before_orCancellation {sooner later : Interruption}
    (hmoment : sooner.moment ≤ later.moment) (hsooner : sooner.horizon = sooner.moment)
    (hlater : later.horizon = later.moment) (hne : sooner.departure ≠ .failed .cancelled) :
    (orCancellation ⟨registry, narrow, cancellation⟩ step sooner).Before
      (orCancellation ⟨registry, wide, cancellation⟩ step later) := by
  -- Without the cancellation the horizons are the moments themselves.
  have hbefore : sooner.Before later := by
    constructor
    · omega
    · exact fun hcancelled => (hne hcancelled).elim
  cases cancellation with
  | none => exact hbefore
  | some cancellation =>
      obtain ⟨moment, entered⟩ := cancellation
      simp only [orCancellation]
      by_cases hentered : entered < step
      · rw [if_pos hentered, if_pos hentered]
        by_cases hcancelled : moment ≤ sooner.moment
        · rw [if_pos hcancelled, if_pos (Nat.le_trans hcancelled hmoment)]
          exact ⟨Nat.le_refl _, fun _ => rfl⟩
        · rw [if_neg hcancelled]
          refine ⟨?_, fun hcancelled => (hne hcancelled).elim⟩
          split
          · simp only
            omega
          · exact hbefore.horizon
      · rw [if_neg hentered, if_neg hentered]
        by_cases hcancelled : moment < sooner.moment
        · rw [if_pos hcancelled, if_pos (Nat.lt_of_lt_of_le hcancelled hmoment)]
          exact ⟨Nat.le_refl _, fun _ => rfl⟩
        · rw [if_neg hcancelled]
          refine ⟨?_, fun hcancelled => (hne hcancelled).elim⟩
          split
          · simp only
            omega
          · exact hbefore.horizon

theorem before_interruption (h : narrow.Within wide) :
    (interruption ⟨registry, narrow, cancellation⟩ step name task now).Before
      (interruption ⟨registry, wide, cancellation⟩ step name task now) :=
  before_orCancellation (moment_expiry_le h) horizon_expiry horizon_expiry departure_expiry_ne

theorem interruption_of_cancelled (h : narrow.Within wide) {moment horizon : Nat}
    (hcancelled : interruption ⟨registry, narrow, cancellation⟩ step name task now =
      ⟨moment, horizon, .failed .cancelled⟩) :
    interruption ⟨registry, wide, cancellation⟩ step name task now =
      ⟨moment, horizon, .failed .cancelled⟩ :=
  ((before_interruption h).cancelled (by rw [hcancelled])).trans hcancelled

end Setting

/-! ## One state -/

variable {context wider written : Context}

namespace Context.Within

theorem input_eq (h : context.Within wider) : task.input wider = task.input context := by
  simp only [TaskState.input, Context.select, h.document]

/-- What fits in fits also within a wider bound. -/
theorem merge (h : context.Within wider) {path : Option Path} {value : Json}
    (hmerge : context.merge path value = .ok written) :
    ∃ wrote, wider.merge path value = .ok wrote ∧ written.Within wrote := by
  cases path with
  | none =>
      cases hmerge
      exact ⟨wider, rfl, h⟩
  | some path =>
      rw [Context.merge] at hmerge ⊢
      rw [← h.document]
      cases hset : path.set value context.document with
      | error cause =>
          rw [hset] at hmerge
          cases hmerge
      | ok updated =>
          simp only [hset] at hmerge ⊢
          by_cases hsize : context.maxBytes < updated.size
          · rw [if_pos hsize] at hmerge
            cases hmerge
          · rw [if_neg hsize] at hmerge
            cases hmerge
            have hwider : ¬ wider.maxBytes < updated.size := by
              have hle := h.maxBytes
              omega
            rw [if_neg hwider]
            exact ⟨_, rfl, rfl, h.maxBytes⟩

/-- What has no place has none within a wider bound either. -/
theorem refuse (h : context.Within wider) {path : Option Path} {value : Json} {cause : MergeError}
    (hmerge : context.merge path value = .error cause)
    (hlimit : ¬ (ExecutionError.ofMerge name cause).IsLimit) :
    wider.merge path value = .error cause := by
  cases path with
  | none => cases hmerge
  | some path =>
      rw [Context.merge] at hmerge ⊢
      rw [← h.document]
      cases hset : path.set value context.document with
      | error other =>
          rw [hset] at hmerge
          exact hmerge
      | ok updated =>
          simp only [hset] at hmerge
          split at hmerge
          · cases hmerge
            exact (hlimit trivial).elim
          · cases hmerge

end Context.Within

variable {world after : σ} {state : State} {visit : Visit}

/-- An invocation that comes to its end within tighter limits comes to it within wider ones. -/
theorem TaskState.invocation_of_ending (h : narrow.Within wide) {input : Json}
    {invocation : Invocation σ} {ending : Nat × Outcome}
    (hinvocation : task.invocation ⟨registry, narrow, cancellation⟩ step now name input world =
      invocation)
    (hending : invocation.ending = some ending) :
    task.invocation ⟨registry, wide, cancellation⟩ step now name input world = invocation := by
  subst hinvocation
  apply Registry.invoke_eq_of_ending hending
  intro moment hpassed
  rw [Clock.Horizon.passed_some_iff] at hpassed ⊢
  exact Nat.lt_of_le_of_lt (Setting.before_interruption h).horizon hpassed

/-- A visit that no limit ended goes the same way within wider limits. -/
theorem Stay.widen (hlimits : narrow.Within wide) (hcontext : context.Within wider)
    (stay : Stay ⟨registry, narrow, cancellation⟩ step now name context world state visit written
      after)
    (hlimit : ∀ e, visit.departure.error? = some e → ¬ e.IsLimit) :
    ∃ wrote, Stay ⟨registry, wide, cancellation⟩ step now name wider world state visit wrote
      after ∧ written.Within wrote := by
  cases stay with
  | chosen choice =>
      have hvisit : Visit.ofChoice step name choice now context =
          Visit.ofChoice step name choice now wider := by
        rw [Visit.ofChoice, Visit.ofChoice, hcontext.document]
      rw [hvisit]
      exact ⟨wider, Stay.chosen choice, hcontext⟩
  | passed hmerge =>
      obtain ⟨wrote, hwrote, hwithin⟩ := hcontext.merge hmerge
      rw [hcontext.document] at hwrote
      exact ⟨wrote, Stay.passed hwrote, hwithin⟩
  | refused hmerge =>
      have hrefuse := hcontext.refuse hmerge (hlimit _ rfl)
      rw [hcontext.document] at hrefuse
      exact ⟨wider, Stay.refused hrefuse, hcontext⟩
  | unresolved hinput =>
      rw [← hcontext.input_eq] at hinput
      exact ⟨wider, Stay.unresolved hinput, hcontext⟩
  | @interrupted task input invocation _ _ _ hinput hinvocation hinterruption hending =>
      rw [← hcontext.input_eq] at hinput
      -- Of what interrupts a task, only a cancellation is no limit, and that one stays in place.
      cases interrupts_interruption hinterruption with
      | timeLimit | deadline => exact (hlimit _ rfl trivial).elim
      | cancelled =>
          have hwide := Setting.interruption_of_cancelled hlimits hinterruption
          rw [TaskState.invocation, hinterruption] at hinvocation
          have hsame : task.invocation ⟨registry, wide, cancellation⟩ step now name input world =
              invocation := by
            rw [TaskState.invocation, hwide]
            exact hinvocation
          exact ⟨wider, Stay.interrupted hinput hsame hwide hending, hcontext⟩
  | failed hinput hinvocation hending =>
      have hsame := TaskState.invocation_of_ending hlimits hinvocation hending
      rw [← hcontext.input_eq] at hinput
      exact ⟨wider, Stay.failed hinput hsame hending, hcontext⟩
  | done hinput hinvocation hending hmerge =>
      have hsame := TaskState.invocation_of_ending hlimits hinvocation hending
      obtain ⟨wrote, hwrote, hwithin⟩ := hcontext.merge hmerge
      rw [← hcontext.input_eq] at hinput
      exact ⟨wrote, Stay.done hinput hsame hending hwrote, hwithin⟩
  | unmerged hinput hinvocation hending hmerge =>
      have hsame := TaskState.invocation_of_ending hlimits hinvocation hending
      have hrefuse := hcontext.refuse hmerge (hlimit _ rfl)
      rw [← hcontext.input_eq] at hinput
      exact ⟨wider, Stay.unmerged hinput hsame hending hrefuse, hcontext⟩

/-! ## The whole run -/

namespace Execution

/-- Both executions went the same way and came to the same end. -/
structure Agrees (execution other : Execution σ) : Prop where
  visits : other.visits = execution.visits
  state : other.state = execution.state
  error : other.error = execution.error
  document : other.context.document = execution.context.document
  time : other.time = execution.time
  world : other.world = execution.world

/-- The other execution goes along with this one as far as it comes, and agrees with it if no limit
ended it. -/
structure Extends (execution other : Execution σ) : Prop where
  completed : execution.completed <+: other.completed
  agrees : (∀ e, execution.error = some e → ¬ e.IsLimit) → execution.Agrees other

variable {machine : Machine} {execution other : Execution σ} {entered time : Nat}

theorem Extends.prepend (h : execution.Extends other)
    (hsucceeded : visit.departure.succeeded = true) :
    (execution.prepend visit).Extends (other.prepend visit) where
  completed := by
    rw [completed_prepend hsucceeded, completed_prepend hsucceeded]
    exact List.cons_prefix_cons.mpr ⟨rfl, h.completed⟩
  agrees := by
    intro hlimit
    have hagrees := h.agrees hlimit
    exact { hagrees with visits := congrArg (visit :: ·) hagrees.visits }

/-- An end with the same visits and the same document. -/
theorem extends_stopped (visits : List Visit) (error : Option ExecutionError)
    (hdocument : written.document = context.document) :
    (stopped visits name error written time world).Extends
      (stopped visits name error context time world) where
  completed := List.prefix_refl _
  agrees := fun _ => ⟨rfl, rfl, rfl, hdocument.symm, rfl, rfl⟩

/-- What a limit ended has come no further than any other execution. -/
theorem extends_of_limit {e : ExecutionError} (hcompleted : execution.completed = [])
    (herror : execution.error = some e) (hlimit : e.IsLimit) : execution.Extends other where
  completed := by
    rw [hcompleted]
    exact List.nil_prefix
  agrees := fun hnone => (hnone e herror hlimit).elim

/-- Within wider limits, with as many steps left, an execution goes on at least as far. -/
theorem extends_of_course (hlimits : narrow.Within wide) {spare room : Nat}
    (course : Course machine ⟨registry, narrow, cancellation⟩ spare entered now name context world
      execution)
    (hspare : spare ≤ room) (hcontext : context.Within wider) :
    ∃ other, Course machine ⟨registry, wide, cancellation⟩ room entered now name wider world other ∧
      execution.Extends other := by
  -- The wider course is built beside the tighter one, state by state, as long as no limit is met.
  induction course generalizing room wider with
  | cancelled hcancelled =>
      exact ⟨_, Course.cancelled hcancelled, extends_stopped _ _ hcontext.document⟩
  | stepLimit =>
      exact ⟨_, course_walk _ _ _ _ _ _ _ _, extends_of_limit rfl rfl trivial⟩
  | unknown hrunning hfind =>
      obtain ⟨room, rfl⟩ := Nat.exists_eq_succ_of_ne_zero (Nat.ne_zero_of_lt hspare)
      exact ⟨_, Course.unknown hrunning hfind, extends_stopped _ _ hcontext.document⟩
  | onward hrunning hfind stay hdeparture _ ih =>
      obtain ⟨room, rfl⟩ := Nat.exists_eq_succ_of_ne_zero (Nat.ne_zero_of_lt hspare)
      obtain ⟨wrote, hstay, hwithin⟩ := stay.widen hlimits hcontext (by simp [hdeparture,
        Departure.error?])
      obtain ⟨other, hcourse, hextends⟩ := ih (Nat.le_of_succ_le_succ hspare) hwithin
      exact ⟨_, Course.onward hrunning hfind hstay hdeparture hcourse,
        hextends.prepend (congrArg Departure.succeeded hdeparture)⟩
  | finished hrunning hfind stay hdeparture =>
      obtain ⟨room, rfl⟩ := Nat.exists_eq_succ_of_ne_zero (Nat.ne_zero_of_lt hspare)
      obtain ⟨wrote, hstay, hwithin⟩ := stay.widen hlimits hcontext (by simp [hdeparture,
        Departure.error?])
      exact ⟨_, Course.finished hrunning hfind hstay hdeparture,
        extends_stopped _ _ hwithin.document⟩
  | @failed _ _ _ _ _ _ _ _ _ _ e hrunning hfind stay hdeparture =>
      by_cases hlimit : e.IsLimit
      · -- The wider course may go on from here as it likes: this state was not completed.
        have hfailed := congrArg Departure.succeeded hdeparture
        exact ⟨_, course_walk _ _ _ _ _ _ _ _,
          extends_of_limit (completed_failed hfailed) rfl hlimit⟩
      · obtain ⟨room, rfl⟩ := Nat.exists_eq_succ_of_ne_zero (Nat.ne_zero_of_lt hspare)
        obtain ⟨wrote, hstay, hwithin⟩ := stay.widen hlimits hcontext (by simpa [hdeparture,
          Departure.error?] using hlimit)
        exact ⟨_, Course.failed hrunning hfind hstay hdeparture,
          extends_stopped _ _ hwithin.document⟩
  | cut _ _ _ hdeparture =>
      have hfailed := congrArg Departure.succeeded hdeparture
      exact ⟨_, course_walk _ _ _ _ _ _ _ _,
        extends_of_limit (completed_failed hfailed) rfl trivial⟩

/-- Wider limits do not steer an execution. What was completed within tighter ones is completed
within wider ones first, and an execution that no limit ended is the same within wider ones. -/
theorem execute_of_within {limits wide : Limits} (hwithin : limits.Within wide)
    (machine : Machine) (registry : Registry σ) (cancellation : Option Cancellation) (input : Json)
    (world : σ) :
    let execution := execute machine ⟨registry, limits, cancellation⟩ input world
    let other := execute machine ⟨registry, wide, cancellation⟩ input world
    execution.history.filter Entry.succeeded <+: other.history.filter Entry.succeeded ∧
      ((∀ e, execution.error = some e → ¬ e.IsLimit) →
        other.succeeded = execution.succeeded ∧ other.state = execution.state ∧
        other.context.document = execution.context.document ∧ other.error = execution.error ∧
        other.steps = execution.steps ∧ other.history = execution.history ∧
        other.calls = execution.calls ∧ other.time = execution.time) := by
  have hcontext : Context.Within ⟨input, limits.maxContextBytes⟩ ⟨input, wide.maxContextBytes⟩ :=
    ⟨rfl, hwithin.maxContextBytes⟩
  obtain ⟨other, hcourse, hextends⟩ := extends_of_course (hwithin.ofMachine machine)
    (course_execute machine ⟨registry, limits, cancellation⟩ input world) hwithin.maxSteps hcontext
  obtain rfl : execute machine ⟨registry, wide, cancellation⟩ input world = other :=
    walk_of_course hcourse
  constructor
  · rw [filter_history, filter_history]
    exact hextends.completed.map _
  · intro hlimit
    obtain ⟨hvisits, hstate, herror, hdocument, htime, -⟩ := hextends.agrees hlimit
    refine ⟨?_, hstate, hdocument, herror, ?_, ?_, ?_, htime⟩
    · rw [succeeded, herror, succeeded]
    · rw [steps, hvisits, steps]
    · rw [history, hvisits, history]
    · rw [calls, hvisits, calls]

/-- Limits that an execution just keeps do not show in it. -/
theorem execute_of_within_twoStates :
    let limits : Limits := ⟨2, 5, some 5, 4⟩
    let wide : Limits := ⟨10, 1000, none, 1000⟩
    limits.Within wide ∧
      (execute twoStatesMachine ⟨lateRegistry 5, limits, none⟩ .null ()).error = none ∧
      (execute twoStatesMachine ⟨lateRegistry 5, wide, none⟩ .null ()).succeeded = true ∧
      (execute twoStatesMachine ⟨lateRegistry 5, wide, none⟩ .null ()).history =
        [⟨"A", .pass, true⟩, ⟨"B", .task, true⟩] := by
  intro limits wide
  have hwithin : limits.Within wide := ⟨by decide, by decide, by simp [wide], by decide⟩
  have herror :
      (execute twoStatesMachine ⟨lateRegistry 5, limits, none⟩ .null ()).error = none := by
    decide +kernel
  obtain ⟨-, hagrees⟩ :=
    execute_of_within hwithin twoStatesMachine (lateRegistry 5) none .null ()
  obtain ⟨hsucceeded, -, -, -, -, hhistory, -⟩ := hagrees (by simp [herror])
  refine ⟨hwithin, herror, ?_, ?_⟩
  · rw [hsucceeded, succeeded, herror]
    rfl
  · rw [hhistory]
    decide +kernel

end Execution

end

end StateFlow
