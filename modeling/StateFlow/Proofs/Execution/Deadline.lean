import StateFlow.Proofs.Execution.Calls
import StateFlow.Proofs.Execution.Time
import StateFlow.Proofs.Machine.Compile

/-!
# Deadlines

An execution with a deadline goes as it would go without one until the deadline has come. If it has
not ended by then, it is cut in the task that is under way, and what that task would have done is
lost. In the same way a task goes as it would go with all the time in the world until its own time
is over.
-/

namespace StateFlow

variable {σ : Type}

/-- The limits without a deadline. -/
def Limits.withoutDeadline (limits : Limits) : Limits :=
  { limits with executionTimeout := none }

/-- The limits with this deadline. -/
def Limits.withDeadline (limits : Limits) (limit : Nat) : Limits :=
  { limits with executionTimeout := some limit }

/-- The machine without a deadline of its own. -/
def Machine.withoutDeadline (machine : Machine) : Machine :=
  { machine with timeoutSeconds := none }

theorem Limits.allows_withoutDeadline (limits : Limits) {now : Nat} :
    limits.withoutDeadline.Allows now := by
  intro limit hlimit
  cases hlimit

variable {registry : Registry σ} {limits : Limits} {limit step now left : Nat} {name : String}
  {context written : Context} {world after : σ} {state : State} {visit : Visit} {task : TaskState}
  {input : Json} {outcome : Outcome}

/-! ## One state -/

namespace Setting

theorem interruption_withoutDeadline :
    interruption ⟨registry, limits.withoutDeadline, none⟩ step name task now =
      ⟨now + Clock.lasting (task.timeout limits), now + Clock.lasting (task.timeout limits),
        .failed (.taskTimeout name (Clock.reported (task.timeout limits)))⟩ := by
  rw [interruption_of_uncancelled rfl]
  apply expiry_of_le
  intro limit hlimit
  cases hlimit

theorem interruption_withDeadline_of_le
    (hle : now + Clock.lasting (task.timeout limits) ≤ Clock.lasting limit) :
    interruption ⟨registry, limits.withDeadline limit, none⟩ step name task now =
      interruption ⟨registry, limits.withoutDeadline, none⟩ step name task now := by
  rw [interruption_withoutDeadline, interruption_of_uncancelled rfl]
  apply expiry_of_le
  intro other hother
  cases hother
  exact hle

theorem interruption_withDeadline_of_lt
    (hlt : Clock.lasting limit < now + Clock.lasting (task.timeout limits)) :
    interruption ⟨registry, limits.withDeadline limit, none⟩ step name task now =
      ⟨Clock.lasting limit, Clock.lasting limit, .cut (Clock.reported limit)⟩ := by
  rw [interruption_of_uncancelled rfl]
  exact expiry_of_lt rfl hlt

end Setting

namespace Visit

theorem ofTask_unresolved {setting : Setting σ} {path : Path}
    (hinput : task.input context = .error path) :
    ofTask setting step name task now context world =
      (task.visit step now name now [] (.failed (.unresolved name path)), context, world) := by
  rw [ofTask, hinput]
  rfl

/-- Without a deadline a task is left with its answer, or when its own time is over. -/
theorem left_ofTask_withoutDeadline (hinput : task.input context = .ok input)
    (hanswers : registry.Answers task.resource input now world left outcome) :
    (ofTask ⟨registry, limits.withoutDeadline, none⟩ step name task now context world).1.left =
      min left (now + Clock.lasting (task.timeout limits)) := by
  have hinterruption :
      Setting.interruption ⟨registry, limits.withoutDeadline, none⟩ step name task now = _ :=
    Setting.interruption_withoutDeadline
  rcases Nat.lt_or_ge (now + Clock.lasting (task.timeout limits)) left with hlate | hintime
  · rw [TaskState.ofTask_interrupted hinput hanswers hinterruption (Nat.le_add_right _ _) hlate,
      Nat.min_eq_right (Nat.le_of_lt hlate)]
    rfl
  · rw [TaskState.ofTask_answered hinput hanswers (by rw [hinterruption]; exact hintime),
      Nat.min_eq_left hintime]
    rfl

/-- A deadline behind the time of a task does not change it. -/
theorem ofTask_withDeadline_of_le
    (hle : now + Clock.lasting (task.timeout limits) ≤ Clock.lasting limit) :
    ofTask ⟨registry, limits.withDeadline limit, none⟩ step name task now context world =
      ofTask ⟨registry, limits.withoutDeadline, none⟩ step name task now context world := by
  have hsame :
      Setting.interruption ⟨registry, limits.withDeadline limit, none⟩ step name task now = _ :=
    Setting.interruption_withDeadline_of_le hle
  rw [ofTask, ofTask, hsame]

/-- Nor does a deadline behind its answer. -/
theorem ofTask_withDeadline_of_answered (hinput : task.input context = .ok input)
    (hanswers : registry.Answers task.resource input now world left outcome)
    (hlt : Clock.lasting limit < now + Clock.lasting (task.timeout limits))
    (hintime : left ≤ Clock.lasting limit) :
    ofTask ⟨registry, limits.withDeadline limit, none⟩ step name task now context world =
      ofTask ⟨registry, limits.withoutDeadline, none⟩ step name task now context world := by
  have hbound :
      Setting.interruption ⟨registry, limits.withDeadline limit, none⟩ step name task now = _ :=
    Setting.interruption_withDeadline_of_lt hlt
  have hfree :
      Setting.interruption ⟨registry, limits.withoutDeadline, none⟩ step name task now = _ :=
    Setting.interruption_withoutDeadline
  have hfreely : left ≤ now + Clock.lasting (task.timeout limits) :=
    Nat.le_trans hintime (Nat.le_of_lt hlt)
  -- The answer comes before either horizon, so it does not matter which one it is.
  rw [TaskState.ofTask_answered hinput hanswers (by rw [hbound]; exact hintime),
    TaskState.ofTask_answered hinput hanswers (by rw [hfree]; exact hfreely)]

/-- With a deadline a task goes as it would without one, or is cut at the deadline. -/
theorem ofTask_withDeadline (hinput : task.input context = .ok input)
    (hnow : now ≤ Clock.lasting limit) :
    let free := ofTask ⟨registry, limits.withoutDeadline, none⟩ step name task now context world
    let bound := ofTask ⟨registry, limits.withDeadline limit, none⟩ step name task now context world
    (free.1.left ≤ Clock.lasting limit → bound = free) ∧
      (Clock.lasting limit < free.1.left → ∃ calls after, bound =
        (task.visit step now name (Clock.lasting limit) calls (.cut (Clock.reported limit)),
          context, after)) := by
  intro free bound
  obtain ⟨left, outcome, hanswers⟩ := registry.exists_answers task.resource input now world
  have hleft : free.1.left = min left (now + Clock.lasting (task.timeout limits)) :=
    left_ofTask_withoutDeadline hinput hanswers
  rcases Nat.lt_or_ge (Clock.lasting limit) (now + Clock.lasting (task.timeout limits))
    with hlt | hle
  · have hcut :
        Setting.interruption ⟨registry, limits.withDeadline limit, none⟩ step name task now = _ :=
      Setting.interruption_withDeadline_of_lt hlt
    rcases Nat.lt_or_ge (Clock.lasting limit) left with hlate | hintime
    · constructor
      · intro hearly
        omega
      · intro _
        exact ⟨_, _, TaskState.ofTask_interrupted hinput hanswers hcut hnow hlate⟩
    · constructor
      · intro _
        exact ofTask_withDeadline_of_answered hinput hanswers hlt hintime
      · intro hlate
        omega
  · constructor
    · intro _
      exact ofTask_withDeadline_of_le hle
    · intro hlate
      omega

/-- With a deadline a state goes as it would without one, unless it is a task that is cut. -/
theorem ofState_withDeadline (hnow : now ≤ Clock.lasting limit) :
    let free := ofState ⟨registry, limits.withoutDeadline, none⟩ step name state now context world
    let bound := ofState ⟨registry, limits.withDeadline limit, none⟩ step name state now context
      world
    (free.1.left ≤ Clock.lasting limit → bound = free) ∧
      (Clock.lasting limit < free.1.left → ∃ task calls rest, state = .task task ∧ bound =
        (task.visit step now name (Clock.lasting limit) calls (.cut (Clock.reported limit)),
          context, rest)) := by
  intro free bound
  cases state with
  | choice | pass =>
      constructor
      · intro _
        rfl
      · intro hlate
        exact (Nat.not_le.mpr hlate hnow).elim
  | task task =>
      cases hinput : task.input context with
      | error path =>
          have hfree : free = _ := ofTask_unresolved hinput
          have hbound : bound = _ := ofTask_unresolved hinput
          constructor
          · intro _
            rw [hfree, hbound]
          · intro hlate
            rw [hfree] at hlate
            exact (Nat.not_le.mpr hlate hnow).elim
      | ok input =>
          constructor
          · exact (ofTask_withDeadline hinput hnow).1
          · intro hlate
            obtain ⟨calls, rest, hcut⟩ := (ofTask_withDeadline hinput hnow).2 hlate
            exact ⟨task, calls, rest, rfl, hcut⟩

end Visit

namespace Stay

/-- What is due by the deadline happens as it would without it. -/
theorem withDeadline (hnow : now ≤ Clock.lasting limit)
    (stay : Stay ⟨registry, limits.withoutDeadline, none⟩ step now name context world state visit
      written after)
    (hleft : visit.left ≤ Clock.lasting limit) :
    Stay ⟨registry, limits.withDeadline limit, none⟩ step now name context world state visit
      written after := by
  have hfree := ofState_of_stay stay
  have hbound := stay_ofState ⟨registry, limits.withDeadline limit, none⟩ step now name context
    world state
  rw [(Visit.ofState_withDeadline hnow).1 (by rw [hfree]; exact hleft), hfree] at hbound
  exact hbound

/-- A state that would be left behind the deadline is a task, and is cut at the deadline. -/
theorem cut (hnow : now ≤ Clock.lasting limit)
    (stay : Stay ⟨registry, limits.withoutDeadline, none⟩ step now name context world state visit
      written after)
    (hlate : Clock.lasting limit < visit.left) :
    ∃ task calls rest, state = .task task ∧
      Stay ⟨registry, limits.withDeadline limit, none⟩ step now name context world (.task task)
        (task.visit step now name (Clock.lasting limit) calls (.cut (Clock.reported limit)))
        context rest := by
  have hfree := ofState_of_stay stay
  have hbound := stay_ofState ⟨registry, limits.withDeadline limit, none⟩ step now name context
    world state
  obtain ⟨task, calls, rest, rfl, hcut⟩ :=
    (Visit.ofState_withDeadline hnow).2 (by rw [hfree]; exact hlate)
  rw [hcut] at hbound
  exact ⟨task, calls, rest, rfl, hbound⟩

end Stay

/-! ## The whole run -/

namespace Execution

variable {machine : Machine} {execution : Execution σ} {spare entered : Nat}

/-- An execution that is over by the deadline goes as it would go without one. -/
theorem course_withDeadline
    (course : Course machine ⟨registry, limits.withoutDeadline, none⟩ spare entered now name context
      world execution)
    (hnow : now ≤ Clock.lasting limit) (htime : execution.time ≤ Clock.lasting limit) :
    Course machine ⟨registry, limits.withDeadline limit, none⟩ spare entered now name context world
      execution := by
  induction course with
  | cancelled hcancelled => cases hcancelled
  | stepLimit hrunning => exact Course.stepLimit hrunning
  | unknown hrunning hfind => exact Course.unknown hrunning hfind
  | onward hrunning hfind stay hdeparture rest ih =>
      -- What follows ends in time and does not end before this state is left.
      have hleft := Nat.le_trans (le_time_of_course rest limits.allows_withoutDeadline) htime
      exact Course.onward hrunning hfind (stay.withDeadline hnow hleft) hdeparture (ih hleft htime)
  | finished hrunning hfind stay hdeparture =>
      exact Course.finished hrunning hfind (stay.withDeadline hnow htime) hdeparture
  | failed hrunning hfind stay hdeparture =>
      exact Course.failed hrunning hfind (stay.withDeadline hnow htime) hdeparture
  | cut hrunning hfind stay hdeparture =>
      exact Course.cut hrunning hfind (stay.withDeadline hnow htime) hdeparture

/-- The execution goes like the free one until the deadline, and is cut then in the task that is in
flight in the free one. -/
inductive CutShort (machine : Machine) (limit : Nat) (free execution : Execution σ) : Prop
  | intro {front : List Visit} {visit last : Visit} {task : TaskState}
      (hflight : free.InFlight (Clock.lasting limit) front visit)
      (hfind : machine.states.find? visit.state = some (.task task))
      (hvisits : execution.visits = front ++ [last])
      (hstate : last.state = visit.state)
      (hleft : last.left = Clock.lasting limit)
      (hdeparture : last.departure = .cut (Clock.reported limit))

variable {free : Execution σ} {other : Visit}

theorem CutShort.prepend (h : CutShort machine limit free execution)
    (hearly : other.left ≤ Clock.lasting limit) :
    CutShort machine limit (free.prepend other) (execution.prepend other) := by
  obtain ⟨hflight, hfind, hvisits, hstate, hleft, hdeparture⟩ := h
  exact intro (hflight.prepend hearly) hfind (congrArg (other :: ·) hvisits) hstate hleft hdeparture

/-- A state that would be left behind the deadline is the last one with it. -/
theorem CutShort.of_stay {back : List Visit} (hvisits : free.visits = visit :: back)
    (hback : ∀ other ∈ back, visit.left ≤ other.entered)
    (hfind : machine.states.find? name = some state)
    (stay : Stay ⟨registry, limits.withoutDeadline, none⟩ (entered + 1) now name context world state
      visit written after)
    (hnow : now ≤ Clock.lasting limit) (hlate : Clock.lasting limit < visit.left) :
    ∃ execution, Course machine ⟨registry, limits.withDeadline limit, none⟩ (spare + 1) entered now
      name context world execution ∧ CutShort machine limit free execution := by
  obtain ⟨task, calls, rest, rfl, hcut⟩ := stay.cut hnow hlate
  have hentered : visit.entered ≤ Clock.lasting limit := by
    rw [stay.entered_eq]
    exact hnow
  have hflight := InFlight.of_first hvisits hback hentered hlate
  have hvisit : machine.states.find? visit.state = some (.task task) := by
    rw [stay.state_eq]
    exact hfind
  exact ⟨_, Course.cut rfl hfind hcut rfl, intro hflight hvisit rfl stay.state_eq.symm rfl rfl⟩

/-- An execution that would go on behind the deadline is cut at it. -/
theorem cutShort_of_course
    (course : Course machine ⟨registry, limits.withoutDeadline, none⟩ spare entered now name context
      world free)
    (hnow : now ≤ Clock.lasting limit) (htime : Clock.lasting limit < free.time) :
    ∃ execution, Course machine ⟨registry, limits.withDeadline limit, none⟩ spare entered now name
      context world execution ∧ CutShort machine limit free execution := by
  induction course with
  | cancelled hcancelled => cases hcancelled
  | stepLimit | unknown => exact (Nat.not_le.mpr htime hnow).elim
  | @onward _ _ _ _ _ _ _ visit _ _ _ _ hrunning hfind stay hdeparture rest ih =>
      rcases Nat.lt_or_ge (Clock.lasting limit) visit.left with hlate | hleft
      · have hrest := timely_of_course rest limits.allows_withoutDeadline
        exact CutShort.of_stay rfl (fun other hother => (hrest other hother).1) hfind stay hnow
          hlate
      · obtain ⟨execution, hcourse, hcut⟩ := ih hleft htime
        exact ⟨_, Course.onward hrunning hfind (stay.withDeadline hnow hleft) hdeparture hcourse,
          hcut.prepend hleft⟩
  | finished _ hfind stay | failed _ hfind stay | cut _ hfind stay =>
      exact CutShort.of_stay rfl (by simp) hfind stay hnow htime

/-- What is left of an execution that the deadline cut is what was completed by then. -/
theorem CutShort.ends (h : CutShort machine limit free execution)
    (course : Course machine ⟨registry, limits, none⟩ spare entered now name context world
      execution) :
    ∃ front visit task, free.InFlight (Clock.lasting limit) front visit ∧
      machine.states.find? visit.state = some (.task task) ∧
      execution.error = some (.executionTimeout (Clock.reported limit)) ∧
      execution.time = Clock.lasting limit ∧ execution.state = visit.state ∧
      execution.history = front.map (fun other => ⟨other.state, other.kind, true⟩) ∧
      front.foldlM machine.effect? context.document = some execution.context.document := by
  obtain @⟨front, visit, last, task, hflight, hfind, hvisits, hstate, hleft, hdeparture⟩ := h
  obtain ⟨hfront, -, -, -, -, -⟩ := enters_of_course course hvisits
  obtain ⟨-, herror, hfinal, htime⟩ := ends_of_course course hvisits
    (congrArg Departure.error? hdeparture)
  refine ⟨front, visit, task, hflight, hfind, herror, htime.trans hleft, hfinal.trans hstate,
    ?_, ?_⟩
  · rw [history, hvisits, List.filterMap_append, history_of_succeeded hfront]
    simp [Visit.entry?, hdeparture]
  · rw [← completed_of_visits hvisits hfront (congrArg Departure.succeeded hdeparture)]
    exact foldlM_completed course

end Execution

/-! ## The time of a task -/

/-- How a task goes that would have this answer at this moment if nothing interrupted it. -/
inductive TaskState.Timed (task : TaskState) (limits : Limits) (context : Context) (visit : Visit)
    (left : Nat) (outcome : Outcome) : Prop
  | answered (hintime : left ≤ visit.entered + Clock.lasting (task.timeout limits))
      (hdeadline : ∀ limit, limits.executionTimeout = some limit → left ≤ Clock.lasting limit)
      (hleft : visit.left = left)
      (hdeparture : visit.departure = (task.depart visit.state context outcome).1) :
      Timed task limits context visit left outcome
  | timedOut (hlate : visit.entered + Clock.lasting (task.timeout limits) < left)
      (hdeadline : ∀ limit, limits.executionTimeout = some limit →
        visit.entered + Clock.lasting (task.timeout limits) ≤ Clock.lasting limit)
      (hleft : visit.left = visit.entered + Clock.lasting (task.timeout limits))
      (hdeparture : visit.departure =
        .failed (.taskTimeout visit.state (Clock.reported (task.timeout limits)))) :
      Timed task limits context visit left outcome
  /-- The deadline comes before the answer and before the time of the task is over. -/
  | cut {limit : Nat} (hlimit : limits.executionTimeout = some limit)
      (hlate : Clock.lasting limit < left)
      (hshort : Clock.lasting limit < visit.entered + Clock.lasting (task.timeout limits))
      (hleft : visit.left = Clock.lasting limit)
      (hdeparture : visit.departure = .cut (Clock.reported limit)) :
      Timed task limits context visit left outcome

theorem Stay.timed
    (stay : Stay ⟨registry, limits, none⟩ step now name context world (.task task) visit written
      after)
    (hnow : ∀ limit, limits.executionTimeout = some limit → now ≤ Clock.lasting limit)
    (hinput : task.input context = .ok input)
    (hanswers : registry.Answers task.resource input now world left outcome) :
    task.Timed limits context visit left outcome := by
  -- The deadline interrupts the task only if it comes strictly before the task's own time is over.
  by_cases hshort : ∃ limit, limits.executionTimeout = some limit ∧
      Clock.lasting limit < now + Clock.lasting (task.timeout limits)
  · obtain ⟨limit, hlimit, hlt⟩ := hshort
    have hinterruption : Setting.interruption ⟨registry, limits, none⟩ step name task now =
        ⟨Clock.lasting limit, Clock.lasting limit, .cut (Clock.reported limit)⟩ := by
      rw [Setting.interruption_of_uncancelled rfl]
      exact Setting.expiry_of_lt hlimit hlt
    rcases stay.answered_or_interrupted hinput hanswers hinterruption (hnow limit hlimit) with
      ⟨hintime, hleft, hdeparture⟩ | ⟨hlate, hleft, hdeparture⟩
    · rw [← stay.entered_eq] at hlt
      refine TaskState.Timed.answered (Nat.le_trans hintime (Nat.le_of_lt hlt)) ?_ hleft hdeparture
      intro other hother
      cases hlimit.symm.trans hother
      exact hintime
    · rw [← stay.entered_eq] at hlt
      exact TaskState.Timed.cut hlimit hlate hlt hleft hdeparture
  · have hlong : ∀ limit, limits.executionTimeout = some limit →
        now + Clock.lasting (task.timeout limits) ≤ Clock.lasting limit := fun limit hlimit =>
      Nat.le_of_not_lt fun hlt => hshort ⟨limit, hlimit, hlt⟩
    have hinterruption : Setting.interruption ⟨registry, limits, none⟩ step name task now =
        ⟨now + Clock.lasting (task.timeout limits), now + Clock.lasting (task.timeout limits),
          .failed (.taskTimeout name (Clock.reported (task.timeout limits)))⟩ := by
      rw [Setting.interruption_of_uncancelled rfl]
      exact Setting.expiry_of_le hlong
    have hreached := stay.answered_or_interrupted hinput hanswers hinterruption
      (Nat.le_add_right _ _)
    rw [← stay.entered_eq] at hlong hreached
    rw [← stay.state_eq] at hreached
    rcases hreached with ⟨hintime, hleft, hdeparture⟩ | ⟨hlate, hleft, hdeparture⟩
    · exact TaskState.Timed.answered hintime
        (fun limit hlimit => Nat.le_trans hintime (hlong limit hlimit)) hleft hdeparture
    · exact TaskState.Timed.timedOut hlate hlong hleft hdeparture

namespace Execution

variable {machine : Machine} {execution : Execution σ} {spare entered : Nat}

theorem walk_withoutDeadline (machine : Machine) (setting : Setting σ) (spare entered now : Nat)
    (name : String) (context : Context) (world : σ) :
    walk machine.withoutDeadline setting spare entered now name context world =
      walk machine setting spare entered now name context world := by
  induction spare generalizing entered now name context world with
  | zero => rfl
  | succ spare ih =>
      rw [walk, walk]
      simp only [ih]
      rfl

/-- Two tasks, each of them with time enough, under a deadline that is longer than any wait. -/
def twoWaits : Definition where
  startAt := "First"
  states := .ofList
    [("First", .task
        { resource := "fn:work", timeoutSeconds := some 534500000, next := some "Second" }),
      ("Second", .task
        { resource := "fn:work", timeoutSeconds := some 534500000, ends := some true })]
  timeoutSeconds := some 18446744073709551615

def twoWaitsMachine : Machine where
  comment := none
  startAt := "First"
  states := .ofList
    [("First", .task ⟨"fn:work", none, none, some .root, some 534500000, .next "Second"⟩),
      ("Second", .task ⟨"fn:work", none, none, some .root, some 534500000, .finish⟩)]
  timeoutSeconds := some 18446744073709551615

/-- What is due at the moment of the deadline still counts. -/
example : (execute twoWaitsMachine.withoutDeadline
    ⟨lateRegistry 5, ⟨10, 5, some 10, 1000⟩, none⟩ .null ()).error = none := by
  decide +kernel

theorem compile_twoWaits : Machine.compile twoWaits = .ok twoWaitsMachine := by
  have hlead : Machine.Leads twoWaitsMachine.states "First" "Second" :=
    ⟨_, rfl, List.mem_cons_self⟩
  refine Machine.compile_eq_ok ⟨by decide, by decide, by decide⟩ rfl rfl ?_
  exact Machine.firstUnreachable?_of_chain rfl (.cons_cons hlead (.singleton "Second"))

end Execution

end StateFlow
