import StateFlow.Proofs.Execution.Visit

/-!
# How an execution can go

`Course` lists the ways in which an execution can go on from a state: it ends without entering the
state, the state is entered and is the last one, or it leads on to another state. What holds of
executions is proved by induction on that list.
-/

namespace StateFlow

variable {σ : Type}

/-- The ways in which an execution can go on from a state. -/
inductive Course (machine : Machine) (setting : Setting σ) :
    (spare entered now : Nat) → String → Context → σ → Execution σ → Prop
  | cancelled {spare entered now name context world}
      (hcancelled : setting.isCancelled entered now = true) :
      Course machine setting spare entered now name context world
        (.stopped [] name (some .cancelled) context now world)
  | stepLimit {entered now name context world}
      (hrunning : setting.isCancelled entered now = false) :
      Course machine setting 0 entered now name context world
        (.stopped [] name (some (.stepLimit setting.limits.maxSteps)) context now world)
  /-- There is no state of this name. -/
  | unknown {spare entered now name context world}
      (hrunning : setting.isCancelled entered now = false)
      (hfind : machine.states.find? name = none) :
      Course machine setting (spare + 1) entered now name context world
        (.stopped [] name (some (.unknownState name)) context now world)
  | onward {spare entered now name context world state visit target written after execution}
      (hrunning : setting.isCancelled entered now = false)
      (hfind : machine.states.find? name = some state)
      (stay : Stay setting (entered + 1) now name context world state visit written after)
      (hdeparture : visit.departure = .next target)
      (rest : Course machine setting spare (entered + 1) visit.left target written after
        execution) :
      Course machine setting (spare + 1) entered now name context world (execution.prepend visit)
  | finished {spare entered now name context world state visit written after}
      (hrunning : setting.isCancelled entered now = false)
      (hfind : machine.states.find? name = some state)
      (stay : Stay setting (entered + 1) now name context world state visit written after)
      (hdeparture : visit.departure = .finish) :
      Course machine setting (spare + 1) entered now name context world
        (.stopped [visit] name none written visit.left after)
  | failed {spare entered now name context world state visit written after e}
      (hrunning : setting.isCancelled entered now = false)
      (hfind : machine.states.find? name = some state)
      (stay : Stay setting (entered + 1) now name context world state visit written after)
      (hdeparture : visit.departure = .failed e) :
      Course machine setting (spare + 1) entered now name context world
        (.stopped [visit] name (some e) written visit.left after)
  /-- The deadline comes while the state is entered. -/
  | cut {spare entered now name context world state visit written after limit}
      (hrunning : setting.isCancelled entered now = false)
      (hfind : machine.states.find? name = some state)
      (stay : Stay setting (entered + 1) now name context world state visit written after)
      (hdeparture : visit.departure = .cut limit) :
      Course machine setting (spare + 1) entered now name context world
        (.stopped [visit] name (some (.executionTimeout limit)) written visit.left after)

namespace Execution

theorem steps_prepend {visit : Visit} {execution : Execution σ} :
    (execution.prepend visit).steps = execution.steps + 1 :=
  rfl

/-- Every execution goes in one of the ways listed. -/
theorem course_walk (machine : Machine) (setting : Setting σ) (spare entered now : Nat)
    (name : String) (context : Context) (world : σ) :
    Course machine setting spare entered now name context world
      (walk machine setting spare entered now name context world) := by
  induction spare generalizing entered now name context world with
  | zero =>
      rw [walk]
      cases hcancelled : setting.isCancelled entered now with
      | true => exact Course.cancelled hcancelled
      | false => exact Course.stepLimit hcancelled
  | succ spare ih =>
      rw [walk]
      cases hcancelled : setting.isCancelled entered now with
      | true => exact Course.cancelled hcancelled
      | false =>
          cases hfind : machine.states.find? name with
          | none => exact Course.unknown hcancelled hfind
          | some state =>
              -- What the visit leaves behind matters only through the list of its ways.
              have stay := stay_ofState setting (entered + 1) now name context world state
              simp only [Bool.false_eq_true, if_false]
              generalize Visit.ofState setting (entered + 1) name state now context world = left
                at stay
              obtain ⟨visit, written, after⟩ := left
              cases hdeparture : visit.departure with
              | next target =>
                  exact Course.onward hcancelled hfind stay hdeparture (ih _ _ _ _ _)
              | finish =>
                  exact Course.finished hcancelled hfind stay hdeparture
              | failed e =>
                  exact Course.failed hcancelled hfind stay hdeparture
              | cut limit =>
                  exact Course.cut hcancelled hfind stay hdeparture

/-- The ways listed are ways in which executions do go. -/
theorem walk_of_course {machine : Machine} {setting : Setting σ} {spare entered now : Nat}
    {name : String} {context : Context} {world : σ} {execution : Execution σ}
    (course : Course machine setting spare entered now name context world execution) :
    walk machine setting spare entered now name context world = execution := by
  induction course with
  | @cancelled spare _ _ _ _ _ hcancelled =>
      cases spare <;> rw [walk, if_pos hcancelled]
  | stepLimit hrunning =>
      rw [walk, if_neg (by simp [hrunning])]
  | unknown hrunning hfind =>
      rw [walk, if_neg (by simp [hrunning])]
      simp only [hfind]
  | onward hrunning hfind stay hdeparture _ ih =>
      rw [walk, if_neg (by simp [hrunning])]
      simp only [hfind, ofState_of_stay stay, hdeparture, ih]
  | finished hrunning hfind stay hdeparture | failed hrunning hfind stay hdeparture
  | cut hrunning hfind stay hdeparture =>
      rw [walk, if_neg (by simp [hrunning])]
      simp only [hfind, ofState_of_stay stay, hdeparture]

theorem course_execute (machine : Machine) (setting : Setting σ) (input : Json) (world : σ) :
    Course machine (setting.forMachine machine) setting.limits.maxSteps 0 0 machine.startAt
      ⟨input, setting.limits.maxContextBytes⟩ world (execute machine setting input world) :=
  course_walk _ _ _ _ _ _ _ _

end Execution

end StateFlow
