import StateFlow.Proofs.Execution.Effect

/-!
# In what a state is entered

A state is entered behind others that all did what they are for. They determine the document that
it finds, through their effects, and the world, through their calls. Nothing follows a visit that
failed or was cut: the execution ends with it.
-/

namespace StateFlow

variable {σ : Type}

/-- After so many states the machine is about to enter one in this context and world. Behind the
visits in front it makes this one. -/
inductive Machine.Enters (machine : Machine) (setting : Setting σ) (entered : Nat)
    (start : Context) (world : σ) (front : List Visit) (visit : Visit) : Prop
  | intro {context written : Context} {before after : σ} {state : State}
      (hfront : ∀ other ∈ front, other.departure.succeeded = true)
      (hdocument : front.foldlM machine.effect? start.document = some context.document)
      (hbound : context.maxBytes = start.maxBytes)
      (hworld : setting.registry.Replays world (front.flatMap Visit.calls) before)
      (hfind : machine.states.find? visit.state = some state)
      (stay : Stay setting (entered + front.length + 1) visit.entered visit.state context before
        state visit written after)

/-- The error with which an execution ends that ends with this departure. -/
def Departure.error? : Departure → Option ExecutionError
  | next _ | finish => none
  | failed e => some e
  | cut limit => some (.executionTimeout limit)

variable {setting : Setting σ} {step now : Nat} {name : String} {context written : Context}
  {world after : σ} {state : State} {visit : Visit}

/-- No visit changes the bound on the document. -/
theorem Stay.maxBytes_eq (h : Stay setting step now name context world state visit written after) :
    written.maxBytes = context.maxBytes := by
  cases h with
  | passed hmerge | done _ _ _ hmerge => exact Context.maxBytes_of_merge hmerge
  | chosen | refused | unresolved | interrupted | failed | unmerged => rfl

section

variable {machine : Machine} {entered : Nat} {front back : List Visit} {other : Visit}

namespace Machine.Enters

theorem head (hfind : machine.states.find? name = some state)
    (stay : Stay setting (entered + 1) now name context world state visit written after) :
    machine.Enters setting entered context world [] visit := by
  have hstay : Stay setting (entered + 1) visit.entered visit.state context world state visit
      written after := by
    rw [stay.entered_eq, stay.state_eq]
    exact stay
  rw [← stay.state_eq] at hfind
  exact intro (by simp) rfl rfl Registry.Replays.nil hfind hstay

theorem cons (h : machine.Enters setting (entered + 1) written after front other)
    (hfind : machine.states.find? name = some state)
    (stay : Stay setting (entered + 1) now name context world state visit written after)
    (hsucceeded : visit.departure.succeeded = true) :
    machine.Enters setting entered context world (visit :: front) other := by
  obtain ⟨hfront, hdocument, hbound, hworld, hother, htail⟩ := h
  have hlength : entered + 1 + front.length = entered + (visit :: front).length := by
    rw [List.length_cons]
    omega
  rw [hlength] at htail
  refine intro ?_ ?_ (hbound.trans stay.maxBytes_eq) ?_ hother htail
  · exact List.forall_mem_cons.mpr ⟨hsucceeded, hfront⟩
  · rw [List.foldlM_cons, Execution.effect?_eq_some hfind stay hsucceeded]
    exact hdocument
  · rw [List.flatMap_cons]
    exact stay.replays.append hworld

end Machine.Enters

namespace Execution

variable {execution : Execution σ} {spare : Nat}

/-- Every visit of an execution is entered behind those in front of it. -/
theorem enters_of_course
    (course : Course machine setting spare entered now name context world execution)
    (h : execution.visits = front ++ other :: back) :
    machine.Enters setting entered context world front other := by
  -- A visit in front of another one led on to it, so it had its effect before.
  induction course generalizing front with
  | cancelled | stepLimit | unknown => cases front <;> cases h
  | onward _ hfind stay hdeparture _ ih =>
      cases front with
      | nil =>
          cases h
          exact Machine.Enters.head hfind stay
      | cons first front =>
          obtain ⟨rfl, hrest⟩ := List.cons.inj h
          exact (ih hrest).cons hfind stay (congrArg Departure.succeeded hdeparture)
  | finished _ hfind stay | failed _ hfind stay | cut _ hfind stay =>
      cases front with
      | nil =>
          cases h
          exact Machine.Enters.head hfind stay
      | cons first front => cases front <;> cases (List.cons.inj h).2

/-- An execution ends with the first visit that ends it. -/
theorem ends_of_course {e : ExecutionError}
    (course : Course machine setting spare entered now name context world execution)
    (h : execution.visits = front ++ other :: back) (herror : other.departure.error? = some e) :
    back = [] ∧ execution.error = some e ∧ execution.state = other.state ∧
      execution.time = other.left := by
  induction course generalizing front with
  | cancelled | stepLimit | unknown => cases front <;> cases h
  | onward _ _ _ hdeparture _ ih =>
      cases front with
      | nil =>
          cases h
          rw [hdeparture] at herror
          cases herror
      | cons first front => exact ih (List.cons.inj h).2
  | finished _ _ stay hdeparture | failed _ _ stay hdeparture | cut _ _ stay hdeparture =>
      cases front with
      | nil =>
          cases h
          rw [hdeparture] at herror
          cases herror <;> exact ⟨rfl, rfl, stay.state_eq.symm, rfl⟩
      | cons first front => cases front <;> cases (List.cons.inj h).2

end Execution

end

end StateFlow
