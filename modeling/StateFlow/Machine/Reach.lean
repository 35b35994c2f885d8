import StateFlow.Machine.Basic

/-! # Reachable states

A search over the successors of states. Names are taken from a queue; a name seen for the first
time puts the successors of its state behind the queue. The search ends although the queue grows
and names repeat: whenever it grows, there is one name less in the table that was not yet seen. -/

namespace StateFlow.Machine

/-- The names of the table that are not among those seen. -/
def unseen (table : NameTable State) (seen : List String) : List String :=
  table.names.filter fun name => name ∉ seen

theorem find?_mem_names {table : NameTable State} {name : String} {state : State}
    (h : table.find? name = some state) : name ∈ table.names := by
  obtain ⟨entries, sorted⟩ := table
  simp only [NameTable.find?, NameTable.names] at h ⊢
  clear sorted
  induction entries with
  | nil => cases h
  | cons entry rest ih =>
    obtain ⟨other, value⟩ := entry
    simp only [Entries.find?] at h
    split at h
    · next heq => simp [Entries.names, heq]
    · have := ih h
      simp only [Entries.names, List.map_cons, List.mem_cons] at this ⊢
      exact Or.inr this

theorem unseen_cons (table : NameTable State) (name : String) (seen : List String) :
    unseen table (name :: seen) = (unseen table seen).filter fun other => other ≠ name := by
  simp [unseen, List.filter_filter]

theorem length_unseen_cons_le (table : NameTable State) (name : String) (seen : List String) :
    (unseen table (name :: seen)).length ≤ (unseen table seen).length := by
  rw [unseen_cons]
  exact List.length_filter_le _ _

theorem length_unseen_lt {table : NameTable State} {name : String} {state : State}
    {seen : List String} (hname : name ∉ seen) (h : table.find? name = some state) :
    (unseen table (name :: seen)).length < (unseen table seen).length := by
  have hmem : name ∈ unseen table seen := by
    simpa [unseen, hname] using find?_mem_names h
  rw [unseen_cons]
  exact List.length_filter_lt_length_iff_exists.2 ⟨name, hmem, by simp⟩

/-- Every name met from a queue, those seen before included. -/
def explore (table : NameTable State) (queue seen : List String) : List String :=
  match queue with
  | [] => seen
  | name :: rest =>
    if name ∈ seen then explore table rest seen
    else match _h : table.find? name with
      | none => explore table rest (name :: seen)
      | some state => explore table (rest ++ state.successors) (name :: seen)
termination_by ((unseen table seen).length, queue.length)
decreasing_by
  · exact Prod.Lex.right _ (Nat.lt_succ_self _)
  · rcases Nat.lt_or_eq_of_le (length_unseen_cons_le table name seen) with h | h
    · exact Prod.Lex.left _ _ h
    · rw [h]; exact Prod.Lex.right _ (Nat.lt_succ_self _)
  · exact Prod.Lex.left _ _ (length_unseen_lt ‹_› _h)

/-- The first name of the table, in its order, that no chain of successors leads to. -/
def firstUnreachable? (table : NameTable State) (start : String) : Option String :=
  let seen := explore table [start] []
  table.names.find? fun name => name ∉ seen

end StateFlow.Machine
