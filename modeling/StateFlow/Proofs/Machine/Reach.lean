import Mathlib.Data.List.Chain
import Mathlib.Logic.Relation
import StateFlow.Machine.Reach
import StateFlow.Proofs.NameTable

/-!
# The search finds the reachable states

The search keeps two promises. Nothing is seen that no chain of successors leads to from the queue
it was given. And what a seen state leads to is itself seen, or still waits in the queue; when the
queue is empty, what was seen is closed under successors.
-/

namespace StateFlow.Machine

variable {table : NameTable State}

/-- One state of the table may be followed by another name, which need not be in the table. -/
def Leads (table : NameTable State) (name next : String) : Prop :=
  ∃ state, table.find? name = some state ∧ next ∈ state.successors

/-- Some chain of successors leads from one name to another. -/
def Reachable (table : NameTable State) : String → String → Prop :=
  Relation.ReflTransGen (Leads table)

/-- All that is found lies behind a name of the queue. -/
theorem reachable_of_mem_explore {queue seen : List String} {name : String}
    (h : name ∈ explore table queue seen) :
    name ∈ seen ∨ ∃ origin ∈ queue, Reachable table origin name := by
  fun_induction explore table queue seen with
  | case1 seen => exact Or.inl h
  | case2 seen first rest hseen ih =>
      rcases ih h with hname | ⟨origin, horigin, hreach⟩
      · exact Or.inl hname
      · exact Or.inr ⟨origin, List.mem_cons_of_mem _ horigin, hreach⟩
  | case3 seen first rest hseen hfind ih =>
      rcases ih h with hname | ⟨origin, horigin, hreach⟩
      · rcases List.mem_cons.mp hname with rfl | hname
        · exact Or.inr ⟨name, List.mem_cons_self, Relation.ReflTransGen.refl⟩
        · exact Or.inl hname
      · exact Or.inr ⟨origin, List.mem_cons_of_mem _ horigin, hreach⟩
  | case4 seen first rest hseen state hfind ih =>
      rcases ih h with hname | ⟨origin, horigin, hreach⟩
      · rcases List.mem_cons.mp hname with rfl | hname
        · exact Or.inr ⟨name, List.mem_cons_self, Relation.ReflTransGen.refl⟩
        · exact Or.inl hname
      · rcases List.mem_append.mp horigin with horigin | hnext
        · exact Or.inr ⟨origin, List.mem_cons_of_mem _ horigin, hreach⟩
        · have hlead : Leads table first origin := ⟨state, hfind, hnext⟩
          exact Or.inr ⟨first, List.mem_cons_self, Relation.ReflTransGen.head hlead hreach⟩

/-- What a seen state leads to is seen or waits in the queue. -/
def Pending (table : NameTable State) (queue seen : List String) : Prop :=
  ∀ name ∈ seen, ∀ next, Leads table name next → next ∈ seen ∨ next ∈ queue

/-- Taking a name from the queue keeps the promise when what it leads to joins the queue. -/
theorem Pending.step {first : String} {rest seen more : List String}
    (h : Pending table (first :: rest) seen)
    (hmore : ∀ next, Leads table first next → next ∈ more) :
    Pending table (rest ++ more) (first :: seen) := by
  intro name hname next hlead
  rcases List.mem_cons.mp hname with rfl | hname
  · exact Or.inr (List.mem_append_right _ (hmore next hlead))
  · rcases h name hname next hlead with hseen | hqueue
    · exact Or.inl (List.mem_cons_of_mem _ hseen)
    · rcases List.mem_cons.mp hqueue with rfl | hrest
      · exact Or.inl List.mem_cons_self
      · exact Or.inr (List.mem_append_left _ hrest)

/-- A name met before adds nothing. -/
theorem Pending.skip {first : String} {rest seen : List String}
    (h : Pending table (first :: rest) seen) (hseen : first ∈ seen) : Pending table rest seen := by
  intro name hname next hlead
  rcases h name hname next hlead with hnext | hqueue
  · exact Or.inl hnext
  · rcases List.mem_cons.mp hqueue with rfl | hrest
    · exact Or.inl hseen
    · exact Or.inr hrest

/-- The search ends with a set of names that is closed under successors. -/
theorem pending_explore {queue seen : List String} (h : Pending table queue seen) :
    Pending table [] (explore table queue seen) := by
  fun_induction explore table queue seen with
  | case1 seen => exact h
  | case2 seen first rest hseen ih => exact ih (h.skip hseen)
  | case3 seen first rest hseen hfind ih =>
      have hnone : ∀ next, Leads table first next → next ∈ ([] : List String) := by
        rintro next ⟨state, hstate, -⟩
        rw [hfind] at hstate
        cases hstate
      exact ih (by simpa using h.step hnone)
  | case4 seen first rest hseen state hfind ih =>
      have hnext : ∀ next, Leads table first next → next ∈ state.successors := by
        rintro next ⟨state', hstate, hnext⟩
        rw [hfind] at hstate
        cases hstate
        exact hnext
      exact ih (h.step hnext)

/-- Nothing of what was seen or queued is lost. -/
theorem mem_explore {queue seen : List String} {name : String}
    (h : name ∈ seen ∨ name ∈ queue) : name ∈ explore table queue seen := by
  fun_induction explore table queue seen with
  | case1 seen => simpa using h
  | case2 seen first rest hseen ih =>
      apply ih
      rcases h with hname | hname
      · exact Or.inl hname
      · rcases List.mem_cons.mp hname with rfl | hname
        · exact Or.inl hseen
        · exact Or.inr hname
  | case3 seen first rest hseen hfind ih =>
      apply ih
      rw [List.mem_cons] at h ⊢
      grind
  | case4 seen first rest hseen state hfind ih =>
      apply ih
      rw [List.mem_cons] at h ⊢
      rw [List.mem_append]
      grind

/-- From one name the search finds what can be reached from it, and nothing else. -/
theorem mem_explore_iff {start name : String} :
    name ∈ explore table [start] [] ↔ Reachable table start name := by
  constructor
  · intro h
    rcases reachable_of_mem_explore h with hname | ⟨origin, horigin, hreach⟩
    · cases hname
    · rw [List.mem_singleton] at horigin
      exact horigin ▸ hreach
  · intro h
    have hstart : Pending table [start] [] := fun _ hname => by cases hname
    have hclosed := pending_explore hstart
    induction h with
    | refl => exact mem_explore (Or.inr List.mem_cons_self)
    | tail _ hlead ih =>
        rcases hclosed _ ih _ hlead with hnext | hnext
        · exact hnext
        · cases hnext

/-- The name reported is the smallest of the table that cannot be reached. -/
theorem firstUnreachable?_eq_some {start name : String}
    (h : firstUnreachable? table start = some name) :
    name ∈ table.names ∧ ¬ Reachable table start name ∧
      ∀ other ∈ table.names, other < name → Reachable table start other := by
  simp only [← mem_explore_iff]
  obtain ⟨hname, front, back, hsplit, hfront⟩ := List.find?_eq_some_iff_append.mp h
  refine ⟨?_, by simpa using hname, ?_⟩
  · rw [hsplit]
    exact List.mem_append_right _ List.mem_cons_self
  · intro other hother hlt
    rw [hsplit] at hother
    have hsorted : (front ++ name :: back).Pairwise (· < ·) := hsplit ▸ table.sorted
    simpa using hfront other (Entries.mem_front hsorted hlt hother)

theorem firstUnreachable?_eq_none {start : String} :
    firstUnreachable? table start = none ↔ ∀ name ∈ table.names, Reachable table start name := by
  simp only [firstUnreachable?, List.find?_eq_none, ← mem_explore_iff]
  simp

/-- Where each name leads to the next one, all of them are reachable from the first. -/
theorem firstUnreachable?_of_chain {start : String} {rest : List String}
    (hnames : table.names = start :: rest) (hchain : (start :: rest).IsChain (Leads table)) :
    firstUnreachable? table start = none := by
  rw [firstUnreachable?_eq_none, hnames]
  refine hchain.induction (Reachable table start) _ ?_ fun _ => Relation.ReflTransGen.refl
  intro name next hlead hreachable
  exact hreachable.tail hlead

end StateFlow.Machine
