import StateFlow.Proofs.Machine.Reach
import StateFlow.Proofs.NameTable.OfList
import StateFlow.Proofs.Text.Order

/-!
# How the search for unreachable states goes

A search stands at a point: some names wait in its queue, others were met before. A turn takes the
first name of the queue and may put many behind it, so the queue is no measure of what is left to
do. But each state puts its successors there only once. The names that wait, together with the
successors of all states not met, become fewer by one with every turn, and the search ends when no
name waits.
-/

namespace StateFlow.Machine

variable {table : NameTable State}

/-- The successors of the state of a name. A name that is not in the table has none. -/
def successorsOf (table : NameTable State) (name : String) : List String :=
  (table.find? name).elim [] State.successors

/-- Where a search stands: the names that wait, repetitions kept, and the names met before. -/
structure Search where
  queue : List String
  seen : List String

namespace Search

/-- The first name of the queue is taken. An empty queue is the end. -/
def turn? (table : NameTable State) : Search → Option Search
  | ⟨[], _⟩ => none
  | ⟨name :: rest, seen⟩ =>
    if name ∈ seen then some ⟨rest, seen⟩
    else some ⟨rest ++ successorsOf table name, name :: seen⟩

/-- So many turns lead from one point to another. -/
inductive Turns (table : NameTable State) : Nat → Search → Search → Prop
  | none {point} : Turns table 0 point point
  | more {turns point next last} (head : point.turn? table = some next)
      (tail : Turns table turns next last) : Turns table (turns + 1) point last

/-- The number of names that wait or are the successors of a state not met. -/
def load (table : NameTable State) (point : Search) : Nat :=
  point.queue.length + ((unseen table point.seen).flatMap (successorsOf table)).length

/-! ## One turn -/

variable {point next last : Search} {turns : Nat}

theorem queue_of_turn? (h : point.turn? table = none) : point.queue = [] := by
  obtain ⟨queue, seen⟩ := point
  cases queue with
  | nil => rfl
  | cons name rest =>
      rw [turn?] at h
      split at h <;> cases h

/-- A name met for the first time takes its successors from those of the states not met. -/
theorem length_successors_unseen {name : String} {seen : List String} (hname : name ∉ seen) :
    ((unseen table seen).flatMap (successorsOf table)).length =
      ((unseen table (name :: seen)).flatMap (successorsOf table)).length +
        (successorsOf table name).length := by
  rw [unseen_cons]
  by_cases hmem : name ∈ table.names
  · have hunseen : name ∈ unseen table seen := by simp [unseen, hmem, hname]
    have hnodup : (unseen table seen).Nodup := (Entries.nodup_of_sorted table.sorted).filter _
    have hperm : (unseen table seen).Perm
        (name :: (unseen table seen).filter fun other => other ≠ name) := by
      have hfilter : (unseen table seen).filter (fun other => other ≠ name) =
          (unseen table seen).erase name := by
        rw [hnodup.erase_eq_filter]
        apply List.filter_congr
        intro other _
        rw [Bool.eq_iff_iff]
        simp
      rw [hfilter]
      exact List.perm_cons_erase hunseen
    rw [(hperm.flatMap_right _).length_eq, List.flatMap_cons, List.length_append, Nat.add_comm]
  · have hkept : (unseen table seen).filter (fun other => other ≠ name) = unseen table seen := by
      rw [List.filter_eq_self]
      rintro other hother
      refine decide_eq_true fun heq => hmem ?_
      exact heq ▸ (List.mem_filter.mp hother).1
    have hnone : table.find? name = none := NameTable.find?_eq_none.mpr hmem
    rw [hkept, successorsOf, hnone]
    rfl

/-- Every turn leaves one name less to wait for. -/
theorem load_turn? (h : point.turn? table = some next) :
    point.load table = next.load table + 1 := by
  obtain ⟨queue, seen⟩ := point
  cases queue with
  | nil => cases h
  | cons name rest =>
      rw [turn?] at h
      split at h
      · cases h
        simp only [load, List.length_cons]
        omega
      · next hname =>
          cases h
          simp only [load, length_successors_unseen hname, List.length_cons, List.length_append]
          omega

/-- A turn does not change what the search comes to. -/
theorem explore_turn? (h : point.turn? table = some next) :
    explore table point.queue point.seen = explore table next.queue next.seen := by
  obtain ⟨queue, seen⟩ := point
  cases queue with
  | nil => cases h
  | cons name rest =>
      rw [turn?] at h
      split at h
      · next hname =>
          cases h
          rw [explore, if_pos hname]
      · next hname =>
          cases h
          rw [explore, if_neg hname, successorsOf]
          split
          · next hnone => rw [hnone, Option.elim_none, List.append_nil]
          · next state hstate => rw [hstate, Option.elim_some]

/-! ## The whole search -/

theorem load_of_turns (h : Turns table turns point last) :
    point.load table = last.load table + turns := by
  induction h with
  | none => rfl
  | more head _ ih => rw [load_turn? head, ih, Nat.add_assoc]

/-- A search ends, whatever waits and whatever was met before. -/
theorem exists_turns (table : NameTable State) (point : Search) :
    ∃ turns, Turns table turns point ⟨[], explore table point.queue point.seen⟩ := by
  induction hload : point.load table using Nat.strongRecOn generalizing point with
  | _ load ih =>
      cases hturn : point.turn? table with
      | none =>
          obtain ⟨queue, seen⟩ := point
          obtain rfl : queue = [] := queue_of_turn? hturn
          refine ⟨0, ?_⟩
          rw [explore]
          exact Turns.none
      | some next =>
          have hless : next.load table < load := by
            rw [← hload, load_turn? hturn]
            exact Nat.lt_succ_self _
          obtain ⟨turns, hturns⟩ := ih _ hless next rfl
          refine ⟨turns + 1, Turns.more hturn ?_⟩
          rw [explore_turn? hturn]
          exact hturns

theorem load_start (start : String) :
    load table ⟨[start], []⟩ = 1 + (table.names.flatMap (successorsOf table)).length := by
  have hall : unseen table [] = table.names := by simp [unseen]
  rw [load, hall, List.length_singleton]

/-- When a search has ended, what it has done is for the start and the states that it has met. -/
theorem load_start_of_end (start : String) (found : List String) :
    load table ⟨[start], []⟩ =
      load table ⟨[], found⟩ +
        (1 + ((table.names.filter (· ∈ found)).flatMap (successorsOf table)).length) := by
  have hperm := (List.filter_append_perm (· ∈ found) table.names).flatMap_right (successorsOf table)
  have hlength := hperm.length_eq
  rw [List.flatMap_append, List.length_append] at hlength
  have hunseen : unseen table found = table.names.filter fun name => !decide (name ∈ found) := by
    simp [unseen]
  rw [load_start, load, hunseen, List.length_nil]
  omega

end Search

open Search (Turns)

/-- From any start the search ends. It takes one turn for the start and one for each successor of
each state that it meets, and never more than there are successors in the table and one. It reports
nothing exactly if every state of the table can be reached from the start, and otherwise the name
that comes first by its bytes among those that cannot. -/
theorem search_reports_first_unreachable (table : NameTable State) (start : String) :
    let found := explore table [start] []
    Turns table (1 + ((table.names.filter (· ∈ found)).flatMap (successorsOf table)).length)
        ⟨[start], []⟩ ⟨[], found⟩ ∧
      (∀ turns point, Turns table turns ⟨[start], []⟩ point →
        turns ≤ 1 + (table.names.flatMap (successorsOf table)).length) ∧
      (firstUnreachable? table start = none ↔
        ∀ name ∈ table.names, Reachable table start name) ∧
      ∀ name, firstUnreachable? table start = some name ↔
        name ∈ table.names ∧ ¬ Reachable table start name ∧
          ∀ other ∈ table.names, ¬ Reachable table start other →
            Text.bytes name ≤ Text.bytes other := by
  intro found
  refine ⟨?_, ?_, firstUnreachable?_eq_none, fun name => ?_⟩
  · obtain ⟨turns, hturns⟩ := Search.exists_turns table ⟨[start], []⟩
    have hload := (Search.load_start_of_end start found).symm.trans (Search.load_of_turns hturns)
    rw [Nat.add_left_cancel hload]
    exact hturns
  · intro turns point hturns
    have hload := Search.load_of_turns hturns
    rw [Search.load_start] at hload
    omega
  · constructor
    · intro h
      obtain ⟨hname, hlost, hleast⟩ := firstUnreachable?_eq_some h
      refine ⟨hname, hlost, fun other hother hothers => List.not_lt.mp fun hlt => ?_⟩
      exact hothers (hleast other hother (Text.bytes_lt_iff.mp hlt))
    · rintro ⟨hname, hlost, hleast⟩
      cases hfirst : firstUnreachable? table start with
      | none => exact absurd (firstUnreachable?_eq_none.mp hfirst name hname) hlost
      | some other =>
          -- Both names come first among those that cannot be reached.
          obtain ⟨hother, hothers, hbefore⟩ := firstUnreachable?_eq_some hfirst
          have hle : ¬ other < name := fun hlt =>
            List.not_lt.mpr (hleast other hother hothers) (Text.bytes_lt_iff.mpr hlt)
          have hge : ¬ name < other := fun hlt => hlost (hbefore name hname hlt)
          exact congrArg some (String.le_antisymm (String.not_lt.mp hge) (String.not_lt.mp hle))

end StateFlow.Machine
