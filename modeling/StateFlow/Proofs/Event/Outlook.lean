import StateFlow.Event.Bus

/-!
# What subscribers see of a bus

Operations on a bus come in any order. What a subscriber sees of the bus is an outlook: how many
subscribers have come, and which events lie ahead of it. Every operation acts on the outlook alone,
and what other subscribers do once they have come does not act on it at all. So the answers that a
subscriber is given are read off its outlook, whatever the others do.

## Implementation notes

A subscriber that was told that it lost some events is through with them. The events ahead of a
subscriber are therefore those that it has lost and was not told of, and behind them those that it
can still receive.
-/

namespace StateFlow

variable {ε : Type}

namespace Bus

/-- An operation on a bus. Subscribers are counted in the order in which they come. -/
inductive Op (ε : Type) where
  | subscribe
  | leave (subscriber : Nat)
  | publish (event : ε)
  | receive (subscriber : Nat)

namespace Op

def event? : Op ε → Option ε
  | publish event => some event
  | subscribe | leave _ | receive _ => none

/-- Everything but what another subscriber does once it has come. -/
def concerns (subscriber : Nat) : Op ε → Bool
  | subscribe | publish _ => true
  | leave other | receive other => other = subscriber

end Op

/-- The bus behind an operation. -/
def next (bus : Bus ε) : Op ε → Bus ε
  | .subscribe => bus.subscribe.2
  | .leave subscriber => bus.leave subscriber
  | .publish event => bus.publish event
  | .receive subscriber => ((bus.receive? subscriber).map Prod.snd).getD bus

/-- What an operation gives a subscriber. -/
def answer? (bus : Bus ε) (subscriber : Nat) : Op ε → Option (Received ε)
  | .receive other =>
    if other = subscriber then (bus.receive? subscriber).map Prod.fst else none
  | .subscribe | .leave _ | .publish _ => none

/-- The bus behind some operations. -/
def after (bus : Bus ε) (ops : List (Op ε)) : Bus ε :=
  ops.foldl next bus

/-- All that a subscriber is given by some operations. -/
def given (bus : Bus ε) (subscriber : Nat) : List (Op ε) → List (Received ε)
  | [] => []
  | op :: rest => (bus.answer? subscriber op).toList ++ (bus.next op).given subscriber rest

/-- How many events a subscriber is through with, while it is there. -/
def position? (bus : Bus ε) (subscriber : Nat) : Option Nat :=
  (bus.positions[subscriber]?).join

/-- No subscriber is through with more events than there are. -/
def Sound (bus : Bus ε) : Prop :=
  ∀ subscriber position, bus.position? subscriber = some position →
    position ≤ bus.published.size

end Bus

/-- What a subscriber sees of a bus: how many have come, and what lies ahead of it while it is
there. -/
structure Outlook (ε : Type) where
  arrived : Nat
  ahead : Option (List ε)

namespace Outlook

/-- What is found by a subscriber with these events ahead of it. -/
def reply (room : Nat) (ahead : List ε) : Received ε :=
  if room < ahead.length then .lagged (ahead.length - room)
  else match ahead with
    | [] => .empty
    | event :: _ => .event event

/-- What lies ahead once that was found. -/
def rest (room : Nat) (ahead : List ε) : List ε :=
  if room < ahead.length then ahead.drop (ahead.length - room) else ahead.tail

/-- The outlook of a subscriber behind an operation. -/
def next (room subscriber : Nat) (outlook : Outlook ε) : Bus.Op ε → Outlook ε
  | .subscribe =>
    { arrived := outlook.arrived + 1
      ahead := if subscriber = outlook.arrived then some [] else outlook.ahead }
  | .leave other => if other = subscriber then { outlook with ahead := none } else outlook
  | .publish event => { outlook with ahead := outlook.ahead.map (· ++ [event]) }
  | .receive other =>
    if other = subscriber then { outlook with ahead := outlook.ahead.map (rest room) } else outlook

/-- What an operation gives a subscriber with this outlook. -/
def answer? (room subscriber : Nat) (outlook : Outlook ε) : Bus.Op ε → Option (Received ε)
  | .receive other => if other = subscriber then outlook.ahead.map (reply room) else none
  | .subscribe | .leave _ | .publish _ => none

def after (room subscriber : Nat) (outlook : Outlook ε) (ops : List (Bus.Op ε)) : Outlook ε :=
  ops.foldl (next room subscriber) outlook

def given (room subscriber : Nat) (outlook : Outlook ε) : List (Bus.Op ε) → List (Received ε)
  | [] => []
  | op :: ops =>
    (outlook.answer? room subscriber op).toList ++
      (outlook.next room subscriber op).given room subscriber ops

variable {room subscriber : Nat} {outlook : Outlook ε} {op : Bus.Op ε}

theorem next_of_not_concerns (h : op.concerns subscriber = false) :
    outlook.next room subscriber op = outlook := by
  cases op with
  | subscribe | publish => cases h
  | leave other | receive other => exact if_neg (of_decide_eq_false h)

theorem answer?_of_not_concerns (h : op.concerns subscriber = false) :
    outlook.answer? room subscriber op = none := by
  cases op with
  | subscribe | publish | leave => rfl
  | receive other => exact if_neg (of_decide_eq_false h)

/-- Operations that do not concern a subscriber can be left out. -/
theorem given_filter (ops : List (Bus.Op ε)) :
    outlook.given room subscriber (ops.filter (Bus.Op.concerns subscriber)) =
      outlook.given room subscriber ops := by
  induction ops generalizing outlook with
  | nil => rfl
  | cons op ops ih =>
      cases hconcerns : op.concerns subscriber with
      | true =>
          rw [List.filter_cons_of_pos hconcerns, given, given, ih]
      | false =>
          rw [List.filter_cons_of_neg (by simp [hconcerns]), ih, given,
            answer?_of_not_concerns hconcerns, next_of_not_concerns hconcerns]
          rfl

end Outlook

namespace Bus

variable {bus : Bus ε} {subscriber other position : Nat} {event : ε}

/-- What a subscriber sees of a bus. -/
def outlook (bus : Bus ε) (subscriber : Nat) : Outlook ε where
  arrived := bus.positions.size
  ahead := (bus.position? subscriber).map bus.published.toList.drop

/-! ## Positions -/

theorem position?_subscribe :
    bus.subscribe.2.position? subscriber =
      if subscriber = bus.positions.size then some bus.published.size
      else bus.position? subscriber := by
  rw [position?, subscribe, Array.getElem?_push]
  split <;> rfl

theorem position?_leave :
    (bus.leave other).position? subscriber =
      if other = subscriber then none else bus.position? subscriber := by
  rw [position?, leave, Array.getElem?_setIfInBounds]
  split
  · split <;> rfl
  · rfl

theorem position?_publish :
    (bus.publish event).position? subscriber = bus.position? subscriber := by
  rw [publish]
  split <;> rfl

theorem position?_moved {old : Nat} (h : bus.position? other = some old) :
    (bus.moved other position).position? subscriber =
      if other = subscriber then some position else bus.position? subscriber := by
  have hbound : other < bus.positions.size := by
    rw [position?, Option.join_eq_some_iff] at h
    exact (Array.getElem?_eq_some_iff.mp h).1
  rw [position?, moved, Array.getElem?_setIfInBounds]
  by_cases hsame : other = subscriber
  · rw [if_pos hsame, if_pos hsame, if_pos hbound]
    rfl
  · rw [if_neg hsame, if_neg hsame]
    rfl

/-- With a subscriber there, whatever is published is kept. -/
theorem published_publish (h : bus.position? subscriber = some position) :
    (bus.publish event).published = bus.published.push event := by
  have hreceivers : bus.receivers ≠ 0 := by
    rw [position?, Option.join_eq_some_iff] at h
    have hmem := Array.mem_of_getElem? h
    exact Nat.pos_iff_ne_zero.mp (Array.countP_pos_iff.mpr ⟨_, hmem, rfl⟩)
  rw [publish, if_neg hreceivers]

theorem published_publish_size :
    bus.published.size ≤ (bus.publish event).published.size := by
  rw [publish]
  split
  · exact Nat.le_refl _
  · rw [Array.size_push]
    exact Nat.le_succ _

/-! ## Receiving -/

theorem receive?_eq_none (h : bus.position? subscriber = none) :
    bus.receive? subscriber = none := by
  rw [position?] at h
  rw [receive?, h]
  rfl

theorem moved_self (h : bus.position? subscriber = some position) :
    bus.moved subscriber position = bus := by
  have hpositions : bus.positions.setIfInBounds subscriber (some position) = bus.positions := by
    rw [position?, Option.join_eq_some_iff] at h
    apply Array.ext_getElem?
    intro place
    rw [Array.getElem?_setIfInBounds]
    split
    · rename_i hsame
      subst hsame
      rw [if_pos (Array.getElem?_eq_some_iff.mp h).1, h]
    · rfl
  rw [moved, hpositions]

theorem receive?_of_lost (h : bus.position? subscriber = some position)
    (hlost : position < bus.oldest) :
    bus.receive? subscriber =
      some (.lagged (bus.oldest - position), bus.moved subscriber bus.oldest) := by
  rw [position?] at h
  rw [receive?, h]
  exact if_pos hlost

theorem receive?_of_none (h : bus.position? subscriber = some position)
    (hkept : ¬ position < bus.oldest) (hnone : bus.published[position]? = none) :
    bus.receive? subscriber = some (.empty, bus) := by
  rw [position?] at h
  rw [receive?, h]
  simp [hkept, hnone]

theorem receive?_of_some {event : ε} (h : bus.position? subscriber = some position)
    (hkept : ¬ position < bus.oldest) (hevent : bus.published[position]? = some event) :
    bus.receive? subscriber = some (.event event, bus.moved subscriber (position + 1)) := by
  rw [position?] at h
  rw [receive?, h]
  simp [hkept, hevent]

/-- A subscriber that is there finds the first of the events ahead of it, and is through with it. -/
theorem receive?_eq_some (h : bus.position? subscriber = some position)
    (hposition : position ≤ bus.published.size) :
    ∃ through, through ≤ bus.published.size ∧
      bus.published.toList.drop through =
        Outlook.rest bus.room (bus.published.toList.drop position) ∧
      bus.receive? subscriber =
        some (Outlook.reply bus.room (bus.published.toList.drop position),
          bus.moved subscriber through) := by
  have hlength : (bus.published.toList.drop position).length = bus.published.size - position := by
    rw [List.length_drop, Array.length_toList]
  unfold Outlook.reply Outlook.rest
  rw [hlength]
  by_cases hlost : position < bus.oldest
  · have hroom : bus.room < bus.published.size - position := by
      rw [oldest] at hlost
      omega
    refine ⟨bus.oldest, Nat.sub_le _ _, ?_, ?_⟩
    · rw [if_pos hroom, List.drop_drop]
      congr 1
      rw [oldest]
      omega
    · rw [receive?_of_lost h hlost, if_pos hroom]
      have hcount : bus.oldest - position = bus.published.size - position - bus.room := by
        rw [oldest]
        omega
      rw [hcount]
  · have hroom : ¬ bus.room < bus.published.size - position := by
      rw [oldest] at hlost
      omega
    simp only [if_neg hroom]
    cases hevent : bus.published[position]? with
    | none =>
        have hnone : bus.published.toList.drop position = [] := by
          apply List.drop_eq_nil_of_le
          rw [Array.length_toList]
          exact Array.getElem?_eq_none_iff.mp hevent
        refine ⟨position, hposition, ?_, ?_⟩
        · rw [hnone]
          rfl
        · rw [receive?_of_none h hlost hevent, hnone, moved_self h]
    | some event =>
        obtain ⟨hbound, hget⟩ := Array.getElem?_eq_some_iff.mp hevent
        have hcons : bus.published.toList.drop position =
            event :: bus.published.toList.drop (position + 1) := by
          rw [List.drop_eq_getElem_cons (by rwa [Array.length_toList]), Array.getElem_toList, hget]
        refine ⟨position + 1, hbound, ?_, ?_⟩
        · rw [hcons]
          rfl
        · rw [receive?_of_some h hlost hevent, hcons]

/-! ## Operations act on outlooks -/

theorem next_receive_of_absent (h : bus.position? other = none) :
    bus.next (.receive other) = bus := by
  rw [next, receive?_eq_none h]
  rfl

theorem next_receive (sound : bus.Sound) (h : bus.position? other = some position) :
    ∃ through, through ≤ bus.published.size ∧
      bus.published.toList.drop through =
        Outlook.rest bus.room (bus.published.toList.drop position) ∧
      bus.next (.receive other) = bus.moved other through := by
  obtain ⟨through, hthrough, hrest, hreceive⟩ := receive?_eq_some h (sound _ _ h)
  refine ⟨through, hthrough, hrest, ?_⟩
  rw [next, hreceive]
  rfl

theorem room_next (sound : bus.Sound) (op : Op ε) : (bus.next op).room = bus.room := by
  cases op with
  | subscribe | leave => rfl
  | publish event =>
      rw [next, publish]
      split <;> rfl
  | receive other =>
      cases hposition : bus.position? other with
      | none => rw [next_receive_of_absent hposition]
      | some position =>
          obtain ⟨through, _, _, hnext⟩ := next_receive sound hposition
          rw [hnext]
          rfl

theorem sound_next (sound : bus.Sound) (op : Op ε) : (bus.next op).Sound := by
  intro subscriber position hposition
  cases op with
  | subscribe =>
      rw [next, position?_subscribe] at hposition
      split at hposition
      · cases hposition
        exact Nat.le_refl _
      · exact sound _ _ hposition
  | leave other =>
      rw [next, position?_leave] at hposition
      split at hposition
      · cases hposition
      · exact sound _ _ hposition
  | publish event =>
      rw [next, position?_publish] at hposition
      exact Nat.le_trans (sound _ _ hposition) published_publish_size
  | receive other =>
      cases hold : bus.position? other with
      | none =>
          rw [next_receive_of_absent hold] at hposition ⊢
          exact sound _ _ hposition
      | some old =>
          obtain ⟨through, hthrough, _, hnext⟩ := next_receive sound hold
          rw [hnext, position?_moved hold] at hposition
          rw [hnext]
          split at hposition
          · cases hposition
            exact hthrough
          · exact sound _ _ hposition

/-- Every operation does to an outlook what it does to the bus. -/
theorem outlook_next (sound : bus.Sound) (op : Op ε) :
    (bus.next op).outlook subscriber = (bus.outlook subscriber).next bus.room subscriber op := by
  cases op with
  | subscribe =>
      rw [next, outlook, position?_subscribe, Outlook.next, outlook]
      have hnothing : bus.published.toList.drop bus.published.size = [] := by
        rw [← Array.length_toList, List.drop_length]
      by_cases hsame : subscriber = bus.positions.size
      · rw [if_pos hsame, if_pos hsame, Option.map_some]
        simp only [subscribe, Array.size_push, hnothing]
      · rw [if_neg hsame, if_neg hsame]
        simp only [subscribe, Array.size_push]
  | leave other =>
      rw [next, outlook, position?_leave, Outlook.next, outlook]
      by_cases hsame : other = subscriber
      · simp only [if_pos hsame, leave, Array.size_setIfInBounds, Option.map_none]
      · simp only [if_neg hsame, leave, Array.size_setIfInBounds]
  | publish event =>
      rw [next, outlook, position?_publish, Outlook.next, outlook]
      have hsize : (bus.publish event).positions.size = bus.positions.size := by
        rw [publish]
        split <;> rfl
      rw [hsize]
      cases hposition : bus.position? subscriber with
      | none => rfl
      | some position =>
          have hbound : position ≤ bus.published.toList.length := by
            rw [Array.length_toList]
            exact sound _ _ hposition
          rw [published_publish hposition, Array.toList_push, Option.map_some, Option.map_some,
            Option.map_some, List.drop_append_of_le_length hbound]
  | receive other =>
      cases hold : bus.position? other with
      | none =>
          rw [next_receive_of_absent hold, Outlook.next]
          split
          · rename_i hsame
            subst hsame
            rw [outlook, hold]
            rfl
          · rfl
      | some old =>
          obtain ⟨through, _, hrest, hnext⟩ := next_receive sound hold
          rw [hnext, outlook, position?_moved hold, Outlook.next, outlook]
          by_cases hsame : other = subscriber
          · subst hsame
            simp only [moved, Array.size_setIfInBounds, hold, Option.map_some, hrest, if_true]
          · simp only [if_neg hsame, moved, Array.size_setIfInBounds]

theorem answer?_outlook (sound : bus.Sound) (op : Op ε) :
    bus.answer? subscriber op = (bus.outlook subscriber).answer? bus.room subscriber op := by
  cases op with
  | subscribe | leave | publish => rfl
  | receive other =>
      rw [answer?, Outlook.answer?, outlook]
      congr 1
      cases hposition : bus.position? subscriber with
      | none => rw [receive?_eq_none hposition]; rfl
      | some position =>
          obtain ⟨_, _, _, hreceive⟩ := receive?_eq_some hposition (sound _ _ hposition)
          rw [hreceive]
          rfl

/-! ## Runs act on outlooks -/

theorem sound_after (sound : bus.Sound) (ops : List (Op ε)) : (bus.after ops).Sound := by
  induction ops generalizing bus with
  | nil => exact sound
  | cons op ops ih => exact ih (sound_next sound op)

theorem room_after (sound : bus.Sound) (ops : List (Op ε)) : (bus.after ops).room = bus.room := by
  induction ops generalizing bus with
  | nil => rfl
  | cons op ops ih => exact (ih (sound_next sound op)).trans (room_next sound op)

theorem outlook_after (sound : bus.Sound) (ops : List (Op ε)) :
    (bus.after ops).outlook subscriber =
      (bus.outlook subscriber).after bus.room subscriber ops := by
  induction ops generalizing bus with
  | nil => rfl
  | cons op ops ih =>
      calc (bus.after (op :: ops)).outlook subscriber
          = ((bus.next op).outlook subscriber).after (bus.next op).room subscriber ops :=
            ih (sound_next sound op)
        _ = (bus.outlook subscriber).after bus.room subscriber (op :: ops) := by
            rw [room_next sound, outlook_next sound]
            rfl

theorem given_outlook (sound : bus.Sound) (ops : List (Op ε)) :
    bus.given subscriber ops = (bus.outlook subscriber).given bus.room subscriber ops := by
  induction ops generalizing bus with
  | nil => rfl
  | cons op ops ih =>
      rw [given, Outlook.given, ih (sound_next sound op), answer?_outlook sound, room_next sound,
        outlook_next sound]

theorem after_append (front back : List (Op ε)) :
    bus.after (front ++ back) = (bus.after front).after back :=
  List.foldl_append

theorem given_append (front back : List (Op ε)) :
    bus.given subscriber (front ++ back) =
      bus.given subscriber front ++ (bus.after front).given subscriber back := by
  induction front generalizing bus with
  | nil => rfl
  | cons op front ih =>
      rw [List.cons_append, given, given, ih, List.append_assoc]
      rfl

/-- What a subscriber is given does not depend on what the others do once they have come. -/
theorem given_eq_of_concerns {ops others : List (Op ε)} (sound : bus.Sound)
    (h : ops.filter (Op.concerns subscriber) = others.filter (Op.concerns subscriber)) :
    bus.given subscriber ops = bus.given subscriber others := by
  rw [given_outlook sound, given_outlook sound, ← Outlook.given_filter ops, h,
    Outlook.given_filter]

end Bus

end StateFlow
