import Mathlib.Algebra.GroupWithZero.Nat
import StateFlow.Proofs.Event.Outlook

/-!
# Accounting of events

What a subscriber is told goes through the events that were published since it came, one after the
other: it receives them, or is told how many of them it lost. What it was not told of still lies
ahead of it. So nothing is lost or received twice without a report, however its operations and those
of others are interleaved.
-/

namespace StateFlow

variable {ε : Type}

/-- These answers go through these events in order: each event is received, or is among those that
are reported as lost. -/
inductive Tells : List (Received ε) → List ε → Prop where
  | nothing : Tells [] []
  | event (event : ε) {answers : List (Received ε)} {told : List ε} (rest : Tells answers told) :
      Tells (.event event :: answers) (event :: told)
  | empty {answers : List (Received ε)} {told : List ε} (rest : Tells answers told) :
      Tells (.empty :: answers) told
  | lagged (missed : List ε) {answers : List (Received ε)} {told : List ε}
      (rest : Tells answers told) : Tells (.lagged missed.length :: answers) (missed ++ told)

namespace Bus

/-- The events that are published by some operations. -/
def publications (ops : List (Op ε)) : List ε :=
  ops.filterMap Op.event?

/-- The events among some answers. -/
def events (answers : List (Received ε)) : List ε :=
  answers.filterMap fun answer => match answer with
    | .event event => some event
    | .empty | .lagged _ => none

/-- How many events some answers report as lost. -/
def lost (answers : List (Received ε)) : Nat :=
  (answers.map fun answer => match answer with
    | .lagged count => count
    | .event _ | .empty => 0).sum

/-- How many events a subscriber has lost without having been told of it. -/
def untold (bus : Bus ε) (subscriber : Nat) : Nat :=
  ((bus.position? subscriber).map fun position => bus.oldest - position).getD 0

/-- The events that a subscriber can still receive. -/
def waiting (bus : Bus ε) (subscriber : Nat) : List ε :=
  ((bus.position? subscriber).map fun position =>
    bus.published.toList.drop (max position bus.oldest)).getD []

/-- What a subscriber is told from now on when nothing more is published. -/
def outstanding (bus : Bus ε) (subscriber : Nat) : List (Received ε) :=
  (if bus.untold subscriber = 0 then [] else [.lagged (bus.untold subscriber)]) ++
    (bus.waiting subscriber).map .event ++ [.empty]

theorem publications_cons (op : Op ε) (ops : List (Op ε)) :
    publications (op :: ops) = op.event?.toList ++ publications ops := by
  unfold publications
  cases hevent : op.event? with
  | none => exact List.filterMap_cons_none hevent
  | some event => exact List.filterMap_cons_some hevent

theorem events_append (front back : List (Received ε)) :
    events (front ++ back) = events front ++ events back :=
  List.filterMap_append

theorem lost_append (front back : List (Received ε)) :
    lost (front ++ back) = lost front + lost back := by
  rw [lost, List.map_append, List.sum_append]
  rfl

end Bus

open Bus

/-! ## What answers tell -/

namespace Tells

variable {answers behind : List (Received ε)} {told toldBehind : List ε}

theorem append (front : Tells answers told) (back : Tells behind toldBehind) :
    Tells (answers ++ behind) (told ++ toldBehind) := by
  induction front with
  | nothing => exact back
  | event event _ ih => exact ih.event event
  | empty _ ih => exact ih.empty
  | lagged missed _ ih =>
      rw [List.append_assoc]
      exact ih.lagged missed

/-- What is received is received in order, each event once. -/
theorem events_sublist (h : Tells answers told) : (events answers).Sublist told := by
  induction h with
  | nothing => exact .slnil
  | event event _ ih => exact ih.cons_cons event
  | empty _ ih => exact ih
  | lagged missed _ ih => exact ih.trans (List.sublist_append_right missed _)

theorem length_eq (h : Tells answers told) :
    (events answers).length + lost answers = told.length := by
  induction h with
  | nothing => rfl
  | event event _ ih =>
      simp only [events, lost, List.filterMap_cons, List.map_cons, List.sum_cons,
        List.length_cons] at ih ⊢
      omega
  | empty _ ih =>
      simp only [events, lost, List.filterMap_cons, List.map_cons, List.sum_cons] at ih ⊢
      omega
  | lagged missed _ ih =>
      simp only [events, lost, List.filterMap_cons, List.map_cons, List.sum_cons,
        List.length_append] at ih ⊢
      omega

/-- Without a loss, everything is received. -/
theorem events_eq (h : Tells answers told) (hlost : lost answers = 0) : events answers = told := by
  have hlength := h.length_eq
  rw [hlost, Nat.add_zero] at hlength
  exact h.events_sublist.eq_of_length hlength

end Tells

namespace Outlook

variable {room subscriber : Nat} {outlook : Outlook ε} {ahead : List ε}

/-- What is found goes through the events in front of the rest. -/
theorem tells_reply (room : Nat) (ahead : List ε) :
    ∃ told, Tells [reply room ahead] told ∧ told ++ rest room ahead = ahead := by
  unfold reply rest
  by_cases hlost : room < ahead.length
  · simp only [if_pos hlost]
    refine ⟨ahead.take (ahead.length - room), ?_, List.take_append_drop _ _⟩
    have hcount : (ahead.take (ahead.length - room)).length = ahead.length - room :=
      List.length_take_of_le (Nat.sub_le _ _)
    have htells := Tells.nothing.lagged (ahead.take (ahead.length - room))
    rwa [hcount, List.append_nil] at htells
  · simp only [if_neg hlost]
    cases ahead with
    | nil => exact ⟨[], Tells.nothing.empty, rfl⟩
    | cons event ahead => exact ⟨[event], Tells.nothing.event event, rfl⟩

/-! ## Subscribers that are not there -/

theorem arrived_le_next (op : Op ε) :
    outlook.arrived ≤ (outlook.next room subscriber op).arrived := by
  cases op with
  | subscribe => exact Nat.le_succ _
  | publish => exact Nat.le_refl _
  | leave | receive =>
      rw [next]
      split <;> exact Nat.le_refl _

theorem arrived_le_after (ops : List (Op ε)) :
    outlook.arrived ≤ (outlook.after room subscriber ops).arrived := by
  induction ops generalizing outlook with
  | nil => exact Nat.le_refl _
  | cons op ops ih => exact Nat.le_trans (arrived_le_next op) ih

theorem answer?_of_absent (hahead : outlook.ahead = none) (op : Op ε) :
    outlook.answer? room subscriber op = none := by
  cases op with
  | subscribe | leave | publish => rfl
  | receive =>
      rw [answer?, hahead]
      split <;> rfl

theorem ahead_next_of_absent (hahead : outlook.ahead = none) (op : Op ε)
    (h : subscriber < outlook.arrived ∨ (outlook.next room subscriber op).arrived ≤ subscriber) :
    (outlook.next room subscriber op).ahead = none := by
  cases op with
  | subscribe =>
      have hnew : subscriber ≠ outlook.arrived := by
        change _ ∨ outlook.arrived + 1 ≤ subscriber at h
        omega
      exact (if_neg hnew).trans hahead
  | publish =>
      rw [next, hahead]
      rfl
  | leave =>
      rw [next]
      split
      · rfl
      · exact hahead
  | receive =>
      rw [next]
      split
      · rw [hahead]
        rfl
      · exact hahead

/-- A subscriber that left, or has not come yet, is given nothing. -/
theorem given_of_absent (ops : List (Op ε)) (hahead : outlook.ahead = none)
    (h : subscriber < outlook.arrived ∨
      (outlook.after room subscriber ops).arrived ≤ subscriber) :
    outlook.given room subscriber ops = [] ∧
      (outlook.after room subscriber ops).ahead = none := by
  induction ops generalizing outlook with
  | nil => exact ⟨rfl, hahead⟩
  | cons op ops ih =>
      have hstep : outlook.arrived ≤ (outlook.next room subscriber op).arrived := arrived_le_next op
      have hrun : (outlook.next room subscriber op).arrived ≤
          (outlook.after room subscriber (op :: ops)).arrived := arrived_le_after ops
      have habsent : (outlook.next room subscriber op).ahead = none := by
        apply ahead_next_of_absent hahead
        exact h.imp_right (Nat.le_trans hrun)
      have hlater := ih habsent (h.imp_left fun hgone => Nat.lt_of_lt_of_le hgone hstep)
      rw [given, answer?_of_absent hahead]
      exact hlater

/-! ## Subscribers that are there -/

/-- One operation tells a subscriber the first of the events ahead of it, and puts what it publishes
behind them. -/
theorem tells_next (room : Nat) (hahead : outlook.ahead = some ahead)
    (harrived : subscriber < outlook.arrived) {op : Op ε} (hstays : op ≠ .leave subscriber) :
    ∃ told left, Tells (outlook.answer? room subscriber op).toList told ∧
      (outlook.next room subscriber op).ahead = some left ∧
      told ++ left = ahead ++ op.event?.toList := by
  cases op with
  | subscribe =>
      refine ⟨[], ahead, .nothing, ?_, (List.append_nil ahead).symm⟩
      exact (if_neg (Nat.ne_of_lt harrived)).trans hahead
  | leave other =>
      refine ⟨[], ahead, .nothing, ?_, (List.append_nil ahead).symm⟩
      have hother : other ≠ subscriber := fun hsame => hstays (congrArg Op.leave hsame)
      rw [next, if_neg hother, hahead]
  | publish event =>
      refine ⟨[], ahead ++ [event], .nothing, ?_, rfl⟩
      rw [next, hahead]
      rfl
  | receive other =>
      rw [answer?, next, hahead]
      by_cases hsame : other = subscriber
      · obtain ⟨told, htells, htold⟩ := tells_reply room ahead
        rw [if_pos hsame, if_pos hsame]
        exact ⟨told, rest room ahead, htells, rfl, htold.trans (List.append_nil ahead).symm⟩
      · rw [if_neg hsame, if_neg hsame]
        exact ⟨[], ahead, .nothing, hahead, (List.append_nil ahead).symm⟩

/-- Some operations tell a subscriber the first of the events that were ahead of it or are
published, and the others are ahead of it while it stays. -/
theorem tells_given (ops : List (Op ε)) (hahead : outlook.ahead = some ahead)
    (harrived : subscriber < outlook.arrived) :
    ∃ told left, Tells (outlook.given room subscriber ops) told ∧
      told ++ left = ahead ++ publications ops ∧
      (.leave subscriber ∉ ops → (outlook.after room subscriber ops).ahead = some left) := by
  induction ops generalizing outlook ahead with
  | nil => exact ⟨[], ahead, .nothing, (List.append_nil ahead).symm, fun _ => hahead⟩
  | cons op ops ih =>
      have harrivedNext : subscriber < (outlook.next room subscriber op).arrived :=
        Nat.lt_of_lt_of_le harrived (arrived_le_next op)
      by_cases hleaves : op = .leave subscriber
      · subst hleaves
        have habsent : (outlook.next room subscriber (.leave subscriber)).ahead = none := by
          rw [next, if_pos rfl]
        refine ⟨[], ahead ++ publications (.leave subscriber :: ops), ?_, rfl, ?_⟩
        · rw [given, (given_of_absent ops habsent (.inl harrivedNext)).1]
          exact .nothing
        · intro hstays
          exact absurd List.mem_cons_self hstays
      · obtain ⟨told, left, htells, hleft, htold⟩ :=
          tells_next room hahead harrived hleaves
        obtain ⟨toldLater, leftLater, htellsLater, htoldLater, hstays⟩ := ih hleft harrivedNext
        refine ⟨told ++ toldLater, leftLater, ?_, ?_, ?_⟩
        · exact htells.append htellsLater
        · calc told ++ toldLater ++ leftLater
              = told ++ left ++ publications ops := by
                rw [List.append_assoc, htoldLater, List.append_assoc]
            _ = ahead ++ publications (op :: ops) := by
                rw [htold, publications_cons, List.append_assoc]
        · intro hnever
          exact hstays fun hmem => hnever (List.mem_cons_of_mem op hmem)

/-! ## Subscribers that keep up -/

theorem lost_reply_of_le (h : ahead.length ≤ room) : lost [reply room ahead] = 0 := by
  unfold reply
  rw [if_neg (Nat.not_lt.mpr h)]
  cases ahead <;> rfl

theorem lost_answer?_of_le (subscriber : Nat) (hahead : outlook.ahead = some ahead)
    (h : ahead.length ≤ room) (op : Op ε) :
    lost (outlook.answer? room subscriber op).toList = 0 := by
  cases op with
  | subscribe | leave | publish => rfl
  | receive other =>
      rw [answer?, hahead]
      split
      · exact lost_reply_of_le h
      · rfl

/-- A subscriber that is never behind by more than the room is not told of a loss. -/
theorem lost_given_of_keeps_up (ops : List (Op ε)) (hahead : outlook.ahead = some ahead)
    (harrived : subscriber < outlook.arrived) (hstays : .leave subscriber ∉ ops)
    (hkeeps : ∀ done, done <+: ops → ahead.length + (publications done).length ≤
      (events (outlook.given room subscriber done)).length + room) :
    lost (outlook.given room subscriber ops) = 0 := by
  induction ops generalizing outlook ahead with
  | nil => rfl
  | cons op ops ih =>
      have hbehind : ahead.length ≤ room := by
        have hnow := hkeeps [] List.nil_prefix
        change ahead.length + 0 ≤ 0 + room at hnow
        omega
      have hanswer := lost_answer?_of_le subscriber hahead hbehind op
      obtain ⟨told, left, htells, hleft, htold⟩ := tells_next room hahead harrived
        fun hleaves => hstays (hleaves ▸ List.mem_cons_self)
      rw [given, lost_append, hanswer, Nat.zero_add]
      apply ih hleft (Nat.lt_of_lt_of_le harrived (arrived_le_next op))
      · exact fun hmem => hstays (List.mem_cons_of_mem op hmem)
      · intro done hdone
        have hlater := hkeeps (op :: done) ((List.prefix_cons_inj op).mpr hdone)
        have hlength := congrArg List.length htold
        rw [publications_cons, given, events_append, htells.events_eq hanswer] at hlater
        simp only [List.length_append] at hlater hlength
        omega

/-! ## Subscribers that catch up -/

theorem given_receive (hahead : outlook.ahead = some ahead) (ops : List (Op ε)) :
    outlook.given room subscriber (.receive subscriber :: ops) =
      reply room ahead ::
        (outlook.next room subscriber (.receive subscriber)).given room subscriber ops := by
  rw [given, answer?, if_pos rfl, hahead]
  rfl

theorem ahead_next_receive (subscriber : Nat) (hahead : outlook.ahead = some ahead) :
    (outlook.next room subscriber (.receive subscriber)).ahead = some (rest room ahead) := by
  rw [next, if_pos rfl, hahead]
  rfl

/-- Without further events a subscriber that lost nothing receives all that is ahead of it. -/
theorem given_of_le (subscriber : Nat) (hahead : outlook.ahead = some ahead)
    (h : ahead.length ≤ room) :
    outlook.given room subscriber (List.replicate (ahead.length + 1) (.receive subscriber)) =
      ahead.map .event ++ [.empty] := by
  induction ahead generalizing outlook with
  | nil =>
      have hreply : reply room ([] : List ε) = .empty := if_neg (Nat.not_lt_zero room)
      rw [List.length_nil, List.replicate_succ, given_receive hahead, hreply]
      rfl
  | cons event ahead ih =>
      have hkept : ¬ room < (event :: ahead).length := Nat.not_lt.mpr h
      have hreply : reply room (event :: ahead) = .event event := if_neg hkept
      have hrest : rest room (event :: ahead) = ahead := if_neg hkept
      have hlater := ih ((ahead_next_receive subscriber hahead).trans (congrArg some hrest))
        (Nat.le_of_succ_le h)
      rw [List.replicate_succ, given_receive hahead, hreply, List.length_cons, hlater]
      rfl

/-- One that lost some is told so first. -/
theorem given_of_lt (subscriber : Nat) (hahead : outlook.ahead = some ahead)
    (h : room < ahead.length) :
    outlook.given room subscriber (List.replicate (room + 2) (.receive subscriber)) =
      .lagged (ahead.length - room) ::
        (ahead.drop (ahead.length - room)).map .event ++ [.empty] := by
  have hreply : reply room ahead = .lagged (ahead.length - room) := if_pos h
  have hrest : rest room ahead = ahead.drop (ahead.length - room) := if_pos h
  have hlength : (rest room ahead).length = room := by
    rw [hrest, List.length_drop]
    omega
  have hlater :=
    given_of_le subscriber (ahead_next_receive subscriber hahead) (Nat.le_of_eq hlength)
  rw [hlength, hrest] at hlater
  rw [List.replicate_succ, given_receive hahead, hreply, hlater]
  rfl

end Outlook

/-! ## The room of a bus -/

/-- A bus has room for its capacity, rounded up to a power of two. -/
theorem roomFor_spec (n : Nat) :
    (∃ k, roomFor n = Nat.pow 2 k) ∧ n ≤ roomFor n ∧
      ∀ k, n ≤ Nat.pow 2 k → roomFor n ≤ Nat.pow 2 k := by
  by_cases hsmall : n ≤ 1
  · rw [roomFor, if_pos hsmall]
    refine ⟨⟨0, rfl⟩, hsmall, ?_⟩
    intro k _
    exact Nat.one_le_two_pow
  · rw [roomFor, if_neg hsmall]
    refine ⟨⟨_, rfl⟩, ?_, ?_⟩
    · have hbelow : n - 1 < Nat.pow 2 ((n - 1).log2 + 1) := Nat.lt_log2_self
      omega
    · intro k hk
      have hnonzero : n - 1 ≠ 0 := by omega
      have hlog : (n - 1).log2 < k := by
        apply (Nat.log2_lt hnonzero).mpr
        change n ≤ 2 ^ k at hk
        omega
      exact Nat.pow_le_pow_right (by decide) hlog

namespace Bus

variable {bus start : Bus ε} {subscriber capacity : Nat} {ahead : List ε}

theorem sound_create (h : create? capacity = some start) : start.Sound := by
  rw [create?] at h
  split at h
  · cases h
  · cases h
    intro subscriber position hposition
    cases hposition

theorem sound_subscribe (sound : bus.Sound) : bus.subscribe.2.Sound :=
  sound_next sound .subscribe

/-! ## What lies ahead -/

/-- The events ahead of a subscriber are those that it lost without having been told, and those that
it can still receive. -/
theorem untold_and_waiting (sound : bus.Sound) (h : (bus.outlook subscriber).ahead = some ahead) :
    bus.untold subscriber = ahead.length - bus.room ∧
      bus.waiting subscriber = ahead.drop (ahead.length - bus.room) := by
  obtain ⟨position, hposition, rfl⟩ := Option.map_eq_some_iff.mp h
  have hbound := sound _ _ hposition
  have hlength : (bus.published.toList.drop position).length = bus.published.size - position := by
    rw [List.length_drop, Array.length_toList]
  rw [untold, waiting, hposition, hlength, List.drop_drop]
  constructor
  · change bus.oldest - position = _
    rw [oldest]
    omega
  · change bus.published.toList.drop (max position bus.oldest) = _
    congr 1
    rw [oldest]
    omega

theorem untold_add_waiting (sound : bus.Sound)
    (h : (bus.outlook subscriber).ahead = some ahead) :
    bus.untold subscriber + (bus.waiting subscriber).length = ahead.length := by
  obtain ⟨huntold, hwaiting⟩ := untold_and_waiting sound h
  rw [huntold, hwaiting, List.length_drop]
  omega

/-- Without further events, a subscriber is told of all that lies ahead of it. -/
theorem given_outstanding (sound : bus.Sound) (h : (bus.outlook subscriber).ahead = some ahead) :
    bus.given subscriber
        (List.replicate (bus.outstanding subscriber).length (.receive subscriber)) =
      bus.outstanding subscriber := by
  obtain ⟨huntold, hwaiting⟩ := untold_and_waiting sound h
  rw [given_outlook sound]
  by_cases hlost : bus.room < ahead.length
  · have hnonzero : bus.untold subscriber ≠ 0 := by
      rw [huntold]
      omega
    have hall := Outlook.given_of_lt subscriber h hlost
    have hlength : (bus.outstanding subscriber).length = bus.room + 2 := by
      simp only [outstanding, if_neg hnonzero, List.length_append, List.length_map,
        List.length_cons, List.length_nil, hwaiting, List.length_drop]
      omega
    rw [hlength, hall, outstanding, if_neg hnonzero, huntold, hwaiting]
    rfl
  · have hzero : ahead.length - bus.room = 0 := by omega
    have hall := Outlook.given_of_le subscriber h (Nat.le_of_not_lt hlost)
    have houtstanding : bus.outstanding subscriber = ahead.map .event ++ [.empty] := by
      rw [outstanding, huntold, hwaiting, hzero, if_pos rfl, List.drop_zero]
      rfl
    rw [houtstanding, List.length_append, List.length_map]
    exact hall

/-! ## Subscribers of a bus -/

variable {front : List (Op ε)}

theorem arrived_subscribe (bus : Bus ε) :
    bus.subscribe.1 < (bus.subscribe.2.outlook bus.subscribe.1).arrived := by
  change bus.positions.size < (bus.positions.push (some bus.published.size)).size
  rw [Array.size_push]
  exact Nat.lt_succ_self _

theorem ahead_subscribe (bus : Bus ε) :
    (bus.subscribe.2.outlook bus.subscribe.1).ahead = some [] := by
  have hnothing : bus.published.toList.drop bus.published.size = [] := by
    rw [← Array.length_toList, List.drop_length]
  have hnew : bus.subscribe.2.position? bus.subscribe.1 = some bus.published.size := by
    rw [position?_subscribe]
    exact if_pos rfl
  rw [outlook, hnew]
  exact congrArg some hnothing

/-- A subscriber is given nothing before it comes. -/
theorem given_front (hcreate : create? capacity = some start) :
    start.given (start.after front).subscribe.1 front = [] := by
  have sound := sound_create hcreate
  rw [given_outlook sound]
  have hnobody : (start.outlook (start.after front).subscribe.1).ahead = none := by
    rw [create?] at hcreate
    split at hcreate
    · cases hcreate
    · cases hcreate
      rfl
  apply (Outlook.given_of_absent front hnobody (.inr _)).1
  rw [← outlook_after sound]
  exact Nat.le_refl _

/-- What a subscriber of this bus is told goes through what is published from now on; the rest lies
ahead of it while it stays. -/
theorem tells_subscribe (sound : bus.Sound) (back : List (Op ε)) :
    ∃ told left, Tells (bus.subscribe.2.given bus.subscribe.1 back) told ∧
      told ++ left = publications back ∧
      (.leave bus.subscribe.1 ∉ back →
        ((bus.subscribe.2.after back).outlook bus.subscribe.1).ahead = some left) := by
  have hjoined := sound_subscribe sound
  rw [given_outlook hjoined, outlook_after hjoined]
  exact Outlook.tells_given back (ahead_subscribe bus) (arrived_subscribe bus)

/-- A subscriber of this bus that keeps up is not told of a loss. -/
theorem lost_subscribe_of_keeps_up (sound : bus.Sound) {back : List (Op ε)}
    (hstays : .leave bus.subscribe.1 ∉ back)
    (hkeeps : ∀ done, done <+: back → (publications done).length ≤
      (events (bus.subscribe.2.given bus.subscribe.1 done)).length + bus.room) :
    lost (bus.subscribe.2.given bus.subscribe.1 back) = 0 := by
  have hjoined := sound_subscribe sound
  rw [given_outlook hjoined]
  apply Outlook.lost_given_of_keeps_up back (ahead_subscribe bus) (arrived_subscribe bus) hstays
  intro done hdone
  rw [List.length_nil, Nat.zero_add, ← given_outlook hjoined]
  exact hkeeps done hdone

/-- It lost nothing. -/
theorem nothing_lost_of_keeps_up (sound : bus.Sound) {back : List (Op ε)}
    (hstays : .leave bus.subscribe.1 ∉ back)
    (hkeeps : ∀ done, done <+: back → (publications done).length ≤
      (events (bus.subscribe.2.given bus.subscribe.1 done)).length + bus.room) :
    lost (bus.subscribe.2.given bus.subscribe.1 back) = 0 ∧
      (bus.subscribe.2.after back).untold bus.subscribe.1 = 0 ∧
      events (bus.subscribe.2.given bus.subscribe.1 back) ++
          (bus.subscribe.2.after back).waiting bus.subscribe.1 =
        publications back := by
  have hjoined := sound_subscribe sound
  have hlost := lost_subscribe_of_keeps_up sound hstays hkeeps
  obtain ⟨told, left, htells, htold, hleft⟩ := tells_subscribe sound back
  have hevents := htells.events_eq hlost
  have hroom : (bus.subscribe.2.after back).room = bus.room := room_after hjoined back
  have hkept : left.length ≤ (bus.subscribe.2.after back).room := by
    have hbound := hkeeps back (List.prefix_refl back)
    have hlength := congrArg List.length htold
    rw [hevents] at hbound
    rw [List.length_append] at hlength
    omega
  obtain ⟨huntold, hwaiting⟩ := untold_and_waiting (sound_after hjoined back) (hleft hstays)
  rw [Nat.sub_eq_zero_of_le hkept] at huntold hwaiting
  refine ⟨hlost, huntold, ?_⟩
  rw [hevents, hwaiting]
  exact htold

/-- Take any operations in front of a subscriber's coming and behind it.
The subscriber receives only events that are published behind it, in their order and each at most
once.
While it stays, those that it received, those reported to it as lost, those it has lost without
being told, and those it can still receive are all that were published; and it will be told of the
last two in this order.
If it was never behind by more than the room, it lost nothing.
And it is given the same whatever the others do once they have come. -/
theorem accounting (capacity : Nat) (positive : 1 ≤ capacity) (front back : List (Op ε)) :
    ∃ start : Bus ε, create? capacity = some start ∧
      (∃ k, start.room = Nat.pow 2 k) ∧ capacity ≤ start.room ∧
      (∀ k, capacity ≤ Nat.pow 2 k → start.room ≤ Nat.pow 2 k) ∧
      let subscriber := (start.after front).subscribe.1
      let answers := fun done => start.given subscriber (front ++ .subscribe :: done)
      let bus := start.after (front ++ .subscribe :: back)
      (events (answers back)).Sublist (publications back) ∧
      (.leave subscriber ∉ back →
        (events (answers back)).length + lost (answers back) +
            (bus.untold subscriber + (bus.waiting subscriber).length) =
          (publications back).length ∧
        bus.given subscriber
            (List.replicate (bus.outstanding subscriber).length (.receive subscriber)) =
          bus.outstanding subscriber ∧
        ((∀ done, done <+: back →
            (publications done).length ≤ (events (answers done)).length + start.room) →
          lost (answers back) = 0 ∧ bus.untold subscriber = 0 ∧
            events (answers back) ++ bus.waiting subscriber = publications back)) ∧
      ∀ others : List (Op ε),
        others.filter (Op.concerns subscriber) =
            (front ++ .subscribe :: back).filter (Op.concerns subscriber) →
          start.given subscriber others = answers back := by
  have hcreate : create? capacity = some ({ room := roomFor capacity } : Bus ε) := by
    apply if_neg
    omega
  obtain ⟨hpower, hlarge, hleast⟩ := roomFor_spec capacity
  refine ⟨{ room := roomFor capacity }, hcreate, hpower, hlarge, hleast, ?_⟩
  generalize ({ room := roomFor capacity } : Bus ε) = start at hcreate
  intro subscriber answers bus
  have sound := sound_create hcreate
  have hanswers : ∀ done, answers done = (start.after front).subscribe.2.given subscriber done := by
    intro done
    change start.given subscriber (front ++ .subscribe :: done) = _
    rw [given_append, given_front hcreate]
    rfl
  have hbus : bus = (start.after front).subscribe.2.after back := after_append front _
  obtain ⟨told, left, htells, htold, hleft⟩ := tells_subscribe (sound_after sound front) back
  rw [← hanswers] at htells
  rw [← hbus] at hleft
  refine ⟨?_, ?_, ?_⟩
  · rw [← htold]
    exact htells.events_sublist.trans (List.sublist_append_left told left)
  · intro hstays
    have hahead := hleft hstays
    refine ⟨?_, given_outstanding (sound_after sound _) hahead, ?_⟩
    · calc (events (answers back)).length + lost (answers back) +
            (bus.untold subscriber + (bus.waiting subscriber).length)
          = told.length + left.length := by
            rw [htells.length_eq, untold_add_waiting (sound_after sound _) hahead]
        _ = (publications back).length := by rw [← htold, List.length_append]
    · intro hkeeps
      simp only [hanswers, ← room_after sound front] at hkeeps
      rw [hanswers, hbus]
      exact nothing_lost_of_keeps_up (sound_after sound front) hstays hkeeps
  · intro others hothers
    exact given_eq_of_concerns sound hothers

/-- A subscriber that is overrun by one event is told so and goes on with the oldest one kept. -/
theorem accounting_of_overrun :
    1 ≤ 2 ∧ ∃ start : Bus Nat, create? 2 = some start ∧
      let back := [.publish 1, .publish 2, .publish 3, .receive 0, .receive 0]
      let bus := start.after (.subscribe :: back)
      start.given 0 (.subscribe :: back) = [.lagged 1, .event 2] ∧ bus.waiting 0 = [3] ∧
        (events (start.given 0 (.subscribe :: back))).length +
            lost (start.given 0 (.subscribe :: back)) +
            (bus.untold 0 + (bus.waiting 0).length) =
          (publications back).length := by
  obtain ⟨start, hcreate, -, -, -, -, hstays, -⟩ := accounting 2 (by decide) []
    [.publish 1, .publish 2, .publish 3, .receive 0, .receive 0]
  cases hcreate
  refine ⟨by decide, _, rfl, rfl, rfl, ?_⟩
  apply (hstays _).1
  intro hleaves
  simp at hleaves

end Bus

end StateFlow
