/-! # Event buses

A bus keeps the latest events for its subscribers. It has room for its capacity rounded up to a
power of two. A subscriber receives every event published since it subscribed, in order; one that
falls behind by more than the room is told once how many events it lost, and goes on with the oldest
that is kept. -/

namespace StateFlow

/-- The smallest power of two that is not below `n`. -/
def roomFor (n : Nat) : Nat :=
  if n ≤ 1 then 1 else Nat.pow 2 ((n - 1).log2 + 1)

/-- Every event published so far, and how many of them each subscriber is through with. Subscribers
that left stay as places without a position. -/
structure Bus (ε : Type) where
  room : Nat
  published : Array ε := #[]
  positions : Array (Option Nat) := #[]
deriving Inhabited

/-- What a subscriber finds. -/
inductive Received (ε : Type) where
  | event (value : ε)
  | empty
  | lagged (lost : Nat)

namespace Bus

variable {ε : Type}

/-- A bus that keeps `capacity` events or some more; none can be made for no events. -/
def create? (capacity : Nat) : Option (Bus ε) :=
  if capacity = 0 then none else some { room := roomFor capacity }

/-- A subscriber of everything from now on. -/
def subscribe (bus : Bus ε) : Nat × Bus ε :=
  (bus.positions.size, { bus with positions := bus.positions.push (some bus.published.size) })

/-- The number of subscribers that have not left. -/
def receivers (bus : Bus ε) : Nat :=
  bus.positions.countP Option.isSome

/-- A subscriber leaves. -/
def leave (bus : Bus ε) (subscriber : Nat) : Bus ε :=
  { bus with positions := bus.positions.setIfInBounds subscriber none }

/-- Publish an event; without subscribers it is dropped. -/
def publish (bus : Bus ε) (event : ε) : Bus ε :=
  if bus.receivers = 0 then bus else { bus with published := bus.published.push event }

/-- The position of the oldest event that is kept. -/
def oldest (bus : Bus ε) : Nat :=
  bus.published.size - bus.room

/-- Move a subscriber. -/
def moved (bus : Bus ε) (subscriber position : Nat) : Bus ε :=
  { bus with positions := bus.positions.setIfInBounds subscriber (some position) }

/-- The next event of a subscriber, unless there is no such subscriber. -/
def receive? (bus : Bus ε) (subscriber : Nat) : Option (Received ε × Bus ε) := do
  let position ← (bus.positions[subscriber]?).join
  if position < bus.oldest then
    return (.lagged (bus.oldest - position), bus.moved subscriber bus.oldest)
  else match bus.published[position]? with
    | none => return (.empty, bus)
    | some event => return (.event event, bus.moved subscriber (position + 1))

end Bus

end StateFlow
