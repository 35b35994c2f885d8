import StateFlow.Registry.Invoke

/-!
# What an invocation calls

`Attempted` lists the ways in which attempts can go on. From it follow three facts about the calls
of an invocation: they are made one after the other, each in the world that the one before has left,
and each is noted with the answer that the invoker of the resource gives there; what the invocation
ends with is the answer to its last call; and there is at least one call, and no more than the
policy of the route allows.
-/

namespace StateFlow

variable {σ : Type}

/-- The calls were made in this order, each answered as the invoker of its resource answers it, and
led from one world to the other. -/
inductive Registry.Replays (registry : Registry σ) : σ → List Call → σ → Prop
  | nil {world} : Replays registry world [] world
  | cons {world next last call rest route} (hroute : registry.route? call.resource = some route)
      (hname : call.invoker = route.invoker.name)
      (hreply : route.invoker.reply world call.time call.resource call.input = (call.reply, next))
      (tail : Replays registry next rest last) : Replays registry world (call :: rest) last

/-- The ways in which attempts can go from a moment on. -/
inductive Route.Attempted (route : Route σ) (resource : String) (input : Json)
    (horizon : Clock.Horizon) : (spare attempt now : Nat) → σ → Invocation σ → Prop
  /-- The answer lies behind the horizon. -/
  | unanswered {spare attempt now world reply next}
      (hreply : route.invoker.reply world now resource input = (reply, next))
      (hlate : horizon.passed (now + Clock.lasting reply.delay) = true) :
      Attempted route resource input horizon spare attempt now world
        ⟨[⟨now, route.invoker.name, resource, input, reply⟩], none, next⟩
  /-- The answer is final. -/
  | answered {spare attempt now world reply next}
      (hreply : route.invoker.reply world now resource input = (reply, next))
      (hintime : horizon.passed (now + Clock.lasting reply.delay) = false)
      (hfinal : ∀ failure, reply.outcome = .error failure →
        spare = 0 ∨ route.retries attempt failure = false) :
      Attempted route resource input horizon spare attempt now world
        ⟨[⟨now, route.invoker.name, resource, input, reply⟩],
          some (now + Clock.lasting reply.delay, reply.outcome), next⟩
  /-- The next attempt lies behind the horizon. -/
  | abandoned {spare attempt now world reply next failure}
      (hreply : route.invoker.reply world now resource input = (reply, next))
      (hintime : horizon.passed (now + Clock.lasting reply.delay) = false)
      (hfailure : reply.outcome = .error failure) (hretry : route.retries attempt failure = true)
      (hlate : horizon.passed (now + Clock.lasting reply.delay + route.wait attempt) = true) :
      Attempted route resource input horizon (spare + 1) attempt now world
        ⟨[⟨now, route.invoker.name, resource, input, reply⟩], none, next⟩
  /-- There is another attempt. -/
  | retried {spare attempt now world reply next failure invocation}
      (hreply : route.invoker.reply world now resource input = (reply, next))
      (hintime : horizon.passed (now + Clock.lasting reply.delay) = false)
      (hfailure : reply.outcome = .error failure) (hretry : route.retries attempt failure = true)
      (hagain : horizon.passed (now + Clock.lasting reply.delay + route.wait attempt) = false)
      (tail : Attempted route resource input horizon spare (attempt + 1)
        (now + Clock.lasting reply.delay + route.wait attempt) next invocation) :
      Attempted route resource input horizon (spare + 1) attempt now world
        (invocation.prepend ⟨now, route.invoker.name, resource, input, reply⟩)

/-- The number of attempts in all that a route asks for. -/
def Route.maxAttempts (route : Route σ) : Nat :=
  match route.retry with
  | none => 1
  | some policy => policy.maxAttempts

theorem Route.spares_add_one (route : Route σ) : route.spares + 1 = max 1 route.maxAttempts := by
  rw [Route.spares, Route.maxAttempts]
  cases route.retry with
  | none => rfl
  | some policy =>
      show policy.maxAttempts - 1 + 1 = max 1 policy.maxAttempts
      omega

/-- The call is one to the invoker of the route, which answered it. -/
structure Route.Serves (route : Route σ) (resource : String) (input : Json) (call : Call) :
    Prop where
  invoker_eq : call.invoker = route.invoker.name
  resource_eq : call.resource = resource
  input_eq : call.input = input
  answered : ∃ before after,
    route.invoker.reply before call.time resource input = (call.reply, after)

namespace Registry

variable {registry : Registry σ} {route : Route σ} {resource : String} {input : Json}
  {horizon : Clock.Horizon}

theorem Replays.append {first middle last : σ} {calls rest : List Call}
    (h : Replays registry first calls middle) (htail : Replays registry middle rest last) :
    Replays registry first (calls ++ rest) last := by
  induction h with
  | nil => exact htail
  | cons hroute hname hreply _ ih => exact Replays.cons hroute hname hreply (ih htail)

/-- Attempts go in one of the ways listed. -/
theorem attempted_attempts (spare attempt now : Nat) (world : σ) :
    route.Attempted resource input horizon spare attempt now world
      (attempts route resource input horizon spare attempt now world) := by
  fun_induction attempts route resource input horizon spare attempt now world with
  | case1 spare attempt now world reply next hreply call done hlate =>
      exact Route.Attempted.unanswered hreply hlate
  | case2 spare attempt now world reply next hreply call done hintime value hvalue =>
      rw [← hvalue]
      exact Route.Attempted.answered hreply (by simpa using hintime) (by simp [hvalue])
  | case3 attempt now world reply next hreply call done hintime failure hfailure =>
      rw [← hfailure]
      exact Route.Attempted.answered hreply (by simpa using hintime) (by simp)
  | case4 attempt now world reply next hreply call done hintime failure spare hfailure hretry again
      hlate =>
      exact Route.Attempted.abandoned hreply (by simpa using hintime) hfailure hretry hlate
  | case5 attempt now world reply next hreply call done hintime failure spare hfailure hretry again
      hagain ih =>
      exact Route.Attempted.retried hreply (by simpa using hintime) hfailure hretry
        (by simpa using hagain) ih
  | case6 attempt now world reply next hreply call done hintime failure spare hfailure hretry =>
      rw [← hfailure]
      refine Route.Attempted.answered hreply (by simpa using hintime) fun other hother => ?_
      rw [hfailure] at hother
      cases hother
      exact Or.inr (by simpa using hretry)

/-- Every attempt is one call to the invoker of the route. -/
theorem replays_of_attempted (hroute : registry.route? resource = some route)
    {spare attempt now : Nat} {world : σ} {invocation : Invocation σ}
    (h : route.Attempted resource input horizon spare attempt now world invocation) :
    Replays registry world invocation.calls invocation.world := by
  induction h with
  | unanswered hreply | answered hreply | abandoned hreply =>
      exact Replays.cons hroute rfl hreply Replays.nil
  | retried hreply _ _ _ _ _ ih => exact Replays.cons hroute rfl hreply ih

/-- There is a call for the first attempt, and one at most for each that may follow. -/
theorem length_calls_of_attempted {spare attempt now : Nat} {world : σ} {invocation : Invocation σ}
    (h : route.Attempted resource input horizon spare attempt now world invocation) :
    1 ≤ invocation.calls.length ∧ invocation.calls.length ≤ spare + 1 := by
  induction h with
  | unanswered | answered | abandoned => exact ⟨Nat.le_refl 1, Nat.le_add_left 1 _⟩
  | retried _ _ _ _ _ _ ih => exact ⟨Nat.le_add_left 1 _, Nat.succ_le_succ ih.2⟩

/-- All attempts are calls to the invoker of the route with one and the same input. -/
theorem serves_of_attempted {spare attempt now : Nat} {world : σ} {invocation : Invocation σ}
    (h : route.Attempted resource input horizon spare attempt now world invocation) :
    ∀ call ∈ invocation.calls, route.Serves resource input call := by
  induction h with
  | unanswered hreply | answered hreply | abandoned hreply =>
      intro call hcall
      rw [List.mem_singleton.mp hcall]
      exact ⟨rfl, rfl, rfl, _, _, hreply⟩
  | retried hreply _ _ _ _ _ ih =>
      refine List.forall_mem_cons.mpr ⟨?_, ih⟩
      exact ⟨rfl, rfl, rfl, _, _, hreply⟩

/-- What attempts end with is the answer to the last call. -/
theorem getLast?_of_attempted {spare attempt now left : Nat} {world : σ} {outcome : Outcome}
    {invocation : Invocation σ}
    (h : route.Attempted resource input horizon spare attempt now world invocation)
    (hending : invocation.ending = some (left, outcome)) :
    ∃ call, invocation.calls.getLast? = some call ∧ call.resource = resource ∧
      call.reply.outcome = outcome := by
  induction h with
  | unanswered | abandoned => cases hending
  | answered =>
      cases hending
      exact ⟨_, rfl, rfl, rfl⟩
  | retried _ _ _ _ _ _ ih =>
      obtain ⟨last, hlast, hanswer⟩ := ih hending
      refine ⟨last, ?_, hanswer⟩
      rw [Invocation.prepend, List.getLast?_cons, hlast]
      rfl

/-- An invocation of a resource with a route consists of the attempts of that route. -/
theorem attempted_invoke (hroute : registry.route? resource = some route) (input : Json)
    (horizon : Clock.Horizon) (now : Nat) (world : σ) :
    route.Attempted resource input horizon route.spares 1 now world
      (registry.invoke resource input horizon now world) := by
  rw [invoke, hroute]
  exact attempted_attempts _ _ _ _

theorem replays_invoke (registry : Registry σ) (resource : String) (input : Json)
    (horizon : Clock.Horizon) (now : Nat) (world : σ) :
    Replays registry world (registry.invoke resource input horizon now world).calls
      (registry.invoke resource input horizon now world).world := by
  cases hroute : registry.route? resource with
  | none =>
      rw [invoke, hroute]
      exact Replays.nil
  | some route => exact replays_of_attempted hroute (attempted_invoke hroute _ _ _ _)

/-- An invocation that yields a value has it from its last call, which is one to its resource. -/
theorem getLast?_invoke {now left : Nat} {world : σ} {value : Json}
    (h : (registry.invoke resource input horizon now world).ending = some (left, .ok value)) :
    ∃ call, (registry.invoke resource input horizon now world).calls.getLast? = some call ∧
      call.resource = resource ∧ call.reply.outcome = .ok value := by
  cases hroute : registry.route? resource with
  | none =>
      rw [invoke, hroute] at h
      cases h
  | some route => exact getLast?_of_attempted (attempted_invoke hroute _ _ _ _) h

end Registry

end StateFlow
