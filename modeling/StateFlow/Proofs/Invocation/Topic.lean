import StateFlow.Invocation.Topic
import StateFlow.Proofs.NameTable.OfList
import StateFlow.Proofs.Registry.Retries

/-!
# What is published

An invocation of a publisher hands posts to a network, one for each attempt, and goes on as long as
the responses ask for another post and the policy of the route grants it. An input that lacks
something is refused before anything is posted.

## Implementation notes

A network that keeps a log of its posts shows how many there were and in which order; the log is a
part of the world, and no answer depends on it. What a network does with a post is its own affair:
one that follows a redirection has the response that it comes to in the end.
-/

namespace StateFlow

variable {σ : Type}

/-- The document has a member of this name and value. -/
def Json.HasMember (document : Json) (name : String) (value : Json) : Prop :=
  Entries.find? name document.members = some value

theorem Json.hasMember_ofMembers_iff {members : List (String × Json)}
    (hnodup : (Entries.names members).Nodup) {name : String} {value : Json} :
    (ofMembers members).HasMember name value ↔ (name, value) ∈ members := by
  have hperm := Entries.perm_ofList hnodup
  constructor
  · exact fun h => hperm.mem_iff.mp (Entries.mem_of_find? h)
  · exact fun h => Entries.find?_of_mem (Entries.sorted_ofList members) (hperm.mem_iff.mpr h)

namespace Http

theorem Status.isSuccess_iff {status : Status} :
    status.isSuccess = true ↔ 200 ≤ status.code ∧ status.code < 300 := by
  simp [isSuccess]

theorem Status.isServerError_iff {status : Status} :
    status.isServerError = true ↔ 500 ≤ status.code ∧ status.code < 600 := by
  simp [isServerError]

theorem Status.eq_tooManyRequests_iff {status : Status} :
    status = tooManyRequests ↔ status.code = 429 :=
  ⟨congrArg code, congrArg mk⟩

/-- A text that can stand in a header. -/
def Legal (text : String) : Prop :=
  ∀ c ∈ text.toList, c = '\t' ∨ 32 ≤ c.toNat ∧ c.toNat ≠ 127

instance (text : String) : Decidable (Legal text) :=
  List.decidableBAll _ _

theorem Post.isLegal_iff {post : Post} : post.isLegal = true ↔ Legal post.resource := by
  simp [isLegal, Legal]

/-- A post that was handed to a network, and how its exchange went. -/
structure Sent where
  post : Post
  exchange : Exchange

/-- The network that keeps a log of its posts beside the world. -/
def Network.logged (network : Network σ) : Network (σ × List Sent) where
  exchange state now post :=
    let (exchange, world) := network.exchange state.1 now post
    (exchange, world, state.2 ++ [⟨post, exchange⟩])
  freshId state :=
    let (id, world) := network.freshId state.1
    (id, world, state.2)

end Http

/-- The policy asks for another post after this response, or after none. -/
inductive RetryPolicy.Resends (policy : RetryPolicy) : Option Http.Response → Prop
  | throttled {response : Http.Response} (hstatus : response.status.code = 429)
      (hclass : .throttled ∈ policy.retryOn ∨ .all ∈ policy.retryOn) :
      Resends policy (some response)
  | failed {response : Http.Response}
      (hstatus : 500 ≤ response.status.code ∧ response.status.code < 600)
      (hclass : .transport ∈ policy.retryOn ∨ .all ∈ policy.retryOn) :
      Resends policy (some response)
  | unconnected (hclass : .transport ∈ policy.retryOn ∨ .all ∈ policy.retryOn) :
      Resends policy none

namespace Topic

open Http (Legal Network Post Response Sent Status)

/-- The input cannot be published: it names no topic, it holds no message, or its topic has no
webhook and there is none for other topics. -/
inductive Lacking (webhooks : Webhooks) (input : Json) : Prop
  | topic (hnone : ∀ topic, ¬ input.HasMember "TopicArn" (.string topic))
  | message (hnone : ∀ value, input.HasMember "Message" value → value = .null)
  | webhook {topic} (htopic : input.HasMember "TopicArn" (.string topic))
      (hunknown : topic ∉ webhooks.topics.names) (hfallback : webhooks.fallback = none)

/-- A message in words: a text verbatim, any other value but null as a compact document. -/
inductive InWords : Json → String → Prop
  | verbatim {text} : InWords (.string text) text
  | compact {value} (hnull : value ≠ .null) (htext : ∀ text, value ≠ .string text) :
      InWords value value.compact

/-- The members of the body that is posted for an input under an identifier. -/
inductive Carried (input : Json) (id : String) : String → Json → Prop
  | id : Carried input id "message_id" (.string id)
  | topic {topic} (htopic : input.HasMember "TopicArn" (.string topic)) :
      Carried input id "topic" (.string topic)
  | message {value text} (hmessage : input.HasMember "Message" value)
      (hwords : InWords value text) : Carried input id "message" (.string text)
  | subject {subject} (hsubject : input.HasMember "Subject" (.string subject)) :
      Carried input id "subject" (.string subject)

/-- The post for an input goes to the webhook of the topic, or else to the one for other topics, and
carries what it should and nothing else. -/
structure Carries (webhooks : Webhooks) (resource : String) (input : Json) (id : String)
    (post : Post) : Prop where
  address_eq : ∃ topic, input.HasMember "TopicArn" (.string topic) ∧
    (webhooks.topics.find? topic = some post.address ∨
      topic ∉ webhooks.topics.names ∧ webhooks.fallback = some post.address)
  resource_eq : post.resource = resource
  body_iff : ∀ name value, post.body.HasMember name value ↔ Carried input id name value

/-- What a response to the post with an identifier means, and what it means if there is none. -/
inductive Means (resource id : String) : Option Response → Outcome → Prop
  | delivered {response : Response}
      (hstatus : 200 ≤ response.status.code ∧ response.status.code < 300) :
      Means resource id (some response) (.ok (.object [("MessageId", .string id)]))
  | throttled {response : Response} (hstatus : response.status.code = 429) :
      Means resource id (some response)
        (.error (.throttled resource (response.status.describe response.body)))
  | failed {response : Response}
      (hstatus : 500 ≤ response.status.code ∧ response.status.code < 600) :
      Means resource id (some response)
        (.error (.transport resource (some (response.status.describe response.body))))
  | refused {response : Response}
      (hsuccess : ¬ (200 ≤ response.status.code ∧ response.status.code < 300))
      (hthrottled : response.status.code ≠ 429)
      (hfailed : ¬ (500 ≤ response.status.code ∧ response.status.code < 600)) :
      Means resource id (some response)
        (.error (.rejected resource (response.status.describe response.body)))
  | unconnected : Means resource id none (.error (.transport resource none))

/-- The outcome is the one that the response to the post asks for, and names that very post. -/
inductive Yields (webhooks : Webhooks) (resource : String) (input : Json) (sent : Sent)
    (outcome : Outcome) : Prop
  | intro {id} (hcarries : Carries webhooks resource input id sent.post)
      (hmeans : Means resource id sent.exchange.response outcome)

/-- A call that hands one post to the network, and whose answer is made of the exchange. -/
structure Publishes (network : Network σ) (webhooks : Webhooks) (resource : String) (input : Json)
    (before : σ × List Sent) (call : Call) (sent : Sent) (after : σ × List Sent) : Prop where
  reply_eq : (invoker network.logged webhooks).reply before call.time resource input =
    (call.reply, after)
  log_eq : after.2 = before.2 ++ [sent]
  delay_eq : call.reply.delay = sent.exchange.delay
  yields : Yields webhooks resource input sent call.reply.outcome

/-- Calls made one after the other, each of which hands one of the posts to the network. -/
inductive Sends (network : Network σ) (webhooks : Webhooks) (resource : String) (input : Json) :
    σ × List Sent → List Call → List Sent → σ × List Sent → Prop
  | none {state} : Sends network webhooks resource input state [] [] state
  | call {before after last call sent calls sents}
      (head : Publishes network webhooks resource input before call sent after)
      (tail : Sends network webhooks resource input after calls sents last) :
      Sends network webhooks resource input before (call :: calls) (sent :: sents) last

/-- The policy of the route asks for another post after the exchange. -/
def Resends (route : Route σ) (sent : Sent) : Prop :=
  ∃ policy, route.retry = some policy ∧ policy.Resends sent.exchange.response

/-- An invocation that publishes an input in so many attempts at most. -/
structure Publication (route : Route (σ × List Sent)) (network : Network σ) (webhooks : Webhooks)
    (resource : String) (input : Json) (most : Nat) (before : σ × List Sent)
    (invocation : Invocation (σ × List Sent)) (earlier : List Sent) (last : Sent) : Prop where
  sends : Sends network webhooks resource input before invocation.calls (earlier ++ [last])
    invocation.world
  repeated : ∀ sent ∈ earlier, Resends route sent
  ending : ∃ left outcome, invocation.ending = some (left, outcome) ∧
    Yields webhooks resource input last outcome
  length_le : invocation.calls.length ≤ most
  exhausted : Resends route last → invocation.calls.length = most

/-! ## The input -/

variable {network : Network σ} {webhooks : Webhooks} {resource : String} {input : Json}

theorem bind_asString?_eq_some_iff {member : Option Json} {text : String} :
    member.bind Json.asString? = some text ↔ member = some (.string text) := by
  rw [Option.bind_eq_some_iff]
  constructor
  · rintro ⟨value, rfl, htext⟩
    cases value <;> cases htext
    rfl
  · rintro rfl
    exact ⟨_, rfl, rfl⟩

theorem messageText?_eq_some_iff {member : Option Json} {text : String} :
    messageText? member = some text ↔ ∃ value, member = some value ∧ InWords value text := by
  constructor
  · intro h
    cases member with
    | none => cases h
    | some value =>
        refine ⟨value, rfl, ?_⟩
        cases value with
        | null => cases h
        | string => cases h; exact InWords.verbatim
        | bool | number | array | object => cases h; exact InWords.compact nofun nofun
  · rintro ⟨value, rfl, hwords⟩
    cases hwords with
    | verbatim => rfl
    | compact hnull htext =>
        cases value with
        | null => exact absurd rfl hnull
        | string text => exact absurd rfl (htext text)
        | bool | number | array | object => rfl

theorem messageText?_eq_none_iff {member : Option Json} :
    messageText? member = none ↔ ∀ value, member = some value → value = .null := by
  cases member with
  | none => simp [messageText?]
  | some value => cases value <;> simp [messageText?]

theorem find?_webhook_eq_some_iff {topic address : String} :
    webhooks.find? topic = some address ↔
      webhooks.topics.find? topic = some address ∨
        topic ∉ webhooks.topics.names ∧ webhooks.fallback = some address := by
  rw [Webhooks.find?, ← NameTable.find?_eq_none]
  cases webhooks.topics.find? topic <;> simp

theorem find?_webhook_eq_none_iff {topic : String} :
    webhooks.find? topic = none ↔ topic ∉ webhooks.topics.names ∧ webhooks.fallback = none := by
  rw [Webhooks.find?, ← NameTable.find?_eq_none]
  cases webhooks.topics.find? topic <;> simp

/-- The message that the input stands for, and the webhook that it goes to. -/
structure Message.Represents (webhooks : Webhooks) (input : Json) (message : Message)
    (webhook : String) : Prop where
  topic : input.HasMember "TopicArn" (.string message.topic)
  text : ∃ value, input.HasMember "Message" value ∧ InWords value message.text
  subject_iff : ∀ subject,
    message.subject = some subject ↔ input.HasMember "Subject" (.string subject)
  webhook_eq : webhooks.find? message.topic = some webhook

theorem lacking_of_ofInput {lack : Lack} (h : Message.ofInput webhooks input = .error lack) :
    Lacking webhooks input := by
  rw [Message.ofInput] at h
  split at h
  · next htopic =>
      refine Lacking.topic fun topic hmember => ?_
      cases htopic.symm.trans (bind_asString?_eq_some_iff.mpr hmember)
  · next topic htopic =>
      split at h
      · next htext =>
          exact Lacking.message fun value hvalue => messageText?_eq_none_iff.mp htext value hvalue
      · split at h
        · next hwebhook =>
            obtain ⟨hunknown, hfallback⟩ := find?_webhook_eq_none_iff.mp hwebhook
            exact Lacking.webhook (bind_asString?_eq_some_iff.mp htopic) hunknown hfallback
        · cases h

theorem represents_of_ofInput {message : Message} {webhook : String}
    (h : Message.ofInput webhooks input = .ok (message, webhook)) :
    message.Represents webhooks input webhook := by
  rw [Message.ofInput] at h
  split at h
  · cases h
  · next topic htopic =>
      split at h
      · cases h
      · next text htext =>
          split at h
          · cases h
          · next hwebhook =>
              cases h
              exact ⟨bind_asString?_eq_some_iff.mp htopic, messageText?_eq_some_iff.mp htext,
                fun _ => bind_asString?_eq_some_iff, hwebhook⟩

theorem InWords.ne_null {value : Json} {text : String} (h : InWords value text) :
    value ≠ .null := by
  cases h with
  | verbatim => nofun
  | compact hnull => exact hnull

theorem InWords.unique {value : Json} {text other : String} (h : InWords value text)
    (hother : InWords value other) : text = other := by
  cases h with
  | verbatim =>
      cases hother with
      | verbatim => rfl
      | compact _ htext => exact absurd rfl (htext _)
  | compact _ htext =>
      cases hother with
      | verbatim => exact absurd rfl (htext _)
      | compact => rfl

theorem Message.Represents.not_lacking {message : Message} {webhook : String}
    (h : message.Represents webhooks input webhook) : ¬ Lacking webhooks input := by
  rintro (hnone | hnone | ⟨htopic, hunknown, hfallback⟩)
  · exact hnone _ h.topic
  · obtain ⟨value, hvalue, hwords⟩ := h.text
    exact hwords.ne_null (hnone value hvalue)
  · cases htopic.symm.trans h.topic
    cases (find?_webhook_eq_none_iff.mpr ⟨hunknown, hfallback⟩).symm.trans h.webhook_eq

/-! ## The post -/

theorem hasMember_toJson_iff {message : Message} {id : Uuid} {name : String} {value : Json} :
    (message.toJson id).HasMember name value ↔
      (name, value) = ("message_id", .string id.text) ∨
      (name, value) = ("topic", .string message.topic) ∨
      (name, value) = ("message", .string message.text) ∨
      ∃ subject, message.subject = some subject ∧ (name, value) = ("subject", .string subject) := by
  rw [Message.toJson, Json.hasMember_ofMembers_iff]
  · cases message.subject <;> simp
  · cases message.subject <;> simp [Entries.names]

/-- The body carries what it should. -/
theorem Message.Represents.carries {message : Message} {webhook : String}
    (h : message.Represents webhooks input webhook) (resource : String) (id : Uuid) :
    Carries webhooks resource input id.text ⟨webhook, resource, message.toJson id⟩ where
  address_eq := ⟨_, h.topic, find?_webhook_eq_some_iff.mp h.webhook_eq⟩
  resource_eq := rfl
  body_iff name value := by
    rw [hasMember_toJson_iff]
    constructor
    · rintro (heq | heq | heq | ⟨subject, hsubject, heq⟩) <;> cases heq
      · exact Carried.id
      · exact Carried.topic h.topic
      · obtain ⟨value, hvalue, hwords⟩ := h.text
        exact Carried.message hvalue hwords
      · exact Carried.subject ((h.subject_iff _).mp hsubject)
    · intro hcarried
      cases hcarried with
      | id => exact .inl rfl
      | topic htopic =>
          cases htopic.symm.trans h.topic
          exact .inr (.inl rfl)
      | message hmessage hwords =>
          obtain ⟨value, hvalue, htext⟩ := h.text
          cases hmessage.symm.trans hvalue
          rw [hwords.unique htext]
          exact .inr (.inr (.inl rfl))
      | subject hsubject => exact .inr (.inr (.inr ⟨_, (h.subject_iff _).mpr hsubject, rfl⟩))

/-! ## The response -/

/-- A publisher takes a response for what it means. -/
theorem means_outcome (resource : String) (id : Uuid) (response : Response) :
    Means resource id.text (some response) (outcome resource id response) := by
  rw [outcome]
  by_cases hdelivered : response.status.isSuccess = true
  · rw [if_pos hdelivered]
    exact Means.delivered (Status.isSuccess_iff.mp hdelivered)
  · rw [if_neg hdelivered]
    by_cases hthrottled : response.status = .tooManyRequests
    · rw [if_pos hthrottled]
      exact Means.throttled (Status.eq_tooManyRequests_iff.mp hthrottled)
    · rw [if_neg hthrottled]
      by_cases hfailed : response.status.isServerError = true
      · rw [if_pos hfailed]
        exact Means.failed (Status.isServerError_iff.mp hfailed)
      · rw [if_neg hfailed]
        apply Means.refused
        · exact mt Status.isSuccess_iff.mpr hdelivered
        · exact mt Status.eq_tooManyRequests_iff.mpr hthrottled
        · exact mt Status.isServerError_iff.mpr hfailed

theorem means_elim (resource : String) (id : Uuid) (response : Option Response) :
    Means resource id.text response
      (response.elim (.error (.transport resource none)) (outcome resource id)) := by
  cases response with
  | none => exact Means.unconnected
  | some response => exact means_outcome resource id response

/-- A policy that covers what a response means asks for another post after that response. -/
theorem Means.covers_iff {id : String} {response : Option Response} {failure : InvocationError}
    {policy : RetryPolicy} (h : Means resource id response (.error failure)) :
    policy.Covers failure ↔ policy.Resends response := by
  constructor
  · rintro (hclass | hclass | hclass)
    · cases h with
      | failed hstatus => exact RetryPolicy.Resends.failed hstatus hclass
      | unconnected => exact RetryPolicy.Resends.unconnected hclass
    · cases h
    · cases h with
      | throttled hstatus => exact RetryPolicy.Resends.throttled hstatus hclass
  · intro hresends
    cases h with
    | throttled hstatus =>
        cases hresends with
        | throttled _ hclass => exact RetryPolicy.Covers.throttled hclass
        | failed hfailed => omega
    | failed hstatus =>
        cases hresends with
        | throttled hthrottled => omega
        | failed _ hclass => exact RetryPolicy.Covers.transport hclass
    | refused _ hthrottled hfailed =>
        cases hresends with
        | throttled hstatus => exact absurd hstatus hthrottled
        | failed hstatus => exact absurd hstatus hfailed
    | unconnected =>
        cases hresends with
        | unconnected hclass => exact RetryPolicy.Covers.transport hclass

theorem Means.not_resends {id : String} {response : Option Response} {value : Json}
    {policy : RetryPolicy} (h : Means resource id response (.ok value)) :
    ¬ policy.Resends response := by
  intro hresends
  cases h with
  | delivered hstatus =>
      cases hresends with
      | throttled hthrottled => omega
      | failed hfailed => omega

/-- No policy asks for another post after a final answer, unless attempts have run out. -/
theorem Means.eq_of_final {route : Route σ} {id : String} {response : Option Response}
    {outcome : Outcome} {policy : RetryPolicy} {attempt : Nat}
    (h : Means resource id response outcome) (hfinal : route.Final attempt outcome)
    (hpolicy : route.retry = some policy) (hresends : policy.Resends response) :
    attempt = max 1 route.maxAttempts := by
  cases hfinal with
  | value => exact absurd hresends h.not_resends
  | uncovered hcovers => exact absurd (h.covers_iff.mpr hresends) (hcovers policy hpolicy)
  | last hlast => exact hlast

/-! ## One attempt -/

theorem reply_of_lacking (h : Lacking webhooks input) (network : Network σ) (world : σ) (now : Nat)
    (resource : String) :
    ∃ reason, (invoker network webhooks).reply world now resource input =
      (⟨0, .error (.rejected resource reason)⟩, world) := by
  cases hinput : Message.ofInput webhooks input with
  | error lack => exact ⟨lack.reason, by simp only [invoker, hinput]⟩
  | ok found => exact absurd h (represents_of_ofInput hinput).not_lacking

/-- The answer to an input that stands for a message is made of one exchange. -/
theorem reply_of_ofInput {message : Message} {webhook : String}
    (hinput : Message.ofInput webhooks input = .ok (message, webhook)) (hlegal : Legal resource)
    (network : Network σ) (world : σ) (now : Nat) :
    let fresh := network.freshId world
    let exchanged :=
      network.exchange fresh.2 now ⟨webhook, resource, message.toJson fresh.1⟩
    (invoker network webhooks).reply world now resource input =
      (⟨exchanged.1.delay, exchanged.1.response.elim (.error (.transport resource none))
        (outcome resource fresh.1)⟩, exchanged.2) := by
  intro fresh exchanged
  have hsend : network.send fresh.2 now ⟨webhook, resource, message.toJson fresh.1⟩ = exchanged :=
    if_pos (Post.isLegal_iff.mpr hlegal)
  simp only [invoker, hinput]
  rw [hsend]
  cases exchanged.1.response <;> rfl

/-- An input that lacks nothing is posted once, in whatever world. -/
theorem exists_publishes (hlegal : Legal resource) (h : ¬ Lacking webhooks input)
    {before after : σ × List Sent} {call : Call}
    (hreply : (invoker network.logged webhooks).reply before call.time resource input =
      (call.reply, after)) :
    ∃ sent, Publishes network webhooks resource input before call sent after := by
  cases hinput : Message.ofInput webhooks input with
  | error lack => exact absurd (lacking_of_ofInput hinput) h
  | ok found =>
      obtain ⟨message, webhook⟩ := found
      have hanswer :=
        hreply.symm.trans (reply_of_ofInput hinput hlegal network.logged before call.time)
      obtain ⟨hanswered, hafter⟩ := Prod.mk.inj hanswer
      refine ⟨_, hreply, congrArg Prod.snd hafter, congrArg Reply.delay hanswered, ?_⟩
      rw [hanswered]
      refine Yields.intro ((represents_of_ofInput hinput).carries resource _) ?_
      exact means_elim resource _ _

/-! ## The log -/

theorem send_logged (network : Network σ) (state : σ × List Sent) (now : Nat) (post : Post) :
    ∃ log, network.logged.send state now post =
      ((network.send state.1 now post).1, (network.send state.1 now post).2, log) := by
  rw [Network.send, Network.send]
  split
  · exact ⟨_, rfl⟩
  · exact ⟨_, rfl⟩

/-- A log has no influence on an answer. -/
theorem reply_logged {world next : σ} {now : Nat} {reply : Reply}
    (hreply : (invoker network webhooks).reply world now resource input = (reply, next))
    (log : List Sent) :
    ∃ later, (invoker network.logged webhooks).reply (world, log) now resource input =
      (reply, next, later) := by
  cases hinput : Message.ofInput webhooks input with
  | error lack =>
      simp only [invoker, hinput] at hreply ⊢
      cases hreply
      exact ⟨log, rfl⟩
  | ok found =>
      simp only [invoker, hinput] at hreply ⊢
      let fresh := network.logged.freshId (world, log)
      obtain ⟨later, hsend⟩ :=
        send_logged network fresh.2 now ⟨found.2, resource, found.1.toJson fresh.1⟩
      rw [hsend]
      cases hreply
      exact ⟨later, rfl⟩

/-- Attempts go the same way whether the network keeps a log or not. -/
theorem attempted_logged {plain : Route σ} {noting : Route (σ × List Sent)}
    {horizon : Clock.Horizon} (hplain : plain.invoker = invoker network webhooks)
    (hnoting : noting.invoker = invoker network.logged webhooks)
    (hretry : noting.retry = plain.retry) {spare attempt now : Nat} {world : σ}
    {invocation : Invocation σ}
    (h : plain.Attempted resource input horizon spare attempt now world invocation)
    (log : List Sent) :
    ∃ later, noting.Attempted resource input horizon spare attempt now (world, log)
      ⟨invocation.calls, invocation.ending, (invocation.world, later)⟩ := by
  have hname : plain.invoker.name = noting.invoker.name := by
    rw [hplain, hnoting]
    rfl
  have hanswer {world next : σ} {now : Nat} {reply : Reply}
      (hreply : plain.invoker.reply world now resource input = (reply, next)) (log : List Sent) :
      ∃ later, noting.invoker.reply (world, log) now resource input = (reply, next, later) := by
    rw [hplain] at hreply
    rw [hnoting]
    exact reply_logged hreply log
  have hretries {attempt : Nat} {failure : InvocationError} :
      plain.retries attempt failure = noting.retries attempt failure := by
    rw [Route.retries, Route.retries, hretry]
  have hwait {attempt : Nat} : plain.wait attempt = noting.wait attempt := by
    rw [Route.wait, Route.wait, hretry]
  induction h generalizing log with
  | unanswered hreply hlate =>
      obtain ⟨later, hreply⟩ := hanswer hreply log
      rw [hname]
      exact ⟨later, Route.Attempted.unanswered hreply hlate⟩
  | answered hreply hintime hfinal =>
      obtain ⟨later, hreply⟩ := hanswer hreply log
      simp only [hretries] at hfinal
      rw [hname]
      exact ⟨later, Route.Attempted.answered hreply hintime hfinal⟩
  | abandoned hreply hintime hfailure hretry hlate =>
      obtain ⟨later, hreply⟩ := hanswer hreply log
      rw [hretries] at hretry
      rw [hwait] at hlate
      rw [hname]
      exact ⟨later, Route.Attempted.abandoned hreply hintime hfailure hretry hlate⟩
  | retried hreply hintime hfailure hretry hagain _ ih =>
      obtain ⟨middle, hreply⟩ := hanswer hreply log
      obtain ⟨later, htail⟩ := ih middle
      rw [hretries] at hretry
      rw [hwait] at hagain htail
      rw [hname]
      exact ⟨later, Route.Attempted.retried hreply hintime hfailure hretry hagain htail⟩

/-- Whether the network keeps a log makes no difference to the attempts. -/
theorem attempts_logged {plain : Route σ} {noting : Route (σ × List Sent)}
    (hplain : plain.invoker = invoker network webhooks)
    (hnoting : noting.invoker = invoker network.logged webhooks)
    (hretry : noting.retry = plain.retry) (horizon : Clock.Horizon)
    (spare attempt now : Nat) (world : σ) (log : List Sent) :
    let invocation := Registry.attempts plain resource input horizon spare attempt now world
    ∃ later, Registry.attempts noting resource input horizon spare attempt now (world, log) =
      ⟨invocation.calls, invocation.ending, (invocation.world, later)⟩ := by
  intro invocation
  obtain ⟨later, hattempted⟩ :=
    attempted_logged hplain hnoting hretry (Registry.attempted_attempts _ _ _ world) log
  exact ⟨later, Registry.attempts_of_attempted hattempted⟩

/-! ## All attempts -/

namespace Sends

variable {before after : σ × List Sent} {calls : List Call} {sents : List Sent}

theorem log_eq (h : Sends network webhooks resource input before calls sents after) :
    after.2 = before.2 ++ sents := by
  induction h with
  | none => rw [List.append_nil]
  | call head _ ih => rw [ih, head.log_eq, List.append_assoc, List.singleton_append]

theorem length_eq (h : Sends network webhooks resource input before calls sents after) :
    calls.length = sents.length := by
  induction h with
  | none => rfl
  | call _ _ ih => rw [List.length_cons, List.length_cons, ih]

end Sends

variable {route : Route (σ × List Sent)} {state : σ × List Sent}
  {invocation : Invocation (σ × List Sent)}

/-- An input that lacks something is refused once and for all. -/
theorem refused_of_lacking {spare attempt now : Nat}
    (hinvoker : route.invoker = invoker network.logged webhooks) (hlacking : Lacking webhooks input)
    (h : route.Attempted resource input none spare attempt now state invocation) :
    invocation.world = state ∧ invocation.calls.length = 1 ∧
      ∃ left reason, invocation.ending = some (left, .error (.rejected resource reason)) := by
  obtain ⟨reason, hrefused⟩ := reply_of_lacking hlacking network.logged state now resource
  rw [← hinvoker] at hrefused
  cases h with
  | unanswered _ hlate | abandoned _ _ _ _ hlate => cases hlate
  | answered hreply =>
      cases hreply.symm.trans hrefused
      exact ⟨rfl, rfl, _, reason, rfl⟩
  | retried hreply _ hfailure hretry =>
      cases hreply.symm.trans hrefused
      cases hfailure
      obtain ⟨_, _, _, hcovers⟩ := Route.retries_iff.mp hretry
      cases hcovers

/-- From any attempt on, an input that lacks nothing is published in the attempts that are left. -/
theorem exists_publication {spare attempt now : Nat}
    (hinvoker : route.invoker = invoker network.logged webhooks) (hlegal : Legal resource)
    (hlacks : ¬ Lacking webhooks input)
    (h : route.Attempted resource input none spare attempt now state invocation)
    (hfirst : 1 ≤ attempt) (hspare : attempt + spare = max 1 route.maxAttempts) :
    ∃ earlier last, Publication route network webhooks resource input (spare + 1) state invocation
      earlier last := by
  induction h with
  | unanswered _ hlate | abandoned _ _ _ _ hlate => cases hlate
  | @answered spare attempt now state reply next hreply _ hfinal =>
      rw [hinvoker] at hreply
      obtain ⟨last, hlast⟩ : ∃ last, Publishes network webhooks resource input state
          ⟨now, route.invoker.name, resource, input, reply⟩ last next :=
        exists_publishes hlegal hlacks hreply
      refine ⟨[], last, ?_⟩
      exact
        { sends := Sends.call hlast Sends.none
          repeated := fun _ hnone => absurd hnone List.not_mem_nil
          ending := ⟨_, _, rfl, hlast.yields⟩
          length_le := Nat.le_add_left 1 _
          exhausted := by
            rintro ⟨policy, hpolicy, hresends⟩
            obtain ⟨_, hmeans⟩ := hlast.yields
            have hlater := (Route.final_iff hfirst hspare).mpr hfinal
            have hmost := hmeans.eq_of_final hlater hpolicy hresends
            show 1 = spare + 1
            omega }
  | @retried spare attempt now state reply next failure rest hreply _ hfailure hretry _ _ ih =>
      rw [hinvoker] at hreply
      obtain ⟨sent, hsent⟩ : ∃ sent, Publishes network webhooks resource input state
          ⟨now, route.invoker.name, resource, input, reply⟩ sent next :=
        exists_publishes hlegal hlacks hreply
      obtain ⟨earlier, last, hrest⟩ := ih (Nat.le_add_left 1 _) (by omega)
      refine ⟨sent :: earlier, last, ?_⟩
      exact
        { sends := Sends.call hsent hrest.sends
          repeated := by
            refine List.forall_mem_cons.mpr ⟨?_, hrest.repeated⟩
            obtain ⟨policy, hpolicy, -, hcovers⟩ := Route.retries_iff.mp hretry
            obtain ⟨_, hmeans⟩ := hsent.yields
            rw [hfailure] at hmeans
            exact ⟨policy, hpolicy, hmeans.covers_iff.mp hcovers⟩
          ending := hrest.ending
          length_le := Nat.succ_le_succ hrest.length_le
          exhausted := fun hresends => congrArg Nat.succ (hrest.exhausted hresends) }

/-- An invocation of a publisher posts nothing and is refused at its only attempt exactly if the
input lacks something. Any other input is posted once in each attempt. After all posts but the last
the response, or that there was none, asks for another one, and the policy of the route grants it.
What came of the last post is what the invocation yields. -/
theorem invoke_publisher {registry : Registry (σ × List Sent)} {route : Route (σ × List Sent)}
    {network : Network σ} {webhooks : Webhooks} {resource : String}
    (hroute : registry.route? resource = some route)
    (hinvoker : route.invoker = invoker network.logged webhooks) (hlegal : Legal resource)
    (input : Json) (now : Nat) (world : σ) (log : List Sent) :
    let invocation := registry.invoke resource input none now (world, log)
    (invocation.world.2 = log ∧ invocation.calls.length = 1 ∧
        (∃ left reason, invocation.ending = some (left, .error (.rejected resource reason))) ↔
      Lacking webhooks input) ∧
    (¬ Lacking webhooks input → ∃ earlier last, Publication route network webhooks resource input
      (max 1 route.maxAttempts) (world, log) invocation earlier last) := by
  intro invocation
  have hspare : 1 + route.spares = max 1 route.maxAttempts := by
    rw [Nat.add_comm, route.spares_add_one]
  have hattempted := Registry.attempted_invoke hroute input none now (world, log)
  have hpublished (hlacks : ¬ Lacking webhooks input) :
      ∃ earlier last, Publication route network webhooks resource input (max 1 route.maxAttempts)
        (world, log) invocation earlier last := by
    rw [← hspare, Nat.add_comm]
    exact exists_publication hinvoker hlegal hlacks hattempted (Nat.le_refl 1) hspare
  refine ⟨⟨fun hrefused => ?_, fun hlacking => ?_⟩, hpublished⟩
  · by_contra hlacks
    obtain ⟨earlier, last, hpublication⟩ := hpublished hlacks
    have hsent := hrefused.1.symm.trans hpublication.sends.log_eq
    simp at hsent
  · obtain ⟨hworld, hcalls, hending⟩ := refused_of_lacking hinvoker hlacking hattempted
    exact ⟨congrArg Prod.snd hworld, hcalls, hending⟩

/-- A network on which the first post meets a server that is down. -/
def recovering : Network Nat where
  exchange count _ _ := (⟨5, some ⟨⟨if count = 0 then 503 else 202⟩, [], ""⟩⟩, count + 1)
  freshId count := (⟨BitVec.ofNat 128 count⟩, count)

def hooks : Webhooks := ⟨∅, some "/fallback"⟩

def hookRoute : Route (Nat × List Sent) :=
  ⟨"sns:", invoker recovering.logged hooks, some { maxAttempts := 5 }⟩

def hookRegistry : Registry (Nat × List Sent) := Registry.register {} hookRoute

def notice : Json := .ofMembers [("TopicArn", .string "volumes"), ("Message", .ofNat 1)]

/-- The notice is posted twice, and has the identifier of the second post. -/
theorem invoke_publisher_of_recovering :
    hookRegistry.route? "sns:publish" = some hookRoute ∧
      ∃ first last, Publication hookRoute recovering hooks "sns:publish" notice 5 (0, [])
        (hookRegistry.invoke "sns:publish" notice none 0 (0, [])) [first] last := by
  have hroute : hookRegistry.route? "sns:publish" = some hookRoute := rfl
  have hinvoker : hookRoute.invoker = invoker recovering.logged hooks := rfl
  have hlegal : Legal "sns:publish" := by decide
  have hlacks : ¬ Lacking hooks notice := by
    have hinput : ∃ message, Message.ofInput hooks notice = .ok (message, "/fallback") :=
      ⟨_, rfl⟩
    obtain ⟨message, hinput⟩ := hinput
    exact (represents_of_ofInput hinput).not_lacking
  obtain ⟨earlier, last, hpublication⟩ :=
    (invoke_publisher hroute hinvoker hlegal notice 0 0 []).2 hlacks
  have hcalls : (hookRegistry.invoke "sns:publish" notice none 0 (0, [])).calls.length = 2 := by
    decide +kernel
  have hlength := hpublication.sends.length_eq
  rw [hcalls, List.length_append, List.length_singleton] at hlength
  obtain ⟨first, rfl⟩ : ∃ first, earlier = [first] := List.length_eq_one_iff.mp (by omega)
  exact ⟨hroute, first, last, hpublication⟩

end Topic

end StateFlow
