import StateFlow.Http.Exchange
import StateFlow.Invocation.Basic
import StateFlow.Json.Printer
import StateFlow.NameTable

/-! # Publishing to topics

The input of a task names a topic and holds a message. The message is posted to the webhook of the
topic, under an identifier of its own which is also the value of the task. -/

namespace StateFlow.Topic

open Http (Network Response)

/-- The name under which publishers are registered. -/
def name : String := "topic_webhook"

/-- Where messages go. -/
structure Webhooks where
  topics : NameTable String
  /-- For topics without a webhook of their own. -/
  fallback : Option String

/-- The webhook of a topic. -/
def Webhooks.find? (webhooks : Webhooks) (topic : String) : Option String :=
  match webhooks.topics.find? topic with
  | some webhook => some webhook
  | none => webhooks.fallback

/-- A message for a topic. -/
structure Message where
  topic : String
  subject : Option String
  text : String
deriving DecidableEq

/-- What an input lacks. -/
inductive Lack where
  | noTopic
  | noMessage
  | noWebhook (topic : String)
deriving DecidableEq

def Lack.reason : Lack → String
  | noTopic => "input requires a string 'TopicArn'"
  | noMessage => "input requires a 'Message'"
  | noWebhook topic => "no webhook configured for topic '" ++ topic ++ "'"

/-- The text of a message: a text as it stands, any other value as a compact document. -/
def messageText? : Option Json → Option String
  | some (.string text) => some text
  | some .null | none => none
  | some value => some value.compact

/-- The message that an input stands for, and where it goes. -/
def Message.ofInput (webhooks : Webhooks) (input : Json) : Except Lack (Message × String) :=
  let member (name : String) := Entries.find? name input.members
  match (member "TopicArn").bind Json.asString? with
  | none => .error .noTopic
  | some topic =>
    match messageText? (member "Message") with
    | none => .error .noMessage
    | some text =>
      match webhooks.find? topic with
      | none => .error (.noWebhook topic)
      | some webhook => .ok (⟨topic, (member "Subject").bind Json.asString?, text⟩, webhook)

/-- What is posted. -/
def Message.toJson (message : Message) (id : Uuid) : Json :=
  .ofMembers <|
    [("message_id", .string id.text), ("topic", .string message.topic),
     ("message", .string message.text)]
    ++ (message.subject.map fun subject => ("subject", Json.string subject)).toList

/-- What a response to a message means. -/
def outcome (resource : String) (id : Uuid) (response : Response) : Outcome :=
  let reason := response.status.describe response.body
  if response.status.isSuccess then .ok (.ofMembers [("MessageId", .string id.text)])
  else if response.status = .tooManyRequests then .error (.throttled resource reason)
  else if response.status.isServerError then .error (.transport resource (some reason))
  else .error (.rejected resource reason)

/-- The publisher for some webhooks. -/
def invoker {σ : Type} (network : Network σ) (webhooks : Webhooks) : Invoker σ where
  name := name
  reply world now resource input :=
    match Message.ofInput webhooks input with
    | .error lack => (⟨0, .error (.rejected resource lack.reason)⟩, world)
    | .ok (message, webhook) =>
      let (id, world) := network.freshId world
      let (exchange, world) := network.send world now ⟨webhook, resource, message.toJson id⟩
      let outcome := match exchange.response with
        | none => .error (.transport resource none)
        | some response => outcome resource id response
      (⟨exchange.delay, outcome⟩, world)

end StateFlow.Topic
