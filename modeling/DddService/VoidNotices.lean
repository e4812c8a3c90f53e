import DddService.Network
import DddService.Notifications

/- Void notices, from the transaction to the service they are for. The service serves calls
   on one publisher, and what it sends goes to its exchange, where others publish and take
   deliveries as well. For each aggregate that the table of events says was voided, a message
   that names it was published for `your-aggregate-service`: it waits in that service's
   queue, or the handler there returned on it, or it was given up after its last attempt
   (`void_notices_arrive`). -/
namespace DddService
open Hoare

/-- `config.rabbitmq_exchange_name` -/
def rabbitmqExchangeName : String := "ddd-service-channel"

/-- `to_camel_case_json` of a `YourAggregateVoided` -/
def Pushed.toCamelCaseJson (p : Pushed) : Json :=
  .obj [("yourAggregateId", .str p.payload.yourAggregateId)]

def MessageData.map {α β : Type} (f : α → β) : MessageData α → MessageData β
  | .list xs => .list (xs.map f)
  | .dict d => .dict ⟨d.entries.map fun e => (e.1, f e.2), by rw [List.map_map]; exact d.nodup⟩

/-- The message with its data as they are sent. -/
def QueueMessage.asSent (m : QueueMessage Pushed) : QueueMessage Json :=
  { m with data := m.data.map Pushed.toCamelCaseJson }

/-- A call to the service, or something else that happens on an exchange. -/
inductive ServiceEvent where
  | attempt (a : Attempt)
  | network (e : NetworkEvent)

/-- The service, and what has happened on the exchanges. -/
structure Deployment where
  world : World
  events : List NetworkEvent

section
variable (mixin : QueueMessageMixin) (env : Env)

/-- `basic_publish` of a message. -/
def publishing (p : String × QueueMessage Pushed) : NetworkEvent :=
  .publish rabbitmqExchangeName p.1 (mixin.toPayload p.2.asSent)

namespace Deployment

def step (d : Deployment) : ServiceEvent → Deployment
  | .attempt a =>
    let world := a.run env d.world
    ⟨world, d.events ++ (world.sent.drop d.world.sent.length).map (publishing mixin)⟩
  | .network e => { d with events := d.events ++ [e] }

/-- In one context, from an empty database and empty queues. -/
def run (traceId : Option String) (es : List ServiceEvent) : Deployment :=
  es.foldl (step mixin env) ⟨stateOf (Call.enterContext env traceId (World.init [])), []⟩

end Deployment

end

/-! ## What a call sends comes last -/

/-- Nothing that was sent is taken back. -/
def SendsOn (w w' : World) : Prop := w.sent <+: w'.sent

instance : IsPreorder World SendsOn where
  refl _ := List.prefix_rfl
  trans _ _ _ h h' := h.trans h'

namespace SendsOn

theorem awaitPoint : Moves SendsOn awaitPoint := by
  intro w
  rw [awaitPoint_run]
  cases w.nextFault <;> exact List.prefix_rfl

theorem publishOne (routingKey key : String) (message : QueueMessage Pushed) :
    Moves SendsOn (RabbitMqPublisher.publishOne routingKey key message) := by
  have hpublish : Moves SendsOn (RabbitMqPublisher.basicPublish routingKey message) :=
    awaitPoint.bind fun _ w => List.prefix_append ..
  exact awaitPoint.bind fun _ => hpublish.bind fun _ w => List.prefix_rfl

theorem publishMessages : Moves SendsOn RabbitMqPublisher.publishMessages := by
  have hopen : Moves SendsOn RabbitMqPublisher.openConnection :=
    awaitPoint.tryCatch fun e => Moves.throw _
  have hcopy : ∀ copy, Moves SendsOn (RabbitMqPublisher.publishCopy copy) := by
    intro copy
    unfold RabbitMqPublisher.publishCopy
    refine Moves.forM (fun c : String × Dict String (QueueMessage Pushed) => ?_) _
    exact Moves.forM (fun f : String × QueueMessage Pushed => publishOne c.1 f.1 f.2) _
  have hbody : Moves SendsOn (do
      RabbitMqPublisher.publishCopy (← get).messages
      RabbitMqPublisher.cleanMessages : M Unit) :=
    Moves.get.bind fun w => (hcopy w.messages).bind fun _ w => List.prefix_rfl
  refine (Moves.scope hopen awaitPoint hbody).tryCatch fun e => ?_
  exact Moves.ite (Moves.pure _) (Moves.throw _)

end SendsOn

section
variable {env : Env} {w : World}

/-- A method sends its messages when its scope is left. -/
theorem Method.sendsOn {m : Method} {c : Call} (hm : c.method env = some m) (h : Quiescent w)
    (hclean : w.messages = .empty) : SendsOn w (stateOf (m.run env w)) := by
  have hexit := (Method.exit_told hm h hclean).1
  -- the scope sends nothing, however it is left
  have hscope : (stateOf (SessionProvider.withSession
      (ControllerBase.guarded env m.traceId m.func) w)).sent = w.sent := by
    rcases withSession_cases h.count (guarded_live env m.traceId (Body.method env hm) w) with
      ⟨_, s, _, hrun⟩ | ⟨_, e, w', hrun, ha⟩
    · unfold Method.exit at hexit
      rw [hrun]
      revert hexit
      cases ControllerBase.guarded env m.traceId m.func w.entered with
      | ok a w₁ => exact id
      | error e w₁ => exact id
    · rw [hrun]
      exact ha.sent.trans hexit
  -- after it messages are only added
  have hafter : ∀ result : m.Result, Moves SendsOn (do
      if (← get).messages.isEmpty then pure result
      else do
        RabbitMqPublisher.publishMessages
        pure result : M m.Result) := fun result =>
    Moves.get.bind fun w => Moves.ite (Moves.pure _)
      (SendsOn.publishMessages.bind fun _ => Moves.pure _)
  unfold Method.run ControllerBase.connectDbSession
  rw [bind_run]
  cases hrun : SessionProvider.withSession (ControllerBase.guarded env m.traceId m.func) w with
  | error e w₁ =>
    rw [hrun] at hscope
    have hsame : w₁.sent = w.sent := hscope
    show w.sent <+: w₁.sent
    rw [hsame]
  | ok a w₁ =>
    rw [hrun] at hscope
    have hsame : w₁.sent = w.sent := hscope
    have hsent := hafter a w₁
    unfold SendsOn at hsent ⊢
    rw [hsame] at hsent
    exact hsent

/-- Neither does a call take anything back that was sent. -/
theorem Matched.sendsOn (h : Matched w) (a : Attempt) : SendsOn w (a.run env w) := by
  have hbegin : Quiescent (a.begin w) := ⟨h.count, h.unmixed⟩
  unfold Attempt.run
  cases hm : a.call.method env with
  | some m =>
    rw [Call.run_method hm]
    exact Method.sendsOn hm hbegin h.clean
  | none =>
    cases hcall : a.call with
    | newContext traceId =>
      obtain ⟨t, drawn, _, hrun⟩ := Call.newContext_run env traceId (a.begin w)
      rw [hrun]
      exact List.prefix_rfl
    | _ => rw [hcall] at hm; cases hm

end

/-! ## Every notice is published -/

/-- The message tells that the aggregate was voided. -/
structure QueueMessage.NotifiesOf (m : QueueMessage Pushed) (id : String) : Prop where
  functionName : m.functionName = YourAggregateEventHandler.yourAggregateVoidedFunction
  named : id ∈ m.data.items.map (·.payload.yourAggregateId)

theorem mem_notified {sent : List (String × QueueMessage Pushed)} {id : String}
    (h : id ∈ notified sent) : ∃ m : QueueMessage Pushed,
      (YourAggregateEventHandler.yourAggregateService, m) ∈ sent ∧ m.NotifiesOf id := by
  unfold notified at h
  obtain ⟨⟨routingKey, m⟩, hp, hid⟩ := List.mem_flatMap.mp h
  obtain ⟨hsent, hfor⟩ := List.mem_filter.mp hp
  obtain ⟨hkey, hname⟩ := of_decide_eq_true hfor
  have hkey : routingKey = YourAggregateEventHandler.yourAggregateService := hkey
  subst hkey
  exact ⟨m, hsent, hname, hid⟩

/-- The service's calls are matched, and what it sent is on the exchange. -/
structure Deployment.Forwards (mixin : QueueMessageMixin) (d : Deployment) : Prop where
  matched : Matched d.world
  forwarded : ∀ p ∈ d.world.sent, publishing mixin p ∈ d.events

section
variable {mixin : QueueMessageMixin} {env : Env} {d : Deployment}

theorem Deployment.Forwards.attempt (h : d.Forwards mixin) {a : Attempt}
    (ha : a.FailsEarly env d.world) : (d.step mixin env (.attempt a)).Forwards mixin where
  matched := h.matched.attempt ha
  forwarded p hp := by
    have hsends : SendsOn d.world (a.run env d.world) := h.matched.sendsOn a
    obtain ⟨new, hnew⟩ := hsends
    have hdrop : (a.run env d.world).sent.drop d.world.sent.length = new := by
      rw [← hnew]
      exact List.drop_left
    show _ ∈ d.events ++ _
    rw [hdrop]
    have hp : p ∈ (a.run env d.world).sent := hp
    rw [← hnew] at hp
    rcases List.mem_append.mp hp with hold | hp
    · exact List.mem_append_left _ (h.forwarded p hold)
    · exact List.mem_append_right _ (List.mem_map_of_mem hp)

/-- What others do on an exchange takes nothing away. -/
theorem Deployment.Forwards.network (h : d.Forwards mixin) (e : NetworkEvent) :
    (d.step mixin env (.network e)).Forwards mixin where
  matched := h.matched
  forwarded p hp := List.mem_append_left _ (h.forwarded p hp)

end

/-- Every call in the run fails early, if it fails. -/
def FailEarly (mixin : QueueMessageMixin) (env : Env) (traceId : Option String)
    (es : List ServiceEvent) : Prop :=
  ∀ p a, p ++ [.attempt a] <+: es → a.FailsEarly env (Deployment.run mixin env traceId p).world

theorem Deployment.run_forwards {mixin : QueueMessageMixin} {env : Env} {traceId : Option String}
    {es : List ServiceEvent} (h : FailEarly mixin env traceId es) :
    (Deployment.run mixin env traceId es).Forwards mixin := by
  have hinit : Matched (stateOf (Call.enterContext env traceId (World.init []))) := by
    have hstart : Matched (World.init []) := ⟨⟨rfl, fun _ => Or.inl rfl⟩, rfl, rfl⟩
    have hnone : Attempt.FailsEarly env ⟨.newContext traceId, []⟩ (World.init []) :=
      ⟨fun _ hm => (nomatch hm), fun _ hm => (nomatch hm)⟩
    exact hstart.attempt hnone
  have hsent : (stateOf (Call.enterContext env traceId (World.init []))).sent = [] := by
    obtain ⟨t, drawn, _, hrun⟩ := Call.newContext_run env traceId (World.init [])
    exact congrArg World.sent hrun
  refine foldl_induction (I := fun d : Deployment => d.Forwards mixin)
    ⟨hinit, fun p hp => ?_⟩ es ?_
  · have hp : p ∈ (stateOf (Call.enterContext env traceId (World.init []))).sent := hp
    rw [hsent] at hp
    cases hp
  · intro p e hp hi
    cases e with
    | attempt a => exact hi.attempt (h p a hp)
    | network e => exact hi.network e

/-! ## Every notice gets there -/

/-- Where publish number `k` of `body` is, for a service whose queue is `b`: its letter still
    waits, the handler returned on it, or it was given up on its last attempt. -/
inductive Inbox.Holds (mixin : QueueMessageMixin) (b : Inbox) (k : Nat) (body : Json) : Prop where
  | waits (l : Letter) (hl : l ∈ b.waiting) (ho : l.origin = k)
      (hsame : SameMessage mixin body l.queued.body)
  | returned (hk : k ∈ b.returned)
  | givenUp (l : Letter) (hl : l ∈ b.givenUp) (ho : l.origin = k)
      (hsame : SameMessage mixin body l.queued.body)
      (hlast : Queue.attemptsOf mixin l.queued.body ≤ 1)

theorem Inbox.Answers.holds {mixin : QueueMessageMixin} {log : List (String × String × Json)}
    {c : Subscriber} {b : Inbox} (h : b.Answers mixin log c) {k : Nat} {body : Json}
    (hk : MeantFor log c k body) : b.Holds mixin k body := by
  rcases h.kept k body hk with ⟨l, hl, ho⟩ | hret | ⟨l, hl, ho⟩
  · exact .waits l hl ho (h.same hk (Or.inl hl) ho)
  · exact .returned hret
  · exact .givenUp l hl ho (h.same hk (Or.inr hl) ho) (h.lastAttempt l hl).1

/-- The services that void notices are for. -/
structure Subscriber.TakesNotices (c : Subscriber) : Prop where
  exchange : c.exchange = rabbitmqExchangeName
  service : c.service = YourAggregateEventHandler.yourAggregateService

theorem Subscriber.TakesNotices.named {c : Subscriber} (h : c.TakesNotices) :
    c.IsNamed rabbitmqExchangeName YourAggregateEventHandler.yourAggregateService := by
  refine ⟨h.exchange, ?_⟩
  rw [h.service]
  decide

/-- Calls of the service, publishes and deliveries in any order, the calls failing only
    early and with an `Exception`: of every aggregate that the table of events says was voided,
    a message went to the service that takes notices, and it is in its queue, was handled, or
    was given up on its last attempt. -/
theorem void_notices_arrive (mixin : RereadMixin) (env : Env) (traceId : Option String)
    (es : List ServiceEvent) (h : FailEarly mixin.toQueueMessageMixin env traceId es)
    {c : Subscriber} (hc : c.TakesNotices) :
    let d := Deployment.run mixin.toQueueMessageMixin env traceId es
    let network := Network.run mixin.toQueueMessageMixin d.events
    ∀ id ∈ d.world.db.voidedIds, ∃ (m : QueueMessage Pushed) (k : Nat), m.NotifiesOf id ∧
      MeantFor (published d.events) c k (mixin.toPayload m.asSent) ∧
      (network.inbox c).Holds mixin.toQueueMessageMixin k (mixin.toPayload m.asSent) := by
  intro d network id hid
  have hd : d.Forwards mixin.toQueueMessageMixin := Deployment.run_forwards h
  rw [← hd.matched.told] at hid
  obtain ⟨m, hm, hnotifies⟩ := mem_notified hid
  have hevent := hd.forwarded _ hm
  have hlog : (rabbitmqExchangeName, YourAggregateEventHandler.yourAggregateService,
      mixin.toPayload m.asSent) ∈ published d.events :=
    List.mem_filterMap.mpr ⟨_, hevent, rfl⟩
  obtain ⟨k, hk⟩ := List.mem_iff_getElem?.mp hlog
  have hmeant : MeantFor (published d.events) c k (mixin.toPayload m.asSent) :=
    ⟨_, _, hk, hc.named⟩
  exact ⟨m, k, hnotifies, hmeant, (Network.run_answers mixin d.events c).2.holds hmeant⟩

/-- A service of that name, with its queue of the exchange. -/
def Subscriber.yourAggregateService : Subscriber where
  exchange := "ddd-service-channel"
  service := "your-aggregate-service"
  plain := ⟨by decide, by decide, by decide⟩

/-- An aggregate is created and then voided, and the notice of it waits. -/
theorem void_notices_arrive_voided :
    let mixin : RereadMixin := .camelCase
    let es : List ServiceEvent := [.attempt ⟨.createOne, []⟩, .attempt ⟨.voidOne "a", []⟩]
    let d := Deployment.run mixin.toQueueMessageMixin .plain none es
    let network := Network.run mixin.toQueueMessageMixin d.events
    ∃ (m : QueueMessage Pushed) (k : Nat), m.NotifiesOf "a" ∧
      MeantFor (published d.events) .yourAggregateService k (mixin.toPayload m.asSent) ∧
      (network.inbox .yourAggregateService).Holds mixin.toQueueMessageMixin k
        (mixin.toPayload m.asSent) := by
  intro mixin es
  have hfail : FailEarly mixin.toQueueMessageMixin .plain none es := by
    have hfails : ∀ p e, p ++ [e] <+: es → ∀ a, e = .attempt a →
        a.FailsEarly .plain (Deployment.run mixin.toQueueMessageMixin .plain none p).world := by
      apply forall_steps
      intro k a he
      apply Attempt.failsEarly_of
      match k with
      | ⟨0, _⟩ =>
        cases he
        dsimp only
        decide +kernel
      | ⟨1, _⟩ =>
        cases he
        dsimp only
        decide +kernel
    exact fun p a hp => hfails p _ hp a rfl
  let d := Deployment.run mixin.toQueueMessageMixin .plain none es
  have hvoided : "a" ∈ d.world.db.voidedIds := by decide +kernel
  exact void_notices_arrive mixin .plain none es hfail ⟨rfl, rfl⟩ "a" hvoided

end DddService
