import DddService.Lib.Topic
import DddService.Retry
import Mathlib.Data.List.InsertIdx
import Mathlib.Logic.Function.Basic

/- Services on a topic exchange. Each service consumes one queue of an exchange, which is
   bound by `#.{service}.#`, and its consumer publishes with the binding's own text as the
   routing key: what it puts off or tries again comes back to its own queue, and reaches
   no other.

   So the network is as many single queues, each of them seeing only what is meant for it
   (`network_queue`); and whatever is published for a service is kept, copied, handled or
   given up, but not lost, and nothing else is ever handled (`network_delivers`). A letter
   carries the number of the publish it comes from; nothing reads that. -/
namespace DddService
open Hoare

/-! ## The exchange -/

/-- A service, as the consumer of its queue of an exchange. -/
structure Subscriber where
  exchange : String
  service : String
  plain : Topic.IsPlain service.toList
  deriving DecidableEq

/-- `routing_key_with_hash` -/
def routingKeyWithHash (service : String) : String := "#." ++ service ++ ".#"

/-- Whether the exchange gives the queue what is published with the key. -/
def Subscriber.binds (c : Subscriber) (exchange routingKey : String) : Bool :=
  c.exchange = exchange && Topic.binds (routingKeyWithHash c.service).toList routingKey.toList

/-- A message in a queue, and the number of the publish it comes from. -/
structure Letter where
  origin : Nat
  queued : Queued

/-- A service's queue: what waits, the letters on which the handler returned, by their
    origins, and those given up. -/
structure Inbox where
  waiting : List Letter
  returned : List Nat
  givenUp : List Letter

structure Network where
  sent : Nat
  inbox : Subscriber → Inbox

/-- Somebody publishes, or the broker delivers a letter to its service. -/
inductive NetworkEvent where
  | publish (exchange routingKey : String) (body : Json)
  | deliver (c : Subscriber) (i : Nat) (t : Turn)

def Inbox.receive (ls : List Letter) (b : Inbox) : Inbox := { b with waiting := b.waiting ++ ls }

/-- What a delivery of `l` that did `es` leaves in the queue, its copies aside. -/
def Inbox.settle (i : Nat) (l : Letter) (es : List Effect) (b : Inbox) : Inbox where
  waiting := if .acked ∈ es then b.waiting.eraseIdx i else b.waiting.set i l
  returned := if .handled none ∈ es then b.returned ++ [l.origin] else b.returned
  givenUp := if GivesUp es then b.givenUp ++ [l] else b.givenUp

/-- The letter after a delivery that did `es`. -/
def Letter.after (l : Letter) (es : List Effect) : Letter :=
  { l with queued := { l.queued with raised := l.queued.raised + failures es } }

/-- A copy of the letter, with another body. -/
def Letter.copy (l : Letter) (body : Json) : Letter :=
  { l with queued := { l.queued with body := body } }

namespace Network
variable (mixin : QueueMessageMixin)

def empty : Network := ⟨0, fun _ => ⟨[], [], []⟩⟩

/-- The exchange gives the letters to every queue whose binding accepts the key. -/
def route (exchange routingKey : String) (ls : List Letter) (n : Network) : Network :=
  { n with inbox := fun c =>
      if c.binds exchange routingKey then (n.inbox c).receive ls else n.inbox c }

def publish (exchange routingKey : String) (body : Json) (n : Network) : Network :=
  let n' := n.route exchange routingKey [⟨n.sent, ⟨body, Queue.attemptsOf mixin body, 0⟩⟩]
  { n' with sent := n.sent + 1 }

/-- The consumer of `c` handles what it is given, and publishes with its own key. -/
def deliver (c : Subscriber) (i : Nat) (t : Turn) (n : Network) : Network :=
  match (n.inbox c).waiting[i]? with
  | none => n
  | some l =>
    let es := stateOf (RabbitMqConsumer.rabbitmqHandler mixin t l.queued.body [])
    let l := l.after es
    let n' := { n with inbox := Function.update n.inbox c ((n.inbox c).settle i l es) }
    n'.route c.exchange (routingKeyWithHash c.service) ((copies es).map l.copy)

def step (n : Network) : NetworkEvent → Network
  | .publish exchange routingKey body => n.publish mixin exchange routingKey body
  | .deliver c i t => n.deliver mixin c i t

def run (events : List NetworkEvent) : Network := events.foldl (step mixin) .empty

end Network

/-! ## Who gets what -/

section
variable {c c' : Subscriber} {exchange routingKey : String}

theorem routingKeyWithHash_toList (service : String) :
    (routingKeyWithHash service).toList = Topic.surrounded service.toList := by
  unfold routingKeyWithHash Topic.surrounded
  simp

/-- The key names the service. -/
def Subscriber.IsNamed (c : Subscriber) (exchange routingKey : String) : Prop :=
  c.exchange = exchange ∧ c.service.toList ∈ Topic.words routingKey.toList

instance : Decidable (c.IsNamed exchange routingKey) := inferInstanceAs (Decidable (_ ∧ _))

theorem Subscriber.binds_iff : c.binds exchange routingKey = true ↔
    c.IsNamed exchange routingKey := by
  unfold binds
  rw [Bool.and_eq_true_iff, decide_eq_true_iff, routingKeyWithHash_toList,
    Topic.binds_surrounded c.plain]
  exact Iff.rfl

/-- What a consumer publishes is for its own queue. -/
theorem Subscriber.binds_own : c'.binds c.exchange (routingKeyWithHash c.service) = true ↔
    c' = c := by
  unfold binds
  rw [Bool.and_eq_true_iff, decide_eq_true_iff, routingKeyWithHash_toList,
    routingKeyWithHash_toList, Topic.binds_surrounded_self c.plain c'.plain, String.toList_inj]
  obtain ⟨e, s, hs⟩ := c
  obtain ⟨e', s', hs'⟩ := c'
  exact (Subscriber.mk.injEq ..).symm ▸ Iff.rfl

end

/-! ## One queue for each service -/

def Inbox.queue (b : Inbox) : Queue := ⟨b.waiting.map Letter.queued, b.givenUp.map Letter.queued⟩

/-- What the queue of `c` sees of an event. -/
def NetworkEvent.for (c : Subscriber) : NetworkEvent → Option QueueEvent
  | .publish exchange routingKey body =>
    if c.IsNamed exchange routingKey then some (.publish body) else none
  | .deliver c' i t => if c' = c then some (.deliver i t) else none

section
variable {mixin : QueueMessageMixin} {n : Network}

theorem Network.publish_inbox (exchange routingKey : String) (body : Json) (c : Subscriber) :
    (n.publish mixin exchange routingKey body).inbox c =
      if c.IsNamed exchange routingKey then
        (n.inbox c).receive [⟨n.sent, ⟨body, Queue.attemptsOf mixin body, 0⟩⟩]
      else n.inbox c := by
  show (if c.binds exchange routingKey = true then _ else _) = _
  simp only [Subscriber.binds_iff]

theorem Network.deliver_inbox (c c' : Subscriber) (i : Nat) (t : Turn) :
    (n.deliver mixin c i t).inbox c' =
      if c' = c then
        match (n.inbox c).waiting[i]? with
        | none => n.inbox c
        | some l =>
          let es := stateOf (RabbitMqConsumer.rabbitmqHandler mixin t l.queued.body [])
          ((n.inbox c).settle i (l.after es) es).receive ((copies es).map (l.after es).copy)
      else n.inbox c' := by
  unfold Network.deliver
  cases hl : (n.inbox c).waiting[i]? with
  | none =>
    by_cases hc : c' = c
    · rw [if_pos hc, hc]
    · rw [if_neg hc]
  | some l =>
    show (if c'.binds c.exchange (routingKeyWithHash c.service) = true then _ else _) = _
    simp only [Subscriber.binds_own]
    by_cases hc : c' = c
    · rw [if_pos hc, if_pos hc, hc]
      exact congrArg _ (Function.update_self _ _ _)
    · rw [if_neg hc, if_neg hc]
      exact Function.update_of_ne hc _ _

theorem Inbox.receive_queue (ls : List Letter) (b : Inbox) : (b.receive ls).queue =
    { b.queue with waiting := b.queue.waiting ++ ls.map Letter.queued } := by
  unfold Inbox.receive Inbox.queue
  rw [List.map_append]

theorem Inbox.settle_queue (i : Nat) (l : Letter) (es : List Effect) (b : Inbox) :
    ((b.settle i (l.after es) es).receive ((copies es).map (l.after es).copy)).queue =
      b.queue.settle i l.queued es := by
  have hleft : (b.settle i (l.after es) es).waiting.map Letter.queued =
      if .acked ∈ es then b.queue.waiting.eraseIdx i
      else b.queue.waiting.set i (l.after es).queued := by
    unfold Inbox.settle
    dsimp only
    split
    · exact (List.eraseIdx_map ..).symm
    · exact List.map_set ..
  have hgiven : (b.settle i (l.after es) es).givenUp.map Letter.queued =
      if GivesUp es then b.queue.givenUp ++ [(l.after es).queued] else b.queue.givenUp := by
    unfold Inbox.settle
    dsimp only
    split
    · exact List.map_append
    · rfl
  have hcopies : ((copies es).map (l.after es).copy).map Letter.queued =
      (copies es).map fun p => { (l.after es).queued with body := p } := List.map_map
  rw [Inbox.receive_queue, hcopies]
  show Queue.mk ((b.settle i (l.after es) es).waiting.map Letter.queued ++ _)
    ((b.settle i (l.after es) es).givenUp.map Letter.queued) = _
  rw [hleft, hgiven]
  rfl

theorem Inbox.deliver_queue (b : Inbox) (i : Nat) (t : Turn) :
    Inbox.queue (match b.waiting[i]? with
      | none => b
      | some l =>
        let es := stateOf (RabbitMqConsumer.rabbitmqHandler mixin t l.queued.body [])
        (b.settle i (l.after es) es).receive ((copies es).map (l.after es).copy)) =
      b.queue.deliver mixin i t := by
  unfold Queue.deliver
  have hget : b.queue.waiting[i]? = (b.waiting[i]?).map Letter.queued := List.getElem?_map
  rw [hget]
  cases b.waiting[i]? with
  | none => rfl
  | some l => exact Inbox.settle_queue ..

end

/-- Every service's queue is what it would be alone, with what is published for the service
    and what is delivered to it: the others, and what they try again, do not matter. -/
theorem network_queue (mixin : QueueMessageMixin) (events : List NetworkEvent) (c : Subscriber) :
    ((Network.run mixin events).inbox c).queue =
      Queue.run mixin (events.filterMap (NetworkEvent.for c)) := by
  induction events using List.reverseRecOn with
  | nil => rfl
  | append_singleton events e ih =>
    have hrun : Network.run mixin (events ++ [e]) = (Network.run mixin events).step mixin e := by
      unfold Network.run
      rw [List.foldl_append]
      rfl
    have hstep : ∀ q, Queue.run mixin (events.filterMap (NetworkEvent.for c) ++ [q]) =
        (Queue.run mixin (events.filterMap (NetworkEvent.for c))).step mixin q := by
      intro q
      unfold Queue.run
      rw [List.foldl_append]
      rfl
    rw [hrun, List.filterMap_append]
    cases e with
    | publish exchange routingKey body =>
      show Inbox.queue ((Network.publish ..).inbox c) = _
      rw [Network.publish_inbox]
      by_cases hnamed : c.IsNamed exchange routingKey
      · have hfor : [NetworkEvent.publish exchange routingKey body].filterMap
            (NetworkEvent.for c) = [.publish body] := by simp [NetworkEvent.for, hnamed]
        rw [if_pos hnamed, hfor, hstep, ← ih]
        exact Inbox.receive_queue ..
      · have hfor : [NetworkEvent.publish exchange routingKey body].filterMap
            (NetworkEvent.for c) = [] := by simp [NetworkEvent.for, hnamed]
        rw [if_neg hnamed, hfor, List.append_nil, ih]
    | deliver c' i t =>
      show Inbox.queue ((Network.deliver ..).inbox c) = _
      rw [Network.deliver_inbox]
      by_cases hc : c = c'
      · have hfor : [NetworkEvent.deliver c' i t].filterMap (NetworkEvent.for c) =
            [.deliver i t] := by simp [NetworkEvent.for, hc]
        rw [if_pos hc, hfor, hstep, ← ih, hc]
        exact Inbox.deliver_queue ..
      · have hfor : [NetworkEvent.deliver c' i t].filterMap (NetworkEvent.for c) = [] := by
          simp [NetworkEvent.for, Ne.symm hc]
        rw [if_neg hc, hfor, List.append_nil, ih]

/-! ## What a delivery may do -/

/-- What `DataclassMixin` puts on `QueueMessage`: a message that was read, with other attempts
    or another time, reads back as it was written. -/
structure RereadMixin extends QueueMessageMixin where
  create_again : ∀ {body m}, createFromCamelCaseJson body = .ok m → ∀ started attemptNumber,
    createFromCamelCaseJson (toPayload { m with started, attemptNumber }) =
      .ok { m with started, attemptNumber }

theorem QueueMessage.ofPayload_functionName {body : Json} {m : QueueMessage Json}
    (h : QueueMessage.ofPayload? body = some m) : ∃ s, m.functionName = .str s := by
  unfold QueueMessage.ofPayload? at h
  simp only [bind, Option.bind_eq_some_iff] at h
  obtain ⟨_, _, traceId, _, _, _, s, _, _, _, data, _, started, _, _, _, n, _, _, _, d, _, h⟩ := h
  cases h
  exact ⟨s, rfl⟩

def RereadMixin.camelCase : RereadMixin where
  toQueueMessageMixin := .camelCase
  create_again := by
    intro body m h started attemptNumber
    have hread : ∃ s, m.functionName = .str s := by
      dsimp only [QueueMessageMixin.camelCase] at h
      cases hm : QueueMessage.ofPayload? body with
      | none => rw [hm] at h; cases h
      | some m' =>
        rw [hm] at h
        cases h
        exact QueueMessage.ofPayload_functionName hm
    obtain ⟨s, hs⟩ := hread
    have hback : QueueMessage.ofPayload? (QueueMessage.asPayload { m with started, attemptNumber }) =
        some { m with started, attemptNumber } := by
      cases started <;>
        simp [QueueMessage.ofPayload?, QueueMessage.asPayload, Json.asStr?, Json.asNum?,
          Json.optNum, FunctionName.asJson, FunctionName.value, MessageData.ofJson_asJson, hs]
    dsimp only [QueueMessageMixin.camelCase]
    rw [hback]

/-- What a message is about: all but its attempts and the time it is due. -/
def QueueMessage.content (m : QueueMessage Json) : String × FunctionName × MessageData Json × Int :=
  (m.traceId, m.functionName, m.data, m.retryDelaySecond)

/-- `m'` may be published to try `m` again. -/
structure QueueMessage.Again (m m' : QueueMessage Json) : Prop where
  content : m'.content = m.content
  unlimited : m.attemptNumber = -1 → m'.attemptNumber = -1

/-- What a body is about, if it can be read. -/
def contentOf (mixin : QueueMessageMixin) (body : Json) :
    Option (String × FunctionName × MessageData Json × Int) :=
  match mixin.createFromCamelCaseJson body with
  | .ok m => some m.content
  | .error _ => none

/-- The bodies are about the same, and unlimited attempts stay so. -/
structure SameMessage (mixin : QueueMessageMixin) (body body' : Json) : Prop where
  content : contentOf mixin body' = contentOf mixin body
  unlimited : Queue.attemptsOf mixin body = -1 → Queue.attemptsOf mixin body' = -1

/-- What a delivery of `body` that did `es` may do: its copies say what the body says, and it
    is acknowledged only if the handler returned, a copy was published, or the message was on
    its last attempt. -/
structure Outcome (mixin : QueueMessageMixin) (body : Json) (es : List Effect) : Prop where
  copies : ∀ p ∈ copies es, SameMessage mixin body p
  acked : .acked ∈ es → .handled none ∈ es ∨ DddService.copies es ≠ [] ∨
    (Queue.attemptsOf mixin body ≤ 1 ∧ Queue.attemptsOf mixin body ≠ -1)

/-- Before the acknowledgement: nothing was published but the message again. -/
structure Republishes (mixin : QueueMessageMixin) (m : QueueMessage Json) (es : List Effect) :
    Prop where
  copies : ∀ p ∈ copies es, ∃ m', mixin.toPayload m' = p ∧ m.Again m'
  acked : .acked ∉ es

/-- The handler returned, a copy is published, or no attempt is left. -/
def Concluded (m : QueueMessage Json) (es : List Effect) : Prop :=
  .handled none ∈ es ∨ copies es ≠ [] ∨ (m.attemptNumber ≤ 1 ∧ m.attemptNumber ≠ -1)

section
variable {mixin : RereadMixin} {t : Turn} {m m' : QueueMessage Json}

theorem QueueMessage.Again.refl (m : QueueMessage Json) : m.Again m := ⟨rfl, id⟩

theorem Republishes.publish {es : List Effect} (h : Republishes mixin.toQueueMessageMixin m es)
    (hm : m.Again m') : Republishes mixin.toQueueMessageMixin m
      (es ++ [.published (mixin.toPayload m')]) := by
  constructor
  · intro p hp
    unfold DddService.copies at hp
    rw [List.filterMap_append] at hp
    rcases List.mem_append.mp hp with hp | hp
    · exact h.copies p hp
    · exact ⟨m', (List.mem_singleton.mp hp).symm, hm⟩
  · intro hacked
    rcases List.mem_append.mp hacked with hacked | hacked
    · exact h.acked hacked
    · cases List.mem_singleton.mp hacked

theorem publishRawMessage_spec (p : PublishTurn) (hm : m.Again m') :
    Triple (Republishes mixin.toQueueMessageMixin m)
      (RabbitMqConsumer.publishRawMessage p (mixin.toPayload m'))
      (fun _ es => Republishes mixin.toQueueMessageMixin m es ∧ copies es ≠ [])
      (fun _ => Republishes mixin.toQueueMessageMixin m) := by
  intro es h
  have hkeeps : Republishes mixin.toQueueMessageMixin m
      (es ++ p.effects (mixin.toPayload m')) := by
    unfold PublishTurn.effects
    split
    · exact h.publish hm
    · rw [List.append_nil]
      exact h
  rw [publishRawMessage_run]
  cases houtcome : p.outcome with
  | some e => exact hkeeps
  | none =>
    refine ⟨hkeeps, ?_⟩
    unfold PublishTurn.effects
    rw [if_pos (PublishTurn.arrives_of_outcome houtcome)]
    simp [copies, Effect.copy?]

theorem handle_spec : Triple (Republishes mixin.toQueueMessageMixin m) (RabbitMqConsumer.handle t)
    (fun _ es => Republishes mixin.toQueueMessageMixin m es ∧ .handled none ∈ es)
    (fun _ => Republishes mixin.toQueueMessageMixin m) := by
  intro es h
  have hrun : RabbitMqConsumer.handle t es = resultOf t.handler (es ++ [.handled t.handler]) :=
    outside_run t.handler _
  have hkeeps : Republishes mixin.toQueueMessageMixin m (es ++ [.handled t.handler]) := by
    constructor
    · intro p hp
      unfold DddService.copies at hp
      rw [List.filterMap_append] at hp
      rcases List.mem_append.mp hp with hp | hp
      · exact h.copies p hp
      · cases hp
    · intro hacked
      rcases List.mem_append.mp hacked with hacked | hacked
      · exact h.acked hacked
      · cases List.mem_singleton.mp hacked
  rw [hrun]
  cases hraised : t.handler with
  | some e => rw [hraised] at hkeeps; exact hkeeps
  | none =>
    rw [hraised] at hkeeps
    exact ⟨hkeeps, List.mem_append_right _ (List.mem_singleton_self _)⟩

theorem consume_spec : Triple (Republishes mixin.toQueueMessageMixin m)
    (RabbitMqConsumer.consume mixin.toQueueMessageMixin t m)
    (fun _ es => Republishes mixin.toQueueMessageMixin m es ∧ Concluded m es)
    (fun _ => Republishes mixin.toQueueMessageMixin m) := by
  have hhandle : Triple (Republishes mixin.toQueueMessageMixin m) (RabbitMqConsumer.handle t)
      (fun _ es => Republishes mixin.toQueueMessageMixin m es ∧ Concluded m es)
      (fun _ => Republishes mixin.toQueueMessageMixin m) :=
    handle_spec.conseq (fun _ h => h) (fun _ _ h => ⟨h.1, Or.inl h.2⟩) fun _ _ h => h
  unfold RabbitMqConsumer.consume
  cases m.started with
  | none => exact hhandle
  | some started =>
    apply Triple.ite
    · exact fun _ => hhandle
    · exact fun _ => (publishRawMessage_spec t.early (.refl m)).conseq (fun _ h => h)
        (fun _ _ h => ⟨h.1, Or.inr (Or.inl h.2)⟩) fun _ _ h => h

theorem retry_spec : Triple (Republishes mixin.toQueueMessageMixin m)
    (RabbitMqConsumer.retry mixin.toQueueMessageMixin t m)
    (fun _ es => Republishes mixin.toQueueMessageMixin m es ∧ Concluded m es)
    (fun _ => Republishes mixin.toQueueMessageMixin m) := by
  have hpublish : ∀ {m'}, m.Again m' → Triple (Republishes mixin.toQueueMessageMixin m)
      (RabbitMqConsumer.publishRawMessage t.retry (mixin.toPayload m'))
      (fun _ es => Republishes mixin.toQueueMessageMixin m es ∧ Concluded m es)
      (fun _ => Republishes mixin.toQueueMessageMixin m) := fun h =>
    (publishRawMessage_spec t.retry h).conseq (fun _ h => h)
      (fun _ _ h => ⟨h.1, Or.inr (Or.inl h.2)⟩) fun _ _ h => h
  unfold RabbitMqConsumer.retry
  dsimp only
  apply Triple.ite
  · exact fun hinf => hpublish ⟨rfl, fun _ => hinf⟩
  · intro hinf
    apply Triple.ite
    · exact fun _ => hpublish ⟨rfl, fun h => absurd h hinf⟩
    · exact fun hlast => Triple.pure fun _ h => ⟨h, Or.inr (Or.inr ⟨by omega, hinf⟩)⟩

theorem contentOf_ok {body : Json} (h : mixin.createFromCamelCaseJson body = .ok m) :
    contentOf mixin.toQueueMessageMixin body = some m.content ∧
      Queue.attemptsOf mixin.toQueueMessageMixin body = m.attemptNumber := by
  unfold contentOf Queue.attemptsOf
  rw [h]
  exact ⟨rfl, rfl⟩

theorem QueueMessage.Again.sameMessage {body : Json}
    (h : mixin.createFromCamelCaseJson body = .ok m) (hm : m.Again m') :
    SameMessage mixin.toQueueMessageMixin body (mixin.toPayload m') := by
  obtain ⟨hcontent, hattempts⟩ := contentOf_ok h
  obtain ⟨traceId, functionName, data, started, attemptNumber, retryDelaySecond⟩ := m'
  obtain ⟨rfl, hrest⟩ := Prod.mk.inj hm.content
  obtain ⟨rfl, hrest⟩ := Prod.mk.inj hrest
  obtain ⟨rfl, rfl⟩ := Prod.mk.inj hrest
  obtain ⟨hcontent', hattempts'⟩ := contentOf_ok (mixin.create_again h started attemptNumber)
  constructor
  · rw [hcontent, hcontent', hm.content]
  · rw [hattempts, hattempts']
    exact hm.unlimited

theorem rabbitmqHandler_outcome (mixin : RereadMixin) (t : Turn) (body : Json) :
    Outcome mixin.toQueueMessageMixin body
      (stateOf (RabbitMqConsumer.rabbitmqHandler mixin.toQueueMessageMixin t body [])) := by
  cases hbody : mixin.createFromCamelCaseJson body with
  | error e =>
    -- a body that cannot be read raises before anything is done
    have hnone : stateOf (RabbitMqConsumer.rabbitmqHandler mixin.toQueueMessageMixin t body []) =
        [] := by
      unfold RabbitMqConsumer.rabbitmqHandler
      rw [hbody]
      rfl
    rw [hnone]
    exact ⟨fun _ hp => (nomatch hp), fun hacked => (nomatch hacked)⟩
  | ok m =>
    have hcopies : ∀ {es}, (∀ p ∈ copies es, ∃ m', mixin.toPayload m' = p ∧ m.Again m') →
        ∀ p ∈ copies es, SameMessage mixin.toQueueMessageMixin body p := by
      intro es h p hp
      obtain ⟨m', rfl, hm'⟩ := h p hp
      exact hm'.sameMessage hbody
    have hspec : Triple (Republishes mixin.toQueueMessageMixin m)
        (RabbitMqConsumer.rabbitmqHandler mixin.toQueueMessageMixin t body)
        (fun _ => Outcome mixin.toQueueMessageMixin body)
        (fun _ => Outcome mixin.toQueueMessageMixin body) := by
      have hraise : ∀ {es}, Republishes mixin.toQueueMessageMixin m es →
          Outcome mixin.toQueueMessageMixin body es := fun h =>
        ⟨hcopies h.copies, fun hacked => absurd hacked h.acked⟩
      unfold RabbitMqConsumer.rabbitmqHandler
      rw [hbody]
      dsimp only
      apply Triple.bind
        (R := fun _ es => Republishes mixin.toQueueMessageMixin m es ∧ Concluded m es)
      · apply (consume_spec.tryCatch fun e => ?_).raises fun _ _ h => hraise h
        exact Triple.ite (fun _ => retry_spec) fun _ => Triple.throw fun _ h => h
      · intro _
        -- only a delivery that got this far is acknowledged
        have hack : Triple (fun es => Republishes mixin.toQueueMessageMixin m es ∧ Concluded m es)
            (outside t.ack)
            (fun _ es => Republishes mixin.toQueueMessageMixin m es ∧ Concluded m es)
            (fun _ => Outcome mixin.toQueueMessageMixin body) := by
          cases t.ack with
          | none => exact Triple.pure fun _ h => h
          | some e => exact Triple.throw fun _ h => hraise h.1
        refine hack.bind fun _ => Triple.modify fun es h => ⟨?_, fun _ => ?_⟩
        · have hsame : copies (es ++ [.acked]) = copies es := by simp [copies, Effect.copy?]
          rw [hsame]
          exact hcopies h.1.copies
        · rw [(contentOf_ok hbody).2]
          rcases h.2 with hret | hcopy | hlast
          · exact Or.inl (List.mem_append_left _ hret)
          · refine Or.inr (Or.inl ?_)
            simpa [copies, Effect.copy?] using hcopy
          · exact Or.inr (Or.inr hlast)
    have hstart : Republishes mixin.toQueueMessageMixin m [] :=
      ⟨fun _ hp => (nomatch hp), fun hacked => (nomatch hacked)⟩
    have := hspec [] hstart
    revert this
    cases RabbitMqConsumer.rabbitmqHandler mixin.toQueueMessageMixin t body [] with
    | ok _ es => exact id
    | error e es => exact id

end

/-! ## Nothing is lost, and nothing else is handled -/

/-- What was published so far: exchange, routing key and body. -/
def published (events : List NetworkEvent) : List (String × String × Json) :=
  events.filterMap fun
    | .publish exchange routingKey body => some (exchange, routingKey, body)
    | .deliver .. => none

/-- The publish number `k` was for the service `c`. -/
def MeantFor (log : List (String × String × Json)) (c : Subscriber) (k : Nat) (body : Json) :
    Prop :=
  ∃ exchange routingKey, log[k]? = some (exchange, routingKey, body) ∧
    c.IsNamed exchange routingKey

/-- What the queue of `c` answers for. Its letters come from publishes for `c` and say what
    was published; the handler returned on no others; each such publish still waits, or the
    handler returned on it, or it was given up, on its last attempt. -/
structure Inbox.Answers (mixin : QueueMessageMixin) (log : List (String × String × Json))
    (c : Subscriber) (b : Inbox) : Prop where
  letters : ∀ l, l ∈ b.waiting ∨ l ∈ b.givenUp → ∃ body, MeantFor log c l.origin body ∧
    SameMessage mixin body l.queued.body
  returned : ∀ k ∈ b.returned, ∃ body, MeantFor log c k body
  kept : ∀ k body, MeantFor log c k body → (∃ l ∈ b.waiting, l.origin = k) ∨ k ∈ b.returned ∨
    ∃ l ∈ b.givenUp, l.origin = k
  lastAttempt : ∀ l ∈ b.givenUp, Queue.attemptsOf mixin l.queued.body ≤ 1 ∧
    Queue.attemptsOf mixin l.queued.body ≠ -1

section
variable {mixin : QueueMessageMixin} {log : List (String × String × Json)} {c : Subscriber}
  {b : Inbox}

theorem SameMessage.refl (body : Json) : SameMessage mixin body body := ⟨rfl, id⟩

theorem SameMessage.trans {body body' body'' : Json} (h : SameMessage mixin body body')
    (h' : SameMessage mixin body' body'') : SameMessage mixin body body'' :=
  ⟨h'.content.trans h.content, fun hu => h'.unlimited (h.unlimited hu)⟩

theorem MeantFor.append {k : Nat} {body : Json} (h : MeantFor log c k body)
    (more : List (String × String × Json)) : MeantFor (log ++ more) c k body := by
  obtain ⟨exchange, routingKey, hk, hnamed⟩ := h
  refine ⟨exchange, routingKey, ?_, hnamed⟩
  rw [List.getElem?_append_left (List.getElem?_eq_some_iff.mp hk).1]
  exact hk

/-- A publish that is one more: an old one, or this. -/
theorem MeantFor.of_append {k : Nat} {body : Json} {x : String × String × Json}
    (h : MeantFor (log ++ [x]) c k body) :
    MeantFor log c k body ∨ k = log.length ∧ x.2.2 = body ∧ c.IsNamed x.1 x.2.1 := by
  obtain ⟨exchange, routingKey, hk, hnamed⟩ := h
  rcases Nat.lt_or_ge k log.length with hlt | hge
  · rw [List.getElem?_append_left hlt] at hk
    exact Or.inl ⟨exchange, routingKey, hk, hnamed⟩
  · right
    have hlen : k = log.length := by
      have := (List.getElem?_eq_some_iff.mp hk).1
      rw [List.length_append, List.length_singleton] at this
      omega
    rw [hlen, List.getElem?_append_right (Nat.le_refl _), Nat.sub_self] at hk
    cases hk
    exact ⟨hlen, rfl, hnamed⟩

theorem MeantFor.unique {k : Nat} {body body' : Json} (h : MeantFor log c k body)
    (h' : MeantFor log c k body') : body = body' := by
  obtain ⟨_, _, hk, -⟩ := h
  obtain ⟨_, _, hk', -⟩ := h'
  rw [hk] at hk'
  cases hk'
  rfl

theorem Inbox.Answers.same (h : b.Answers mixin log c) {k : Nat} {body : Json} {l : Letter}
    (hmeant : MeantFor log c k body) (hl : l ∈ b.waiting ∨ l ∈ b.givenUp) (hk : l.origin = k) :
    SameMessage mixin body l.queued.body := by
  obtain ⟨body', hmeant', hsame⟩ := h.letters l hl
  rw [hk] at hmeant'
  rw [hmeant.unique hmeant']
  exact hsame

theorem Inbox.Answers.others (h : b.Answers mixin log c) {x : String × String × Json}
    (hx : ¬ c.IsNamed x.1 x.2.1) : b.Answers mixin (log ++ [x]) c where
  letters l hl := by
    obtain ⟨body, hmeant, hsame⟩ := h.letters l hl
    exact ⟨body, hmeant.append _, hsame⟩
  returned k hk := by
    obtain ⟨body, hmeant⟩ := h.returned k hk
    exact ⟨body, hmeant.append _⟩
  kept k body hmeant := by
    rcases hmeant.of_append with hold | ⟨-, -, hnamed⟩
    · exact h.kept k body hold
    · exact absurd hnamed hx
  lastAttempt := h.lastAttempt

theorem Inbox.Answers.publish (h : b.Answers mixin log c) {x : String × String × Json}
    (hx : c.IsNamed x.1 x.2.1) :
    (b.receive [⟨log.length, ⟨x.2.2, Queue.attemptsOf mixin x.2.2, 0⟩⟩]).Answers mixin
      (log ++ [x]) c where
  letters l hl := by
    have hnew : MeantFor (log ++ [x]) c log.length x.2.2 := by
      refine ⟨x.1, x.2.1, ?_, hx⟩
      rw [List.getElem?_append_right (Nat.le_refl _), Nat.sub_self]
      rfl
    have hold : l ∈ b.waiting ∨ l ∈ b.givenUp → ∃ body, MeantFor (log ++ [x]) c l.origin body ∧
        SameMessage mixin body l.queued.body := by
      intro hl
      obtain ⟨body, hmeant, hsame⟩ := h.letters l hl
      exact ⟨body, hmeant.append _, hsame⟩
    rcases hl with hl | hl
    · rcases List.mem_append.mp hl with hl | hl
      · exact hold (Or.inl hl)
      · rw [List.mem_singleton.mp hl]
        exact ⟨x.2.2, hnew, .refl _⟩
    · exact hold (Or.inr hl)
  returned k hk := by
    obtain ⟨body, hmeant⟩ := h.returned k hk
    exact ⟨body, hmeant.append _⟩
  kept k body hmeant := by
    rcases hmeant.of_append with hold | ⟨hk, -, -⟩
    · rcases h.kept k body hold with ⟨l, hl, ho⟩ | hrest
      · exact Or.inl ⟨l, List.mem_append_left _ hl, ho⟩
      · exact Or.inr hrest
    · exact Or.inl ⟨_, List.mem_append_right _ (List.mem_singleton_self _), hk.symm⟩
  lastAttempt := h.lastAttempt

section Settle
variable {i : Nat} {l l₀ : Letter} {es : List Effect}

/-- What a delivery leaves of a letter that waits: itself, or it was the one delivered. -/
theorem Inbox.settle_waiting (hl : b.waiting[i]? = some l) (hl₀ : l₀ ∈ b.waiting) :
    l₀ ∈ (b.settle i (l.after es) es).waiting ∨ l₀ = l := by
  obtain ⟨j, hj⟩ := List.mem_iff_getElem?.mp hl₀
  by_cases hij : j = i
  · rw [hij, hl] at hj
    exact Or.inr (Option.some.inj hj).symm
  · left
    unfold Inbox.settle
    dsimp only
    split
    · exact List.mem_eraseIdx_iff_getElem?.mpr ⟨j, hij, hj⟩
    · exact List.mem_of_getElem? ((List.getElem?_set_ne (Ne.symm hij)).trans hj)

theorem Inbox.of_mem_settle_waiting (h : l₀ ∈ (b.settle i l es).waiting) :
    l₀ ∈ b.waiting ∨ l₀ = l := by
  change l₀ ∈ if _ then _ else _ at h
  split at h
  · exact Or.inl (List.mem_of_mem_eraseIdx h)
  · exact List.mem_or_eq_of_mem_set h

theorem Inbox.mem_settle_returned (i : Nat) {k : Nat} : k ∈ (b.settle i l es).returned ↔
    k ∈ b.returned ∨ .handled none ∈ es ∧ k = l.origin := by
  change (k ∈ if _ then _ else _) ↔ _
  split
  · next hret => rw [List.mem_append, List.mem_singleton, and_iff_right hret]
  · next hret => exact (or_iff_left fun h => hret h.1).symm

theorem Inbox.mem_settle_givenUp (i : Nat) : l₀ ∈ (b.settle i l es).givenUp ↔
    l₀ ∈ b.givenUp ∨ GivesUp es ∧ l₀ = l := by
  change (l₀ ∈ if _ then _ else _) ↔ _
  split
  · next hgive => rw [List.mem_append, List.mem_singleton, and_iff_right hgive]
  · next hgive => exact (or_iff_left fun h => hgive h.1).symm

/-- Where the letter delivered is: it waits if it was not acknowledged; otherwise the handler
    returned on it, or it was given up, or there is a copy of it. -/
theorem Inbox.settle_delivered (hi : i < b.waiting.length) :
    (.acked ∉ es ∧ l ∈ (b.settle i l es).waiting) ∨ l.origin ∈ (b.settle i l es).returned ∨
      l ∈ (b.settle i l es).givenUp ∨ ∃ p, p ∈ copies es := by
  by_cases hacked : .acked ∈ es
  · right
    by_cases hret : .handled none ∈ es
    · exact Or.inl ((Inbox.mem_settle_returned i).mpr (Or.inr ⟨hret, rfl⟩))
    · by_cases hcopy : copies es = []
      · have hgive : GivesUp es := ⟨hacked, hcopy, hret⟩
        exact Or.inr (Or.inl ((Inbox.mem_settle_givenUp i).mpr (Or.inr ⟨hgive, rfl⟩)))
      · exact Or.inr (Or.inr (List.exists_mem_of_ne_nil _ hcopy))
  · refine Or.inl ⟨hacked, ?_⟩
    show l ∈ if _ then _ else _
    rw [if_neg hacked]
    exact List.mem_set hi l

end Settle

/-- A delivery, with its copies back in the queue. -/
theorem Inbox.Answers.deliver (h : b.Answers mixin log c) {i : Nat} {l : Letter}
    (hl : b.waiting[i]? = some l) {es : List Effect} (hes : Outcome mixin l.queued.body es) :
    ((b.settle i (l.after es) es).receive ((copies es).map (l.after es).copy)).Answers mixin log
      c := by
  obtain ⟨body, hmeant, hsame⟩ := h.letters l (Or.inl (List.mem_of_getElem? hl))
  have hafter : ∃ body, MeantFor log c (l.after es).origin body ∧
      SameMessage mixin body (l.after es).queued.body := ⟨body, hmeant, hsame⟩
  refine ⟨fun l₀ hl₀ => ?_, fun k hk => ?_, fun k body' hk => ?_, fun l₀ hl₀ => ?_⟩
  · rcases hl₀ with hl₀ | hl₀
    · rcases List.mem_append.mp hl₀ with hl₀ | hl₀
      · rcases Inbox.of_mem_settle_waiting hl₀ with hl₀ | rfl
        · exact h.letters l₀ (Or.inl hl₀)
        · exact hafter
      · obtain ⟨p, hp, rfl⟩ := List.mem_map.mp hl₀
        exact ⟨body, hmeant, hsame.trans (hes.copies p hp)⟩
    · rcases (Inbox.mem_settle_givenUp i).mp hl₀ with hl₀ | ⟨-, rfl⟩
      · exact h.letters l₀ (Or.inr hl₀)
      · exact hafter
  · rcases (Inbox.mem_settle_returned i).mp hk with hk | ⟨-, rfl⟩
    · exact h.returned k hk
    · exact ⟨body, hmeant⟩
  · rcases h.kept k body' hk with ⟨l₀, hl₀, rfl⟩ | hk | ⟨l₀, hl₀, ho⟩
    · rcases Inbox.settle_waiting hl hl₀ with hstays | rfl
      · exact Or.inl ⟨l₀, List.mem_append_left _ hstays, rfl⟩
      · -- the publish of the letter delivered
        have hi := (List.getElem?_eq_some_iff.mp hl).1
        rcases @Inbox.settle_delivered _ _ (l₀.after es) es hi with
          ⟨-, hwaits⟩ | hret | hgiven | ⟨p, hp⟩
        · exact Or.inl ⟨_, List.mem_append_left _ hwaits, rfl⟩
        · exact Or.inr (Or.inl hret)
        · exact Or.inr (Or.inr ⟨_, hgiven, rfl⟩)
        · exact Or.inl ⟨_, List.mem_append_right _ (List.mem_map_of_mem hp), rfl⟩
    · refine Or.inr (Or.inl ?_)
      exact (Inbox.mem_settle_returned i).mpr (Or.inl hk)
    · refine Or.inr (Or.inr ⟨l₀, ?_, ho⟩)
      exact (Inbox.mem_settle_givenUp i).mpr (Or.inl hl₀)
  · rcases (Inbox.mem_settle_givenUp i).mp hl₀ with hl₀ | ⟨hgive, rfl⟩
    · exact h.lastAttempt l₀ hl₀
    · rcases hes.acked hgive.1 with hret | hcopy | hlast
      · exact absurd hret hgive.2.2
      · exact absurd hgive.2.1 hcopy
      · exact hlast

end

/-- The publishes are numbered as they come, and every queue answers for its own. -/
theorem Network.run_answers (mixin : RereadMixin) (events : List NetworkEvent) (c : Subscriber) :
    (Network.run mixin.toQueueMessageMixin events).sent = (published events).length ∧
      ((Network.run mixin.toQueueMessageMixin events).inbox c).Answers mixin.toQueueMessageMixin
        (published events) c := by
  induction events using List.reverseRecOn with
  | nil =>
    refine ⟨rfl, fun l hl => ?_, fun k hk => (nomatch hk), fun k body hk => ?_,
      fun l hl => (nomatch hl)⟩
    · rcases hl with hl | hl <;> cases hl
    · obtain ⟨_, _, hk, -⟩ := hk
      cases hk
  | append_singleton events e ih =>
    obtain ⟨hsent, ih⟩ := ih
    have hrun : Network.run mixin.toQueueMessageMixin (events ++ [e]) =
        (Network.run mixin.toQueueMessageMixin events).step mixin.toQueueMessageMixin e := by
      unfold Network.run
      rw [List.foldl_append]
      rfl
    rw [hrun]
    cases e with
    | publish exchange routingKey body =>
      have hlog : published (events ++ [.publish exchange routingKey body]) =
          published events ++ [(exchange, routingKey, body)] := List.filterMap_append
      rw [hlog, List.length_append]
      refine ⟨congrArg (· + 1) hsent, ?_⟩
      show Inbox.Answers _ _ c ((Network.publish ..).inbox c)
      rw [Network.publish_inbox]
      split
      · next hnamed =>
        rw [hsent]
        exact ih.publish hnamed
      · next hnamed => exact ih.others hnamed
    | deliver c' i t =>
      have hlog : published (events ++ [.deliver c' i t]) = published events := by
        simp [published]
      rw [hlog]
      constructor
      · show (Network.deliver ..).sent = _
        unfold Network.deliver
        split
        · exact hsent
        · exact hsent
      · show Inbox.Answers _ _ c ((Network.deliver ..).inbox c)
        rw [Network.deliver_inbox]
        split
        · next hc =>
          subst hc
          split
          · exact ih
          · next l hl => exact ih.deliver hl (rabbitmqHandler_outcome mixin t l.queued.body)
        · exact ih

/-- Over every run of any number of services on any number of exchanges, whatever the
    handlers do and wherever a publish, an acknowledgement or the process itself fails: every
    service's queue answers for what was published for the service, and for nothing else. -/
theorem network_delivers (mixin : RereadMixin) (events : List NetworkEvent) (c : Subscriber) :
    ((Network.run mixin.toQueueMessageMixin events).inbox c).Answers mixin.toQueueMessageMixin
      (published events) c :=
  (Network.run_answers mixin events c).2

end DddService
