import DddService.MessageQueue
import DddService.Lib.Hoare

/- `RabbitMqConsumer`: what `rabbitmq_handler` does with a delivered message, and
   the queue over many deliveries. The environment decides, for each delivery, the
   readings of the clock and which outside call raises (`Turn`); a delivery leaves
   the list of what it did (`Effect`).

   `rabbitmqHandler_effects` says what one delivery does. A message that is not yet
   due is published again inside the `try` of the handler call, so a raise there
   takes the failure branch, which uses up an attempt; `fair_iff` says which
   deliveries use up no more attempts than the handler raised, and `attempts_used`
   what follows for the messages that a run of such deliveries gives up. -/
namespace DddService
open Hoare

/-- The microseconds of a second. -/
def DateTime.addSeconds (t : DateTime) (seconds : Int) : DateTime := t + 1000000 * seconds

/-- What `DataclassMixin` puts on `QueueMessage`. A payload is read back with the
    attempts it was written with. -/
structure QueueMessageMixin where
  toPayload : QueueMessage Json → Json
  createFromCamelCaseJson : Json → Except Exc (QueueMessage Json)
  create_toPayload : ∀ m, ∃ m', createFromCamelCaseJson (toPayload m) = .ok m' ∧
    m'.attemptNumber = m.attemptNumber

/-! ### A message as a plain dict

   A pair as `QueueMessageMixin` asks for. -/

def FunctionName.asJson (f : FunctionName) : Json := .str f.value

def MessageData.asJson : MessageData Json → Json
  | .list xs => .arr xs
  | .dict d => .obj d.entries

def MessageData.ofJson? : Json → Option (MessageData Json)
  | .arr xs => some (.list xs)
  | .obj fields => if h : (fields.map Prod.fst).Nodup then some (.dict ⟨fields, h⟩) else none
  | _ => none

/-- An optional time, or `null` for `None`. -/
def Json.optNum : Option Int → Json
  | none => .null
  | some n => .num n

def QueueMessage.asPayload (m : QueueMessage Json) : Json :=
  .obj [("traceId", .str m.traceId), ("functionName", m.functionName.asJson),
    ("data", m.data.asJson), ("started", .optNum m.started),
    ("attemptNumber", .num m.attemptNumber), ("retryDelaySecond", .num m.retryDelaySecond)]

/-- Reads back what `asPayload` writes, the function's name as a text. -/
def QueueMessage.ofPayload? (j : Json) : Option (QueueMessage Json) := do
  let traceId ← (← j.get? "traceId").asStr?
  let functionName ← (← j.get? "functionName").asStr?
  let data ← MessageData.ofJson? (← j.get? "data")
  let started ← j.get? "started"
  let attemptNumber ← (← j.get? "attemptNumber").asNum?
  let retryDelaySecond ← (← j.get? "retryDelaySecond").asNum?
  pure ⟨traceId, .str functionName, data, started.asNum?, attemptNumber, retryDelaySecond⟩

theorem MessageData.ofJson_asJson (d : MessageData Json) : MessageData.ofJson? d.asJson = some d := by
  cases d with
  | list xs => rfl
  | dict d => exact dif_pos d.nodup

def QueueMessageMixin.camelCase : QueueMessageMixin where
  toPayload := QueueMessage.asPayload
  createFromCamelCaseJson j := match QueueMessage.ofPayload? j with
    | some m => .ok m
    | none => .error (.typeError "missing required positional argument")
  create_toPayload m := by
    refine ⟨{ m with functionName := .str m.functionName.value }, ?_, rfl⟩
    have hread : QueueMessage.ofPayload? m.asPayload =
        some { m with functionName := .str m.functionName.value } := by
      cases hs : m.started <;>
        simp [QueueMessage.ofPayload?, QueueMessage.asPayload, Json.asStr?, Json.asNum?,
          Json.optNum, FunctionName.asJson, MessageData.ofJson_asJson, hs]
    rw [hread]

/-! ## One delivery -/

/-- The outside calls of one `publish_raw_message`, each of which returns or raises:
    the connection, the check of its channel, the publish, and the closing. -/
structure PublishTurn where
  connect : Option Exc
  check : Option Exc
  publish : Option Exc
  close : Option Exc

/-- What the environment decides about one delivery: the time at the check of
    `started` and after a failure, and the outcome of every outside call. -/
structure Turn where
  now : DateTime
  handler : Option Exc
  early : PublishTurn
  later : DateTime
  retry : PublishTurn
  ack : Option Exc

/-- What a delivery does that others see. -/
inductive Effect where
  | handled (raised : Option Exc)
  | published (payload : Json)
  | acked
  deriving DecidableEq, Repr

/-- A piece of the consumer's code, over what it has done so far. -/
abbrev ConsumerM := EStateM Exc (List Effect)

def note (e : Effect) : ConsumerM Unit := modify (· ++ [e])

/-- An outside call. -/
def outside : Option Exc → ConsumerM Unit
  | none => pure ()
  | some e => throw e

namespace RabbitMqConsumer

/-- `MessageQueueConnection.__enter__` -/
def openConnection (connect : Option Exc) : ConsumerM Unit :=
  tryCatch (outside connect) (fun e =>
    throw (if e.isException then .exception "AMQPConnectorException" else e))

/-- `publish_raw_message` -/
def publishRawMessage (p : PublishTurn) (payload : Json) : ConsumerM Unit :=
  Hoare.scope (openConnection p.connect) (outside p.close) do
    outside p.check
    outside p.publish
    note (.published payload)

variable (mixin : QueueMessageMixin) (t : Turn)

/-- `handler(message)` -/
def handle : ConsumerM Unit := do
  note (.handled t.handler)
  outside t.handler

/-- The part of `rabbitmq_handler` inside `try`. -/
def consume (message : QueueMessage Json) : ConsumerM Unit :=
  match message.started with
  | some started =>
    if started < t.now then handle t
    else publishRawMessage t.early (mixin.toPayload message)
  | none => handle t

/-- The part under `except Exception`. -/
def retry (message : QueueMessage Json) : ConsumerM Unit :=
  let message :=
    { message with started := some (DateTime.addSeconds t.later message.retryDelaySecond) }
  if message.attemptNumber = -1 then publishRawMessage t.retry (mixin.toPayload message)
  else
    let message := { message with attemptNumber := message.attemptNumber - 1 }
    if message.attemptNumber > 0 then publishRawMessage t.retry (mixin.toPayload message)
    else pure ()

/-- `rabbitmq_handler` -/
def rabbitmqHandler (body : Json) : ConsumerM Unit :=
  match mixin.createFromCamelCaseJson body with
  | .error e => throw e
  | .ok message => do
    tryCatch (consume mixin t message)
      (fun e => if e.isException then retry mixin t message else throw e)
    outside t.ack
    note .acked

end RabbitMqConsumer

/-! ## What a delivery does -/

/-- The exception that comes out of `publish_raw_message`: the closing's, if that
    raises, replaces the one before it. -/
def PublishTurn.outcome (p : PublishTurn) : Option Exc :=
  match p.connect with
  | some e => some (if e.isException then .exception "AMQPConnectorException" else e)
  | none => p.close.or (p.check.or p.publish)

/-- Whether the message gets to the queue. It may, and the closing raise. -/
def PublishTurn.arrives (p : PublishTurn) : Bool :=
  p.connect.isNone && p.check.isNone && p.publish.isNone

def PublishTurn.effects (p : PublishTurn) (payload : Json) : List Effect :=
  if p.arrives then [.published payload] else []

/-- A result that raised `e`, if there is one. -/
def resultOf (raised : Option Exc) (es : List Effect) : EStateM.Result Exc (List Effect) Unit :=
  match raised with
  | none => .ok () es
  | some e => .error e es

theorem outside_run (r : Option Exc) (es : List Effect) : outside r es = resultOf r es := by
  cases r <;> rfl

theorem publishRawMessage_run (p : PublishTurn) (payload : Json) (es : List Effect) :
    RabbitMqConsumer.publishRawMessage p payload es =
      resultOf p.outcome (es ++ p.effects payload) := by
  obtain ⟨connect, check, publish, close⟩ := p
  have hno : ∀ {l : List Effect}, l = l ++ [] := fun {l} => (List.append_nil l).symm
  cases connect with
  | some e =>
    show EStateM.Result.error _ es = .error _ (es ++ [])
    rw [← hno]
  | none =>
    cases check with
    | some e => cases close <;> exact congrArg (EStateM.Result.error _) hno
    | none =>
      cases publish with
      | some e => cases close <;> exact congrArg (EStateM.Result.error _) hno
      | none => cases close <;> rfl

/-- Whether the handler is called on the message. -/
def QueueMessage.due (m : QueueMessage Json) (now : DateTime) : Bool :=
  m.started.all (· < now)

/-- The message that the failure branch publishes, while attempts remain. -/
def QueueMessage.again (m : QueueMessage Json) (later : DateTime) : QueueMessage Json :=
  { m with
    started := some (DateTime.addSeconds later m.retryDelaySecond)
    attemptNumber := m.attemptNumber - 1 }

namespace Turn
variable (mixin : QueueMessageMixin) (t : Turn) (m : QueueMessage Json)

def acks : List Effect := if t.ack.isNone then [.acked] else []

/-- What the failure branch does and what comes after it: the last attempt publishes
    nothing. -/
def retried : List Effect :=
  if m.attemptNumber = 1 then t.acks
  else t.retry.effects (mixin.toPayload (m.again t.later)) ++
    if t.retry.outcome.isNone then t.acks else []

/-- After the `try`, which did `es` and raised `raised`. -/
def afterTry (es : List Effect) (raised : Option Exc) : List Effect :=
  es ++ match raised with
    | none => t.acks
    | some e => if e.isException then t.retried mixin m else []

/-- What the delivery does. -/
def effects : List Effect :=
  if m.due t.now then t.afterTry mixin m [.handled t.handler] t.handler
  else t.afterTry mixin m (t.early.effects (mixin.toPayload m)) t.early.outcome

end Turn

section
variable (mixin : QueueMessageMixin) (t : Turn) {m : QueueMessage Json}

theorem ack_run (es : List Effect) :
    stateOf ((do outside t.ack; note .acked : ConsumerM Unit) es) = es ++ t.acks := by
  unfold Turn.acks
  cases h : t.ack with
  | none => rfl
  | some e => exact (List.append_nil es).symm

theorem consume_run (m : QueueMessage Json) (es : List Effect) :
    RabbitMqConsumer.consume mixin t m es =
      if m.due t.now then resultOf t.handler (es ++ [.handled t.handler])
      else resultOf t.early.outcome (es ++ t.early.effects (mixin.toPayload m)) := by
  have hhandle : RabbitMqConsumer.handle t es = resultOf t.handler (es ++ [.handled t.handler]) :=
    outside_run t.handler _
  unfold RabbitMqConsumer.consume QueueMessage.due
  cases m.started with
  | none => exact hhandle
  | some started =>
    by_cases hdue : started < t.now
    · simpa [hdue] using hhandle
    · simpa [hdue] using publishRawMessage_run t.early (mixin.toPayload m) es

theorem retry_run (hm : 1 ≤ m.attemptNumber) (es : List Effect) :
    RabbitMqConsumer.retry mixin t m es =
      if m.attemptNumber = 1 then .ok () es
      else resultOf t.retry.outcome (es ++ t.retry.effects (mixin.toPayload (m.again t.later))) := by
  unfold RabbitMqConsumer.retry
  dsimp only
  have hinf : ¬m.attemptNumber = -1 := by omega
  rw [if_neg hinf]
  by_cases hlast : m.attemptNumber = 1
  · rw [if_pos hlast, if_neg (by omega)]
    rfl
  · rw [if_neg hlast, if_pos (by omega)]
    exact publishRawMessage_run t.retry _ es

/-- What `rabbitmq_handler` does with a message that has attempts left. -/
theorem rabbitmqHandler_effects {body : Json} (hbody : mixin.createFromCamelCaseJson body = .ok m)
    (hm : 1 ≤ m.attemptNumber) :
    stateOf (RabbitMqConsumer.rabbitmqHandler mixin t body []) = t.effects mixin m := by
  -- the `try` statement and the acknowledgement, from what the `try` block did
  have hafter : ∀ (es : List Effect) (raised : Option Exc),
      RabbitMqConsumer.consume mixin t m [] = resultOf raised es →
      stateOf (RabbitMqConsumer.rabbitmqHandler mixin t body []) = t.afterTry mixin m es raised := by
    intro es raised hconsume
    unfold RabbitMqConsumer.rabbitmqHandler
    rw [hbody]
    dsimp only
    cases raised with
    | none => rw [bind_ok (tryCatch_ok hconsume) rfl, ack_run]; rfl
    | some e =>
      unfold Turn.afterTry
      dsimp only
      by_cases he : e.isException = true
      · rw [if_pos he]
        unfold Turn.retried
        by_cases hlast : m.attemptNumber = 1
        · have hretry : RabbitMqConsumer.retry mixin t m es = .ok () es := by
            rw [retry_run mixin t hm, if_pos hlast]
          rw [if_pos hlast, bind_ok (tryCatch_error hconsume (run_ite_pos he hretry)) rfl, ack_run]
        · have hretry := retry_run mixin t hm es
          rw [if_neg hlast] at hretry ⊢
          cases ho : t.retry.outcome with
          | none =>
            rw [ho] at hretry
            rw [bind_ok (tryCatch_error hconsume (run_ite_pos he hretry)) rfl, ack_run,
              List.append_assoc]
            rfl
          | some e' =>
            rw [ho] at hretry
            rw [bind_error (tryCatch_error hconsume (run_ite_pos he hretry))]
            show es ++ _ = es ++ (_ ++ [])
            rw [List.append_nil]
      · rw [if_neg he, bind_error (tryCatch_error hconsume (run_ite_neg he rfl))]
        exact (List.append_nil es).symm
  unfold Turn.effects
  have hconsume := consume_run mixin t m []
  by_cases hdue : m.due t.now = true
  · rw [if_pos hdue] at hconsume ⊢
    exact hafter _ _ hconsume
  · rw [if_neg hdue] at hconsume ⊢
    exact hafter _ _ hconsume

end

/-! ## Attempts -/

/-- Whether the effect is a call of the handler that raised. -/
def Effect.isFailure : Effect → Bool
  | .handled (some _) => true
  | _ => false

def Effect.copy? : Effect → Option Json
  | .published payload => some payload
  | _ => none

/-- How often the handler was called and raised. -/
def failures (es : List Effect) : Nat := es.countP Effect.isFailure

/-- What was published. -/
def copies (es : List Effect) : List Json := es.filterMap Effect.copy?

/-- Acknowledged, though the handler did not return and nothing was published. -/
def GivesUp (es : List Effect) : Prop :=
  .acked ∈ es ∧ copies es = [] ∧ .handled none ∉ es

instance (es : List Effect) : Decidable (GivesUp es) := inferInstanceAs (Decidable (_ ∧ _ ∧ _))

/-- A delivery that uses up no more attempts than the handler raised: neither in
    what it publishes nor by giving up. -/
structure Fair (mixin : QueueMessageMixin) (m : QueueMessage Json) (es : List Effect) : Prop where
  copies : ∀ p ∈ copies es, ∀ m', mixin.createFromCamelCaseJson p = .ok m' →
    1 ≤ m'.attemptNumber ∧ m.attemptNumber ≤ m'.attemptNumber + failures es
  givenUp : GivesUp es → m.attemptNumber ≤ failures es

/-- The message is not yet due, publishing it again raises, and the failure branch
    takes an attempt for that: the last one with nothing published, or another with
    a copy that has one attempt less. -/
def Turn.Wastes (t : Turn) (m : QueueMessage Json) : Prop :=
  m.due t.now = false ∧ t.early.outcome.any Exc.isException = true ∧
    if m.attemptNumber = 1 then t.early.arrives = false ∧ t.ack = none
    else t.retry.arrives = true

instance (t : Turn) (m : QueueMessage Json) : Decidable (t.Wastes m) :=
  inferInstanceAs (Decidable (m.due t.now = false ∧ t.early.outcome.any Exc.isException = true ∧
    if m.attemptNumber = 1 then t.early.arrives = false ∧ t.ack = none
    else t.retry.arrives = true))

section
variable {mixin : QueueMessageMixin} {t : Turn} {m : QueueMessage Json}

@[simp] theorem failures_nil : failures [] = 0 := rfl

@[simp] theorem copies_nil : copies [] = [] := rfl

@[simp] theorem failures_raised (e : Exc) (es : List Effect) :
    failures (.handled (some e) :: es) = failures es + 1 :=
  List.countP_cons_of_pos rfl

@[simp] theorem copies_handled (r : Option Exc) (es : List Effect) :
    copies (.handled r :: es) = copies es := rfl

@[simp] theorem failures_append (es es' : List Effect) :
    failures (es ++ es') = failures es + failures es' := List.countP_append

@[simp] theorem copies_append (es es' : List Effect) :
    copies (es ++ es') = copies es ++ copies es' := List.filterMap_append

@[simp] theorem failures_effects (p : PublishTurn) (payload : Json) :
    failures (p.effects payload) = 0 := by
  unfold PublishTurn.effects
  cases p.arrives <;> rfl

@[simp] theorem copies_effects (p : PublishTurn) (payload : Json) :
    copies (p.effects payload) = if p.arrives then [payload] else [] := by
  unfold PublishTurn.effects
  cases p.arrives <;> rfl

@[simp] theorem failures_acks (t : Turn) : failures t.acks = 0 := by
  unfold Turn.acks
  cases t.ack.isNone <;> rfl

@[simp] theorem copies_acks (t : Turn) : copies t.acks = [] := by
  unfold Turn.acks
  cases t.ack.isNone <;> rfl

theorem acked_effects (p : PublishTurn) (payload : Json) : .acked ∉ p.effects payload := by
  unfold PublishTurn.effects
  cases p.arrives <;> simp

theorem acked_acks (t : Turn) : .acked ∈ t.acks ↔ t.ack = none := by
  unfold Turn.acks
  cases t.ack <;> simp

/-- A publish that returns has arrived. -/
theorem PublishTurn.arrives_of_outcome {p : PublishTurn} (h : p.outcome = none) :
    p.arrives = true := by
  obtain ⟨connect, check, publish, close⟩ := p
  unfold PublishTurn.outcome at h
  cases connect with
  | some e => cases h
  | none =>
    simp only [Option.or_eq_none_iff] at h
    obtain ⟨-, rfl, rfl⟩ := h
    rfl

@[simp] theorem failures_retried : failures (t.retried mixin m) = 0 := by
  unfold Turn.retried
  split
  · exact failures_acks t
  · split <;> simp

@[simp] theorem copies_retried : copies (t.retried mixin m) =
    if m.attemptNumber = 1 ∨ t.retry.arrives = false then []
    else [mixin.toPayload (m.again t.later)] := by
  unfold Turn.retried
  by_cases hlast : m.attemptNumber = 1
  · simp [hlast]
  · cases ho : t.retry.outcome <;> cases ha : t.retry.arrives <;> simp [hlast, ha]

theorem handled_effects (p : PublishTurn) (payload : Json) (r : Option Exc) :
    .handled r ∉ p.effects payload := by
  unfold PublishTurn.effects
  cases p.arrives <;> simp

theorem handled_acks (t : Turn) (r : Option Exc) : .handled r ∉ t.acks := by
  unfold Turn.acks
  cases t.ack <;> simp

theorem handled_retried (r : Option Exc) : .handled r ∉ t.retried mixin m := by
  unfold Turn.retried
  split
  · exact handled_acks t r
  · cases t.retry.outcome <;> simp [handled_effects, handled_acks]

/-- The failure branch acknowledges the last attempt, and otherwise what it has
    published. -/
theorem acked_retried : .acked ∈ t.retried mixin m ↔
    t.ack = none ∧ (m.attemptNumber = 1 ∨ t.retry.outcome = none) := by
  unfold Turn.retried
  by_cases hlast : m.attemptNumber = 1
  · simp [hlast, acked_acks]
  · cases ho : t.retry.outcome <;> simp [hlast, acked_effects, acked_acks]

theorem payload_attempts {m m' : QueueMessage Json}
    (h : mixin.createFromCamelCaseJson (mixin.toPayload m) = .ok m') :
    m'.attemptNumber = m.attemptNumber := by
  obtain ⟨m'', hm'', ha⟩ := mixin.create_toPayload m
  rw [hm''] at h
  cases h
  exact ha

/-- Nothing was published but the message as it was, and it was not given up. -/
theorem fair_of_kept (hm : 1 ≤ m.attemptNumber) {es : List Effect}
    (hcopies : ∀ p ∈ copies es, p = mixin.toPayload m) (hgive : ¬GivesUp es) : Fair mixin m es := by
  refine ⟨fun p hp m' hm' => ?_, fun h => absurd h hgive⟩
  rw [hcopies p hp] at hm'
  have := payload_attempts hm'
  omega

/-- The handler was called and raised. -/
theorem fair_failed (hm : 1 ≤ m.attemptNumber) (e : Exc) :
    Fair mixin m (.handled (some e) :: t.retried mixin m) := by
  have hone : failures (.handled (some e) :: t.retried mixin m) = 1 := by simp
  constructor
  · intro p hp m' hm'
    rw [hone]
    rw [copies_handled, copies_retried] at hp
    split at hp
    · cases hp
    · rename_i hmore
      rw [List.mem_singleton.mp hp] at hm'
      have ha : m'.attemptNumber = m.attemptNumber - 1 := payload_attempts hm'
      have hlast : m.attemptNumber ≠ 1 := fun h => hmore (Or.inl h)
      omega
  · intro hgive
    obtain ⟨hacked, hnone, -⟩ := hgive
    rw [hone]
    rw [copies_handled, copies_retried] at hnone
    have hacked' : .acked ∈ t.retried mixin m := by simpa using hacked
    rcases (acked_retried.mp hacked').2 with hlast | hreturned
    · omega
    · -- what it published is acknowledged, so it published
      have harrives := PublishTurn.arrives_of_outcome hreturned
      by_cases hlast : m.attemptNumber = 1
      · omega
      · simp [hlast, harrives] at hnone

/-- The message was not due, and publishing it again raised. -/
theorem fair_early_iff (hm : 1 ≤ m.attemptNumber) :
    Fair mixin m (t.early.effects (mixin.toPayload m) ++ t.retried mixin m) ↔
      ¬if m.attemptNumber = 1 then t.early.arrives = false ∧ t.ack = none
        else t.retry.arrives = true := by
  have hnone : failures (t.early.effects (mixin.toPayload m) ++ t.retried mixin m) = 0 := by simp
  have hcopies : copies (t.early.effects (mixin.toPayload m) ++ t.retried mixin m) =
      (if t.early.arrives then [mixin.toPayload m] else []) ++
        if m.attemptNumber = 1 ∨ t.retry.arrives = false then []
        else [mixin.toPayload (m.again t.later)] := by simp
  have hacked : .acked ∈ t.early.effects (mixin.toPayload m) ++ t.retried mixin m ↔
      t.ack = none ∧ (m.attemptNumber = 1 ∨ t.retry.outcome = none) := by
    simp [acked_effects, acked_retried]
  -- the copy of the first publish has all its attempts
  have hfirst : ∀ p ∈ (if t.early.arrives then [mixin.toPayload m] else []), ∀ m',
      mixin.createFromCamelCaseJson p = .ok m' → m'.attemptNumber = m.attemptNumber := by
    intro p hp m' hm'
    split at hp
    · rw [List.mem_singleton.mp hp] at hm'
      exact payload_attempts hm'
    · cases hp
  by_cases hlast : m.attemptNumber = 1
  · rw [if_pos hlast]
    rw [if_pos (Or.inl hlast), List.append_nil] at hcopies
    constructor
    · rintro hfair ⟨harrives, hack⟩
      have hgive : GivesUp (t.early.effects (mixin.toPayload m) ++ t.retried mixin m) := by
        refine ⟨hacked.mpr ⟨hack, Or.inl hlast⟩, ?_, ?_⟩
        · rw [hcopies, harrives]
          rfl
        · simp [handled_effects, handled_retried]
      have := hfair.givenUp hgive
      omega
    · intro hno
      refine ⟨fun p hp m' hm' => ?_, fun hgive => absurd ⟨?_, (hacked.mp hgive.1).1⟩ hno⟩
      · rw [hcopies] at hp
        have := hfirst p hp m' hm'
        omega
      · have hnil := hgive.2.1
        rw [hcopies] at hnil
        by_contra harrives
        simp [harrives] at hnil
  · rw [if_neg hlast]
    constructor
    · intro hfair harrives
      have hmem : mixin.toPayload (m.again t.later) ∈
          copies (t.early.effects (mixin.toPayload m) ++ t.retried mixin m) := by
        rw [hcopies]
        apply List.mem_append_right
        rw [if_neg (by simp [hlast, harrives])]
        exact List.mem_singleton.mpr rfl
      obtain ⟨m', hm', ha⟩ := mixin.create_toPayload (m.again t.later)
      have hless : m'.attemptNumber = m.attemptNumber - 1 := ha
      have := (hfair.copies _ hmem m' hm').2
      omega
    · intro hno
      have harrives : t.retry.arrives = false := by simpa using hno
      rw [if_pos (Or.inr harrives), List.append_nil] at hcopies
      refine ⟨fun p hp m' hm' => ?_, fun hgive => ?_⟩
      · rw [hcopies] at hp
        have := hfirst p hp m' hm'
        omega
      · have hreturned := (hacked.mp hgive.1).2.resolve_left hlast
        exact absurd (PublishTurn.arrives_of_outcome hreturned) hno

/-- Which deliveries are fair. -/
theorem fair_iff (hm : 1 ≤ m.attemptNumber) : Fair mixin m (t.effects mixin m) ↔ ¬t.Wastes m := by
  unfold Turn.effects Turn.Wastes
  cases hdue : m.due t.now with
  | true =>
    rw [if_pos rfl]
    refine ⟨fun _ hw => (nomatch hw.1), fun _ => ?_⟩
    unfold Turn.afterTry
    cases t.handler with
    | none => exact fair_of_kept hm (by simp) fun hgive => hgive.2.2 List.mem_cons_self
    | some e =>
      dsimp only
      split
      · exact fair_failed hm e
      · exact fair_of_kept hm (by simp) fun hgive => by simpa using hgive.1
  | false =>
    rw [if_neg Bool.false_ne_true]
    unfold Turn.afterTry
    cases ho : t.early.outcome with
    | none =>
      refine ⟨fun _ hw => by simp at hw, fun _ => ?_⟩
      have harrives := PublishTurn.arrives_of_outcome ho
      refine fair_of_kept hm (by simp) fun hgive => ?_
      have hnone := hgive.2.1
      simp [harrives] at hnone
    | some e =>
      dsimp only
      by_cases he : e.isException = true
      · rw [if_pos he, fair_early_iff hm]
        simp [he]
      · rw [if_neg he, List.append_nil]
        refine ⟨fun _ hw => he (by simpa using hw.2.1), fun _ => ?_⟩
        exact fair_of_kept hm (by simp) fun hgive => acked_effects _ _ hgive.1

end

/-! ## The queue -/

/-- A message in the queue. Nothing reads the last two: the attempts it was first
    published with, and how often the handler was called on it and raised. -/
structure Queued where
  body : Json
  attempts : Int
  raised : Nat
  deriving DecidableEq

/-- The messages that wait, one acknowledged being out of it, and those given up. -/
structure Queue where
  waiting : List Queued
  givenUp : List Queued

/-- A producer publishes a message, or the broker delivers one that waits, in any
    order and as often as it is not acknowledged. -/
inductive QueueEvent where
  | publish (body : Json)
  | deliver (i : Nat) (t : Turn)

namespace Queue
variable (mixin : QueueMessageMixin)

def empty : Queue := ⟨[], []⟩

def attemptsOf (body : Json) : Int :=
  match mixin.createFromCamelCaseJson body with
  | .ok m => m.attemptNumber
  | .error _ => 0

def publish (body : Json) (q : Queue) : Queue :=
  { q with waiting := q.waiting ++ [⟨body, attemptsOf mixin body, 0⟩] }

/-- What a delivery of `x` that did `es` makes of the queue. -/
def settle (i : Nat) (x : Queued) (es : List Effect) (q : Queue) : Queue :=
  let x := { x with raised := x.raised + failures es }
  let left := if .acked ∈ es then q.waiting.eraseIdx i else q.waiting.set i x
  { waiting := left ++ (copies es).map fun p => { x with body := p }
    givenUp := if GivesUp es then q.givenUp ++ [x] else q.givenUp }

def deliver (i : Nat) (t : Turn) (q : Queue) : Queue :=
  match q.waiting[i]? with
  | none => q
  | some x => q.settle i x (stateOf (RabbitMqConsumer.rabbitmqHandler mixin t x.body []))

def step (q : Queue) : QueueEvent → Queue
  | .publish body => q.publish mixin body
  | .deliver i t => q.deliver mixin i t

def run (events : List QueueEvent) : Queue := events.foldl (step mixin) .empty

end Queue

/-- A message that waits has been charged no more attempts than the handler raised. -/
def Queued.Kept (mixin : QueueMessageMixin) (x : Queued) : Prop :=
  1 ≤ x.attempts → ∀ m, mixin.createFromCamelCaseJson x.body = .ok m →
    1 ≤ m.attemptNumber ∧ x.attempts ≤ m.attemptNumber + x.raised

/-- Attempts are used up by the handler only, and a message is given up only after
    all of them. -/
structure Queue.Accounted (mixin : QueueMessageMixin) (q : Queue) : Prop where
  waiting : ∀ x ∈ q.waiting, x.Kept mixin
  givenUp : ∀ x ∈ q.givenUp, 1 ≤ x.attempts → x.attempts ≤ x.raised

section
variable {mixin : QueueMessageMixin} {q : Queue}

theorem Queue.publish_accounted (h : q.Accounted mixin) (body : Json) :
    (q.publish mixin body).Accounted mixin := by
  refine ⟨fun x hx => ?_, h.givenUp⟩
  rcases List.mem_append.mp hx with hx | hx
  · exact h.waiting x hx
  · rw [List.mem_singleton.mp hx]
    intro hpos m hm
    have hattempts : Queue.attemptsOf mixin body = m.attemptNumber := by
      unfold Queue.attemptsOf
      rw [hm]
    change 1 ≤ Queue.attemptsOf mixin body at hpos
    show _ ∧ Queue.attemptsOf mixin body ≤ m.attemptNumber + (0 : Nat)
    omega

/-- A fair delivery. -/
theorem Queue.settle_accounted (h : q.Accounted mixin) {i : Nat} {x : Queued}
    (hx : q.waiting[i]? = some x) {es : List Effect}
    (hes : 1 ≤ x.attempts → ∀ m, mixin.createFromCamelCaseJson x.body = .ok m → Fair mixin m es)
    (hread : copies es ≠ [] ∨ GivesUp es → ∃ m, mixin.createFromCamelCaseJson x.body = .ok m) :
    (q.settle i x es).Accounted mixin := by
  have hkept := h.waiting x (List.mem_of_getElem? hx)
  constructor
  · intro y hy
    rcases List.mem_append.mp hy with hy | hy
    · by_cases hacked : .acked ∈ es
      · rw [if_pos hacked] at hy
        exact h.waiting y (List.mem_of_mem_eraseIdx hy)
      · rw [if_neg hacked] at hy
        rcases List.mem_or_eq_of_mem_set hy with hy | hy
        · exact h.waiting y hy
        · -- it waits to be delivered again
          rw [hy]
          intro hpos m hm
          have := hkept hpos m hm
          dsimp only at *
          omega
    · obtain ⟨p, hp, hpy⟩ := List.mem_map.mp hy
      rw [← hpy]
      intro hpos m' hm'
      -- a copy has one attempt less for each failure more
      obtain ⟨m, hm⟩ := hread (Or.inl (List.ne_nil_of_mem hp))
      have hcopy := (hes hpos m hm).copies p hp m' hm'
      have := hkept hpos m hm
      dsimp only at *
      omega
  · intro y hy hpos
    by_cases hgive : GivesUp es
    · have hy' : y ∈ q.givenUp ++ [{ x with raised := x.raised + failures es }] := by
        simpa [Queue.settle, hgive] using hy
      rcases List.mem_append.mp hy' with hy' | hy'
      · exact h.givenUp y hy' hpos
      · rw [List.mem_singleton.mp hy'] at hpos ⊢
        obtain ⟨m, hm⟩ := hread (Or.inr hgive)
        -- a message is given up when its attempts are used up
        have hused := (hes hpos m hm).givenUp hgive
        have := hkept hpos m hm
        dsimp only at *
        omega
    · have hy' : y ∈ q.givenUp := by simpa [Queue.settle, hgive] using hy
      exact h.givenUp y hy' hpos

theorem Queue.deliver_accounted (h : q.Accounted mixin) (i : Nat) (t : Turn)
    (ht : ∀ x m, q.waiting[i]? = some x → mixin.createFromCamelCaseJson x.body = .ok m →
      1 ≤ x.attempts → ¬t.Wastes m) : (q.deliver mixin i t).Accounted mixin := by
  unfold Queue.deliver
  cases hx : q.waiting[i]? with
  | none => exact h
  | some x =>
    have hkept := h.waiting x (List.mem_of_getElem? hx)
    refine Queue.settle_accounted h hx (fun hpos m hm => ?_) fun hdid => ?_
    · have hm1 := (hkept hpos m hm).1
      rw [rabbitmqHandler_effects mixin t hm hm1, fair_iff hm1]
      exact ht x m hx hm hpos
    · -- a body that cannot be read leaves no trace
      cases hread : mixin.createFromCamelCaseJson x.body with
      | ok m => exact ⟨m, rfl⟩
      | error e =>
        have hnone : stateOf (RabbitMqConsumer.rabbitmqHandler mixin t x.body []) = [] := by
          unfold RabbitMqConsumer.rabbitmqHandler
          rw [hread]
          rfl
        rw [hnone] at hdid
        rcases hdid with hdid | hdid
        · exact absurd rfl hdid
        · cases hdid.1

end

/-- Over every run whose deliveries waste no attempt on publishing again: a message
    is given up only after the handler was called on it, and raised, as often as it
    had attempts, and one that waits has lost no other attempts. -/
theorem attempts_used (mixin : QueueMessageMixin) (events : List QueueEvent)
    (h : ∀ p i t, p ++ [.deliver i t] <+: events → ∀ x m,
      (Queue.run mixin p).waiting[i]? = some x → mixin.createFromCamelCaseJson x.body = .ok m →
      1 ≤ x.attempts → ¬t.Wastes m) :
    (Queue.run mixin events).Accounted mixin := by
  have hempty : Queue.empty.Accounted mixin := ⟨fun _ hx => (nomatch hx), fun _ hx => (nomatch hx)⟩
  apply foldl_induction hempty
  intro p e hp hi
  cases e with
  | publish body => exact Queue.publish_accounted hi body
  | deliver i t => exact Queue.deliver_accounted hi i t (h p i t hp)

/-- Outside calls that all return. -/
def PublishTurn.returns : PublishTurn := ⟨none, none, none, none⟩

/-- The broker cannot be reached. -/
def PublishTurn.unreachable : PublishTurn :=
  ⟨some (.exception "AMQPConnectionError"), none, none, none⟩

/-- A delivery at time 5, at which `handler` is what the handler comes to. -/
def Turn.at5 (handler : Option Exc) : Turn :=
  { now := 5, handler, early := .returns, later := 6, retry := .returns, ack := none }

/-- A message with one attempt, due at `started`. -/
def oneAttempt (started : Option DateTime) : Json :=
  QueueMessage.asPayload ⟨"trace", .str "example", .list [], started, 1, 3⟩

/-- The broker cannot be reached when the message is published again before it is
    due, and the message is given up without the handler having been called. -/
theorem message_given_up_unhandled :
    ¬(Queue.run .camelCase [.publish (oneAttempt (some 10)), .deliver 0
      { Turn.at5 none with early := .unreachable }]).Accounted .camelCase := by
  intro h
  have hused := h.givenUp ⟨oneAttempt (some 10), 1, 0⟩ (by decide) (by decide)
  exact absurd hused (by decide)

/-- A message with one attempt, delivered before it is due and published again, and then
    delivered to a handler that raises. -/
theorem attempts_used_after_delay :
    let events : List QueueEvent := [.publish (oneAttempt (some 10)), .deliver 0 (Turn.at5 none),
      .deliver 0 { Turn.at5 (some (.valueError "no such row")) with now := 12 }]
    let q := Queue.run .camelCase events
    q.Accounted .camelCase ∧ q.givenUp = [⟨oneAttempt (some 10), 1, 1⟩] := by
  intro events q
  have hwaits : ∀ p e, p ++ [e] <+: events → ∀ i t, e = .deliver i t → ∀ x m,
      (Queue.run .camelCase p).waiting[i]? = some x →
      QueueMessageMixin.camelCase.createFromCamelCaseJson x.body = .ok m → ¬t.Wastes m := by
    apply forall_steps
    intro k i t he x m hx hm
    match k with
    | ⟨0, _⟩ => cases he
    | ⟨1, _⟩ =>
      cases he
      cases Option.some.inj hx
      cases hm
      decide
    | ⟨2, _⟩ =>
      cases he
      cases Option.some.inj hx
      cases hm
      decide
  refine ⟨attempts_used .camelCase events fun p i t hp x m hx hm _ => ?_, by decide⟩
  exact hwaits p _ hp i t rfl x m hx hm

end DddService
