import DddService.Basic
import DddService.Lib.Hoare
import DddService.Lib.PyValue

/- `rabbitmq_handler` on any body. A message is what the body is read as, so its fields may
   hold any values. Reading stands before the `try`, and the bookkeeping of a failure in its
   `except`; what is raised there goes through `start_consume` and leaves the delivery
   unacknowledged. `acknowledged_iff` says which deliveries are acknowledged. The broker
   takes every publish and every acknowledgement. -/
namespace DddService
open Hoare

/-- A `QueueMessage` as it is made of a body. -/
structure RawMessage where
  traceId : PyValue
  functionName : PyValue
  data : PyValue
  started : PyValue
  attemptNumber : PyValue
  retryDelaySecond : PyValue

/-- What the handler calls: `json`, the dataclass mixin, and `pendulum`. -/
structure Codec where
  loads : List UInt8 → Except Failure PyValue
  createFromCamelCaseJson : PyValue → Except Failure RawMessage
  toPayload : RawMessage → Except Failure PyValue
  dumps : PyValue → Except Failure String
  /-- `now().add(seconds=..)` -/
  addSeconds : DateTime → PyValue → Except Failure DateTime

/-- The `QueueHandler`: how it leaves the message, and what it raises. -/
abbrev RawHandler := RawMessage → RawMessage × Option Exc

/-- What the broker got. -/
structure Channel where
  published : List String
  acks : Nat

/-- A delivery in hand: the message object, and the broker. -/
structure Reception where
  message : RawMessage
  channel : Channel

abbrev ReceptionM := EStateM Exc Reception

/-- A call that may fail. -/
def calls {α : Type} : Except Failure α → ReceptionM α
  | .ok a => pure a
  | .error e => throw e.val

/-- An operator that may not be defined on its operand. -/
def operates {α : Type} : Option α → ReceptionM α
  | some a => pure a
  | none => throw (.typeError "unsupported operand type")

namespace RawDelivery
variable (c : Codec) (handler : RawHandler) (now later : DateTime)

/-- `publish_raw_message` -/
def publishRawMessage (message : PyValue) : ReceptionM Unit :=
  match message with
  | .dict entries => do
    let body ← calls (c.dumps (.dict entries))
    modify fun r => { r with channel.published := r.channel.published ++ [body] }
  | _ => throw (.attributeError "get")

/-- `self.publisher.publish_raw_message(self.routing_key, message.to_payload(), ..)` -/
def publish : ReceptionM Unit := do
  let r ← get
  let payload ← calls (c.toPayload r.message)
  publishRawMessage c payload

/-- `handler(message)` -/
def handle : ReceptionM Unit := do
  let r ← get
  set { r with message := (handler r.message).1 }
  match (handler r.message).2 with
  | none => pure ()
  | some e => throw e

/-- The part inside `try`. -/
def consume : ReceptionM Unit := do
  let r ← get
  if r.message.started.truthy then
    let due ← operates (r.message.started.before? now)
    if due then handle handler else publish c
  else handle handler

/-- The attempts, once the next start is set. -/
def countAttempt : ReceptionM Unit := do
  let r ← get
  if r.message.attemptNumber.isNegOne then publish c
  else do
    let remaining ← operates r.message.attemptNumber.subOne?
    modify fun r => { r with message.attemptNumber := remaining }
    let again ← operates remaining.positive?
    if again then publish c else pure ()

/-- The part under `except Exception`. -/
def retry : ReceptionM Unit := do
  let r ← get
  let started ← calls (c.addSeconds later r.message.retryDelaySecond)
  modify fun r => { r with message.started := .dateTime started }
  countAttempt c

/-- `ch.basic_ack` -/
def basicAck : ReceptionM Unit :=
  modify fun r => { r with channel.acks := r.channel.acks + 1 }

/-- `rabbitmq_handler`, once there is a message. -/
def receive : ReceptionM Unit := do
  tryCatch (consume c handler now) (fun e => if e.isException then retry c later else throw e)
  basicAck

/-- `rabbitmq_handler` -/
def rabbitmqHandler (body : List UInt8) (ch : Channel) : EStateM.Result Exc Channel Unit :=
  match c.loads body >>= c.createFromCamelCaseJson with
  | .error e => .error e.val ch
  | .ok message => match receive c handler now later ⟨message, ch⟩ with
    | .ok _ r => .ok () r.channel
    | .error e r => .error e r.channel

end RawDelivery

/-! ## Which deliveries are acknowledged -/

namespace RawMessage
variable (c : Codec) (handler : RawHandler) (now later : DateTime) (m : RawMessage)

/-- The message can be written and sent. -/
def Publishable : Prop :=
  ∃ entries body, c.toPayload m = .ok (.dict entries) ∧ c.dumps (.dict entries) = .ok body

/-- It is to be handled now: it has no start, or its start is past. -/
def Due : Prop := m.started.truthy = false ∨ m.started.before? now = some true

/-- Its start is a time to come. -/
def Early : Prop := m.started.before? now = some false

/-- It is handled without an exception, or put off. -/
def Settled : Prop :=
  (m.Due now ∧ (handler m).2 = none) ∨ (m.Early now ∧ m.Publishable c)

/-- The handler raises what `except Exception` does not catch. -/
def Interrupted : Prop := m.Due now ∧ ∃ e, (handler m).2 = some e ∧ e.isException = false

/-- The attempts are without end or a number, and while there are any left the message can
    be sent. -/
def Countable : Prop :=
  if m.attemptNumber.isNegOne then m.Publishable c
  else ∃ remaining, m.attemptNumber.subOne? = some remaining ∧
    (remaining.positive? = some true → { m with attemptNumber := remaining }.Publishable c)

/-- After a failure the next start can be reckoned and the attempts counted. -/
def Retriable : Prop :=
  ∃ t, c.addSeconds later m.retryDelaySecond = .ok t ∧ { m with started := .dateTime t }.Countable c

instance : Decidable (m.Due now) := inferInstanceAs (Decidable (_ ∨ _))

/-- The message as a failure finds it: the handler, if it was called, may have changed it. -/
def left : RawMessage := if m.Due now then (handler m).1 else m

end RawMessage

/-- The body is a message, and what becomes of it goes through. -/
def Codec.Digests (c : Codec) (handler : RawHandler) (now later : DateTime)
    (body : List UInt8) : Prop :=
  ∃ data m, c.loads body = .ok data ∧ c.createFromCamelCaseJson data = .ok m ∧
    (m.Settled c handler now ∨
      (¬m.Interrupted handler now ∧ (m.left handler now).Retriable c later))

namespace RawDelivery
variable {c : Codec} {handler : RawHandler} {now later : DateTime} (r : Reception)

theorem publish_run :
    (r.message.Publishable c → ∃ r', publish c r = .ok () r' ∧ r'.channel.acks = r.channel.acks) ∧
      (¬r.message.Publishable c → ∃ e : Failure, publish c r = .error e.val r) := by
  cases hpayload : c.toPayload r.message with
  | error e =>
    have hrun : publish c r = .error e.val r := by
      refine bind_ok (get_run r) (bind_error ?_)
      rw [hpayload]
      rfl
    refine ⟨?_, fun _ => ⟨e, hrun⟩⟩
    rintro ⟨entries, body, hp, _⟩
    rw [hpayload] at hp
    cases hp
  | ok payload =>
    have hrun : publish c r = publishRawMessage c payload r := by
      refine bind_ok (get_run r) ?_
      rw [hpayload]
      rfl
    rw [hrun]
    cases payload with
    | dict entries =>
      cases hdumps : c.dumps (.dict entries) with
      | error e =>
        refine ⟨?_, fun _ => ⟨e, bind_error (by rw [hdumps]; rfl)⟩⟩
        rintro ⟨entries', body, hp, hd⟩
        rw [hpayload] at hp
        cases hp
        rw [hdumps] at hd
        cases hd
      | ok body =>
        have hok : RawMessage.Publishable c r.message := ⟨entries, body, hpayload, hdumps⟩
        refine ⟨fun _ => ⟨_, bind_ok (by rw [hdumps]; rfl) rfl, rfl⟩, fun hn => absurd hok hn⟩
    | _ =>
      refine ⟨?_, fun _ => ⟨⟨.attributeError "get", rfl⟩, rfl⟩⟩
      rintro ⟨entries, body, hp, _⟩
      rw [hpayload] at hp
      cases hp

theorem handle_run : handle handler r =
    match (handler r.message).2 with
    | none => .ok () { r with message := (handler r.message).1 }
    | some e => .error e { r with message := (handler r.message).1 } := by
  refine bind_ok (get_run r) (bind_ok rfl ?_)
  cases (handler r.message).2 <;> rfl

/-! The three ways of the `try`: the message is due, it is early, or its start is not a
    time. -/

theorem consume_due (h : r.message.Due now) : consume c handler now r = handle handler r := by
  refine bind_ok (get_run r) ?_
  rcases h with h | h
  · exact run_ite_neg (by rw [h]; exact Bool.false_ne_true) rfl
  · exact run_ite_pos (PyValue.truthy_of_before h) (bind_ok (by rw [h]; rfl) rfl)

theorem consume_early (h : r.message.Early now) : consume c handler now r = publish c r :=
  bind_ok (get_run r) (run_ite_pos (PyValue.truthy_of_before h) (bind_ok (by rw [h]; rfl) rfl))

theorem consume_unordered (hd : ¬r.message.Due now) (he : ¬r.message.Early now) :
    ∃ e : Failure, consume c handler now r = .error e.val r := by
  obtain ⟨ht, hb⟩ := not_or.mp hd
  refine ⟨⟨.typeError "unsupported operand type", rfl⟩, ?_⟩
  refine bind_ok (get_run r) (run_ite_pos (by simpa using ht) (bind_error ?_))
  cases hbefore : r.message.started.before? now with
  | none => rfl
  | some due =>
    cases due with
    | true => exact absurd hbefore hb
    | false => exact absurd hbefore he

theorem consume_settled (h : r.message.Settled c handler now) :
    ∃ r', consume c handler now r = .ok () r' ∧ r'.channel.acks = r.channel.acks := by
  rcases h with ⟨hdue, hhandler⟩ | ⟨hearly, hsend⟩
  · refine ⟨{ r with message := (handler r.message).1 }, ?_, rfl⟩
    rw [consume_due r hdue, handle_run, hhandler]
  · rw [consume_early r hearly]
    exact (publish_run r).1 hsend

/-- Any other raises, with the message as it is left. What is raised is an `Exception`
    unless the handler was interrupted. -/
theorem consume_fails (h : ¬r.message.Settled c handler now) :
    ∃ e, consume c handler now r = .error e { r with message := r.message.left handler now } ∧
      (e.isException = false ↔ r.message.Interrupted handler now) := by
  obtain ⟨hdue, hearly⟩ := not_or.mp h
  by_cases hd : r.message.Due now
  · cases hraised : (handler r.message).2 with
    | none => exact absurd ⟨hd, hraised⟩ hdue
    | some e =>
      refine ⟨e, ?_, fun he => ⟨hd, e, hraised, he⟩, ?_⟩
      · rw [consume_due r hd, handle_run, hraised, RawMessage.left, if_pos hd]
      · rintro ⟨_, e', he', hexc⟩
        rw [hraised] at he'
        cases he'
        exact hexc
  · have hraises : ∃ e : Failure, consume c handler now r = .error e.val r := by
      by_cases he : r.message.Early now
      · rw [consume_early r he]
        exact (publish_run r).2 fun hsend => hearly ⟨he, hsend⟩
      · exact consume_unordered r hd he
    obtain ⟨e, hrun⟩ := hraises
    refine ⟨e.val, ?_, fun hexc => ?_, fun hi => absurd hi.1 hd⟩
    · rw [hrun, RawMessage.left, if_neg hd]
    · rw [e.property] at hexc
      cases hexc

theorem countAttempt_returns (h : r.message.Countable c) :
    ∃ r', countAttempt c r = .ok () r' ∧ r'.channel.acks = r.channel.acks := by
  unfold RawMessage.Countable at h
  by_cases hunlimited : r.message.attemptNumber.isNegOne = true
  · rw [if_pos hunlimited] at h
    obtain ⟨r', hr', hacks⟩ := (publish_run r).1 h
    exact ⟨r', bind_ok (get_run r) (run_ite_pos hunlimited hr'), hacks⟩
  · rw [if_neg hunlimited] at h
    obtain ⟨remaining, hremaining, hsend⟩ := h
    obtain ⟨again, hagain⟩ := PyValue.positive_of_subOne hremaining
    let left : Reception := { r with message.attemptNumber := remaining }
    have hrun : ∀ {x}, (if again then publish c else pure ()) left = x → countAttempt c r = x := by
      intro x hx
      refine bind_ok (get_run r) (run_ite_neg hunlimited (bind_ok (by rw [hremaining]; rfl) ?_))
      exact bind_ok rfl (bind_ok (by rw [hagain]; rfl) hx)
    cases again with
    | true =>
      obtain ⟨r', hr', hacks⟩ := (publish_run left).1 (hsend hagain)
      exact ⟨r', hrun hr', hacks⟩
    | false => exact ⟨left, hrun rfl, rfl⟩

theorem countAttempt_raises (h : ¬r.message.Countable c) :
    ∃ (e : Failure) (r' : Reception), countAttempt c r = .error e.val r' ∧
      r'.channel.acks = r.channel.acks := by
  unfold RawMessage.Countable at h
  by_cases hunlimited : r.message.attemptNumber.isNegOne = true
  · rw [if_pos hunlimited] at h
    obtain ⟨e, he⟩ := (publish_run r).2 h
    exact ⟨e, r, bind_ok (get_run r) (run_ite_pos hunlimited he), rfl⟩
  · rw [if_neg hunlimited] at h
    cases hremaining : r.message.attemptNumber.subOne? with
    | none =>
      refine ⟨⟨.typeError "unsupported operand type", rfl⟩, r, ?_, rfl⟩
      exact bind_ok (get_run r) (run_ite_neg hunlimited (bind_error (by rw [hremaining]; rfl)))
    | some remaining =>
      obtain ⟨again, hagain⟩ := PyValue.positive_of_subOne hremaining
      let left : Reception := { r with message.attemptNumber := remaining }
      cases again with
      | true =>
        obtain ⟨e, he⟩ := (publish_run left).2 fun hsend => h ⟨remaining, hremaining, fun _ => hsend⟩
        refine ⟨e, left, ?_, rfl⟩
        refine bind_ok (get_run r) (run_ite_neg hunlimited (bind_ok (by rw [hremaining]; rfl) ?_))
        exact bind_ok rfl (bind_ok (by rw [hagain]; rfl) (run_ite_pos rfl he))
      | false =>
        refine absurd ⟨remaining, hremaining, fun hpositive => ?_⟩ h
        rw [hagain] at hpositive
        cases hpositive

theorem retry_returns (h : r.message.Retriable c later) :
    ∃ r', retry c later r = .ok () r' ∧ r'.channel.acks = r.channel.acks := by
  obtain ⟨t, ht, hcount⟩ := h
  obtain ⟨r', hr', hacks⟩ := countAttempt_returns { r with message.started := .dateTime t } hcount
  exact ⟨r', bind_ok (get_run r) (bind_ok (by rw [ht]; rfl) (bind_ok rfl hr')), hacks⟩

theorem retry_raises (h : ¬r.message.Retriable c later) :
    ∃ (e : Failure) (r' : Reception), retry c later r = .error e.val r' ∧
      r'.channel.acks = r.channel.acks := by
  cases ht : c.addSeconds later r.message.retryDelaySecond with
  | error e => exact ⟨e, r, bind_ok (get_run r) (bind_error (by rw [ht]; rfl)), rfl⟩
  | ok t =>
    obtain ⟨e, r', hr', hacks⟩ := countAttempt_raises { r with message.started := .dateTime t }
      fun hcount => h ⟨t, ht, hcount⟩
    exact ⟨e, r', bind_ok (get_run r) (bind_ok (by rw [ht]; rfl) (bind_ok rfl hr')), hacks⟩

theorem receive_returns (h : r.message.Settled c handler now ∨
    (¬r.message.Interrupted handler now ∧ (r.message.left handler now).Retriable c later)) :
    ∃ r', receive c handler now later r = .ok () r' ∧
      r'.channel.acks = r.channel.acks + 1 := by
  have hack : ∀ {r'}, (tryCatch (consume c handler now) fun e =>
      if e.isException then retry c later else throw e) r = .ok () r' →
      r'.channel.acks = r.channel.acks → ∃ r', receive c handler now later r = .ok () r' ∧
        r'.channel.acks = r.channel.acks + 1 := by
    intro r' hr' hacks
    exact ⟨_, bind_ok hr' rfl, congrArg (· + 1) hacks⟩
  by_cases hsettled : r.message.Settled c handler now
  · obtain ⟨r', hr', hacks⟩ := consume_settled r hsettled
    exact hack (tryCatch_ok hr') hacks
  · obtain ⟨hinterrupted, hretriable⟩ := h.resolve_left hsettled
    obtain ⟨e, he, hexc⟩ := consume_fails r hsettled
    obtain ⟨r', hr', hacks⟩ :=
      retry_returns { r with message := r.message.left handler now } hretriable
    have hcaught : e.isException = true := by
      by_contra hn
      exact hinterrupted (hexc.mp (by simpa using hn))
    exact hack (tryCatch_error he (run_ite_pos hcaught hr')) hacks

theorem receive_raises (hsettled : ¬r.message.Settled c handler now)
    (h : r.message.Interrupted handler now ∨ ¬(r.message.left handler now).Retriable c later) :
    ∃ e r', receive c handler now later r = .error e r' ∧ r'.channel.acks = r.channel.acks := by
  obtain ⟨e, he, hexc⟩ := consume_fails r hsettled
  by_cases hcaught : e.isException = true
  · have hretriable := h.resolve_left fun hi => by
      rw [hexc.mpr hi] at hcaught
      cases hcaught
    obtain ⟨e', r', hr', hacks⟩ :=
      retry_raises { r with message := r.message.left handler now } hretriable
    exact ⟨e'.val, r', bind_error (tryCatch_error he (run_ite_pos hcaught hr')), hacks⟩
  · exact ⟨e, _, bind_error (tryCatch_error he (run_ite_neg hcaught rfl)), rfl⟩

/-- The handler returns, with one acknowledgement. -/
def Acknowledged (c : Codec) (handler : RawHandler) (now later : DateTime) (body : List UInt8)
    (ch : Channel) : Prop :=
  ∃ ch', rabbitmqHandler c handler now later body ch = .ok () ch' ∧ ch'.acks = ch.acks + 1

/-- A delivery that is not acknowledged once raises, and is not acknowledged at all. -/
theorem unacknowledged_raises {body : List UInt8} (h : ¬c.Digests handler now later body)
    (ch : Channel) : ∃ e ch', rabbitmqHandler c handler now later body ch = .error e ch' ∧
      ch'.acks = ch.acks := by
  unfold rabbitmqHandler
  cases hloads : c.loads body with
  | error e => exact ⟨e.val, ch, rfl, rfl⟩
  | ok data =>
    cases hcreate : c.createFromCamelCaseJson data with
    | error e => exact ⟨e.val, ch, by rw [show (Except.ok data >>= _) = _ from hcreate], rfl⟩
    | ok m =>
      have hm : ¬m.Settled c handler now ∧
          (m.Interrupted handler now ∨ ¬(m.left handler now).Retriable c later) := by
        refine ⟨fun hs => h ⟨data, m, hloads, hcreate, Or.inl hs⟩, ?_⟩
        by_contra hn
        obtain ⟨hi, hr⟩ := not_or.mp hn
        exact h ⟨data, m, hloads, hcreate, Or.inr ⟨hi, not_not.mp hr⟩⟩
      obtain ⟨e, r', hr', hacks⟩ := receive_raises ⟨m, ch⟩ hm.1 hm.2
      refine ⟨e, r'.channel, ?_, hacks⟩
      rw [show (Except.ok data >>= c.createFromCamelCaseJson) = _ from hcreate]
      dsimp only
      rw [hr']

/-- A delivery is acknowledged if and only if its body is a message and what becomes of the
    message goes through. -/
theorem acknowledged_iff (c : Codec) (handler : RawHandler) (now later : DateTime)
    (body : List UInt8) (ch : Channel) :
    Acknowledged c handler now later body ch ↔ c.Digests handler now later body := by
  constructor
  · rintro ⟨ch', hch', _⟩
    by_contra hn
    obtain ⟨e, ch'', hraises, _⟩ := unacknowledged_raises hn ch
    rw [hch'] at hraises
    cases hraises
  · rintro ⟨data, m, hloads, hcreate, h⟩
    obtain ⟨r', hr', hacks⟩ := receive_returns ⟨m, ch⟩ h
    refine ⟨r'.channel, ?_, hacks⟩
    unfold rabbitmqHandler
    rw [hloads, show (Except.ok data >>= c.createFromCamelCaseJson) = _ from hcreate]
    dsimp only
    rw [hr']

/-- Reads nothing, as the real one does with an empty body. -/
def blankCodec : Codec where
  loads _ := .error ⟨.valueError "Expecting value: line 1 column 1 (char 0)", rfl⟩
  createFromCamelCaseJson _ := .error ⟨.typeError "missing 1 required positional argument", rfl⟩
  toPayload _ := .ok (.dict [])
  dumps _ := .ok "\x7b\x7d"
  addSeconds t seconds := match seconds with
    | .scalar (.int n) => .ok (t + 1000000 * n)
    | _ => .error ⟨.typeError "unsupported operand type", rfl⟩

theorem empty_body_raises :
    ¬Acknowledged blankCodec (fun m => (m, none)) 10 10 [] ⟨[], 0⟩ := by
  rintro ⟨ch', hch', _⟩
  cases hch'

end RawDelivery

end DddService
