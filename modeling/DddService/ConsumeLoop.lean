import DddService.Basic
import DddService.Lib.Hoare

/- The loop of `start_consume`. The connection is opened once, by the `with` around the loop.
   Where it is lost, the `except` branches sleep on it and go round again. But the sleep is
   on the lost connection and raises, so a loop that goes on has lost nothing
   (`turn_goes_on`), and it recovers only where there is nothing to recover from
   (`recovers_iff`). -/
namespace DddService
open Hoare

/-- What comes out of the calls into `pika`, by the class the `except` clauses tell apart. -/
inductive AmqpError where
  | connectionClosedByBroker
  /-- Any other `AMQPConnectionError`. -/
  | amqpConnectionError (name : String)
  | amqpChannelError (name : String)
  | other (e : Exc)

/-- Whether it says that the connection is lost. -/
def AmqpError.isLoss : AmqpError → Bool
  | .connectionClosedByBroker | .amqpConnectionError _ => true
  | _ => false

/-- What the loop meets: whether the connection can be opened, whether `kill_now` is set at
    the i-th check, how the i-th `basic_consume` and `start_consuming` on an open connection
    end, and what the channel and the sleep of a closed one raise. -/
structure ConsumeEnv where
  connect : Option Failure
  killNow : Nat → Bool
  outcome : Nat → Option AmqpError
  channelClosed : AmqpError
  sleepClosed : AmqpError

/-- Connections are numbered in the order they are opened. -/
inductive ConnectionEvent where
  | opened (connection : Nat)
  | consumed (connection : Nat)
  | lost (connection : Nat)
  deriving DecidableEq

/-- The connection in hand, whether it is open, and what happened so far. -/
structure Consuming where
  connection : Nat
  isOpen : Bool
  log : List ConnectionEvent

abbrev ConsumingM := EStateM AmqpError Consuming

namespace Consuming

def init : Consuming := ⟨0, false, []⟩

/-- The next connection. -/
def opening (s : Consuming) : Consuming :=
  ⟨s.connection + 1, true, s.log ++ [.opened (s.connection + 1)]⟩

def noteConsumed (s : Consuming) : Consuming :=
  { s with log := s.log ++ [.consumed s.connection] }

def lose (s : Consuming) : Consuming :=
  { s with isOpen := false, log := s.log ++ [.lost s.connection] }

end Consuming

namespace RabbitMqConsumer
variable (env : ConsumeEnv)

/-- `MessageQueueConnection.__enter__` -/
def enter : ConsumingM Unit :=
  match env.connect with
  | some _ => throw (.amqpConnectionError "AMQPConnectorException")
  | none => modify Consuming.opening

/-- `basic_consume` and `start_consuming`, on the channel in hand. -/
def consumeMessages (i : Nat) : ConsumingM Unit := do
  modify Consuming.noteConsumed
  let s ← get
  if s.isOpen then
    match env.outcome i with
    | none => pure ()
    | some e => do
      modify fun s => if e.isLoss then s.lose else s
      throw e
  else throw env.channelClosed

/-- `self.connection.connection.sleep(1)` -/
def sleep : ConsumingM Unit := do
  let s ← get
  if s.isOpen then pure () else throw env.sleepClosed

/-- The body of the `while`, and whether it goes on. -/
def consumeTurn (i : Nat) : ConsumingM Bool :=
  tryCatch (do consumeMessages env i; pure true) fun e =>
    match e with
    | .connectionClosedByBroker => do sleep env; pure true
    -- a `break`
    | .amqpChannelError _ => pure false
    | .amqpConnectionError _ => do sleep env; pure true
    | .other e => throw (.other e)

/-- `n` turns of the `while`, from the i-th on, and whether it goes on after them. -/
def consumeTurns : Nat → Nat → ConsumingM Bool
  | 0, _ => pure true
  | n + 1, i =>
    if env.killNow i then pure false
    else do
      if ← consumeTurn env i then consumeTurns n (i + 1) else pure false

/-- `start_consume` up to its n-th turn. `__exit__` comes after the last one. -/
def startConsume (n : Nat) : ConsumingM Bool := do
  enter env
  consumeTurns env n 0

end RabbitMqConsumer
open RabbitMqConsumer

/-! ## Recovering -/

/-- Connections may be lost, any number of times; nothing else happens to the loop. -/
structure Losses extends ConsumeEnv where
  connects : connect = none
  alive : ∀ i, killNow i = false
  losses : ∀ i e, outcome i = some e → e.isLoss = true

/-- What is consumed after a loss is consumed on a connection opened after it. -/
def Renewed (log : List ConnectionEvent) : Prop :=
  ∀ before g h after, log = before ++ .consumed g :: after → .lost h ∈ before →
    ∃ l r, before = l ++ .opened g :: r ∧ ∀ h, .lost h ∉ r

/-- The loop never ends, and it never consumes on a connection that was lost. -/
def Recovers (env : ConsumeEnv) : Prop :=
  ∀ n, ∃ s, startConsume env n Consuming.init = .ok true s ∧ Renewed s.log

/-! ## What goes on -/

section
variable {env : ConsumeEnv} {i n : Nat} {s t : Consuming}

/-- The connection is open and was never lost. -/
structure Unbroken (s : Consuming) : Prop where
  isOpen : s.isOpen = true
  kept : ∀ h, .lost h ∉ s.log

theorem Unbroken.noteConsumed (h : Unbroken s) : Unbroken s.noteConsumed := by
  refine ⟨h.isOpen, fun g hg => ?_⟩
  rcases List.mem_append.mp hg with hg | hg
  · exact h.kept g hg
  · cases List.mem_singleton.mp hg

theorem consumeMessages_run (env : ConsumeEnv) (i : Nat) (hs : s.isOpen = true) :
    consumeMessages env i s = match env.outcome i with
      | none => .ok () s.noteConsumed
      | some e => .error e (if e.isLoss then s.noteConsumed.lose else s.noteConsumed) := by
  refine bind_ok (modify_run s _) (bind_ok (get_run _) (run_ite_pos hs ?_))
  cases env.outcome i <;> rfl

theorem turn_returned (hs : s.isOpen = true) (h : env.outcome i = none) :
    consumeTurn env i s = .ok true s.noteConsumed := by
  have hconsume := consumeMessages_run env i hs
  rw [h] at hconsume
  exact tryCatch_ok (bind_ok hconsume rfl)

/-- Whatever the loop meets, a turn that goes on has lost nothing: a sleep on the lost
    connection raises. -/
theorem turn_goes_on (hs : s.isOpen = true) (h : consumeTurn env i s = .ok true t) :
    env.outcome i = none ∧ t = s.noteConsumed := by
  cases ho : env.outcome i with
  | none =>
    rw [turn_returned hs ho] at h
    cases h
    exact ⟨rfl, rfl⟩
  | some e =>
    have hconsume := consumeMessages_run env i hs
    rw [ho] at hconsume
    rw [consumeTurn, tryCatch_run, bind_error hconsume] at h
    cases e <;> cases h

theorem turns_go_on (n i : Nat) (hs : Unbroken s) (h : consumeTurns env n i s = .ok true t) :
    Unbroken t ∧ ∀ j, i ≤ j → j < i + n → env.outcome j = none := by
  induction n generalizing i s with
  | zero =>
    cases h
    exact ⟨hs, fun j hi hj => by omega⟩
  | succ n ih =>
    unfold consumeTurns at h
    split at h
    · cases h
    · obtain ⟨goesOn, r, hturn, hrest⟩ := bind_eq_ok h
      cases goesOn with
      | false => cases hrest
      | true =>
        obtain ⟨hnone, rfl⟩ := turn_goes_on hs.isOpen hturn
        obtain ⟨ht, hlater⟩ := ih (i + 1) hs.noteConsumed hrest
        refine ⟨ht, fun j hi hj => ?_⟩
        rcases Nat.eq_or_lt_of_le hi with rfl | hi
        · exact hnone
        · exact hlater j hi (by omega)

theorem turns_undisturbed (halive : ∀ i, env.killNow i = false)
    (hnone : ∀ i, env.outcome i = none) (n i : Nat) (hs : Unbroken s) :
    ∃ t, consumeTurns env n i s = .ok true t ∧ Unbroken t := by
  induction n generalizing i s with
  | zero => exact ⟨s, rfl, hs⟩
  | succ n ih =>
    obtain ⟨t, ht, hunbroken⟩ := ih (i + 1) hs.noteConsumed
    refine ⟨t, ?_, hunbroken⟩
    unfold consumeTurns
    exact run_ite_neg (by rw [halive]; exact Bool.false_ne_true)
      (bind_ok (turn_returned hs.isOpen (hnone i)) ht)

/-- A log without a loss has nothing to renew. -/
theorem Unbroken.renewed (h : Unbroken s) : Renewed s.log := by
  intro before g lost after hlog hlost
  exact absurd (by rw [hlog]; exact List.mem_append_left _ hlost) (h.kept lost)

theorem Losses.enter_run (env : Losses) :
    RabbitMqConsumer.enter env.toConsumeEnv Consuming.init = .ok () Consuming.init.opening := by
  unfold RabbitMqConsumer.enter
  rw [env.connects]
  rfl

theorem unbroken_init : Unbroken Consuming.init.opening :=
  ⟨rfl, fun _ hh => nomatch List.mem_singleton.mp hh⟩

/-- The consumer recovers from the losses if and only if there are none. -/
theorem recovers_iff (env : Losses) :
    Recovers env.toConsumeEnv ↔ ∀ i, env.outcome i = none := by
  constructor
  · intro h i
    obtain ⟨s, hs, _⟩ := h (i + 1)
    obtain ⟨_, r, henter, hturns⟩ := bind_eq_ok hs
    rw [env.enter_run] at henter
    cases henter
    exact (turns_go_on (i + 1) 0 unbroken_init hturns).2 i (Nat.zero_le i) (by omega)
  · intro hnone n
    obtain ⟨s, hs, hunbroken⟩ := turns_undisturbed env.alive hnone n 0 unbroken_init
    exact ⟨s, bind_ok env.enter_run hs, hunbroken.renewed⟩

/-- The broker closes the connection once. -/
def closedOnce : Losses where
  connect := none
  killNow _ := false
  outcome i := if i = 0 then some .connectionClosedByBroker else none
  channelClosed := .amqpChannelError "ChannelWrongStateError"
  sleepClosed := .amqpConnectionError "ConnectionWrongStateError"
  connects := rfl
  alive _ := rfl
  losses i e h := by
    split at h
    · cases h; rfl
    · cases h

theorem closed_once_stops : ¬Recovers closedOnce.toConsumeEnv := by
  intro h
  obtain ⟨s, hs, _⟩ := h 1
  cases hs

end

end DddService
