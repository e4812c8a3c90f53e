import DddService.Consumer
import Mathlib.Data.List.Chain
import Mathlib.Data.List.Induction

/- The life of one message in its queue, when every publish and acknowledgement
   succeeds: what is published again comes back. The clock and the outcomes of the
   handler are the environment's. `Life.step_spec` says what one delivery does, `Alive`
   and `Over` what the calls of the handler so far say about the message, and
   `retry_accounting` draws the account. -/
namespace DddService
open Hoare

/-- What `DataclassMixin` puts on `QueueMessage`, with payloads that read back as what
    they were written from. -/
structure InverseMixin extends QueueMessageMixin where
  create_inverse : ∀ m, createFromCamelCaseJson (toPayload m) = .ok m

/-! ### A plain dict that reads back

   The name of an `Enum` keeps its class and member, and whether it is a `str` too. -/

def FunctionName.asTagged : FunctionName → Json
  | .str s => .str s
  | .enum cls member value =>
    .obj [("cls", .str cls), ("member", .str member), ("value", .str value)]
  | .strEnum cls member value =>
    .obj [("cls", .str cls), ("member", .str member), ("text", .str value)]

def FunctionName.ofTagged? (j : Json) : Option FunctionName :=
  match j with
  | .str s => some (.str s)
  | _ => do
    let cls ← (← j.get? "cls").asStr?
    let member ← (← j.get? "member").asStr?
    match j.get? "value" with
    | some value => return .enum cls member (← value.asStr?)
    | none => return .strEnum cls member (← (← j.get? "text").asStr?)

def QueueMessage.asTagged (m : QueueMessage Json) : Json :=
  .obj [("traceId", .str m.traceId), ("functionName", m.functionName.asTagged),
    ("data", m.data.asJson), ("started", .optNum m.started),
    ("attemptNumber", .num m.attemptNumber), ("retryDelaySecond", .num m.retryDelaySecond)]

def QueueMessage.ofTagged? (j : Json) : Option (QueueMessage Json) := do
  let traceId ← (← j.get? "traceId").asStr?
  let functionName ← FunctionName.ofTagged? (← j.get? "functionName")
  let data ← MessageData.ofJson? (← j.get? "data")
  let started ← j.get? "started"
  let attemptNumber ← (← j.get? "attemptNumber").asNum?
  let retryDelaySecond ← (← j.get? "retryDelaySecond").asNum?
  pure ⟨traceId, functionName, data, started.asNum?, attemptNumber, retryDelaySecond⟩

theorem FunctionName.ofTagged_asTagged (f : FunctionName) : ofTagged? f.asTagged = some f := by
  cases f with
  | str s => rfl
  | enum cls member value => simp [asTagged, ofTagged?, Json.asStr?]
  | strEnum cls member value =>
    have hnone : (Json.obj []).get? "value" = none := rfl
    simp [asTagged, ofTagged?, Json.asStr?, hnone]

theorem QueueMessage.ofTagged_asTagged (m : QueueMessage Json) :
    ofTagged? m.asTagged = some m := by
  obtain ⟨traceId, functionName, data, started, attemptNumber, retryDelaySecond⟩ := m
  cases started <;>
    simp [ofTagged?, asTagged, Json.asStr?, Json.asNum?, Json.optNum,
      FunctionName.ofTagged_asTagged, MessageData.ofJson_asJson]

def InverseMixin.tagged : InverseMixin where
  toPayload := QueueMessage.asTagged
  createFromCamelCaseJson j := match QueueMessage.ofTagged? j with
    | some m => .ok m
    | none => .error (.typeError "missing required positional argument")
  create_toPayload m := ⟨m, by rw [QueueMessage.ofTagged_asTagged], rfl⟩
  create_inverse m := by rw [QueueMessage.ofTagged_asTagged]

/-- What the environment decides about one delivery: the time at the check of `started`,
    what the handler comes to if it is called, and the time after a failure. -/
structure LifeTurn where
  now : DateTime
  outcome : Option Failure
  later : DateTime

namespace LifeTurn

/-- The failure, as the consumer sees it. -/
def raised (t : LifeTurn) : Option Exc := t.outcome.map (·.1)

/-- The delivery, with everything outside succeeding. -/
def turn (t : LifeTurn) : Turn :=
  { now := t.now, handler := t.raised, early := .returns, later := t.later, retry := .returns
    ack := none }

end LifeTurn

/-- A delivery that was made: the body delivered, and what it did. -/
structure Delivered where
  body : Json
  turn : LifeTurn
  effects : List Effect

/-- The bodies that wait in the queue, and the deliveries so far. -/
structure Life where
  waiting : List Json
  log : List Delivered

/-- A call of the handler: the message, the time of the check, and how it came out. -/
structure Invocation where
  message : QueueMessage Json
  now : DateTime
  raised : Option Exc
  later : DateTime

def Effect.call? : Effect → Option (Option Exc)
  | .handled raised => some raised
  | _ => none

namespace Life
variable (mixin : InverseMixin)

/-- A delivery of what waits first. What is not acknowledged waits again. -/
def step (l : Life) (t : LifeTurn) : Life :=
  match l.waiting with
  | [] => l
  | body :: rest =>
    let es := stateOf (RabbitMqConsumer.rabbitmqHandler mixin.toQueueMessageMixin t.turn body [])
    { waiting := (if .acked ∈ es then rest else rest ++ [body]) ++ copies es
      log := l.log ++ [⟨body, t, es⟩] }

/-- The life of a message that is published, over the deliveries `turns`. -/
def run (m : QueueMessage Json) (turns : List LifeTurn) : Life :=
  turns.foldl (step mixin) ⟨[mixin.toPayload m], []⟩

/-- The calls of the handler in one delivery. -/
def callsOf (d : Delivered) : List Invocation :=
  match mixin.createFromCamelCaseJson d.body with
  | .ok m => (d.effects.filterMap Effect.call?).map fun raised =>
      ⟨m, d.turn.now, raised, d.turn.later⟩
  | .error _ => []

/-- The calls of the handler, in order. -/
def invocations (l : Life) : List Invocation := l.log.flatMap (callsOf mixin)

end Life

/-! ## One delivery -/

/-- The message that the failure branch publishes, if it does. -/
def QueueMessage.retried (m : QueueMessage Json) (later : DateTime) : Option (QueueMessage Json) :=
  if m.attemptNumber = -1 then
    some { m with started := some (DateTime.addSeconds later m.retryDelaySecond) }
  else if m.attemptNumber - 1 > 0 then some (m.again later)
  else none

section
variable {mixin : InverseMixin} {m : QueueMessage Json} {t : LifeTurn}

theorem publishRawMessage_returns (payload : Json) (es : List Effect) :
    RabbitMqConsumer.publishRawMessage .returns payload es = .ok () (es ++ [.published payload]) :=
  publishRawMessage_run .returns payload es

theorem retry_returns (es : List Effect) :
    RabbitMqConsumer.retry mixin.toQueueMessageMixin t.turn m es =
      .ok () (es ++ ((m.retried t.later).map fun m' => .published (mixin.toPayload m')).toList) := by
  unfold RabbitMqConsumer.retry QueueMessage.retried
  dsimp only
  by_cases hinf : m.attemptNumber = -1
  · rw [if_pos hinf, if_pos hinf]
    exact publishRawMessage_returns _ es
  · rw [if_neg hinf, if_neg hinf]
    by_cases hmore : m.attemptNumber - 1 > 0
    · rw [if_pos hmore, if_pos hmore]
      exact publishRawMessage_returns _ es
    · rw [if_neg hmore, if_neg hmore]
      exact congrArg (EStateM.Result.ok ()) (List.append_nil es).symm

/-- The message that waits after the delivery, if one does. -/
def LifeTurn.next (t : LifeTurn) (m : QueueMessage Json) : Option (QueueMessage Json) :=
  if m.due t.now then if t.outcome.isSome then m.retried t.later else none
  else some m

/-- What a delivery does: a message that is due goes to the handler, one that waits
    afterwards is published, and the delivery is acknowledged. -/
def LifeTurn.effects (mixin : InverseMixin) (t : LifeTurn) (m : QueueMessage Json) : List Effect :=
  (if m.due t.now then [.handled t.raised] else []) ++
    (((t.next m).map fun m' => .published (mixin.toPayload m')).toList ++ [.acked])

theorem rabbitmqHandler_life : stateOf (RabbitMqConsumer.rabbitmqHandler mixin.toQueueMessageMixin
    t.turn (mixin.toPayload m) []) = t.effects mixin m := by
  have hconsume := consume_run mixin.toQueueMessageMixin t.turn m []
  have hack : ∀ es : List Effect,
      stateOf ((do outside t.turn.ack; note .acked : ConsumerM Unit) es) = es ++ [.acked] :=
    fun _ => rfl
  unfold RabbitMqConsumer.rabbitmqHandler LifeTurn.effects LifeTurn.next
  rw [mixin.create_inverse]
  dsimp only
  by_cases hdue : m.due t.now = true
  · rw [if_pos hdue, if_pos hdue]
    rw [if_pos (show m.due t.turn.now = true from hdue)] at hconsume
    cases ho : t.outcome with
    | none =>
      have hraised : t.raised = none := by rw [LifeTurn.raised, ho]; rfl
      rw [show t.turn.handler = none from hraised] at hconsume
      rw [bind_ok (tryCatch_ok hconsume) rfl, hack, hraised]
      rfl
    | some f =>
      have hraised : t.raised = some f.1 := by rw [LifeTurn.raised, ho]; rfl
      rw [show t.turn.handler = some f.1 from hraised] at hconsume
      rw [bind_ok (tryCatch_error hconsume (run_ite_pos f.2 (retry_returns _))) rfl, hack, hraised,
        List.append_assoc]
      rfl
  · rw [if_neg hdue, if_neg hdue]
    rw [if_neg (show ¬m.due t.turn.now = true from hdue)] at hconsume
    have hpublish : RabbitMqConsumer.consume mixin.toQueueMessageMixin t.turn m [] =
        .ok () [.published (mixin.toPayload m)] := hconsume
    rw [bind_ok (tryCatch_ok hpublish) rfl, hack]
    rfl

theorem copies_life : copies (t.effects mixin m) = ((t.next m).map mixin.toPayload).toList := by
  unfold LifeTurn.effects
  rw [copies_append, copies_append]
  cases m.due t.now <;> cases t.next m <;> rfl

theorem acked_life : (t.effects mixin m).count .acked = 1 := by
  unfold LifeTurn.effects
  rw [List.count_append, List.count_append]
  cases m.due t.now <;> cases t.next m <;> rfl

theorem calls_life : (t.effects mixin m).filterMap Effect.call? =
    if m.due t.now then [t.raised] else [] := by
  unfold LifeTurn.effects
  rw [List.filterMap_append, List.filterMap_append]
  cases m.due t.now <;> cases t.next m <;> rfl

end

/-! ## A life -/

/-- The message after the calls: with an attempt less for each, unless its attempts are
    unlimited, and due a delay after the last. -/
def QueueMessage.after (m : QueueMessage Json) (calls : List Invocation) : QueueMessage Json :=
  { m with
    attemptNumber := if m.attemptNumber = -1 then -1 else m.attemptNumber - calls.length
    started := match calls.getLast? with
      | none => m.started
      | some i => some (DateTime.addSeconds i.later m.retryDelaySecond) }

/-- The message has attempts left: every call so far raised. -/
structure Alive (m : QueueMessage Json) (calls : List Invocation) : Prop where
  raised : ∀ i ∈ calls, i.raised ≠ none
  left : m.attemptNumber ≠ -1 → calls ≠ [] → (calls.length : Int) < m.attemptNumber

/-- The last call returned or was the last there was. -/
structure Over (m : QueueMessage Json) (calls : List Invocation) : Prop where
  raised : ∀ i ∈ calls.dropLast, i.raised ≠ none
  last : (∃ i ∈ calls.getLast?, i.raised = none) ∨
    (m.attemptNumber ≠ -1 ∧ (calls.length : Int) = max m.attemptNumber 1)
  budget : m.attemptNumber ≠ -1 → (calls.length : Int) ≤ max m.attemptNumber 1

section
variable {m : QueueMessage Json} {calls : List Invocation}

theorem QueueMessage.after_nil (m : QueueMessage Json) : m.after [] = m := by
  unfold QueueMessage.after
  by_cases hinf : m.attemptNumber = -1
  · rw [if_pos hinf, ← hinf]
    rfl
  · rw [if_neg hinf]
    exact congrArg (fun n => { m with attemptNumber := n }) (Int.sub_zero m.attemptNumber)

theorem Alive.nil (m : QueueMessage Json) : Alive m [] :=
  ⟨fun _ hi => (nomatch hi), fun _ h => absurd rfl h⟩

theorem Alive.budget (h : Alive m calls) (hn : m.attemptNumber ≠ -1) :
    (calls.length : Int) ≤ max m.attemptNumber 1 := by
  by_cases hnil : calls = []
  · rw [hnil, List.length_nil]
    omega
  · have := h.left hn hnil
    omega

theorem Alive.over_of_returned (h : Alive m calls) {i : Invocation} (hi : i.raised = none) :
    Over m (calls ++ [i]) := by
  refine ⟨by simpa using h.raised, Or.inl ⟨i, by simp, hi⟩, fun hn => ?_⟩
  rw [List.length_append, List.length_singleton]
  by_cases hnil : calls = []
  · rw [hnil, List.length_nil]
    omega
  · have := h.left hn hnil
    omega

/-- A finite budget does not come to the value for an unlimited one. -/
theorem Alive.attempts (h : Alive m calls) (hn : m.attemptNumber ≠ -1) :
    (m.after calls).attemptNumber ≠ -1 := by
  have hleft : (m.after calls).attemptNumber = m.attemptNumber - calls.length := if_neg hn
  rw [hleft]
  by_cases hnil : calls = []
  · simpa [hnil] using hn
  · have := h.left hn hnil
    omega

/-- After a call that raises, the message is published with what is left, or its
    attempts are used up. -/
theorem Alive.failed (h : Alive m calls) {i : Invocation} (hi : i.raised ≠ none) :
    ((m.after calls).retried i.later = some (m.after (calls ++ [i])) ∧ Alive m (calls ++ [i])) ∨
      ((m.after calls).retried i.later = none ∧ Over m (calls ++ [i])) := by
  have hraised : ∀ j ∈ calls ++ [i], j.raised ≠ none := by
    intro j hj
    rcases List.mem_append.mp hj with hj | hj
    · exact h.raised j hj
    · rw [List.mem_singleton.mp hj]
      exact hi
  by_cases hinf : m.attemptNumber = -1
  · refine Or.inl ⟨?_, hraised, fun hn => absurd hinf hn⟩
    simp [QueueMessage.retried, QueueMessage.after, hinf]
  · have hlen : ((calls ++ [i]).length : Int) = calls.length + 1 := by simp
    have hleft : (m.after calls).attemptNumber = m.attemptNumber - calls.length := if_neg hinf
    have hne : ¬(m.after calls).attemptNumber = -1 := h.attempts hinf
    unfold QueueMessage.retried
    rw [if_neg hne]
    by_cases hmore : (m.after calls).attemptNumber - 1 > 0
    · rw [if_pos hmore]
      refine Or.inl ⟨?_, hraised, fun _ _ => by omega⟩
      have hattempts : m.attemptNumber - calls.length - 1 = m.attemptNumber - (calls.length + 1) := by
        omega
      simp [QueueMessage.again, QueueMessage.after, hinf, hattempts]
    · rw [if_neg hmore]
      -- a budget below one still has its first call
      have hmax : ((calls ++ [i]).length : Int) = max m.attemptNumber 1 := by
        by_cases hnil : calls = []
        · have : (calls.length : Int) = 0 := by simp [hnil]
          omega
        · have := h.left hinf hnil
          omega
      exact Or.inr ⟨rfl, fun j hj => hraised j (List.dropLast_subset _ hj),
        Or.inr ⟨hinf, hmax⟩, fun _ => Int.le_of_eq hmax⟩

end

/-- A message is over only when its last call ended it. -/
theorem Alive.not_last {m : QueueMessage Json} {calls : List Invocation} (h : Alive m calls) :
    ¬((∃ i ∈ calls.getLast?, i.raised = none) ∨
    (m.attemptNumber ≠ -1 ∧ (calls.length : Int) = max m.attemptNumber 1)) := by
  rintro (⟨i, hi, hreturned⟩ | ⟨hn, hall⟩)
  · exact h.raised i (List.mem_of_getLast? hi) hreturned
  · have hnil : calls ≠ [] := by
      rintro rfl
      rw [List.length_nil] at hall
      omega
    have := h.left hn hnil
    omega

/-- The second call was made a delay after the first failed. -/
def Invocation.Waited (delay : Int) (i j : Invocation) : Prop :=
  DateTime.addSeconds i.later delay < j.now

/-- Calls a delay apart from one to the next are so from each to all later ones, if the
    clock does not go back. -/
theorem Invocation.waited_pairwise {delay : Int} : ∀ {calls : List Invocation},
    calls.IsChain (Invocation.Waited delay) → (calls.map Invocation.now).Pairwise (· ≤ ·) →
    calls.Pairwise (Invocation.Waited delay)
  | [], _, _ => List.Pairwise.nil
  | [_], _, _ => List.pairwise_singleton _ _
  | i :: j :: rest, hchain, hsorted => by
    have hij : i.Waited delay j := (List.isChain_cons_cons.mp hchain).1
    have hlater := List.pairwise_cons.mp (List.pairwise_cons.mp hsorted).2
    refine List.pairwise_cons.mpr ⟨fun k hk => ?_,
      waited_pairwise (List.isChain_cons_cons.mp hchain).2 (List.pairwise_cons.mp hsorted).2⟩
    rcases List.mem_cons.mp hk with rfl | hk
    · exact hij
    · have hjk : j.now ≤ k.now := hlater.1 k.now (List.mem_map_of_mem hk)
      exact Int.lt_of_lt_of_le hij hjk

namespace Life
variable (mixin : InverseMixin) (m : QueueMessage Json)

/-- What holds throughout a life: the message waits with what its calls have left of it,
    or is over; its calls are a delay apart; and each delivery was of the message as some
    first calls have left it. -/
structure Accounted (l : Life) : Prop where
  standing : (Alive m (l.invocations mixin) ∧
      l.waiting = [mixin.toPayload (m.after (l.invocations mixin))]) ∨
    (Over m (l.invocations mixin) ∧ l.waiting = [])
  waited : (l.invocations mixin).IsChain (Invocation.Waited m.retryDelaySecond)
  delivered : ∀ d ∈ l.log, ∃ calls, Alive m calls ∧
    d.body = mixin.toPayload (m.after calls) ∧ d.effects = d.turn.effects mixin (m.after calls)

variable {mixin m}

theorem callsOf_deliver (t : LifeTurn) (m' : QueueMessage Json) :
    callsOf mixin ⟨mixin.toPayload m', t, t.effects mixin m'⟩ =
      if m'.due t.now then [⟨m', t.now, t.raised, t.later⟩] else [] := by
  unfold callsOf
  rw [mixin.create_inverse]
  dsimp only
  rw [calls_life]
  by_cases hdue : m'.due t.now = true
  · rw [if_pos hdue, if_pos hdue]
    rfl
  · rw [if_neg hdue, if_neg hdue]
    rfl

/-- The inversion of `step`: nothing waits and nothing happens, or the message that waits
    is delivered. -/
theorem step_spec {l : Life} (h : Accounted mixin m l) (t : LifeTurn) :
    (l.waiting = [] ∧ step mixin l t = l) ∨
    ∃ m', m' = m.after (l.invocations mixin) ∧ Alive m (l.invocations mixin) ∧
      (step mixin l t).waiting = ((t.next m').map mixin.toPayload).toList ∧
      (step mixin l t).log = l.log ++ [⟨mixin.toPayload m', t, t.effects mixin m'⟩] ∧
      (step mixin l t).invocations mixin = l.invocations mixin ++
        if m'.due t.now then [⟨m', t.now, t.raised, t.later⟩] else [] := by
  rcases h.standing with ⟨halive, hwaiting⟩ | ⟨_, hwaiting⟩
  · refine Or.inr ⟨m.after (l.invocations mixin), rfl, halive, ?_⟩
    generalize hm' : m.after (l.invocations mixin) = m' at hwaiting ⊢
    have hacked : Effect.acked ∈ t.effects mixin m' := by
      unfold LifeTurn.effects
      simp
    have hstep : step mixin l t = ⟨((t.next m').map mixin.toPayload).toList,
        l.log ++ [⟨mixin.toPayload m', t, t.effects mixin m'⟩]⟩ := by
      unfold step
      rw [hwaiting]
      dsimp only
      rw [rabbitmqHandler_life, if_pos hacked, copies_life, List.nil_append]
    refine ⟨by rw [hstep], by rw [hstep], ?_⟩
    rw [hstep]
    unfold invocations
    rw [List.flatMap_append, List.flatMap_singleton, callsOf_deliver]
  · refine Or.inl ⟨hwaiting, ?_⟩
    unfold step
    rw [hwaiting]

theorem waited_of_due {calls : List Invocation} {i : Invocation}
    (hchain : calls.IsChain (Invocation.Waited m.retryDelaySecond))
    (hdue : (m.after calls).due i.now = true) :
    (calls ++ [i]).IsChain (Invocation.Waited m.retryDelaySecond) := by
  refine List.isChain_append.mpr ⟨hchain, List.isChain_singleton i, fun j hj k hk => ?_⟩
  have hk : i = k := Option.some.inj hk
  have hstarted : (m.after calls).started =
      some (DateTime.addSeconds j.later m.retryDelaySecond) := by
    unfold QueueMessage.after
    rw [Option.mem_def.mp hj]
  unfold QueueMessage.due at hdue
  rw [hstarted] at hdue
  rw [← hk]
  have hpassed : DateTime.addSeconds j.later m.retryDelaySecond < i.now := by simpa using hdue
  exact hpassed

theorem step_accounted {l : Life} (h : Accounted mixin m l) (t : LifeTurn) :
    Accounted mixin m (step mixin l t) := by
  rcases step_spec h t with ⟨_, hstep⟩ | ⟨m', hm', halive, hwaiting, hlog, hcalls⟩
  · rw [hstep]
    exact h
  have hdelivered : ∀ d ∈ (step mixin l t).log, ∃ calls, Alive m calls ∧
      d.body = mixin.toPayload (m.after calls) ∧ d.effects = d.turn.effects mixin (m.after calls) := by
    intro d hd
    rw [hlog] at hd
    rcases List.mem_append.mp hd with hd | hd
    · exact h.delivered d hd
    · rw [List.mem_singleton.mp hd]
      exact ⟨l.invocations mixin, halive, by rw [hm'], by rw [hm']⟩
  by_cases hdue : m'.due t.now = true
  · -- the handler is called
    rw [if_pos hdue] at hcalls
    have hnext : t.next m' = if t.outcome.isSome then m'.retried t.later else none := if_pos hdue
    have hwaited := waited_of_due (i := ⟨m', t.now, t.raised, t.later⟩) h.waited (hm' ▸ hdue)
    refine ⟨?_, by rw [hcalls]; exact hwaited, hdelivered⟩
    rw [hcalls, hwaiting, hnext]
    cases ho : t.outcome with
    | none =>
      have hraised : t.raised = none := by rw [LifeTurn.raised, ho]; rfl
      exact Or.inr ⟨halive.over_of_returned hraised, rfl⟩
    | some f =>
      have hraised : t.raised ≠ none := by rw [LifeTurn.raised, ho]; exact Option.some_ne_none _
      have hleft := congrArg (QueueMessage.retried · t.later) hm'
      rw [if_pos Option.isSome_some]
      rcases halive.failed (i := ⟨m', t.now, t.raised, t.later⟩) hraised with ⟨hr, ha⟩ | ⟨hr, hover⟩
      · exact Or.inl ⟨ha, by rw [hleft.trans hr]; rfl⟩
      · exact Or.inr ⟨hover, by rw [hleft.trans hr]; rfl⟩
  · -- it goes back as it is
    rw [if_neg hdue, List.append_nil] at hcalls
    have hnext : t.next m' = some m' := if_neg hdue
    refine ⟨Or.inl ⟨hcalls ▸ halive, ?_⟩, hcalls ▸ h.waited, hdelivered⟩
    rw [hwaiting, hnext, hcalls, hm']
    rfl

theorem run_append (turns : List LifeTurn) (t : LifeTurn) :
    run mixin m (turns ++ [t]) = step mixin (run mixin m turns) t := by
  unfold run
  rw [List.foldl_append]
  rfl

theorem run_accounted (turns : List LifeTurn) : Accounted mixin m (run mixin m turns) := by
  induction turns using List.reverseRecOn with
  | nil =>
    refine ⟨Or.inl ⟨Alive.nil m, ?_⟩, List.isChain_nil, fun d hd => (nomatch hd)⟩
    exact congrArg (fun m => [mixin.toPayload m]) m.after_nil.symm
  | append_singleton turns t ih =>
    rw [run_append]
    exact step_accounted ih t

theorem run_times (turns : List LifeTurn) :
    (((run mixin m turns).invocations mixin).map Invocation.now).Sublist
      (turns.map LifeTurn.now) := by
  induction turns using List.reverseRecOn with
  | nil => exact List.Sublist.slnil
  | append_singleton turns t ih =>
    rw [run_append, List.map_append]
    rcases step_spec (run_accounted turns) t with ⟨_, hstep⟩ | ⟨m', _, _, _, _, hcalls⟩
    · rw [hstep]
      exact ih.trans (List.sublist_append_left _ _)
    · rw [hcalls, List.map_append]
      refine ih.append ?_
      by_cases hdue : m'.due t.now = true
      · rw [if_pos hdue]
        exact List.Sublist.refl _
      · rw [if_neg hdue]
        exact List.nil_sublist _

/-! ### Lives without end -/

/-- The life over the first `k` of endless deliveries. -/
def upTo (mixin : InverseMixin) (m : QueueMessage Json) (turns : Nat → LifeTurn) (k : Nat) : Life :=
  run mixin m ((List.range k).map turns)

/-- The clock passes any time, from any delivery on. -/
def Passes (turns : Nat → LifeTurn) : Prop :=
  ∀ (time : DateTime) (k : Nat), ∃ j, k ≤ j ∧ time < (turns j).now

section
variable (turns : Nat → LifeTurn) {k : Nat}

theorem upTo_succ : upTo mixin m turns (k + 1) = step mixin (upTo mixin m turns k) (turns k) := by
  unfold upTo
  rw [List.range_succ, List.map_append]
  exact run_append _ _

theorem upTo_stays (h : (upTo mixin m turns k).waiting = []) {k' : Nat} (hk : k ≤ k') :
    upTo mixin m turns k' = upTo mixin m turns k := by
  induction k', hk using Nat.le_induction with
  | base => rfl
  | succ n _ ih =>
    rw [upTo_succ, ih]
    unfold step
    rw [h]

/-- A delivery of a message that waits: the handler is called if the message is due, and
    otherwise it waits as it did. -/
theorem upTo_step (h : (upTo mixin m turns k).waiting ≠ []) {calls : List Invocation}
    (hcalls : (upTo mixin m turns k).invocations mixin = calls) :
    if (m.after calls).due (turns k).now then
      ((upTo mixin m turns (k + 1)).invocations mixin).length = calls.length + 1
    else (upTo mixin m turns (k + 1)).invocations mixin = calls ∧
      (upTo mixin m turns (k + 1)).waiting ≠ [] := by
  have hacc : Accounted mixin m (upTo mixin m turns k) := run_accounted _
  rw [upTo_succ]
  rcases step_spec hacc (turns k) with ⟨hnil, _⟩ | ⟨m', hm', _, hwaiting, _, hcalls'⟩
  · exact absurd hnil h
  rw [hcalls] at hm' hcalls'
  rw [hcalls', hwaiting, ← hm']
  by_cases hdue : m'.due (turns k).now = true
  · rw [if_pos hdue, if_pos hdue, List.length_append]
    rfl
  · have hnext : (turns k).next m' = some m' := if_neg hdue
    rw [if_neg hdue, if_neg hdue, List.append_nil, hnext]
    exact ⟨rfl, List.cons_ne_nil _ _⟩

theorem upTo_progress (hpasses : Passes turns) (h : (upTo mixin m turns k).waiting ≠ []) :
    ∃ j, ((upTo mixin m turns j).invocations mixin).length =
      ((upTo mixin m turns k).invocations mixin).length + 1 := by
  generalize hcalls : (upTo mixin m turns k).invocations mixin = calls
  obtain ⟨j, hj, hnow⟩ := hpasses ((m.after calls).started.getD 0) k
  have hdue : (m.after calls).due (turns j).now = true := by
    unfold QueueMessage.due
    cases hs : (m.after calls).started with
    | none => rfl
    | some s =>
      rw [hs] at hnow
      exact decide_eq_true hnow
  -- up to then, another call was made or the message waits as it did
  have hwaits : (∃ i, ((upTo mixin m turns i).invocations mixin).length = calls.length + 1) ∨
      ((upTo mixin m turns j).invocations mixin = calls ∧ (upTo mixin m turns j).waiting ≠ []) := by
    clear hnow hdue
    induction j, hj using Nat.le_induction with
    | base => exact Or.inr ⟨hcalls, h⟩
    | succ i _ ih =>
      rcases ih with ih | ⟨hsame, hwaiting⟩
      · exact Or.inl ih
      have hstep := upTo_step turns hwaiting hsame
      by_cases hdue : (m.after calls).due (turns i).now = true
      · rw [if_pos hdue] at hstep
        exact Or.inl ⟨i + 1, hstep⟩
      · rw [if_neg hdue] at hstep
        exact Or.inr hstep
  rcases hwaits with hdone | ⟨hsame, hwaiting⟩
  · exact hdone
  · have hstep := upTo_step turns hwaiting hsame
    rw [if_pos hdue] at hstep
    exact ⟨j + 1, hstep⟩

theorem upTo_calls (hpasses : Passes turns) (bound : Nat) : ∃ k, (upTo mixin m turns k).waiting = [] ∨
    bound ≤ ((upTo mixin m turns k).invocations mixin).length := by
  induction bound with
  | zero => exact ⟨0, Or.inr (Nat.zero_le _)⟩
  | succ bound ih =>
    obtain ⟨k, hk⟩ := ih
    by_cases hover : (upTo mixin m turns k).waiting = []
    · exact ⟨k, Or.inl hover⟩
    · obtain ⟨j, hj⟩ := upTo_progress turns hpasses hover
      have hbound := hk.resolve_left hover
      exact ⟨j, Or.inr (by omega)⟩

end

/-- The account of a life over finitely many deliveries. -/
structure RetryAccount (mixin : InverseMixin) (m : QueueMessage Json) (turns : List LifeTurn) :
    Prop where
  /-- Only the last call can have returned. -/
  untilSuccess : ∀ i ∈ ((run mixin m turns).invocations mixin).dropLast, i.raised ≠ none
  /-- Nothing waits any more exactly when the last call returned or the budget is used up. -/
  ended : (run mixin m turns).waiting = [] ↔
    (∃ i ∈ ((run mixin m turns).invocations mixin).getLast?, i.raised = none) ∨
      (m.attemptNumber ≠ -1 ∧
        (((run mixin m turns).invocations mixin).length : Int) = max m.attemptNumber 1)
  budget : m.attemptNumber ≠ -1 →
    (((run mixin m turns).invocations mixin).length : Int) ≤ max m.attemptNumber 1
  waited : ((run mixin m turns).invocations mixin).IsChain (Invocation.Waited m.retryDelaySecond)
  neverEarly : (turns.map LifeTurn.now).Pairwise (· ≤ ·) →
    ((run mixin m turns).invocations mixin).Pairwise (Invocation.Waited m.retryDelaySecond)
  same : ∀ i ∈ (run mixin m turns).invocations mixin, i.message.traceId = m.traceId ∧
    i.message.functionName = m.functionName ∧ i.message.data = m.data
  /-- A message that is not due goes back as it came, and the handler is not called. -/
  notDue : ∀ d ∈ (run mixin m turns).log, ∀ m', mixin.createFromCamelCaseJson d.body = .ok m' →
    m'.due d.turn.now = false → d.effects = [.published (mixin.toPayload m'), .acked]
  finite : m.attemptNumber ≠ -1 → ∀ d ∈ (run mixin m turns).log, ∀ p ∈ copies d.effects,
    ∀ m', mixin.createFromCamelCaseJson p = .ok m' → m'.attemptNumber ≠ -1
  acked : ∀ d ∈ (run mixin m turns).log, d.effects.count .acked = 1

theorem Accounted.message {l : Life} (h : Accounted mixin m l) {i : Invocation}
    (hi : i ∈ l.invocations mixin) : ∃ calls, i.message = m.after calls := by
  obtain ⟨d, hd, hi⟩ := List.mem_flatMap.mp hi
  obtain ⟨calls, _, hbody, heffects⟩ := h.delivered d hd
  have hd : d = ⟨mixin.toPayload (m.after calls), d.turn, d.turn.effects mixin (m.after calls)⟩ := by
    rw [← hbody, ← heffects]
  rw [hd, callsOf_deliver] at hi
  by_cases hdue : (m.after calls).due d.turn.now = true
  · rw [if_pos hdue] at hi
    rw [List.mem_singleton.mp hi]
    exact ⟨calls, rfl⟩
  · rw [if_neg hdue] at hi
    exact absurd hi List.not_mem_nil

theorem next_attempts {calls : List Invocation} (halive : Alive m calls)
    (hn : m.attemptNumber ≠ -1) {t : LifeTurn} {m' : QueueMessage Json}
    (hnext : t.next (m.after calls) = some m') : m'.attemptNumber ≠ -1 := by
  have hattempts := halive.attempts hn
  unfold LifeTurn.next at hnext
  by_cases hdue : (m.after calls).due t.now = true
  · rw [if_pos hdue] at hnext
    cases ho : t.outcome with
    | none =>
      rw [ho] at hnext
      exact absurd hnext (fun h => nomatch h)
    | some f =>
      rw [ho, if_pos Option.isSome_some] at hnext
      unfold QueueMessage.retried at hnext
      rw [if_neg hattempts] at hnext
      by_cases hmore : (m.after calls).attemptNumber - 1 > 0
      · -- a positive number is left, so not -1
        rw [if_pos hmore] at hnext
        rw [← Option.some.inj hnext]
        change (m.after calls).attemptNumber - 1 ≠ -1
        omega
      · rw [if_neg hmore] at hnext
        exact absurd hnext (fun h => nomatch h)
  · rw [if_neg hdue] at hnext
    rw [← Option.some.inj hnext]
    exact hattempts

theorem run_account (turns : List LifeTurn) : RetryAccount mixin m turns := by
  have h : Accounted mixin m (run mixin m turns) := run_accounted turns
  -- each part of the account is read off the invariant, by where the message is
  refine
    { untilSuccess := ?_, ended := ?_, budget := ?_, waited := h.waited, neverEarly := ?_
      same := ?_, notDue := ?_, finite := ?_, acked := ?_ }
  · rcases h.standing with ⟨halive, _⟩ | ⟨hover, _⟩
    · exact fun i hi => halive.raised i (List.dropLast_subset _ hi)
    · exact hover.raised
  · rcases h.standing with ⟨halive, hwaiting⟩ | ⟨hover, hwaiting⟩
    · rw [hwaiting]
      exact ⟨fun hnil => absurd hnil (List.cons_ne_nil _ _), fun hlast => absurd hlast halive.not_last⟩
    · exact ⟨fun _ => hover.last, fun _ => hwaiting⟩
  · rcases h.standing with ⟨halive, _⟩ | ⟨hover, _⟩
    · exact halive.budget
    · exact hover.budget
  · exact fun hclock => Invocation.waited_pairwise h.waited (hclock.sublist (run_times turns))
  · intro i hi
    obtain ⟨calls, hmessage⟩ := h.message hi
    rw [hmessage]
    exact ⟨rfl, rfl, rfl⟩
  · intro d hd m' hread hdue
    obtain ⟨calls, _, hbody, heffects⟩ := h.delivered d hd
    rw [hbody, mixin.create_inverse] at hread
    have hm' : m.after calls = m' := Except.ok.inj hread
    have hneg : ¬m'.due d.turn.now = true := by simp [hdue]
    rw [heffects, hm']
    unfold LifeTurn.effects LifeTurn.next
    rw [if_neg hneg, if_neg hneg]
    rfl
  · intro hn d hd p hp m' hread
    obtain ⟨calls, halive, _, heffects⟩ := h.delivered d hd
    rw [heffects, copies_life] at hp
    obtain ⟨m'', hnext, rfl⟩ := Option.map_eq_some_iff.mp (Option.mem_toList.mp hp)
    rw [mixin.create_inverse] at hread
    rw [← Except.ok.inj hread]
    exact next_attempts halive hn hnext
  · intro d hd
    obtain ⟨calls, _, _, heffects⟩ := h.delivered d hd
    rw [heffects]
    exact acked_life

end Life

/-- The account of every life, and what comes of it as time goes on: a finite budget is
    used up, at a delivery after which nothing happens any more, and an unlimited one, if
    no call returns, is used without bound. -/
theorem retry_accounting (mixin : InverseMixin) (m : QueueMessage Json) :
    (∀ turns, Life.RetryAccount mixin m turns) ∧
    ∀ turns, Life.Passes turns →
      (m.attemptNumber ≠ -1 → ∃ k, (Life.upTo mixin m turns k).waiting = [] ∧
        ∀ k', k ≤ k' → Life.upTo mixin m turns k' = Life.upTo mixin m turns k) ∧
      (m.attemptNumber = -1 →
        (∀ k, ∀ i ∈ (Life.upTo mixin m turns k).invocations mixin, i.raised ≠ none) →
        ∀ bound, ∃ k, bound ≤ ((Life.upTo mixin m turns k).invocations mixin).length) := by
  refine ⟨Life.run_account, fun turns hpasses => ⟨fun hn => ?_, fun hinf hraised bound => ?_⟩⟩
  · obtain ⟨k, hk⟩ : ∃ k, (Life.upTo mixin m turns k).waiting = [] ∨
        (max m.attemptNumber 1).toNat + 1 ≤ ((Life.upTo mixin m turns k).invocations mixin).length :=
      Life.upTo_calls turns hpasses _
    rcases hk with hover | hmany
    · exact ⟨k, hover, fun k' hk' => Life.upTo_stays turns hover hk'⟩
    · have hbudget : (((Life.upTo mixin m turns k).invocations mixin).length : Int) ≤
          max m.attemptNumber 1 := (Life.run_account ((List.range k).map turns)).budget hn
      omega
  · obtain ⟨k, hk⟩ : ∃ k, (Life.upTo mixin m turns k).waiting = [] ∨
        bound ≤ ((Life.upTo mixin m turns k).invocations mixin).length :=
      Life.upTo_calls turns hpasses bound
    rcases hk with hover | hmany
    · -- the life of a message with unlimited attempts ends only with a call that returns
      rcases (Life.run_account ((List.range k).map turns)).ended.mp hover with ⟨i, hi, hnone⟩ | ⟨hn, _⟩
      · exact absurd hnone (hraised k i (List.mem_of_getLast? hi))
      · exact absurd hinf hn
    · exact ⟨k, hmany⟩

/-- Deliveries four seconds apart, at each of which the handler fails. -/
def LifeTurn.failing (k : Nat) : LifeTurn :=
  { now := 4000000 * k, outcome := some ⟨.exception "HandlerError", rfl⟩, later := 4000000 * k + 1 }

theorem Life.passes_failing : Life.Passes LifeTurn.failing := by
  intro (time : Int) k
  have htime : time < 4000000 * ((max k (time.toNat + 1) : Nat) : Int) := by omega
  exact ⟨max k (time.toNat + 1), Nat.le_max_left _ _, htime⟩

theorem retry_accounting_failing :
    ∃ k, (Life.upTo InverseMixin.tagged (.new "t" (.str "F") (.list [])) LifeTurn.failing k).waiting =
        [] ∧ ∀ k', k ≤ k' →
      Life.upTo InverseMixin.tagged (.new "t" (.str "F") (.list [])) LifeTurn.failing k' =
        Life.upTo InverseMixin.tagged (.new "t" (.str "F") (.list [])) LifeTurn.failing k :=
  ((retry_accounting InverseMixin.tagged (.new "t" (.str "F") (.list []))).2 LifeTurn.failing
    Life.passes_failing).1 (by decide)

end DddService
