import DddService.Network
import Mathlib.Data.List.Perm.Basic

/- Where the letters of a publish are. A delivery that publishes its message again and then
   fails leaves a copy and the original. That can only come from the closing of the copy's
   connection or from the acknowledgement: where these two return in the deliveries to a
   service, each publish for the service is in one place, whatever else fails
   (`network_exactly_once`). So its handler returns at most once on a publish, and never on
   one that is given up. -/
namespace DddService
open Hoare

/-- The acknowledgement returns, and so does the closing of what a publish was sent over.
    The handler, the connections and the publishes may all raise. -/
structure Turn.Definite (t : Turn) : Prop where
  early : t.early.close = none
  retry : t.retry.close = none
  ack : t.ack = none

/-! ## What a delivery makes of a letter -/

/-- The places that a delivery gives its message: the copies, and the handler's return. -/
def places (es : List Effect) : Nat :=
  (copies es).length + if .handled none ∈ es then 1 else 0

/-- Before the acknowledgement: at most `n` places so far. -/
structure Placing (n : Nat) (es : List Effect) : Prop where
  places : DddService.places es ≤ n
  acked : .acked ∉ es

/-- Of a whole delivery: one that is not acknowledged gives no place, and one that is gives
    one at most. -/
structure OnePlace (es : List Effect) : Prop where
  kept : .acked ∉ es → places es = 0
  moved : .acked ∈ es → places es ≤ 1

section
variable {n : Nat} {es : List Effect}

theorem Placing.mono {m : Nat} (h : Placing n es) (hm : n ≤ m) : Placing m es :=
  ⟨Nat.le_trans h.places hm, h.acked⟩

theorem Placing.published (h : Placing n es) (payload : Json) :
    Placing (n + 1) (es ++ [.published payload]) := by
  have hcopies : copies (es ++ [.published payload]) = copies es ++ [payload] := by
    simp [copies, Effect.copy?]
  have hplaces : DddService.places (es ++ [.published payload]) = DddService.places es + 1 := by
    unfold DddService.places
    rw [hcopies, List.length_append, List.length_singleton]
    simp only [List.mem_append, List.mem_singleton, reduceCtorEq, or_false]
    omega
  constructor
  · rw [hplaces]
    exact Nat.succ_le_succ h.places
  · simpa using h.acked

theorem Placing.handled (h : Placing 0 es) (raised : Option Exc) :
    Placing (if raised = none then 1 else 0) (es ++ [.handled raised]) := by
  have hcopies : copies (es ++ [.handled raised]) = copies es := by
    simp [copies, Effect.copy?]
  have hzero := Nat.le_zero.mp h.places
  unfold DddService.places at hzero
  constructor
  · unfold DddService.places
    rw [hcopies]
    cases raised with
    | none =>
      rw [if_pos rfl]
      split <;> omega
    | some e =>
      have hsame : (.handled none ∈ es ++ [.handled (some e)]) ↔ .handled none ∈ es := by simp
      simp only [hsame, reduceCtorEq, if_false]
      omega
  · simpa using h.acked

theorem Placing.placed (h : Placing 0 es) : OnePlace es :=
  ⟨fun _ => Nat.le_zero.mp h.places, fun hacked => absurd hacked h.acked⟩

theorem Placing.acknowledged (h : Placing 1 es) : OnePlace (es ++ [.acked]) := by
  have hplaces : DddService.places (es ++ [.acked]) = DddService.places es := by
    simp [DddService.places, copies, Effect.copy?]
  refine ⟨fun hacked => absurd ?_ hacked, fun _ => ?_⟩
  · exact List.mem_append_right _ (List.mem_singleton_self _)
  · rw [hplaces]
    exact h.places

/-- A publish that raises has left no copy, if the closing does not raise. -/
theorem publishRawMessage_placing {p : PublishTurn} (hp : p.close = none) (payload : Json) :
    Triple (Placing 0) (RabbitMqConsumer.publishRawMessage p payload)
      (fun _ => Placing 1) (fun _ => Placing 0) := by
  intro es h
  rw [publishRawMessage_run]
  cases houtcome : p.outcome with
  | none =>
    show Placing 1 (es ++ p.effects payload)
    unfold PublishTurn.effects
    split
    · exact h.published payload
    · rw [List.append_nil]
      exact h.mono (Nat.zero_le 1)
  | some e =>
    have hnot : p.arrives = false := by
      obtain ⟨connect, check, publish, close⟩ := p
      cases hp
      cases connect <;> cases check <;> cases publish <;> simp_all [PublishTurn.arrives,
        PublishTurn.outcome]
    show Placing 0 (es ++ p.effects payload)
    unfold PublishTurn.effects
    rw [hnot]
    simpa using h

section
variable {mixin : QueueMessageMixin} {t : Turn} {m : QueueMessage Json}

theorem handle_placing : Triple (Placing 0) (RabbitMqConsumer.handle t)
    (fun _ => Placing 1) (fun _ => Placing 0) := by
  intro es h
  have hrun : RabbitMqConsumer.handle t es = resultOf t.handler (es ++ [.handled t.handler]) :=
    outside_run t.handler _
  have hkeeps := h.handled t.handler
  rw [hrun]
  cases hraised : t.handler with
  | none =>
    rw [hraised] at hkeeps
    exact hkeeps
  | some e =>
    rw [hraised] at hkeeps
    exact hkeeps

theorem consume_placing (ht : t.Definite) : Triple (Placing 0) (RabbitMqConsumer.consume mixin t m)
    (fun _ => Placing 1) (fun _ => Placing 0) := by
  unfold RabbitMqConsumer.consume
  cases m.started with
  | none => exact handle_placing
  | some started =>
    apply Triple.ite
    · exact fun _ => handle_placing
    · exact fun _ => publishRawMessage_placing ht.early _

theorem retry_placing (ht : t.Definite) : Triple (Placing 0) (RabbitMqConsumer.retry mixin t m)
    (fun _ => Placing 1) (fun _ => Placing 0) := by
  unfold RabbitMqConsumer.retry
  dsimp only
  apply Triple.ite
  · exact fun _ => publishRawMessage_placing ht.retry _
  · intro _
    apply Triple.ite
    · exact fun _ => publishRawMessage_placing ht.retry _
    · exact fun _ => Triple.pure fun _ h => h.mono (Nat.zero_le 1)

theorem rabbitmqHandler_placed (mixin : QueueMessageMixin) (ht : t.Definite) (body : Json) :
    OnePlace (stateOf (RabbitMqConsumer.rabbitmqHandler mixin t body [])) := by
  have hstart : Placing 0 [] := ⟨Nat.le_refl 0, List.not_mem_nil⟩
  have hspec : Triple (Placing 0) (RabbitMqConsumer.rabbitmqHandler mixin t body)
      (fun _ => OnePlace) (fun _ => OnePlace) := by
    unfold RabbitMqConsumer.rabbitmqHandler
    cases mixin.createFromCamelCaseJson body with
    | error e => exact Triple.throw fun _ h => h.placed
    | ok m =>
      have htry : Triple (Placing 0) (tryCatch (RabbitMqConsumer.consume mixin t m) fun e =>
          if e.isException then RabbitMqConsumer.retry mixin t m else throw e)
          (fun _ => Placing 1) (fun _ => Placing 0) :=
        (consume_placing ht).tryCatch fun e =>
          Triple.ite (fun _ => retry_placing ht) fun _ => Triple.throw fun _ h => h
      have hack : Triple (Placing 1) (do outside t.ack; note .acked : ConsumerM Unit)
          (fun _ => OnePlace) (fun _ => OnePlace) := by
        rw [ht.ack]
        exact Triple.modify fun _ h => h.acknowledged
      exact (htry.raises fun _ _ h => h.placed).bind fun _ => hack
  have := hspec [] hstart
  revert this
  cases RabbitMqConsumer.rabbitmqHandler mixin t body [] with
  | ok _ es => exact id
  | error e es => exact id

end

end

/-! ## Where the letters are -/

/-- Where the letters of a service are, by the publishes that they come from: in its queue,
    with its handler, which returned, or given up. -/
def Inbox.origins (b : Inbox) : List Nat :=
  b.waiting.map Letter.origin ++ b.returned ++ b.givenUp.map Letter.origin

/-- The places that an acknowledged delivery gives the letter: a given-up one is the third. -/
theorem OnePlace.gives {es : List Effect} (h : OnePlace es) (hacked : .acked ∈ es) :
    (copies es).length + (if .handled none ∈ es then 1 else 0) + (if GivesUp es then 1 else 0) =
      1 := by
  have hmoved := h.moved hacked
  unfold places at hmoved
  by_cases hret : .handled none ∈ es
  · have hnot : ¬GivesUp es := fun hgive => hgive.2.2 hret
    rw [if_pos hret] at hmoved ⊢
    rw [if_neg hnot]
    omega
  · rw [if_neg hret] at hmoved ⊢
    by_cases hcopies : copies es = []
    · have hgive : GivesUp es := ⟨hacked, hcopies, hret⟩
      rw [if_pos hgive, hcopies]
      rfl
    · have hnot : ¬GivesUp es := fun hgive => hcopies hgive.2.1
      have hsome : 0 < (copies es).length := List.length_pos_iff.mpr hcopies
      rw [if_neg hnot]
      omega

/-- A delivery moves its letter, and leaves the others where they are. -/
theorem Inbox.deliver_origins {b : Inbox} {i : Nat} {l : Letter} {es : List Effect}
    (hl : b.waiting[i]? = some l) (hes : OnePlace es) :
    ((b.settle i (l.after es) es).receive
      ((copies es).map (l.after es).copy)).origins.Perm b.origins := by
  have hcopied : ((copies es).map (l.after es).copy).map Letter.origin =
      List.replicate (copies es).length l.origin := by
    rw [List.map_map]
    exact List.map_const ..
  have hreturned : (b.settle i (l.after es) es).returned =
      b.returned ++ List.replicate (if .handled none ∈ es then 1 else 0) l.origin := by
    unfold Inbox.settle
    dsimp only
    split
    · rfl
    · exact (List.append_nil _).symm
  have hgiven : (b.settle i (l.after es) es).givenUp.map Letter.origin =
      b.givenUp.map Letter.origin ++ List.replicate (if GivesUp es then 1 else 0) l.origin := by
    unfold Inbox.settle
    dsimp only
    split
    · exact List.map_append
    · exact (List.append_nil _).symm
  unfold Inbox.origins Inbox.receive
  dsimp only
  rw [List.map_append, hcopied, hreturned, hgiven]
  -- counted origin by origin: an acknowledged letter leaves its place and takes one other
  by_cases hacked : .acked ∈ es
  · have hleft : (b.settle i (l.after es) es).waiting = b.waiting.eraseIdx i := if_pos hacked
    obtain ⟨hi, hget⟩ := List.getElem?_eq_some_iff.mp hl
    have hperm : (b.waiting.map Letter.origin).Perm
        (l.origin :: (b.waiting.eraseIdx i).map Letter.origin) := by
      have := (List.getElem_cons_eraseIdx_perm hi).symm.map Letter.origin
      rw [hget] at this
      exact this
    have hgives := hes.gives hacked
    rw [hleft]
    refine List.perm_iff_count.mpr fun k => ?_
    have hcount := hperm.count_eq k
    simp only [List.count_append, List.count_replicate, List.count_cons] at hcount ⊢
    by_cases hk : (l.origin == k) = true
    · rw [if_pos hk] at hcount ⊢
      rw [if_pos hk, if_pos hk]
      omega
    · rw [if_neg hk] at hcount ⊢
      rw [if_neg hk, if_neg hk]
      omega
  · -- one that was not acknowledged keeps its place, and takes no other
    have hleft : (b.settle i (l.after es) es).waiting.map Letter.origin =
        b.waiting.map Letter.origin := by
      have hset : (b.settle i (l.after es) es).waiting = b.waiting.set i (l.after es) :=
        if_neg hacked
      obtain ⟨hi, hget⟩ := List.getElem?_eq_some_iff.mp hl
      rw [hset, List.map_set]
      show (b.waiting.map Letter.origin).set i l.origin = _
      rw [← hget, ← List.map_set, List.set_getElem_self]
    have hzero := hes.kept hacked
    unfold places at hzero
    have hgive : ¬GivesUp es := fun hgive => hacked hgive.1
    rw [hleft, if_neg hgive, show (copies es).length = 0 by omega,
      show (if .handled none ∈ es then 1 else 0) = 0 by omega]
    simp

theorem Inbox.Answers.meant {mixin : QueueMessageMixin} {log : List (String × String × Json)}
    {c : Subscriber} {b : Inbox} (h : b.Answers mixin log c) {k : Nat} (hk : k ∈ b.origins) :
    ∃ body, MeantFor log c k body := by
  have hletter : ∀ l, l ∈ b.waiting ∨ l ∈ b.givenUp → ∃ body, MeantFor log c l.origin body := by
    intro l hl
    obtain ⟨body, hmeant, -⟩ := h.letters l hl
    exact ⟨body, hmeant⟩
  rcases List.mem_append.mp hk with hk | hk
  · rcases List.mem_append.mp hk with hk | hk
    · obtain ⟨l, hl, rfl⟩ := List.mem_map.mp hk
      exact hletter l (Or.inl hl)
    · exact h.returned k hk
  · obtain ⟨l, hl, rfl⟩ := List.mem_map.mp hk
    exact hletter l (Or.inr hl)

theorem Inbox.Answers.placed {mixin : QueueMessageMixin} {log : List (String × String × Json)}
    {c : Subscriber} {b : Inbox} (h : b.Answers mixin log c) {k : Nat} {body : Json}
    (hk : MeantFor log c k body) : k ∈ b.origins := by
  unfold Inbox.origins
  rcases h.kept k body hk with ⟨l, hl, rfl⟩ | hret | ⟨l, hl, rfl⟩
  · exact List.mem_append_left _ (List.mem_append_left _ (List.mem_map_of_mem hl))
  · exact List.mem_append_left _ (List.mem_append_right _ hret)
  · exact List.mem_append_right _ (List.mem_map_of_mem hl)

theorem Inbox.receive_origins (l : Letter) (b : Inbox) :
    (b.receive [l]).origins.Perm (l.origin :: b.origins) := by
  refine List.perm_iff_count.mpr fun k => ?_
  unfold Inbox.origins Inbox.receive
  simp only [List.map_append, List.map_cons, List.map_nil, List.count_append, List.count_cons,
    List.count_nil]
  omega

theorem Network.run_nodup (mixin : RereadMixin) {events : List NetworkEvent} {c : Subscriber}
    (h : ∀ i t, .deliver c i t ∈ events → t.Definite) :
    ((Network.run mixin.toQueueMessageMixin events).inbox c).origins.Nodup := by
  induction events using List.reverseRecOn with
  | nil => exact List.nodup_nil
  | append_singleton events e ih =>
    have ih := ih fun i t ht => h i t (List.mem_append_left _ ht)
    have hrun : Network.run mixin.toQueueMessageMixin (events ++ [e]) =
        (Network.run mixin.toQueueMessageMixin events).step mixin.toQueueMessageMixin e := by
      unfold Network.run
      rw [List.foldl_append]
      rfl
    rw [hrun]
    cases e with
    | publish exchange routingKey body =>
      show (Inbox.origins ((Network.publish ..).inbox c)).Nodup
      rw [Network.publish_inbox]
      split
      · -- the new number is larger than all that came before
        have hnew : (Network.run mixin.toQueueMessageMixin events).sent ∉
            ((Network.run mixin.toQueueMessageMixin events).inbox c).origins := by
          intro hold
          obtain ⟨hsent, hanswers⟩ := Network.run_answers mixin events c
          obtain ⟨_, _, _, hlog, -⟩ := hanswers.meant hold
          have hlt := (List.getElem?_eq_some_iff.mp hlog).1
          omega
        exact (Inbox.receive_origins ..).nodup_iff.mpr (List.nodup_cons.mpr ⟨hnew, ih⟩)
      · exact ih
    | deliver c' i t =>
      show (Inbox.origins ((Network.deliver ..).inbox c)).Nodup
      rw [Network.deliver_inbox]
      split
      · next hc =>
        subst hc
        have ht : t.Definite := h i t (List.mem_append_right _ (List.mem_singleton_self _))
        split
        · exact ih
        · next l hl =>
          have hplaced := rabbitmqHandler_placed mixin.toQueueMessageMixin ht l.queued.body
          exact (Inbox.deliver_origins hl hplaced).nodup_iff.mpr ih
      · exact ih

/-- Over every run of any number of services on any number of exchanges: if, in the
    deliveries to a service, the acknowledgements and the closings of what was published again
    return, then each publish for the service is in one place, where it waits, was handled or
    was given up, and nothing else is. The handlers, the publishes and the other services'
    deliveries may fail in any way. -/
theorem network_exactly_once (mixin : RereadMixin) (events : List NetworkEvent) (c : Subscriber)
    (h : ∀ i t, .deliver c i t ∈ events → t.Definite) :
    let b := (Network.run mixin.toQueueMessageMixin events).inbox c
    b.origins.Nodup ∧ ∀ k, k ∈ b.origins ↔ ∃ body, MeantFor (published events) c k body := by
  intro b
  have hanswers := (Network.run_answers mixin events c).2
  exact ⟨Network.run_nodup mixin h,
    fun k => ⟨hanswers.meant, fun ⟨body, hk⟩ => hanswers.placed hk⟩⟩

/-- The handler raises, and the message is tried again and then put off. -/
theorem network_exactly_once_retried :
    let c : Subscriber := ⟨"your-exchange", "ddd-service", ⟨by decide, by decide, by decide⟩⟩
    let message : Json := QueueMessage.asPayload ⟨"trace", .str "example", .list [], none, 3, 3⟩
    let events : List NetworkEvent := [.publish c.exchange c.service message,
      .deliver c 0 (Turn.at5 (some (.valueError "no such row"))), .deliver c 0 (Turn.at5 none)]
    let b := (Network.run RereadMixin.camelCase.toQueueMessageMixin events).inbox c
    b.origins.Nodup ∧ ∀ k, k ∈ b.origins ↔ ∃ body, MeantFor (published events) c k body := by
  intro c message events
  refine network_exactly_once .camelCase events c fun i t ht => ?_
  rcases List.mem_cons.mp ht with ht | ht
  · cases ht
  · rcases List.mem_cons.mp ht with ht | ht
    · cases ht
      exact ⟨rfl, rfl, rfl⟩
    · cases List.mem_singleton.mp ht
      exact ⟨rfl, rfl, rfl⟩

end DddService
