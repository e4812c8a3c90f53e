import DddService.ExactlyOnce
import DddService.Lib.Progress

/- What a message with limited attempts comes to. The network runs without end; handlers
   raise, messages are put off and tried again, and other services do what they do. If the
   environment does not stop trying a message while it waits (`KeepsDelivering`), it does not wait
   for ever (`network_settles`): the handler returns on it or it is given up, and after that
   it is never seen again.

   The measure is the attempts. A delivery leaves them, with the time that the message is
   due, or leaves fewer; so while they stay the clock gets past that time, and a try that is
   due ends the message or leaves fewer. -/
namespace DddService
open Hoare Progress

/-! ## What a delivery leaves of a message -/

/-- What was published reads as messages of which `R` holds. -/
def CopiesRead (mixin : QueueMessageMixin) (R : QueueMessage Json → Prop) (es : List Effect) :
    Prop :=
  ∀ p ∈ copies es, ∃ m, mixin.createFromCamelCaseJson p = .ok m ∧ R m

section
variable {mixin : RereadMixin} {t : Turn} {m : QueueMessage Json} {body : Json}
  {R : QueueMessage Json → Prop}

theorem publishRawMessage_reads (p : PublishTurn) {payload : Json}
    (hread : mixin.createFromCamelCaseJson payload = .ok m) (hm : R m) :
    Triple (CopiesRead mixin.toQueueMessageMixin R) (RabbitMqConsumer.publishRawMessage p payload)
      (fun _ => CopiesRead mixin.toQueueMessageMixin R)
      (fun _ => CopiesRead mixin.toQueueMessageMixin R) := by
  intro es h
  have hkeeps : CopiesRead mixin.toQueueMessageMixin R (es ++ p.effects payload) := by
    intro q hq
    rw [copies_append, copies_effects] at hq
    rcases List.mem_append.mp hq with hq | hq
    · exact h q hq
    · split at hq
      · rw [List.mem_singleton.mp hq]
        exact ⟨m, hread, hm⟩
      · cases hq
  rw [publishRawMessage_run]
  cases p.outcome with
  | none => exact hkeeps
  | some e => exact hkeeps

theorem handle_reads : Triple (CopiesRead mixin.toQueueMessageMixin R) (RabbitMqConsumer.handle t)
    (fun _ => CopiesRead mixin.toQueueMessageMixin R)
    (fun _ => CopiesRead mixin.toQueueMessageMixin R) := by
  intro es h
  have hrun : RabbitMqConsumer.handle t es = resultOf t.handler (es ++ [.handled t.handler]) :=
    outside_run t.handler _
  have hkeeps : CopiesRead mixin.toQueueMessageMixin R (es ++ [.handled t.handler]) := by
    intro q hq
    rw [copies_append, copies_handled, copies_nil, List.append_nil] at hq
    exact h q hq
  rw [hrun]
  cases hraised : t.handler with
  | none => rw [hraised] at hkeeps; exact hkeeps
  | some e => rw [hraised] at hkeeps; exact hkeeps

theorem consume_reads (hread : mixin.createFromCamelCaseJson body = .ok m)
    (hearly : m.due t.now = true ∨ R m) :
    Triple (CopiesRead mixin.toQueueMessageMixin R)
      (RabbitMqConsumer.consume mixin.toQueueMessageMixin t m)
      (fun _ => CopiesRead mixin.toQueueMessageMixin R)
      (fun _ => CopiesRead mixin.toQueueMessageMixin R) := by
  unfold RabbitMqConsumer.consume
  cases hs : m.started with
  | none => exact handle_reads
  | some started =>
    apply Triple.ite
    · exact fun _ => handle_reads
    · intro hlate
      refine publishRawMessage_reads t.early
        (mixin.create_again hread m.started m.attemptNumber) (hearly.resolve_left fun hdue => ?_)
      unfold QueueMessage.due at hdue
      rw [hs] at hdue
      exact hlate (of_decide_eq_true hdue)

theorem retry_reads (hread : mixin.createFromCamelCaseJson body = .ok m)
    (hlimited : m.attemptNumber ≠ -1) (hagain : 1 < m.attemptNumber → R (m.again t.later)) :
    Triple (CopiesRead mixin.toQueueMessageMixin R)
      (RabbitMqConsumer.retry mixin.toQueueMessageMixin t m)
      (fun _ => CopiesRead mixin.toQueueMessageMixin R)
      (fun _ => CopiesRead mixin.toQueueMessageMixin R) := by
  unfold RabbitMqConsumer.retry
  dsimp only
  rw [if_neg hlimited]
  apply Triple.ite
  · exact fun hmore => publishRawMessage_reads t.retry (mixin.create_again hread _ _)
      (hagain (by omega))
  · exact fun _ => Triple.pure fun _ h => h

theorem rabbitmqHandler_reads (hread : mixin.createFromCamelCaseJson body = .ok m)
    (hlimited : m.attemptNumber ≠ -1) (hearly : m.due t.now = true ∨ R m)
    (hagain : 1 < m.attemptNumber → R (m.again t.later)) :
    CopiesRead mixin.toQueueMessageMixin R
      (stateOf (RabbitMqConsumer.rabbitmqHandler mixin.toQueueMessageMixin t body [])) := by
  have hspec : Triple (CopiesRead mixin.toQueueMessageMixin R)
      (RabbitMqConsumer.rabbitmqHandler mixin.toQueueMessageMixin t body)
      (fun _ => CopiesRead mixin.toQueueMessageMixin R)
      (fun _ => CopiesRead mixin.toQueueMessageMixin R) := by
    unfold RabbitMqConsumer.rabbitmqHandler
    rw [hread]
    refine ((consume_reads hread hearly).tryCatch fun e => ?_).bind fun _ => ?_
    · exact Triple.ite (fun _ => retry_reads hread hlimited hagain)
        fun _ => Triple.throw fun _ h => h
    · have hack : Triple (CopiesRead mixin.toQueueMessageMixin R) (outside t.ack)
          (fun _ => CopiesRead mixin.toQueueMessageMixin R)
          (fun _ => CopiesRead mixin.toQueueMessageMixin R) := by
        cases t.ack with
        | none => exact Triple.pure fun _ h => h
        | some e => exact Triple.throw fun _ h => h
      refine hack.bind fun _ => Triple.modify fun es h q hq => h q ?_
      rw [copies_append] at hq
      exact (List.mem_append.mp hq).resolve_right List.not_mem_nil
  have hstart : CopiesRead mixin.toQueueMessageMixin R [] := fun _ hp => (nomatch hp)
  have := hspec [] hstart
  revert this
  cases RabbitMqConsumer.rabbitmqHandler mixin.toQueueMessageMixin t body [] with
  | ok _ es => exact id
  | error e es => exact id

theorem QueueMessage.due_of_lt (h : m.started.getD 0 < t.now) : m.due t.now = true := by
  unfold QueueMessage.due
  cases hs : m.started with
  | none => rfl
  | some started =>
    rw [hs] at h
    exact decide_eq_true h

/-- A try, if the message is due: the handler returns or raises what the consumer catches, and
    the publish after a failure returns. -/
structure Turn.Tries (t : Turn) : Prop where
  caught : ∀ e, t.handler = some e → e.isException = true
  again : t.retry.outcome = none

theorem rabbitmqHandler_tried (ht : t.Definite) (htries : t.Tries) (hdue : m.due t.now = true)
    (hread : mixin.createFromCamelCaseJson body = .ok m) :
    .acked ∈ stateOf
      (RabbitMqConsumer.rabbitmqHandler mixin.toQueueMessageMixin t body []) := by
  -- a due message comes to the handler, and what that raises is caught and retried
  have hconsume : Triple (fun _ => True)
      (RabbitMqConsumer.consume mixin.toQueueMessageMixin t m) (fun _ _ => True)
      (fun e _ => e.isException = true) := by
    intro es _
    rw [consume_run, if_pos hdue]
    cases hraised : t.handler with
    | none => trivial
    | some e => exact htries.caught e hraised
  have hpublish : ∀ payload, Triple (fun _ => True)
      (RabbitMqConsumer.publishRawMessage t.retry payload) (fun _ _ => True)
      (fun _ _ => False) := by
    intro payload es _
    rw [publishRawMessage_run, htries.again]
    trivial
  have hretry : Triple (fun _ => True)
      (RabbitMqConsumer.retry mixin.toQueueMessageMixin t m) (fun _ _ => True)
      (fun _ _ => False) := by
    unfold RabbitMqConsumer.retry
    dsimp only
    refine Triple.ite (fun _ => hpublish _) fun _ => ?_
    exact Triple.ite (fun _ => hpublish _) fun _ => Triple.pure fun _ h => h
  have hspec : Triple (fun _ => True)
      (RabbitMqConsumer.rabbitmqHandler mixin.toQueueMessageMixin t body)
      (fun _ es => .acked ∈ es) (fun _ _ => False) := by
    unfold RabbitMqConsumer.rabbitmqHandler
    rw [hread, ht.ack]
    refine (hconsume.tryCatch (E := fun _ _ => False) fun e => ?_).bind fun _ => ?_
    · intro es he
      rw [if_pos he]
      exact hretry es trivial
    · exact Triple.modify fun es _ => List.mem_append_right es (List.mem_singleton_self _)
  have := hspec [] trivial
  revert this
  cases RabbitMqConsumer.rabbitmqHandler mixin.toQueueMessageMixin t body [] with
  | ok _ es => exact id
  | error e es => exact False.elim

end

/-! ## What the network leaves of a message -/

/-- A letter of the publish number `k` waits, and reads as `m`. -/
def Inbox.Awaits (mixin : QueueMessageMixin) (b : Inbox) (k : Nat) (m : QueueMessage Json) : Prop :=
  ∃ l ∈ b.waiting, l.origin = k ∧ mixin.createFromCamelCaseJson l.queued.body = .ok m

/-- The handler returned on the publish number `k`, or it was given up. -/
def Inbox.IsOver (b : Inbox) (k : Nat) : Prop :=
  k ∈ b.returned ∨ k ∈ b.givenUp.map Letter.origin

/-- Limited attempts, and fewer of them. -/
def QueueMessage.Fewer (m' m : QueueMessage Json) : Prop :=
  m'.attemptNumber ≠ -1 ∧ m'.attemptNumber.toNat < m.attemptNumber.toNat

theorem QueueMessage.again_fewer {m : QueueMessage Json} (later : DateTime)
    (h : 1 < m.attemptNumber) : (m.again later).Fewer m := by
  show m.attemptNumber - 1 ≠ -1 ∧ (m.attemptNumber - 1).toNat < m.attemptNumber.toNat
  omega

section
variable {mixin : RereadMixin} {b : Inbox} {c : Subscriber} {k : Nat} {m : QueueMessage Json}
  {R : QueueMessage Json → Prop}

/-- What a delivery leaves of its letter. -/
theorem Inbox.deliver_leaves {i : Nat} {l : Letter} {es : List Effect}
    (hl : b.waiting[i]? = some l)
    (hread : mixin.createFromCamelCaseJson l.queued.body = .ok m)
    (hcopies : CopiesRead mixin.toQueueMessageMixin R es) :
    let b' := (b.settle i (l.after es) es).receive ((copies es).map (l.after es).copy)
    (.acked ∉ es ∧ b'.Awaits mixin.toQueueMessageMixin l.origin m) ∨ b'.IsOver l.origin ∨
      ∃ m', R m' ∧ b'.Awaits mixin.toQueueMessageMixin l.origin m' := by
  intro b'
  have hi := (List.getElem?_eq_some_iff.mp hl).1
  rcases @Inbox.settle_delivered b i (l.after es) es hi with
    ⟨hacked, hwaits⟩ | hret | hgiven | ⟨p, hp⟩
  · exact Or.inl ⟨hacked, _, List.mem_append_left _ hwaits, rfl, hread⟩
  · exact Or.inr (Or.inl (Or.inl hret))
  · exact Or.inr (Or.inl (Or.inr (List.mem_map.mpr ⟨_, hgiven, rfl⟩)))
  · obtain ⟨m', hm', hR⟩ := hcopies p hp
    exact Or.inr (Or.inr ⟨m', hR, _, List.mem_append_right _ (List.mem_map_of_mem hp), rfl, hm'⟩)

theorem Inbox.deliver_others {i : Nat} {l l₀ : Letter} (es : List Effect)
    (hl : b.waiting[i]? = some l) (hl₀ : l₀ ∈ b.waiting) (hne : l₀ ≠ l) :
    l₀ ∈ ((b.settle i (l.after es) es).receive ((copies es).map (l.after es).copy)).waiting :=
  List.mem_append_left _ ((Inbox.settle_waiting hl hl₀).resolve_right hne)

/-- A letter that waits stays as it is, is over, or is tried again with fewer attempts. -/
theorem Network.step_awaits {n : Network} (e : NetworkEvent)
    (h : (n.inbox c).Awaits mixin.toQueueMessageMixin k m) (hlimited : m.attemptNumber ≠ -1) :
    let b' := (n.step mixin.toQueueMessageMixin e).inbox c
    b'.Awaits mixin.toQueueMessageMixin k m ∨ b'.IsOver k ∨
      ∃ m', m'.Fewer m ∧ b'.Awaits mixin.toQueueMessageMixin k m' := by
  intro b'
  obtain ⟨l₀, hl₀, rfl, hread⟩ := h
  cases e with
  | publish exchange routingKey body =>
    have hb' : b' = _ := Network.publish_inbox exchange routingKey body c
    left
    rw [hb']
    split
    · exact ⟨l₀, List.mem_append_left _ hl₀, rfl, hread⟩
    · exact ⟨l₀, hl₀, rfl, hread⟩
  | deliver c' i t =>
    have hb' : b' = _ := Network.deliver_inbox c' c i t
    rw [hb']
    by_cases hc : c = c'
    · subst hc
      rw [if_pos rfl]
      cases hl : (n.inbox c).waiting[i]? with
      | none => exact Or.inl ⟨l₀, hl₀, rfl, hread⟩
      | some l =>
        dsimp only
        by_cases hsame : l₀ = l
        · subst hsame
          have hcopies := rabbitmqHandler_reads (t := t) (R := fun m' => m' = m ∨ m'.Fewer m)
            hread hlimited (Or.inr (Or.inl rfl)) fun hmore => Or.inr (m.again_fewer _ hmore)
          rcases Inbox.deliver_leaves hl hread hcopies with
            ⟨-, hstays⟩ | hover | ⟨m', rfl | hfewer, hwaits⟩
          · exact Or.inl hstays
          · exact Or.inr (Or.inl hover)
          · exact Or.inl hwaits
          · exact Or.inr (Or.inr ⟨m', hfewer, hwaits⟩)
        · exact Or.inl ⟨l₀, Inbox.deliver_others _ hl hl₀ hsame, rfl, hread⟩
    · rw [if_neg hc]
      exact Or.inl ⟨l₀, hl₀, rfl, hread⟩

theorem Network.step_tried {n : Network} {i : Nat} {t : Turn} {l : Letter}
    (hnodup : (n.inbox c).origins.Nodup)
    (h : (n.inbox c).Awaits mixin.toQueueMessageMixin l.origin m)
    (hlimited : m.attemptNumber ≠ -1) (hl : (n.inbox c).waiting[i]? = some l)
    (ht : t.Definite) (htries : t.Tries) (hlate : m.started.getD 0 < t.now) :
    let b' := (n.step mixin.toQueueMessageMixin (.deliver c i t)).inbox c
    b'.IsOver l.origin ∨ ∃ m', m'.Fewer m ∧ b'.Awaits mixin.toQueueMessageMixin l.origin m' := by
  intro b'
  obtain ⟨l₀, hl₀, horigin, hread⟩ := h
  -- no other letter of the publish waits
  have hsame : l₀ = l := by
    unfold Inbox.origins at hnodup
    have hwaiting := (List.nodup_append.mp (List.nodup_append.mp hnodup).1).1
    exact List.inj_on_of_nodup_map hwaiting hl₀ (List.mem_of_getElem? hl) horigin
  subst hsame
  have hb' : b' = _ := Network.deliver_inbox c c i t
  rw [hb', if_pos rfl, hl]
  dsimp only
  have hdue := QueueMessage.due_of_lt hlate
  have hacked := rabbitmqHandler_tried ht htries hdue hread
  have hcopies := rabbitmqHandler_reads (t := t) (R := fun m' => m'.Fewer m) hread hlimited
    (Or.inl hdue) fun hmore => m.again_fewer _ hmore
  rcases Inbox.deliver_leaves hl hread hcopies with ⟨hnot, -⟩ | hover | hfewer
  · exact absurd hacked hnot
  · exact Or.inl hover
  · exact Or.inr hfewer

theorem Inbox.IsOver.not_waiting (h : b.IsOver k) (hnodup : b.origins.Nodup) :
    k ∉ b.waiting.map Letter.origin := by
  intro hwaits
  unfold Inbox.origins at hnodup
  obtain ⟨hfirst, -, hgiven⟩ := List.nodup_append.mp hnodup
  obtain ⟨-, -, hreturned⟩ := List.nodup_append.mp hfirst
  rcases h with hret | hgive
  · exact hreturned k hwaits k hret rfl
  · exact hgiven k (List.mem_append_left _ hwaits) k hgive rfl

theorem Network.step_over {n : Network} (e : NetworkEvent) (h : (n.inbox c).IsOver k) :
    ((n.step mixin.toQueueMessageMixin e).inbox c).IsOver k := by
  cases e with
  | publish exchange routingKey body =>
    show Inbox.IsOver ((Network.publish ..).inbox c) k
    rw [Network.publish_inbox]
    split
    · exact h
    · exact h
  | deliver c' i t =>
    show Inbox.IsOver ((Network.deliver ..).inbox c) k
    rw [Network.deliver_inbox]
    split
    · next hc =>
      subst hc
      split
      · exact h
      · next l _ =>
        generalize stateOf _ = es
        rcases h with hret | hgiven
        · left
          show k ∈ if _ then _ else _
          split
          · exact List.mem_append_left _ hret
          · exact hret
        · right
          show k ∈ List.map Letter.origin (if _ then _ else _)
          split
          · rw [List.map_append]
            exact List.mem_append_left _ hgiven
          · exact hgiven
    · exact h

end

/-! ## Runs without end -/

/-- The network before the event number `n`. -/
def Network.before (mixin : QueueMessageMixin) (events : Nat → NetworkEvent) (n : Nat) : Network :=
  Network.run mixin ((List.range n).map events)

/-- As long as a letter of the publish number `k` waits, one is delivered after any time, in a
    turn that is `Good`. -/
def KeepsDelivering (mixin : QueueMessageMixin) (events : Nat → NetworkEvent) (c : Subscriber)
    (k : Nat) (Good : Turn → Prop) : Prop :=
  ∀ n time,
    (∀ j, n ≤ j → k ∈ ((Network.before mixin events j).inbox c).waiting.map Letter.origin) →
    ∃ j i t l, n ≤ j ∧ events j = .deliver c i t ∧
      ((Network.before mixin events j).inbox c).waiting[i]? = some l ∧ l.origin = k ∧
      time < t.now ∧ Good t

section
variable {mixin : RereadMixin} {events : Nat → NetworkEvent} {c : Subscriber} {k : Nat}

theorem Network.before_succ (mixin : QueueMessageMixin) (events : Nat → NetworkEvent) (n : Nat) :
    Network.before mixin events (n + 1) =
      (Network.before mixin events n).step mixin (events n) := by
  unfold Network.before Network.run
  rw [List.range_succ, List.map_append, List.foldl_append]
  rfl

theorem Network.before_nodup (h : ∀ j i t, events j = .deliver c i t → t.Definite) (n : Nat) :
    ((Network.before mixin.toQueueMessageMixin events n).inbox c).origins.Nodup := by
  refine Network.run_nodup mixin fun i t ht => ?_
  obtain ⟨j, -, hj⟩ := List.mem_map.mp ht
  exact h j i t hj

/-- The letter waits, with limited attempts. -/
def WaitsAs (mixin : RereadMixin) (events : Nat → NetworkEvent) (c : Subscriber) (k : Nat)
    (m : QueueMessage Json) (n : Nat) : Prop :=
  ((Network.before mixin.toQueueMessageMixin events n).inbox c).Awaits mixin.toQueueMessageMixin k
    m ∧ m.attemptNumber ≠ -1

def OverAt (mixin : RereadMixin) (events : Nat → NetworkEvent) (c : Subscriber) (k : Nat)
    (n : Nat) : Prop :=
  ((Network.before mixin.toQueueMessageMixin events n).inbox c).IsOver k

theorem overAt_stable : Stable (OverAt mixin events c k) := by
  intro n hn
  unfold OverAt
  rw [Network.before_succ]
  exact Network.step_over _ hn

/-- A try of the letter `k` after the time that `m` is due. -/
def TriedAt (mixin : RereadMixin) (events : Nat → NetworkEvent) (c : Subscriber) (k : Nat)
    (m : QueueMessage Json) (n : Nat) : Prop :=
  ∃ i t l, events n = .deliver c i t ∧
    ((Network.before mixin.toQueueMessageMixin events n).inbox c).waiting[i]? = some l ∧
    l.origin = k ∧ m.started.getD 0 < t.now ∧ t.Tries

/-- A letter that waits is over later, or is tried again with fewer attempts. -/
theorem waitsAs_leadsTo (hdefinite : ∀ j i t, events j = .deliver c i t → t.Definite)
    (hfair : KeepsDelivering mixin.toQueueMessageMixin events c k Turn.Tries)
    (m : QueueMessage Json) :
    LeadsTo (WaitsAs mixin events c k m) fun n => OverAt mixin events c k n ∨
      ∃ m', m'.attemptNumber.toNat < m.attemptNumber.toNat ∧ WaitsAs mixin events c k m' n := by
  refine leadsTo_of_ensures (T := TriedAt mixin events c k m) ?_ ?_ ?_
  · rintro n ⟨hwaits, hlimited⟩
    have hstep := Network.step_awaits (events n) hwaits hlimited
    rw [← Network.before_succ] at hstep
    rcases hstep with hstays | hover | ⟨m', hm', hless⟩
    · exact Or.inl ⟨hstays, hlimited⟩
    · exact Or.inr (Or.inl hover)
    · exact Or.inr (Or.inr ⟨m', hm'.2, hless, hm'.1⟩)
  · rintro n ⟨hwaits, hlimited⟩ ⟨i, t, l, hevent, hl, rfl, hlate, htries⟩
    have hstep := Network.step_tried (Network.before_nodup hdefinite n) hwaits hlimited hl
      (hdefinite n i t hevent) htries hlate
    rw [← hevent, ← Network.before_succ] at hstep
    rcases hstep with hover | ⟨m', hm', hless⟩
    · exact Or.inl hover
    · exact Or.inr ⟨m', hm'.2, hless, hm'.1⟩
  · intro n hlasts
    obtain ⟨j, i, t, l, hj, htried⟩ := hfair n (m.started.getD 0) fun j hj => by
      obtain ⟨⟨l, hl, horigin, -⟩, -⟩ := hlasts j hj
      exact horigin ▸ List.mem_map_of_mem hl
    exact ⟨j, hj, i, t, l, htried⟩

end

/-- Any run without end of any number of services. Let the acknowledgements and the closings
    of what is published again return in the deliveries to a service, and let its environment
    keep trying a message that was published for it with limited attempts. Then, from some
    moment on, no letter of the message waits, and the handler returned on it or it was given
    up, however often the handler raised and the message was put off. -/
theorem network_settles (mixin : RereadMixin) (events : Nat → NetworkEvent) (c : Subscriber)
    (hdefinite : ∀ j i t, events j = .deliver c i t → t.Definite)
    {n : Nat} {exchange routingKey : String} {body : Json} {m : QueueMessage Json}
    (hpublish : events n = .publish exchange routingKey body)
    (hnamed : c.IsNamed exchange routingKey)
    (hread : mixin.createFromCamelCaseJson body = .ok m) (hlimited : m.attemptNumber ≠ -1) :
    let before := Network.before mixin.toQueueMessageMixin events
    let k := (before n).sent
    KeepsDelivering mixin.toQueueMessageMixin events c k Turn.Tries →
    ∃ j, ∀ j', j ≤ j' → k ∉ ((before j').inbox c).waiting.map Letter.origin ∧
      ((before j').inbox c).IsOver k := by
  intro before k hfair
  have hwaits : WaitsAs mixin events c k m (n + 1) := by
    refine ⟨?_, hlimited⟩
    rw [Network.before_succ, hpublish]
    show Inbox.Awaits _ ((Network.publish ..).inbox c) _ _
    rw [Network.publish_inbox, if_pos hnamed]
    exact ⟨_, List.mem_append_right _ (List.mem_singleton_self _), rfl, hread⟩
  have hless : WellFounded fun m' m : QueueMessage Json =>
      m'.attemptNumber.toNat < m.attemptNumber.toNat :=
    InvImage.wf (fun m : QueueMessage Json => m.attemptNumber.toNat) Nat.lt_wfRel.wf
  have hleads := leadsTo_of_less hless (waitsAs_leadsTo hdefinite hfair) m
  obtain ⟨j, -, hover⟩ := hleads.forever overAt_stable (n + 1) hwaits
  exact ⟨j, fun j' hj' => ⟨(hover j' hj').not_waiting (Network.before_nodup hdefinite j'),
    hover j' hj'⟩⟩

/-- A message with two attempts, published once, and the clock goes on: its handler raises
    each time, and the next try is put off for a moment. -/
def failingEvents (c : Subscriber) : Nat → NetworkEvent
  | 0 => .publish c.exchange c.service
      (QueueMessage.asPayload ⟨"trace", .str "example", .list [], none, 2, 0⟩)
  | n + 1 => .deliver c 0 { Turn.at5 (some (.valueError "no such row")) with
      now := (n : Int), later := (n : Int) + 1 }

theorem network_settles_failing :
    let c : Subscriber := ⟨"your-exchange", "ddd-service", ⟨by decide, by decide, by decide⟩⟩
    let before := Network.before RereadMixin.camelCase.toQueueMessageMixin (failingEvents c)
    ∃ j, ∀ j', j ≤ j' → (before 0).sent ∉ ((before j').inbox c).waiting.map Letter.origin ∧
      ((before j').inbox c).IsOver (before 0).sent := by
  intro c before
  refine network_settles .camelCase (failingEvents c) c (fun j i t ht => ?_) rfl
    (by decide) rfl (by decide) fun n time hwaits => ?_
  · cases j with
    | zero => cases ht
    | succ j =>
      cases ht
      exact ⟨rfl, rfl, rfl⟩
  · -- tried, put off, tried and given up: then nothing waits
    have hfirst : (before 1).inbox c = _ :=
      (congrArg (Network.inbox · c) (Network.before_succ ..)).trans
        ((Network.publish_inbox ..).trans (if_pos (by decide)))
    have hdeliver : ∀ j, (before (j + 2)).inbox c = _ := fun j =>
      (congrArg (Network.inbox · c) (Network.before_succ ..)).trans
        ((Network.deliver_inbox c c 0 _).trans (if_pos rfl))
    have hempty : ∀ j, 4 ≤ j → ((before j).inbox c).waiting = [] := by
      intro j hj
      induction j, hj using Nat.le_induction with
      | base =>
        rw [hdeliver 2, hdeliver 1, hdeliver 0, hfirst]
        rfl
      | succ j hj ih =>
        obtain ⟨i, rfl⟩ := Nat.exists_eq_add_of_le' hj
        rw [hdeliver (i + 3)]
        split
        · exact ih
        · next l hl =>
          have hnone : ((before (i + 4)).inbox c).waiting[0]? = some l := hl
          rw [ih] at hnone
          cases hnone
    have hwaiting : _ ∈ ((before (max n 4)).inbox c).waiting.map Letter.origin :=
      hwaits (max n 4) (Nat.le_max_left ..)
    rw [hempty _ (Nat.le_max_right ..)] at hwaiting
    cases hwaiting

end DddService
