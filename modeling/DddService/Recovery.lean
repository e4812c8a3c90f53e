import DddService.Settling

/- After the faults. Up to some moment anything may fail in the deliveries to a service: the
   process may stop between a publish and its acknowledgement, so that a message is there
   several times. From then on its deliveries are quiet (`Turn.Quiet`), and it goes on being
   given what waits. Then it gets through all that is left (`network_recovers`), messages with
   unlimited attempts with it.

   A quiet delivery makes no letter more of a message: the handler returns on it, or it is
   published as it was. So the letters of a message are due by one time, and after that each
   delivery of one leaves one less. -/
namespace DddService
open Hoare Progress

/-! ## A quiet delivery -/

/-- The handler returns, and so do the publish of a message that is not due and the
    acknowledgement. -/
structure Turn.Quiet (t : Turn) : Prop where
  handler : t.handler = none
  early : t.early.outcome = none
  ack : t.ack = none

/-- A message that is due is handled, and another is published as it is. -/
theorem rabbitmqHandler_quiet {mixin : QueueMessageMixin} {t : Turn} {m : QueueMessage Json}
    {body : Json} (ht : t.Quiet) (hread : mixin.createFromCamelCaseJson body = .ok m) :
    stateOf (RabbitMqConsumer.rabbitmqHandler mixin t body []) =
      if m.due t.now then [.handled none, .acked]
      else [.published (mixin.toPayload m), .acked] := by
  have hack : t.acks = [.acked] := by
    unfold Turn.acks
    rw [ht.ack]
    rfl
  have hconsume := consume_run mixin t m []
  rw [ht.handler, ht.early] at hconsume
  unfold RabbitMqConsumer.rabbitmqHandler
  rw [hread]
  by_cases hdue : m.due t.now = true
  · rw [if_pos hdue] at hconsume ⊢
    dsimp only
    rw [bind_ok (tryCatch_ok hconsume) rfl, ack_run, hack]
    rfl
  · rw [if_neg hdue] at hconsume ⊢
    dsimp only
    rw [bind_ok (tryCatch_ok hconsume) rfl, ack_run, hack]
    unfold PublishTurn.effects
    rw [if_pos (PublishTurn.arrives_of_outcome ht.early)]
    rfl

/-! ## The letters of a message -/

/-- The letters of the publish number `k` that wait. -/
def Inbox.lettersOf (b : Inbox) (k : Nat) : List Letter := b.waiting.filter (·.origin = k)

section
variable {b : Inbox} {k i : Nat} {l : Letter}

theorem Inbox.mem_lettersOf : l ∈ b.lettersOf k ↔ l ∈ b.waiting ∧ l.origin = k := by
  simp [lettersOf]

theorem Inbox.lettersOf_eq_nil : b.lettersOf k = [] ↔ k ∉ b.waiting.map Letter.origin := by
  simp [lettersOf]

theorem Inbox.deliver_perm (es : List Effect) (hl : b.waiting[i]? = some l) :
    ((b.settle i (l.after es) es).receive ((copies es).map (l.after es).copy)).waiting.Perm
      ((if .acked ∈ es then [] else [l.after es]) ++ (copies es).map (l.after es).copy ++
        b.waiting.eraseIdx i) := by
  have hi : i < b.waiting.length := (List.getElem?_eq_some_iff.mp hl).1
  have hleft : (b.settle i (l.after es) es).waiting.Perm
      ((if .acked ∈ es then [] else [l.after es]) ++ b.waiting.eraseIdx i) := by
    unfold Inbox.settle
    dsimp only
    split
    · exact List.Perm.refl _
    · exact List.set_perm_cons_eraseIdx hi _
  refine (hleft.append_right _).trans ?_
  rw [List.append_assoc, List.append_assoc]
  exact List.perm_append_comm.append_left _

theorem Inbox.lettersOf_others (es : List Effect) (hl : b.waiting[i]? = some l)
    (hk : l.origin ≠ k) :
    (((b.settle i (l.after es) es).receive ((copies es).map (l.after es).copy)).lettersOf k).Perm
      (b.lettersOf k) := by
  obtain ⟨hi, hget⟩ := List.getElem?_eq_some_iff.mp hl
  have hbefore := (List.getElem_cons_eraseIdx_perm hi).filter (·.origin = k)
  rw [hget, List.filter_cons_of_neg (by simpa using hk)] at hbefore
  have hafter := (Inbox.deliver_perm es hl).filter (·.origin = k)
  have hnone : ((if .acked ∈ es then [] else [l.after es]) ++
      (copies es).map (l.after es).copy).filter (·.origin = k) = [] := by
    refine List.filter_eq_nil_iff.mpr fun l' hl' => ?_
    have horigin : l'.origin = l.origin := by
      rcases List.mem_append.mp hl' with hl' | hl'
      · split at hl'
        · cases hl'
        · rw [List.mem_singleton.mp hl']
          rfl
      · obtain ⟨p, -, rfl⟩ := List.mem_map.mp hl'
        rfl
    rw [horigin]
    simpa using hk
  rw [List.filter_append, hnone, List.nil_append] at hafter
  exact hafter.trans hbefore

theorem Inbox.lettersOf_acked {es : List Effect} (hl : b.waiting[i]? = some l)
    (hacked : .acked ∈ es) :
    ∃ rest, (b.lettersOf l.origin).Perm (l :: rest) ∧
      (((b.settle i (l.after es) es).receive
        ((copies es).map (l.after es).copy)).lettersOf l.origin).Perm
          ((copies es).map (l.after es).copy ++ rest) := by
  obtain ⟨hi, hget⟩ := List.getElem?_eq_some_iff.mp hl
  have hbefore := (List.getElem_cons_eraseIdx_perm hi).filter (·.origin = l.origin)
  rw [hget, List.filter_cons_of_pos (by simp)] at hbefore
  have hafter := (Inbox.deliver_perm es hl).filter (·.origin = l.origin)
  have hall : ((copies es).map (l.after es).copy).filter (·.origin = l.origin) =
      (copies es).map (l.after es).copy := by
    refine List.filter_eq_self.mpr fun l' hl' => ?_
    obtain ⟨p, -, rfl⟩ := List.mem_map.mp hl'
    exact decide_eq_true rfl
  rw [if_pos hacked, List.nil_append, List.filter_append, hall] at hafter
  exact ⟨_, hbefore.symm, hafter⟩

end

/-- The letters of `k` are no more than they were, and read as some of them did. -/
structure Inbox.Shrinks (mixin : QueueMessageMixin) (k : Nat) (b b' : Inbox) : Prop where
  length : (b'.lettersOf k).length ≤ (b.lettersOf k).length
  reads : ∀ l' ∈ b'.lettersOf k, ∃ l ∈ b.lettersOf k,
    mixin.createFromCamelCaseJson l'.queued.body = mixin.createFromCamelCaseJson l.queued.body

section
variable {mixin : RereadMixin} {b b' : Inbox} {c : Subscriber} {k i : Nat} {l : Letter} {t : Turn}
  {m : QueueMessage Json}

theorem Inbox.Shrinks.of_perm (h : (b'.lettersOf k).Perm (b.lettersOf k)) :
    b.Shrinks mixin.toQueueMessageMixin k b' :=
  ⟨Nat.le_of_eq h.length_eq, fun l' hl' => ⟨l', h.mem_iff.mp hl', rfl⟩⟩

/-- A quiet delivery of a letter. If the message is due, there is one letter less. -/
theorem Inbox.deliver_shrinks (hl : b.waiting[i]? = some l) (ht : t.Quiet)
    (hread : mixin.createFromCamelCaseJson l.queued.body = .ok m) :
    let es := stateOf
      (RabbitMqConsumer.rabbitmqHandler mixin.toQueueMessageMixin t l.queued.body [])
    let b' := (b.settle i (l.after es) es).receive ((copies es).map (l.after es).copy)
    b.Shrinks mixin.toQueueMessageMixin l.origin b' ∧
      (m.due t.now = true → (b'.lettersOf l.origin).length < (b.lettersOf l.origin).length) := by
  intro es b'
  have hes : es = _ := rabbitmqHandler_quiet ht hread
  have hacked : .acked ∈ es := by
    rw [hes]
    split
    · exact List.mem_cons_of_mem _ (List.mem_singleton_self _)
    · exact List.mem_cons_of_mem _ (List.mem_singleton_self _)
  obtain ⟨rest, hbefore, hafter⟩ := Inbox.lettersOf_acked hl hacked
  have hold : ∀ l' ∈ rest, l' ∈ b.lettersOf l.origin := fun l' hl' =>
    hbefore.mem_iff.mpr (List.mem_cons_of_mem _ hl')
  have hlength : (b.lettersOf l.origin).length = rest.length + 1 := hbefore.length_eq
  have hlength' : (b'.lettersOf l.origin).length = (copies es).length + rest.length := by
    rw [hafter.length_eq, List.length_append, List.length_map]
  -- a message that is due is handled and gone; one that is not is published as it was
  by_cases hdue : m.due t.now = true
  · have hcopies : copies es = [] := by
      rw [hes, if_pos hdue]
      rfl
    rw [hcopies, List.length_nil] at hlength'
    refine ⟨⟨by omega, fun l' hl' => ?_⟩, fun _ => by omega⟩
    have hrest : l' ∈ rest := by
      have := hafter.mem_iff.mp hl'
      rw [hcopies] at this
      exact this
    exact ⟨l', hold l' hrest, rfl⟩
  · have hcopies : copies es = [mixin.toPayload m] := by
      rw [hes, if_neg hdue]
      rfl
    rw [hcopies, List.length_singleton] at hlength'
    refine ⟨⟨by omega, fun l' hl' => ?_⟩, fun h => absurd h hdue⟩
    rcases List.mem_append.mp (hafter.mem_iff.mp hl') with hcopy | hrest
    · obtain ⟨p, hp, rfl⟩ := List.mem_map.mp hcopy
      rw [hcopies] at hp
      refine ⟨l, hbefore.mem_iff.mpr List.mem_cons_self, ?_⟩
      rw [List.mem_singleton.mp hp, hread]
      exact mixin.create_again hread m.started m.attemptNumber
    · exact ⟨l', hold l' hrest, rfl⟩

/-- Any step, the deliveries to the service quiet, after the publish number `k`. -/
theorem Network.step_shrinks {n : Network} (e : NetworkEvent) (hsent : k < n.sent)
    (hquiet : ∀ i t, e = .deliver c i t → t.Quiet)
    (hreads : ∀ l ∈ (n.inbox c).lettersOf k,
      ∃ m, mixin.createFromCamelCaseJson l.queued.body = .ok m) :
    (n.inbox c).Shrinks mixin.toQueueMessageMixin k
      ((n.step mixin.toQueueMessageMixin e).inbox c) := by
  cases e with
  | publish exchange routingKey body =>
    show Inbox.Shrinks _ k _ ((Network.publish ..).inbox c)
    rw [Network.publish_inbox]
    apply Inbox.Shrinks.of_perm
    split
    · -- the new letter has another number
      have hnew : ([⟨n.sent, ⟨body, Queue.attemptsOf mixin.toQueueMessageMixin body, 0⟩⟩] :
          List Letter).filter (·.origin = k) = [] :=
        List.filter_cons_of_neg (by simpa using Nat.ne_of_gt hsent)
      unfold Inbox.receive Inbox.lettersOf
      rw [List.filter_append, hnew, List.append_nil]
    · exact List.Perm.refl _
  | deliver c' i t =>
    show Inbox.Shrinks _ k _ ((Network.deliver ..).inbox c)
    rw [Network.deliver_inbox]
    by_cases hc : c = c'
    · subst hc
      rw [if_pos rfl]
      cases hl : (n.inbox c).waiting[i]? with
      | none => exact .of_perm (List.Perm.refl _)
      | some l =>
        by_cases hk : l.origin = k
        · subst hk
          obtain ⟨m, hm⟩ := hreads l (Inbox.mem_lettersOf.mpr ⟨List.mem_of_getElem? hl, rfl⟩)
          exact (Inbox.deliver_shrinks hl (hquiet i t rfl) hm).1
        · exact .of_perm (Inbox.lettersOf_others _ hl hk)
    · rw [if_neg hc]
      exact .of_perm (List.Perm.refl _)

theorem Network.step_sent (n : Network) (e : NetworkEvent) :
    n.sent ≤ (n.step mixin.toQueueMessageMixin e).sent := by
  cases e with
  | publish exchange routingKey body => exact Nat.le_succ _
  | deliver c i t =>
    show n.sent ≤ (Network.deliver ..).sent
    unfold Network.deliver
    split
    · exact Nat.le_refl _
    · exact Nat.le_refl _

end

/-! ## Getting through what is left -/

/-- From `N` on at most `a` letters of the publish number `k` wait, all due by `time`. -/
structure Draining (mixin : RereadMixin) (events : Nat → NetworkEvent) (c : Subscriber)
    (k N : Nat) (time : DateTime) (a n : Nat) : Prop where
  late : N ≤ n
  sent : k < (Network.before mixin.toQueueMessageMixin events n).sent
  letters : (((Network.before mixin.toQueueMessageMixin events n).inbox c).lettersOf k).length ≤ a
  reads : ∀ l ∈ ((Network.before mixin.toQueueMessageMixin events n).inbox c).lettersOf k,
    ∃ m, mixin.createFromCamelCaseJson l.queued.body = .ok m ∧ m.started.getD 0 ≤ time

section
variable {mixin : RereadMixin} {events : Nat → NetworkEvent} {c : Subscriber} {k N : Nat}
  {time : DateTime} {a a' n : Nat}

theorem Draining.of_le (h : Draining mixin events c k N time a n)
    (hle : (((Network.before mixin.toQueueMessageMixin events n).inbox c).lettersOf k).length ≤
      a') : Draining mixin events c k N time a' n := { h with letters := hle }

theorem Draining.done (h : Draining mixin events c k N time a n)
    (hno : k ∉ ((Network.before mixin.toQueueMessageMixin events n).inbox c).waiting.map
      Letter.origin) : Draining mixin events c k N time 0 n :=
  h.of_le (by rw [Inbox.lettersOf_eq_nil.mpr hno]; exact Nat.le_refl 0)

theorem draining_stable (hquiet : ∀ j i t, N ≤ j → events j = .deliver c i t → t.Quiet) (a : Nat) :
    Stable (Draining mixin events c k N time a) := by
  intro n h
  have hreads : ∀ l ∈ ((Network.before mixin.toQueueMessageMixin events n).inbox c).lettersOf k,
      ∃ m, mixin.createFromCamelCaseJson l.queued.body = .ok m := by
    intro l hl
    obtain ⟨m, hm, -⟩ := h.reads l hl
    exact ⟨m, hm⟩
  have hshrinks :=
    Network.step_shrinks (events n) h.sent (fun i t => hquiet n i t h.late) hreads
  rw [← Network.before_succ] at hshrinks
  refine ⟨Nat.le_succ_of_le h.late, ?_, Nat.le_trans hshrinks.length h.letters, fun l' hl' => ?_⟩
  · rw [Network.before_succ]
    exact Nat.lt_of_lt_of_le h.sent (Network.step_sent _ _)
  · obtain ⟨l, hl, hsame⟩ := hshrinks.reads l' hl'
    obtain ⟨m, hm, htime⟩ := h.reads l hl
    exact ⟨m, hsame.trans hm, htime⟩

theorem Draining.delivered (hquiet : ∀ j i t, N ≤ j → events j = .deliver c i t → t.Quiet)
    (h : Draining mixin events c k N time a n) {i : Nat} {t : Turn} {l : Letter}
    (hevent : events n = .deliver c i t)
    (hl : ((Network.before mixin.toQueueMessageMixin events n).inbox c).waiting[i]? = some l)
    (hk : l.origin = k) (hlate : time < t.now) :
    ∃ a', a' < a ∧ Draining mixin events c k N time a' (n + 1) := by
  subst hk
  obtain ⟨m, hm, htime⟩ := h.reads l (Inbox.mem_lettersOf.mpr ⟨List.mem_of_getElem? hl, rfl⟩)
  have hdue := QueueMessage.due_of_lt (Int.lt_of_le_of_lt htime hlate)
  have hnext := draining_stable hquiet a n h
  have hless :
      (((Network.before mixin.toQueueMessageMixin events (n + 1)).inbox c).lettersOf
        l.origin).length <
      (((Network.before mixin.toQueueMessageMixin events n).inbox c).lettersOf
        l.origin).length := by
    rw [Network.before_succ, hevent]
    show (Inbox.lettersOf ((Network.deliver ..).inbox c) l.origin).length < _
    rw [Network.deliver_inbox, if_pos rfl, hl]
    exact (Inbox.deliver_shrinks hl (hquiet n i t h.late hevent) hm).2 hdue
  exact ⟨_, Nat.lt_of_lt_of_le hless h.letters, hnext.of_le (Nat.le_refl _)⟩

theorem draining_leadsTo (hquiet : ∀ j i t, N ≤ j → events j = .deliver c i t → t.Quiet)
    (hfair : KeepsDelivering mixin.toQueueMessageMixin events c k fun _ => True) (a : Nat) :
    LeadsTo (Draining mixin events c k N time a) fun n => Draining mixin events c k N time 0 n ∨
      ∃ a', a' < a ∧ Draining mixin events c k N time a' n := by
  intro n hn
  by_cases hwaits : k ∈ ((Network.before mixin.toQueueMessageMixin events n).inbox c).waiting.map
      Letter.origin
  · refine leadsTo_of_ensures
      (P := fun n => Draining mixin events c k N time a n ∧
        k ∈ ((Network.before mixin.toQueueMessageMixin events n).inbox c).waiting.map Letter.origin)
      (T := fun n => ∃ i t l, events n = .deliver c i t ∧
        ((Network.before mixin.toQueueMessageMixin events n).inbox c).waiting[i]? = some l ∧
        l.origin = k ∧ time < t.now) ?_ ?_ ?_ n ⟨hn, hwaits⟩
    · rintro n ⟨h, -⟩
      have hnext := draining_stable hquiet a n h
      by_cases hmore : k ∈ ((Network.before mixin.toQueueMessageMixin events (n + 1)).inbox
          c).waiting.map Letter.origin
      · exact Or.inl ⟨hnext, hmore⟩
      · exact Or.inr (Or.inl (hnext.done hmore))
    · rintro n ⟨h, -⟩ ⟨i, t, l, hevent, hl, hk, hlate⟩
      exact Or.inr (h.delivered hquiet hevent hl hk hlate)
    · intro n hlasts
      obtain ⟨j, i, t, l, hj, hevent, hl, hk, hlate, -⟩ :=
        hfair n time fun j hj => (hlasts j hj).2
      exact ⟨j, hj, i, t, l, hevent, hl, hk, hlate⟩
  · exact ⟨n, Nat.le_refl n, Or.inl (hn.done hwaits)⟩

theorem draining_ends (hquiet : ∀ j i t, N ≤ j → events j = .deliver c i t → t.Quiet)
    (hfair : KeepsDelivering mixin.toQueueMessageMixin events c k fun _ => True) (a : Nat) :
    LeadsTo (Draining mixin events c k N time a) (Draining mixin events c k N time 0) :=
  leadsTo_of_less Nat.lt_wfRel.wf (draining_leadsTo hquiet hfair) a

/-! ## The message and its letters -/

theorem SameMessage.reads {body body' : Json} {m : QueueMessage Json}
    (h : SameMessage mixin.toQueueMessageMixin body body')
    (hread : mixin.createFromCamelCaseJson body = .ok m) :
    ∃ m', mixin.createFromCamelCaseJson body' = .ok m' := by
  have hcontent := h.content
  rw [(contentOf_ok hread).1] at hcontent
  unfold contentOf at hcontent
  cases hread' : mixin.createFromCamelCaseJson body' with
  | ok m' => exact ⟨m', rfl⟩
  | error e =>
    rw [hread'] at hcontent
    cases hcontent

theorem exists_due (mixin : RereadMixin) (ls : List Letter) :
    ∃ time : DateTime, ∀ l ∈ ls, ∀ m, mixin.createFromCamelCaseJson l.queued.body = .ok m →
      m.started.getD 0 ≤ time := by
  induction ls with
  | nil => exact ⟨0, fun _ hl => (nomatch hl)⟩
  | cons l ls ih =>
    obtain ⟨time, ih⟩ := ih
    cases hread : mixin.createFromCamelCaseJson l.queued.body with
    | error e =>
      refine ⟨time, fun l' hl' m hm => ?_⟩
      rcases List.mem_cons.mp hl' with rfl | hl'
      · rw [hread] at hm
        cases hm
      · exact ih l' hl' m hm
    | ok m₀ =>
      refine ⟨max time (m₀.started.getD 0), fun l' hl' m hm => ?_⟩
      rcases List.mem_cons.mp hl' with rfl | hl'
      · rw [hread] at hm
        cases hm
        exact Int.le_max_right ..
      · exact Int.le_trans (ih l' hl' m hm) (Int.le_max_left ..)

/-- What is published at `n` has the next number, and is meant for `c` ever after. -/
theorem Network.before_meant (mixin : RereadMixin) {exchange routingKey : String} {body : Json}
    (hpublish : events n = .publish exchange routingKey body)
    (hnamed : c.IsNamed exchange routingKey) {j : Nat} (hj : n < j) :
    MeantFor (published ((List.range j).map events)) c
      (Network.before mixin.toQueueMessageMixin events n).sent body := by
  have hnext : ∀ j, published ((List.range (j + 1)).map events) =
      published ((List.range j).map events) ++ published [events j] := by
    intro j
    rw [List.range_succ, List.map_append]
    exact List.filterMap_append
  induction j, hj using Nat.le_induction with
  | base =>
    have hsent : (Network.before mixin.toQueueMessageMixin events n).sent = _ :=
      (Network.run_answers mixin ((List.range n).map events) c).1
    refine ⟨exchange, routingKey, ?_, hnamed⟩
    rw [hnext, hpublish, hsent, List.getElem?_append_right (Nat.le_refl _), Nat.sub_self]
    rfl
  | succ j _ ih =>
    rw [hnext]
    exact ih.append _

end

/-- Any run without end of any number of services, in which anything may fail up to some
    moment `N`, and what is delivered to the service `c` from then on is delivered quietly. As
    long as letters of a message wait, one of them is delivered after any time. Then, from
    some moment on, no letter of the message waits; the handler returned on it, or it was given
    up, which happens to no message with unlimited attempts. -/
theorem network_recovers (mixin : RereadMixin) (events : Nat → NetworkEvent) (c : Subscriber)
    {N : Nat} (hquiet : ∀ j i t, N ≤ j → events j = .deliver c i t → t.Quiet)
    {n : Nat} {exchange routingKey : String} {body : Json} {m : QueueMessage Json}
    (hpublish : events n = .publish exchange routingKey body)
    (hnamed : c.IsNamed exchange routingKey)
    (hread : mixin.createFromCamelCaseJson body = .ok m) :
    let before := Network.before mixin.toQueueMessageMixin events
    let k := (before n).sent
    KeepsDelivering mixin.toQueueMessageMixin events c k (fun _ => True) →
    ∃ j, ∀ j', j ≤ j' → k ∉ ((before j').inbox c).waiting.map Letter.origin ∧
      (k ∈ ((before j').inbox c).returned ∨
        k ∈ ((before j').inbox c).givenUp.map Letter.origin ∧ m.attemptNumber ≠ -1) := by
  intro before k hfair
  have hmeant : ∀ {j}, n < j → MeantFor (published ((List.range j).map events)) c k body :=
    fun hj => Network.before_meant mixin hpublish hnamed hj
  have hanswers : ∀ j, (before j).sent = (published ((List.range j).map events)).length ∧
      ((before j).inbox c).Answers mixin.toQueueMessageMixin
        (published ((List.range j).map events)) c := fun j => Network.run_answers mixin _ c
  -- from here on the deliveries are quiet
  obtain ⟨start, hpast, hlate⟩ : ∃ start, n < start ∧ N ≤ start :=
    ⟨max (n + 1) N, Nat.le_max_left .., Nat.le_max_right ..⟩
  have hreads : ∀ l ∈ ((before start).inbox c).lettersOf k,
      ∃ m', mixin.createFromCamelCaseJson l.queued.body = .ok m' := by
    intro l hl
    obtain ⟨hwaits, horigin⟩ := Inbox.mem_lettersOf.mp hl
    exact ((hanswers start).2.same (hmeant hpast) (Or.inl hwaits) horigin).reads hread
  have hsent : k < (before start).sent := by
    obtain ⟨_, _, hk, -⟩ := hmeant hpast
    rw [(hanswers start).1]
    exact (List.getElem?_eq_some_iff.mp hk).1
  obtain ⟨time, htime⟩ := exists_due mixin (((before start).inbox c).lettersOf k)
  have hdraining : Draining mixin events c k N time _ start :=
    ⟨hlate, hsent, Nat.le_refl _, fun l hl => by
      obtain ⟨m', hm'⟩ := hreads l hl
      exact ⟨m', hm', htime l hl m' hm'⟩⟩
  obtain ⟨j, hj, hdrained⟩ :=
    (draining_ends hquiet hfair _).forever (draining_stable hquiet 0) start hdraining
  refine ⟨j, fun j' hj' => ?_⟩
  have hno : k ∉ ((before j').inbox c).waiting.map Letter.origin :=
    Inbox.lettersOf_eq_nil.mp (List.eq_nil_of_length_eq_zero
      (Nat.le_zero.mp (hdrained j' hj').letters))
  refine ⟨hno, ?_⟩
  have hmeant' := hmeant (Nat.lt_of_lt_of_le hpast (Nat.le_trans hj hj'))
  rcases (hanswers j').2.kept k body hmeant' with ⟨l, hl, horigin⟩ | hret | ⟨l, hl, horigin⟩
  · exact absurd (horigin ▸ List.mem_map_of_mem hl) hno
  · exact Or.inl hret
  · have hsame := (hanswers j').2.same hmeant' (Or.inr hl) horigin
    refine Or.inr ⟨horigin ▸ List.mem_map_of_mem hl, fun hunlimited => ?_⟩
    refine ((hanswers j').2.lastAttempt l hl).2 (hsame.unlimited ?_)
    rw [(contentOf_ok hread).2]
    exact hunlimited

/-- A message with unlimited attempts is put off, and the consumer stops before the
    acknowledgement, so that it is there twice. After that nothing fails. -/
def stoppedEvents (c : Subscriber) : Nat → NetworkEvent
  | 0 => .publish c.exchange c.service
      (QueueMessage.asPayload ⟨"trace", .str "example", .list [], some 1, -1, 3⟩)
  | 1 => .deliver c 0 { Turn.at5 none with
      now := 0, ack := some (.exception "AMQPConnectionError") }
  | n + 2 => .deliver c 0 { Turn.at5 none with now := (n : Int) + 1 }

theorem network_recovers_stopped :
    let c : Subscriber := ⟨"your-exchange", "ddd-service", ⟨by decide, by decide, by decide⟩⟩
    let before := Network.before RereadMixin.camelCase.toQueueMessageMixin (stoppedEvents c)
    let k := (before 0).sent
    ∃ j, ∀ j', j ≤ j' → k ∉ ((before j').inbox c).waiting.map Letter.origin ∧
      (k ∈ ((before j').inbox c).returned ∨
        k ∈ ((before j').inbox c).givenUp.map Letter.origin ∧ (-1 : Int) ≠ -1) := by
  intro c before k
  have hnamed : c.IsNamed c.exchange c.service := by decide
  refine network_recovers .camelCase (stoppedEvents c) c (N := 2) (n := 0)
    (fun j i t hj ht => ?_) rfl hnamed rfl fun n time hwaits => ?_
  · obtain ⟨j, rfl⟩ := Nat.exists_eq_add_of_le' hj
    cases ht
    exact ⟨rfl, rfl, rfl⟩
  · -- put off again, handled and handled: then nothing waits
    have hfirst : (before 1).inbox c = _ :=
      (congrArg (Network.inbox · c) (Network.before_succ ..)).trans
        ((Network.publish_inbox ..).trans (if_pos hnamed))
    have hdeliver : ∀ {j i t}, stoppedEvents c j = .deliver c i t →
        (before (j + 1)).inbox c = _ := fun {j i t} hevent =>
      (congrArg (Network.inbox · c) (Network.before_succ ..)).trans
        ((congrArg (fun e => ((before j).step _ e).inbox c) hevent).trans
          ((Network.deliver_inbox c c i t).trans (if_pos rfl)))
    have hempty : ∀ j, 5 ≤ j → ((before j).inbox c).waiting = [] := by
      intro j hj
      induction j, hj using Nat.le_induction with
      | base =>
        rw [hdeliver (j := 4) rfl, hdeliver (j := 3) rfl, hdeliver (j := 2) rfl,
          hdeliver (j := 1) rfl, hfirst]
        rfl
      | succ j hj ih =>
        obtain ⟨i, rfl⟩ := Nat.exists_eq_add_of_le' hj
        rw [hdeliver (j := i + 5) rfl]
        split
        · exact ih
        · next l hl =>
          have hnone : ((before (i + 5)).inbox c).waiting[0]? = some l := hl
          rw [ih] at hnone
          cases hnone
    have hwaiting : _ ∈ ((before (max n 5)).inbox c).waiting.map Letter.origin :=
      hwaits (max n 5) (Nat.le_max_left ..)
    rw [hempty _ (Nat.le_max_right ..)] at hwaiting
    cases hwaiting

end DddService
