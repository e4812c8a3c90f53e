import DddService.Simulation

/- Controller calls against the ledger: the handlers in their scopes, the bus, the
   batches, and a whole call from one idle world to the next.

   A call that returns has taken the ledger through the changes of its requests,
   in order, each with what the handlers made of it (`Method.idle_ok`); a call that
   raises has taken it to some store its start leads to (`Method.idle`). In a calm
   world a call does what its changes say whenever the ledger takes them
   (`Method.idle_calm`). -/
namespace DddService
open Hoare EventLog

variable {env : Env}

section
variable {o : Origin env} {calm : Prop} {n : Int} {k : Nat} {view : Database} {L : Store}

/-! ## Handlers -/

theorem Inside.setCount {w : World} {ps : List Pending} (h : Inside o calm n k view ps w) (m : Int) :
    Inside o calm m k view ps (w.setCount m) :=
  ⟨h.db, rfl, h.drawn, h.session, fun hc => ⟨(h.calm hc).faults, (h.calm hc).messages⟩⟩

theorem Lost.setCount {w : World} (h : Lost o n w) (m : Int) : Lost o m (w.setCount m) :=
  ⟨h.db, rfl, h.session⟩

theorem Lost.rolledBack {w : World} (h : Lost o n w) : Lost o n w.rolledBack := by
  obtain ⟨s, L, _, _, hs⟩ := h.session
  refine ⟨h.db, h.count, _, o.ledger, rfl, rfl, ?_⟩
  change Sound o (w.drawn .aggregate) w.db o.ledger
  rw [h.db]
  exact hs.back

theorem flush_at {E : Exc → World → Prop} :
    Triple (At o calm n k L) AsyncSession.flush (fun _ => At o calm n k L) E := by
  intro w hw
  obtain ⟨view, hs, hi⟩ := hw
  obtain ⟨s, h1, h2, h3, h4⟩ := hi.session
  rw [flush_nil h1 h4]
  exact ⟨view, hs, hi⟩

theorem handler_spec {func : DomainEvent → M Unit} {event : DomainEvent} {blocked : Prop}
    {R : Store → Prop} (hn : 1 ≤ n)
    (hfunc : Triple (At o calm (n + 1) k L) (func event)
      (fun _ w => ∃ L', R L' ∧ At o calm (n + 1) k L' w) (Fails o calm (n + 1) blocked)) :
    Triple (At o calm n k L) (EventHandlerHelper.connectDbSession func event)
      (fun _ w => ∃ L', R L' ∧ At o calm n k L' w) (Fails o calm n blocked) := by
  unfold EventHandlerHelper.connectDbSession SessionProvider.withSession
  refine Triple.scope (At o calm (n + 1) k L) (fun _ w => ∃ L', R L' ∧ At o calm (n + 1) k L' w)
    (Fails o calm (n + 1) blocked) ?_ ?_ ?_ ?_
  · -- the inner scope counts up, on the same session
    intro w hw
    obtain ⟨view, hs, hi⟩ := hw
    have hc := hi.count
    rw [aenter_inner (by omega), hc]
    exact ⟨view, hs, hi.setCount (n + 1)⟩
  · refine Triple.tryCatch (R := Fails o calm (n + 1) blocked) ?_ fun e => ?_
    · have hset : Harmless (EventHandlerHelper.setTracing event) fun _ => True :=
        Harmless.modify fun _ => ⟨rfl, rfl, rfl, rfl, rfl⟩
      refine hset.triple.bind fun _ => Triple.bind (hfunc.conseq (fun w hw => hw.1) (fun _ _ h => h)
        (fun _ _ h => h)) fun _ => Triple.intro fun w₁ h₁ => ?_
      obtain ⟨L', hR, hat⟩ := h₁
      exact (Triple.start flush_at hat).conseq (fun _ h => h) (fun _ w hw => ⟨L', hR, hw⟩) (fun _ _ h => h)
    · -- an `Exception` of the handler rolls back before it leaves the scope
      intro w hw
      cases he : e.isException with
      | true =>
        obtain ⟨s, _, h1, _⟩ := hw.1.session
        rw [run_ite_pos rfl (bind_ok (rollback_run h1) rfl)]
        exact ⟨hw.1.rolledBack, hw.2⟩
      | false => exact hw
  · intro _ w hw
    obtain ⟨L', hR, view, hs, hi⟩ := hw
    have hc := hi.count
    have hcount : w.provider.sessionCount - 1 = n := by omega
    rw [aexit_inner (by omega), hcount]
    exact ⟨L', hR, view, hs, hi.setCount n⟩
  · intro e w hw
    have hc := hw.1.count
    have hcount : w.provider.sessionCount - 1 = n := by omega
    rw [aexit_inner (by omega), hcount]
    exact ⟨hw.1.setCount n, hw.2⟩

/-- The notification finds its own kind under its key, and merges with it. -/
theorem Buffered.push {ms : Messages Pushed} (h : Buffered ms) (rk traceId : String)
    (xs : List Pushed) :
    ∃ ms', Messages.pushMessage rk (QueueMessage.new traceId
      YourAggregateEventHandler.yourAggregateVoidedFunction (.list xs)) ms = .ok () ms' ∧
      Buffered ms' := by
  let message : QueueMessage Pushed := QueueMessage.new traceId
    YourAggregateEventHandler.yourAggregateVoidedFunction (.list xs)
  have hmerge : ∃ m', QueueMessage.merge (ms.pendingAt rk (Messages.mKey message)) message = .ok m' ∧
      Messages.mKey m' = Messages.mKey message ∧
      m'.functionName = YourAggregateEventHandler.yourAggregateVoidedFunction ∧
      ∃ ys, m'.data = .list ys := by
    cases ho : ms.pendingAt rk (Messages.mKey message) with
    | none => exact ⟨message, rfl, rfl, rfl, xs, rfl⟩
    | some m =>
      obtain ⟨hk, hf, ys, hd⟩ := h _ _ _ ho
      have htrace : message.traceId = m.traceId := by
        have hkey : message.traceId ++ "_" ++ message.functionName.value =
            m.traceId ++ "_" ++ message.functionName.value := by
          rw [Messages.mKey, Messages.mKey, hf] at hk
          exact hk
        exact (String.append_left_inj "_").mp ((String.append_left_inj _).mp hkey)
      refine ⟨{ m with data := .list (ys ++ xs) }, ?_, hk.symm, hf, ys ++ xs, rfl⟩
      simp only [QueueMessage.merge, QueueMessage.iadd, QueueMessage.check, htrace, hf, hd,
        ne_eq, not_true_eq_false, if_false]
      rw [if_neg (by simp [message, QueueMessage.new])]
      rfl
  obtain ⟨m', hm, hkey, hfun, ys, hdata⟩ := hmerge
  refine ⟨ms.place rk (Messages.mKey message) m', ?_, ?_⟩
  · rw [Messages.pushMessage_run, hm]
  · intro rk' k' m hp
    rw [Buffer.pendingAt_place] at hp
    split at hp
    · rename_i he
      cases hp
      exact ⟨he.2.trans hkey.symm, hfun, ys, hdata⟩
    · exact h rk' k' m hp

/-- Pushing the notification of a voided aggregate changes nothing for the ledger. -/
theorem handleYourAggregateVoided_spec {id : String} {g : Aggregate} (hg : L.state id = .live g) :
    Triple (At o calm n k L) (YourAggregateEventHandler.handleYourAggregateVoided env id)
      (fun _ => At o calm n k L) (Fails o calm n False) := by
  refine ((loadYourAggregate_spec id false).raises fun _ w hw => ⟨hw.1, fun hc => hw.2 hc g hg⟩).bind
    fun a => Triple.ite (fun _ => ?_) fun _ => Triple.pure fun w hw => hw.1
  have htrace : Triple (At o calm n k L) (getTraceId env) (fun _ w => At o calm n k L w ∧ True)
      (Fails o calm n False) := Harmless.triple Harmless.getTraceId
  refine Triple.bind (R := fun _ w => At o calm n k L w) (htrace.conseq (fun w hw => hw.1)
    (fun _ _ hw => hw.1) fun _ _ h => h) fun traceId => ?_
  intro w hw
  obtain ⟨view, hs, hi⟩ := hw
  let message : QueueMessage Pushed := QueueMessage.new traceId
    YourAggregateEventHandler.yourAggregateVoidedFunction (.list [⟨⟨id⟩, w.tx, w.pushed.length⟩])
  rw [bind_ok (get_run w) rfl]
  unfold RabbitMqPublisher.pushMessage
  cases hp : Messages.pushMessage YourAggregateEventHandler.yourAggregateService message w.messages with
  | ok _ ms =>
    refine ⟨view, hs, hi.db, hi.count, hi.drawn, hi.session, fun hc => ⟨(hi.calm hc).faults, ?_⟩⟩
    obtain ⟨ms', hok, hbuf⟩ := (hi.calm hc).messages.push
      YourAggregateEventHandler.yourAggregateService traceId [⟨⟨id⟩, w.tx, w.pushed.length⟩]
    rw [show Messages.pushMessage _ _ _ = _ from hp] at hok
    cases hok
    exact hbuf
  | error e ms =>
    have hlost := hs.lost hi
    refine ⟨⟨hlost.db, hlost.count, hlost.session⟩, fun hc => ?_⟩
    obtain ⟨ms', hok, _⟩ := (hi.calm hc).messages.push
      YourAggregateEventHandler.yourAggregateService traceId [⟨⟨id⟩, w.tx, w.pushed.length⟩]
    rw [show Messages.pushMessage _ _ _ = _ from hp] at hok
    cases hok

end

/-! ## The bus -/

theorem publish_silent (depth : Nat) {id : String} {c : Change}
    (hc : (∃ v d, c = .updated v d) ∨ ∃ d, c = .deleted d) :
    Reacts env (publish env (depth + 1)) id c [] := by
  intro o calm n k L e _ he _
  have hnone : YourAggregateEventHandler.handlers env (publish env depth) e = [] := by
    rcases hc with ⟨v, d, rfl⟩ | ⟨d, rfl⟩ <;> simp [YourAggregateEventHandler.handlers, he, bodyOf]
  change Triple _ ((YourAggregateEventHandler.handlers env (publish env depth) e).forM _) _ _
  rw [hnone]
  exact Triple.pure fun w hw => ⟨L, rfl, hw⟩

/-- Two levels of the bus are enough for every event. -/
theorem publish_reacts (depth : Nat) (id : String) (c : Change) :
    Reacts env (publish env (depth + 2)) id c (reaction id c) := by
  cases c with
  | updated v d => exact publish_silent (depth + 1) (Or.inl ⟨v, d, rfl⟩)
  | deleted d => exact publish_silent (depth + 1) (Or.inr ⟨d, rfl⟩)
  | created v d =>
    intro o calm n k L e hn he _
    have hone : YourAggregateEventHandler.handlers env (publish env (depth + 1)) e =
        [fun _ => YourAggregateEventHandler.handleYourAggregateCreated env
          (publish env (depth + 1)) id v d] := by
      simp [YourAggregateEventHandler.handlers, he, bodyOf]
    change Triple _ ((YourAggregateEventHandler.handlers env (publish env (depth + 1)) e).forM _) _ _
    rw [hone]
    refine Triple.bind (handler_spec hn ?_) fun _ => Triple.pure fun _ h => h
    exact updateYourAggregate_spec (publish_silent depth (Or.inl ⟨_, _, rfl⟩)) (by omega)
  | voided d =>
    intro o calm n k L e hn he hafter
    have hone : YourAggregateEventHandler.handlers env (publish env (depth + 1)) e =
        [fun _ => YourAggregateEventHandler.handleYourAggregateVoided env id] := by
      simp [YourAggregateEventHandler.handlers, he, bodyOf]
    -- the event was stored just now, so the aggregate is there
    obtain ⟨g, hg⟩ : ∃ g, L.state id = .live g := by
      obtain ⟨s, hs⟩ := hafter
      rcases Ledger.next_cases hs with ⟨_, _, _, hc, _⟩ | ⟨_, _, _, _, _, hc, _⟩ |
        ⟨a, _, _, _, _, hl⟩ | ⟨_, _, _, hc, _⟩
      · cases hc
      · cases hc
      · exact ⟨_, hl⟩
      · cases hc
    change Triple _ ((YourAggregateEventHandler.handlers env (publish env (depth + 1)) e).forM _) _ _
    rw [hone]
    refine Triple.bind (handler_spec (R := fun L' => L' = L) hn ?_) fun _ => Triple.pure fun w hw => ?_
    · exact (handleYourAggregateVoided_spec hg).conseq (fun _ h => h) (fun _ w hw => ⟨L, rfl, hw⟩)
        fun _ w hw => ⟨hw.1, fun hc => (hw.2 hc).elim⟩
    · obtain ⟨L', rfl, hw⟩ := hw
      exact ⟨L', rfl, hw⟩

theorem eventBus_reacts (id : String) (c : Change) :
    Reacts env (eventBus env) id c (reaction id c) :=
  publish_reacts 998 id c

/-! ## Batches -/

/-- In a call's outermost scope, with `k` ids drawn, `x` appends `es k` and draws
    `draws` more. It raises in a calm world only if `blocked`. -/
def Makes {α : Type} (env : Env) (x : M α) (es : Nat → List (String × Change)) (draws : Nat)
    (blocked : Nat → Store → Prop) : Prop :=
  ∀ (o : Origin env) (calm : Prop) (k : Nat) (L : Store), Triple (At o calm 1 k L) x
    (fun _ w => ∃ L', L.appendAll machine (es k) = some L' ∧ At o calm 1 (k + draws) L' w)
    (Fails o calm 1 (blocked k L))

/-- A change with what the handlers make of it. -/
def changed (p : String × Change) : List (String × Change) := p :: reaction p.1 p.2

/-- The changes of a batch, each request drawing `draws` ids. -/
def batchChanges {ρ : Type} (one : Nat → ρ → String × Change) (draws : Nat) :
    Nat → List ρ → List (String × Change)
  | _, [] => []
  | k, r :: rs => changed (one k r) ++ batchChanges one draws (k + draws) rs

section
variable {ρ : Type} {one : ρ → M String} {change : Nat → ρ → String × Change} {draws : Nat}

theorem mapM_makes (hone : ∀ r, Makes env (one r) (fun k => changed (change k r)) draws
      fun k L => L.appendAll machine (changed (change k r)) = none) :
    ∀ (rs : List ρ) (o : Origin env) (calm : Prop) (k : Nat) (L : Store),
      Triple (At o calm 1 k L) (rs.mapM one)
        (fun ids w => ids.length = rs.length ∧
          ∃ L', L.appendAll machine (batchChanges change draws k rs) = some L' ∧
            At o calm 1 (k + draws * rs.length) L' w)
        (Fails o calm 1 (L.appendAll machine (batchChanges change draws k rs) = none))
  | [], o, calm, k, L => Triple.pure fun w hw => ⟨rfl, L, rfl, hw⟩
  | r :: rs, o, calm, k, L => by
    have happ : ∀ L₁, L.appendAll machine (changed (change k r)) = some L₁ →
        L.appendAll machine (batchChanges change draws k (r :: rs)) =
          L₁.appendAll machine (batchChanges change draws (k + draws) rs) := by
      intro L₁ h
      rw [batchChanges, EventLog.Store.appendAll_append, h]
      rfl
    rw [List.mapM_cons]
    refine Triple.bind ((hone r o calm k L).raises fun _ w hw => ⟨hw.1, fun hc => ?_⟩)
      fun id => Triple.intro fun w₁ h₁ => ?_
    · rw [batchChanges, EventLog.Store.appendAll_append, hw.2 hc]
      rfl
    · obtain ⟨L₁, h₁, hat⟩ := h₁
      rw [happ L₁ h₁]
      refine Triple.bind ((mapM_makes hone rs o calm (k + draws) L₁).start hat)
        fun ids => Triple.pure fun w hw => ?_
      obtain ⟨hlen, L', hL', hat'⟩ := hw
      refine ⟨congrArg Nat.succ hlen, L', hL', ?_⟩
      have hk : k + draws * (r :: rs).length = k + draws + draws * rs.length := by
        rw [List.length_cons, Nat.mul_succ]
        omega
      rw [hk]
      exact hat'

/-- A batch makes the changes of its requests; an empty one, which makes none,
    raises an `IndexError`. -/
theorem batch_makes (hone : ∀ r, Makes env (one r) (fun k => changed (change k r)) draws
      fun k L => L.appendAll machine (changed (change k r)) = none) (rs : List ρ) {total : Nat}
    (htotal : total = draws * rs.length) :
    Makes env (YourAggregateController.batch one rs) (fun k => batchChanges change draws k rs) total
      (fun k L => batchChanges change draws k rs = [] ∨
        L.appendAll machine (batchChanges change draws k rs) = none) := by
  intro o calm k L
  refine Triple.bind ((mapM_makes hone rs o calm k L).raises fun _ w hw => ⟨hw.1, fun hc =>
    Or.inr (hw.2 hc)⟩) fun ids => ?_
  intro w hw
  obtain ⟨hlen, hL'⟩ := hw
  rw [← htotal] at hL'
  cases ids with
  | nil =>
    obtain ⟨L', _, view, hs, hi⟩ := hL'
    refine ⟨hs.lost hi, fun _ => Or.inl ?_⟩
    rw [List.eq_nil_of_length_eq_zero hlen.symm]
    rfl
  | cons id ids => cases ids <;> exact hL'

end

/-! ## The controller's methods -/

/-- The change a request asks for, when the next id to draw is the `k`-th. -/
def CreateYourAggregateRequest.change (env : Env) (k : Nat) (r : CreateYourAggregateRequest) :
    String × Change := (env.uuid4 .aggregate k, .created r.yourValueObject r.doer)

def UpdateYourAggregateRequest.change (_ : Nat) (r : UpdateYourAggregateRequest) :
    String × Change := (r.id, .updated r.yourValueObject r.doer)

def IdRequest.voiding (_ : Nat) (r : IdRequest) : String × Change := (r.id, .voided r.doer)

def IdRequest.deleting (_ : Nat) (r : IdRequest) : String × Change := (r.id, .deleted r.doer)

/-- The changes a call that returns has made, from the `k`-th id on. -/
def Call.changes (env : Env) (k : Nat) : Call → List (String × Change)
  | .create rs => batchChanges (CreateYourAggregateRequest.change env) 1 k rs
  | .update rs => batchChanges UpdateYourAggregateRequest.change 0 k rs
  | .void rs => batchChanges IdRequest.voiding 0 k rs
  | .delete rs => batchChanges IdRequest.deleting 0 k rs
  | .get _ | .newContext _ => []

/-- The ids a call draws. -/
def Call.draws : Call → Nat
  | .create rs => rs.length
  | _ => 0

/-- What makes a call raise where nothing else fails. -/
def Call.blocked (env : Env) (k : Nat) (L : Store) : Call → Prop
  | .get r => ∀ g, L.state r.id ≠ .live g
  | .newContext _ => False
  | c => c.changes env k = [] ∨ L.appendAll machine (c.changes env k) = none

theorem Call.makes {c : Call} {m : Method} (h : c.method env = some m) :
    Makes env m.func (fun k => c.changes env k) c.draws (fun k L => c.blocked env k L) := by
  -- a use case call, and the id the controller answers with
  have hid : ∀ {x : M Unit} {es draws blocked} {id : String}, Makes env x es draws blocked →
      Makes env (do x; pure id) es draws blocked := fun hx o calm k L =>
    (hx o calm k L).bind fun _ => Triple.pure fun _ h => h
  cases c with
  | create rs =>
    cases h
    exact batch_makes (fun r o calm k L => createYourAggregate_spec (eventBus_reacts _ _) (by omega))
      rs (Nat.one_mul _).symm
  | update rs =>
    cases h
    exact batch_makes (fun r => hid fun o calm k L =>
      updateYourAggregate_spec (eventBus_reacts _ _) (by omega)) rs (Nat.zero_mul _).symm
  | void rs =>
    cases h
    exact batch_makes (fun r => hid fun o calm k L =>
      voidYourAggregate_spec (eventBus_reacts _ _) (by omega)) rs (Nat.zero_mul _).symm
  | delete rs =>
    cases h
    exact batch_makes (fun r => hid fun o calm k L =>
      deleteYourAggregate_spec (eventBus_reacts _ _) (by omega)) rs (Nat.zero_mul _).symm
  | get r =>
    cases h
    intro o calm k L
    exact (loadYourAggregate_spec r.id false).conseq (fun _ h => h) (fun _ w hw => ⟨L, rfl, hw.1⟩)
      fun _ _ h => h
  | newContext t => cases h

end DddService
