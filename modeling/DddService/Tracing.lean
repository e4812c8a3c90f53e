import DddService.Controller

/- The tracing of one request. Only `set_tracing` and `_save_tracing` touch what is
   pending in a use case (`LeavesTracing` of everything else). A save that finds the
   trace id or the parent event there leaves every event of the aggregate traced by
   it (`saveTracing_traced`), and the rows of traced events carry their tracing. -/
namespace DddService
open Hoare

/-! ## What leaves the use cases alone -/

/-- `x` leaves the tracing of all use cases alone. -/
abbrev LeavesTracing {α : Type} (x : M α) : Prop := Frames World.useCase x

namespace LeavesTracing
variable {α : Type} (env : Env)

theorem awaitPoint : LeavesTracing awaitPoint := by
  intro w
  rw [awaitPoint_run]
  cases w.nextFault <;> rfl

theorem datetimeNow : LeavesTracing datetimeNow := fun _ => rfl

theorem uuid4 (kind : UuidKind) : LeavesTracing (uuid4 env kind) := fun _ => rfl

theorem ofExcept (r : Except Exc α) : LeavesTracing (M.ofExcept r) := by
  cases r with
  | ok a => exact Frames.pure a
  | error e => exact Frames.throw e

theorem getTraceId : LeavesTracing (getTraceId env) := by
  apply Frames.bind Frames.get
  intro w
  apply Frames.ite
  · exact (uuid4 env .trace).bind fun t => Frames.bind (Frames.modify fun _ => rfl) fun _ =>
      Frames.pure t
  · exact Frames.pure _

theorem currentSession : LeavesTracing currentSession := by
  apply Frames.bind Frames.get
  intro w
  cases w.provider.session with
  | none => exact Frames.throw _
  | some s => exact Frames.pure s

theorem sessionGet (pkey : String) : LeavesTracing (AsyncSession.get pkey) := by
  apply Frames.bind currentSession
  intro s
  apply Frames.ite
  · exact Frames.throw _
  · exact Frames.bind awaitPoint fun _ => Frames.pure _

theorem enqueue (p : Pending) : LeavesTracing (AsyncSession.enqueue p) :=
  Frames.bind currentSession fun _ => Frames.modify fun _ => rfl

/-- An await whose raise loses the transaction. -/
theorem awaitOrLose (s : AsyncSession) : LeavesTracing
    (tryCatch DddService.awaitPoint fun e => do modify (AsyncSession.deactivate s); throw e) :=
  Frames.tryCatch awaitPoint fun e => Frames.bind (Frames.modify fun _ => rfl) fun _ =>
    Frames.throw e

theorem flush : LeavesTracing AsyncSession.flush := by
  apply Frames.bind currentSession
  intro s
  apply Frames.ite
  · exact Frames.pure _
  · apply Frames.ite
    · exact Frames.throw _
    · exact (awaitOrLose s).bind fun _ => Frames.modify fun _ => rfl

theorem rollback : LeavesTracing AsyncSession.rollback :=
  Frames.bind currentSession fun _ => Frames.modify fun _ => rfl

theorem close : LeavesTracing AsyncSession.close :=
  Frames.bind currentSession fun _ => Frames.modify fun _ => rfl

theorem commit : LeavesTracing AsyncSession.commit := by
  apply Frames.bind currentSession
  intro s
  refine Frames.bind (Frames.modify fun _ => rfl) fun _ => ?_
  apply Frames.ite
  · exact Frames.throw _
  · apply Frames.bind flush
    intro _
    apply Frames.bind currentSession
    intro s
    exact (awaitOrLose s).bind fun _ => Frames.modify fun _ => rfl

theorem aenter : LeavesTracing SessionProvider.aenter := by
  apply Frames.bind Frames.get
  intro w
  apply Frames.ite
  · exact Frames.bind (Frames.modify fun _ => rfl) fun _ => Frames.modify fun _ => rfl
  · exact Frames.modify fun _ => rfl

theorem aexit : LeavesTracing SessionProvider.aexit := by
  have hend : LeavesTracing (do AsyncSession.close; modify (World.setSession · none)) :=
    Frames.bind close fun _ => Frames.modify fun _ => rfl
  refine Frames.bind (Frames.modify fun _ => rfl) fun _ => ?_
  apply Frames.bind Frames.get
  intro w
  apply Frames.ite
  · refine Frames.bind (Frames.modify fun _ => rfl) fun _ => ?_
    apply Frames.tryCatch
    · exact Frames.bind commit fun _ => hend
    · intro e
      apply Frames.ite
      · exact Frames.bind rollback fun _ => Frames.bind close fun _ =>
          Frames.bind (Frames.modify fun _ => rfl) fun _ => Frames.throw e
      · exact Frames.throw e
  · exact Frames.pure _

theorem loadYourAggregate (pkey : String) (lock : Bool) :
    LeavesTracing (YourAggregateRepository.loadYourAggregate env pkey lock) := by
  apply Frames.bind
  · exact (sessionGet pkey).tryCatch fun e => Frames.ite (Frames.pure _) (Frames.throw e)
  · intro model
    cases model with
    | none => exact Frames.throw _
    | some model => exact ofExcept _

theorem getTracer (e : DomainEvent) : LeavesTracing (e.getTracer env) := by
  unfold DomainEvent.getTracer
  cases e.tracer with
  | some t => exact Frames.pure _
  | none =>
    exact Frames.bind datetimeNow fun _ => (uuid4 env .span).bind fun _ => Frames.pure _

theorem serialize (e : DomainEvent) : LeavesTracing (e.serialize env) :=
  (getTracer env e).bind fun _ => Frames.pure _

theorem traceUnder : ∀ (parent : DomainEvent) (events : List DomainEvent),
    LeavesTracing (AggregateRoot.traceUnder env parent events)
  | _, [] => Frames.pure _
  | parent, e :: events => (getTracer env parent).bind fun p => (getTracer env e).bind fun _ =>
      (traceUnder p.1 events).bind fun _ => Frames.pure _

theorem saveEventsTracing (a : YourAggregate) (parent : Option DomainEvent)
    (traceId : Option String) : LeavesTracing (a.saveEventsTracing env parent traceId) := by
  unfold YourAggregate.saveEventsTracing
  cases parent with
  | some parent => exact (traceUnder env parent a.domainEvents).bind fun _ => Frames.pure _
  | none =>
    cases traceId with
    | none => exact Frames.pure a
    | some t =>
      apply Frames.ite
      · exact Frames.pure a
      · apply Frames.bind
        · exact Frames.mapM (fun e => (getTracer env e).bind fun _ => Frames.pure _) a.domainEvents
        · exact fun _ => Frames.pure _

theorem persist (a : YourAggregate) (model : YourAggregateModel) (persistent : Bool) :
    LeavesTracing (YourAggregateRepository.persist a model persistent) := by
  apply Frames.ite
  · exact Frames.ite (enqueue _) (Frames.throw _)
  · exact enqueue _

theorem archiveIfRaised (a : YourAggregate) (model : YourAggregateModel) :
    LeavesTracing (YourAggregateRepository.archiveIfRaised env a model) := by
  apply Frames.ite
  · apply (uuid4 env .archive).bind
    intro _
    dsimp only
    cases a.allEvents.getLast? with
    | none => exact (enqueue _).bind fun _ => Frames.pure a
    | some event => exact (getTracer env event).bind fun _ => (enqueue _).bind fun _ => Frames.pure _
  · exact Frames.pure a

theorem pushMessage (rk : String) (m : QueueMessage Pushed) :
    LeavesTracing (RabbitMqPublisher.pushMessage rk m) := by
  intro w
  unfold RabbitMqPublisher.pushMessage
  cases Messages.pushMessage rk m w.messages <;> rfl

theorem handleYourAggregateVoided (id : String) :
    LeavesTracing (YourAggregateEventHandler.handleYourAggregateVoided env id) := by
  apply (loadYourAggregate env id false).bind
  intro a
  apply Frames.ite
  · exact (getTraceId env).bind fun _ => Frames.bind Frames.get fun _ => pushMessage _ _
  · exact Frames.pure _

theorem publishMessages : LeavesTracing RabbitMqPublisher.publishMessages := by
  have hbasic : ∀ rk m, LeavesTracing (RabbitMqPublisher.basicPublish rk m) := fun rk m =>
    Frames.bind awaitPoint fun _ => Frames.modify fun _ => rfl
  have hone : ∀ rk k m, LeavesTracing (RabbitMqPublisher.publishOne rk k m) := fun rk k m =>
    Frames.bind awaitPoint fun _ => (hbasic rk m).bind fun _ => Frames.modify fun _ => rfl
  have hcopy : ∀ copy, LeavesTracing (RabbitMqPublisher.publishCopy copy) := fun copy =>
    Frames.forM (g := fun p => p.2.entries.forM fun q => RabbitMqPublisher.publishOne p.1 q.1 q.2)
      (fun p => Frames.forM (fun q => hone p.1 q.1 q.2) p.2.entries) copy.entries
  apply Frames.tryCatch
  · apply Frames.scope
    · exact Frames.tryCatch awaitPoint fun e => Frames.throw _
    · exact awaitPoint
    · exact Frames.bind Frames.get fun w => (hcopy w.messages).bind fun _ => Frames.modify fun _ => rfl
  · exact fun e => Frames.ite (Frames.pure _) (Frames.throw e)

theorem enterContext (traceId : Option String) : LeavesTracing (Call.enterContext env traceId) := by
  refine Frames.bind (Frames.modify fun _ => rfl) fun _ => ?_
  apply Frames.ite
  · exact (uuid4 env .trace).bind fun _ => Frames.modify fun _ => rfl
  · exact Frames.modify fun _ => rfl

end LeavesTracing

/-! ## What a save makes of the tracing it finds -/

/-- The event carries the trace id `t`, under the parent span, if there is one. -/
def Traced (t : String) (parent : Option Tracer) (e : DomainEvent) : Prop :=
  ∃ p, e.tracer = some p ∧ p.traceId = t ∧ ∀ q, parent = some q → p.parentSpanId = some q.spanId

/-- What `set_tracing` leaves in the use case: the request's trace id, or the event
    that is handled. -/
def pendingOf (t : String) : Option DomainEvent → UseCaseBase
  | none => ⟨none, some t⟩
  | some event => ⟨some event, none⟩

section
variable (env : Env)

theorem getTracer_run (e : DomainEvent) (w : World) :
    ∃ t w', e.getTracer env w = .ok ({ e with tracer := some t }, t) w' ∧
      ∀ t₀, e.tracer = some t₀ → t = t₀ := by
  obtain ⟨body, tracer⟩ := e
  cases tracer with
  | some t => exact ⟨t, w, rfl, fun t₀ h => Option.some.inj h⟩
  | none => exact ⟨_, _, rfl, fun t₀ h => (nomatch h)⟩

theorem traceUnder_traced : ∀ (events : List DomainEvent) (parent : DomainEvent) (q : Tracer)
    (w : World), parent.tracer = some q →
    ∃ es w', AggregateRoot.traceUnder env parent events w = .ok es w' ∧
      ∀ e ∈ es, Traced q.traceId (some q) e
  | [], _, _, w, _ => ⟨[], w, rfl, fun e he => (nomatch he)⟩
  | e :: events, parent, q, w, hq => by
    obtain ⟨p, w₁, h₁, hp⟩ := getTracer_run env parent w
    obtain ⟨t, w₂, h₂, _⟩ := getTracer_run env e w₁
    obtain ⟨es, w₃, h₃, hes⟩ := traceUnder_traced events { parent with tracer := some p } q w₂
      (congrArg some (hp q hq))
    refine ⟨_, w₃, bind_ok h₁ (bind_ok h₂ (bind_ok h₃ rfl)), fun ev hev => ?_⟩
    rcases List.mem_cons.mp hev with hev | hev
    · rw [hev, ← hp q hq]
      refine ⟨_, rfl, rfl, fun q' hq' => ?_⟩
      rw [← Option.some.inj hq']
    · exact hes ev hev

theorem traceAs_traced (t : String) : ∀ (events : List DomainEvent) (w : World),
    ∃ es w', AggregateRoot.traceAs env t events w = .ok es w' ∧ ∀ e ∈ es, Traced t none e
  | [], w => ⟨[], w, rfl, fun e he => (nomatch he)⟩
  | e :: events, w => by
    obtain ⟨p, w₁, h₁, _⟩ := getTracer_run env e w
    obtain ⟨es, w₂, h₂, hes⟩ := traceAs_traced t events w₁
    have hrun : AggregateRoot.traceAs env t (e :: events) w =
        .ok ({ e with tracer := some { p with traceId := t } } :: es) w₂ := by
      unfold AggregateRoot.traceAs
      rw [List.mapM_cons]
      exact bind_ok (bind_ok h₁ rfl) (bind_ok h₂ rfl)
    refine ⟨_, w₂, hrun, fun ev hev => ?_⟩
    rcases List.mem_cons.mp hev with hev | hev
    · rw [hev]
      exact ⟨_, rfl, rfl, fun q hq => (nomatch hq)⟩
    · exact hes ev hev

/-- A save that finds what `set_tracing` left traces every event. -/
theorem saveTracing_traced {owner : Owner} {t : String} (ht : t ≠ "") {h : Option DomainEvent}
    (hh : ∀ e, h = some e → ∃ p, e.tracer = some p ∧ p.traceId = t) {w : World}
    (hu : w.useCase owner = pendingOf t h) (a : YourAggregate) :
    ∃ a' w', UseCaseBase.saveTracing env owner a w = .ok a' w' ∧
      ∀ e ∈ a'.domainEvents, Traced t (h.bind (·.tracer)) e := by
  unfold UseCaseBase.saveTracing
  cases h with
  | none =>
    obtain ⟨es, w₁, h₁, hes⟩ := traceAs_traced env t a.domainEvents w
    have hsave : a.saveEventsTracing env none (some t) w = .ok { a with domainEvents := es } w₁ :=
      run_ite_neg ht (bind_ok h₁ rfl)
    refine ⟨{ a with domainEvents := es }, w₁.setUseCase owner ⟨none, none⟩,
      bind_ok (get_run w) ?_, hes⟩
    rw [hu]
    exact run_ite_neg ht (bind_ok hsave rfl)
  | some event =>
    obtain ⟨p, hp, hpt⟩ := hh event rfl
    obtain ⟨es, w₁, h₁, hes⟩ := traceUnder_traced env a.domainEvents event p w hp
    have hsave : a.saveEventsTracing env (some event) none w = .ok { a with domainEvents := es } w₁ :=
      bind_ok h₁ rfl
    refine ⟨{ a with domainEvents := es }, w₁.setUseCase owner ⟨none, none⟩,
      bind_ok (get_run w) ?_, ?_⟩
    · rw [hu]
      exact bind_ok hsave rfl
    · intro e he
      show Traced t event.tracer e
      rw [hp, ← hpt]
      exact hes e he

/-- A save touches the tracing of its own use case only. -/
theorem saveTracing_frames {owner o : Owner} (ho : o ≠ owner) (a : YourAggregate) :
    Frames (fun w : World => w.useCase o) (UseCaseBase.saveTracing env owner a) := by
  have hevents : ∀ parent traceId, Frames (fun w : World => w.useCase o)
      (a.saveEventsTracing env parent traceId) := fun parent traceId =>
    (LeavesTracing.saveEventsTracing env a parent traceId).map (· o)
  have hset : ∀ u : UseCaseBase, Frames (fun w : World => w.useCase o)
      (modify fun w => w.setUseCase owner u : M PUnit) := by
    intro u w
    show Function.update w.useCase owner u o = w.useCase o
    exact Function.update_of_ne ho u w.useCase
  apply Frames.bind Frames.get
  intro w
  dsimp only
  split
  · exact (hevents _ _).bind fun _ => (hset _).bind fun _ => Frames.pure _
  · apply Frames.ite
    · exact Frames.pure a
    · exact (hevents _ _).bind fun _ => (hset _).bind fun _ => Frames.pure _
  · exact Frames.pure a

/-- The row of a traced event carries its tracing. -/
theorem serialize_run {e : DomainEvent} {p : Tracer} (hp : e.tracer = some p) (w : World) :
    ∃ row, e.serialize env w = .ok (e, row) w ∧ row.traceId = p.traceId ∧
      row.spanId = p.spanId ∧ row.parentSpanId = p.parentSpanId := by
  have htracer : e.getTracer env w = .ok (e, p) w := by
    unfold DomainEvent.getTracer
    rw [hp]
    rfl
  exact ⟨_, bind_ok htracer rfl, rfl, rfl, rfl⟩

/-- Archiving reads the tracer of the last event, which is there. -/
theorem archiveIfRaised_events {a a' : YourAggregate} {model : YourAggregateModel} {w w' : World}
    (h : ∀ e ∈ a.domainEvents, ∃ p, e.tracer = some p)
    (hr : YourAggregateRepository.archiveIfRaised env a model w = .ok a' w') :
    a'.domainEvents = a.domainEvents := by
  unfold YourAggregateRepository.archiveIfRaised at hr
  by_cases hc : a.isArchive
  · rw [if_pos hc] at hr
    obtain ⟨archiveId, w₁, _, hr⟩ := bind_eq_ok hr
    dsimp only at hr
    cases hl : a.allEvents.getLast? with
    | none =>
      rw [hl] at hr
      obtain ⟨_, w₂, _, hr⟩ := bind_eq_ok hr
      cases hr
      rfl
    | some event =>
      rw [hl] at hr
      obtain ⟨p, hp⟩ := h event (List.mem_of_getLast? hl)
      obtain ⟨r, w₂, hget, hr⟩ := bind_eq_ok hr
      obtain ⟨_, w₃, _, hr⟩ := bind_eq_ok hr
      have hsame : r = (event, p) := by
        unfold DomainEvent.getTracer at hget
        rw [hp] at hget
        cases hget
        rfl
      cases hr
      rw [hsame]
      exact List.dropLast_append_getLast? event hl
  · rw [if_neg hc] at hr
    cases hr
    rfl

/-- The controller's `set_tracing`: the request's own trace id, or a fresh one. -/
theorem setTracing_run (traceId : Option String) (w : World) :
    ∃ t w', ControllerBase.setTracing env traceId w = .ok () w' ∧
      w'.useCase = Function.update w.useCase .controller ⟨none, some t⟩ ∧ t ≠ "" ∧
      (traceId.getD "" ≠ "" → t = traceId.getD "") := by
  unfold ControllerBase.setTracing
  dsimp only
  by_cases h : traceId.getD "" = ""
  · rw [if_pos h]
    exact ⟨_, _, rfl, rfl, env.uuid4_ne .trace _, fun hne => absurd h hne⟩
  · rw [if_neg h]
    exact ⟨_, _, rfl, rfl, h, fun _ => rfl⟩

end

end DddService
