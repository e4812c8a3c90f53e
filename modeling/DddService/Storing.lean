import DddService.Concurrent
import DddService.Tracing
import DddService.Refinement
import DddService.Session

/- What one save stores. Code that neither stores an event nor tells anybody of one is
   `Steady`. A save attaches what is pending in its use case to the event of the
   aggregate (`Attached`): under a parent event, the parent's span and trace id; with a
   trace id, that; with neither, the event starts a trace of its own when its tracer is
   first read. However the tracer comes about, its span id is new (`NewSpan`). -/
namespace DddService
open Hoare

/-! ## What stays as it is -/

/-- The event rows, once what is pending is flushed. -/
def AsyncSession.events (s : AsyncSession) : List DomainEventModel := s.flushed.view.domainEvent

/-- The aggregates' rows, once what is pending is flushed. -/
def AsyncSession.rows (s : AsyncSession) : String → Option YourAggregateModel :=
  s.flushed.view.yourAggregate

/-- Nothing was stored or traced. Span ids may have been drawn. -/
structure StoresNothing (w w' : World) : Prop where
  db : w'.db = w.db
  useCase : w'.useCase = w.useCase
  count : w'.provider.sessionCount = w.provider.sessionCount
  session : ∀ s, w.provider.session = some s → ∃ s', w'.provider.session = some s' ∧
    s'.active = s.active ∧ s'.events = s.events ∧ s'.rows = s.rows
  spans : w.drawn .span ≤ w'.drawn .span
  sent : w'.sent = w.sent

/-- Nor was anybody told anything. -/
structure Steady (w w' : World) : Prop extends StoresNothing w w' where
  messages : w'.messages = w.messages
  traceId : w'.traceId = w.traceId

theorem Steady.of_same {w w' : World} (hdb : w'.db = w.db) (huse : w'.useCase = w.useCase)
    (hprovider : w'.provider = w.provider) (hspans : w.drawn .span ≤ w'.drawn .span)
    (hmessages : w'.messages = w.messages) (htrace : w'.traceId = w.traceId)
    (hsent : w'.sent = w.sent) : Steady w w' := by
  refine ⟨⟨hdb, huse, by rw [hprovider], fun s hs => ?_, hspans, hsent⟩, hmessages, htrace⟩
  exact ⟨s, hprovider ▸ hs, rfl, rfl, rfl⟩

theorem Steady.refl (w : World) : Steady w w :=
  Steady.of_same rfl rfl rfl (Nat.le_refl _) rfl rfl rfl

theorem StoresNothing.trans {w w' w'' : World} (h : StoresNothing w w')
    (h' : StoresNothing w' w'') : StoresNothing w w'' where
  db := h'.db.trans h.db
  useCase := h'.useCase.trans h.useCase
  count := h'.count.trans h.count
  session := by
    intro s hs
    obtain ⟨s', hs', ha, he, hr⟩ := h.session s hs
    obtain ⟨s'', hs'', ha', he', hr'⟩ := h'.session s' hs'
    exact ⟨s'', hs'', ha'.trans ha, he'.trans he, hr'.trans hr⟩
  spans := Nat.le_trans h.spans h'.spans
  sent := h'.sent.trans h.sent

theorem Steady.trans {w w' w'' : World} (h : Steady w w') (h' : Steady w' w'') : Steady w w'' :=
  ⟨h.toStoresNothing.trans h'.toStoresNothing, h'.messages.trans h.messages,
    h'.traceId.trans h.traceId⟩

instance : IsPreorder World StoresNothing where
  refl w := (Steady.refl w).toStoresNothing
  trans _ _ _ := StoresNothing.trans

instance : IsPreorder World Steady where
  refl := Steady.refl
  trans _ _ _ := Steady.trans

theorem Steady.advance (w : World) : Steady w w.advance :=
  Steady.of_same rfl rfl rfl (Nat.le_refl _) rfl rfl rfl

theorem Steady.setUseCase {w w' : World} (h : Steady w w') (owner : Owner) (u : UseCaseBase) :
    Steady (w.setUseCase owner u) (w'.setUseCase owner u) := by
  refine ⟨⟨h.db, ?_, h.count, h.session, h.spans, h.sent⟩, h.messages, h.traceId⟩
  show Function.update w'.useCase owner u = Function.update w.useCase owner u
  rw [h.useCase]

theorem flushed_enqueued (s : AsyncSession) (p : Pending) :
    ({ s with pending := s.pending ++ [p] } : AsyncSession).flushed.view =
      s.flushed.view.write s.now p := by
  show s.view.writeAll s.now (s.pending ++ [p]) = _
  unfold Database.writeAll
  rw [List.foldl_append]
  rfl

theorem Steady.enqueued {w : World} {s : AsyncSession} (h : w.provider.session = some s)
    (model : YourAggregateArchiveModel) : Steady w (w.enqueued s (.addArchive model)) := by
  refine ⟨⟨rfl, rfl, rfl, fun s' hs' => ?_, Nat.le_refl _, rfl⟩, rfl, rfl⟩
  rw [h] at hs'
  rw [← Option.some.inj hs']
  refine ⟨_, rfl, rfl, ?_, ?_⟩
  · unfold AsyncSession.events
    rw [flushed_enqueued]
    rfl
  · unfold AsyncSession.rows
    rw [flushed_enqueued]
    rfl

namespace Steady
variable {α : Type} (env : Env)

theorem awaitPoint : Moves Steady awaitPoint := by
  intro w
  rw [awaitPoint_run]
  cases w.nextFault <;> exact Steady.advance w

theorem datetimeNow : Moves Steady datetimeNow :=
  fun _ => Steady.of_same rfl rfl rfl (Nat.le_refl _) rfl rfl rfl

theorem uuid4 (kind : UuidKind) : Moves Steady (uuid4 env kind) := by
  intro w
  refine Steady.of_same rfl rfl rfl ?_ rfl rfl rfl
  show w.drawn .span ≤ Function.update w.drawn kind (w.drawn kind + 1) .span
  by_cases hk : kind = .span
  · rw [hk, Function.update_self]
    exact Nat.le_succ _
  · rw [Function.update_of_ne (Ne.symm hk)]

theorem ofExcept (r : Except Exc α) : Moves Steady (M.ofExcept r) := by
  cases r with
  | ok a => exact Moves.pure a
  | error e => exact Moves.throw e

theorem currentSession : Moves Steady currentSession := by
  refine Moves.bind Moves.get fun w => ?_
  cases w.provider.session with
  | none => exact Moves.throw _
  | some s => exact Moves.pure s

theorem sessionGet (pkey : String) : Moves Steady (AsyncSession.get pkey) := by
  refine Moves.bind currentSession fun s => Moves.ite (Moves.throw _) ?_
  exact Moves.bind awaitPoint fun _ => Moves.pure _

theorem loadYourAggregate (pkey : String) (lock : Bool) :
    Moves Steady (YourAggregateRepository.loadYourAggregate env pkey lock) := by
  refine Moves.bind (R := Steady) ?_ fun model => ?_
  · exact (sessionGet pkey).tryCatch fun e => Moves.ite (Moves.pure _) (Moves.throw e)
  · cases model with
    | none => exact Moves.throw _
    | some model => exact ofExcept _

end Steady

/-! ## What a save attaches -/

/-- Not both a parent event and a trace id are pending. -/
def UseCaseBase.Single (u : UseCaseBase) : Prop := u.parentEvent = none ∨ u.traceId = none

/-- What the use case's pending `u` makes of an event's tracer. -/
def Attached (u : UseCaseBase) (p : Tracer) : Prop :=
  match u.parentEvent, u.traceId with
  | some parent, _ => ∃ q, parent.tracer = some q ∧ p.parentSpanId = some q.spanId ∧
      p.traceId = q.traceId
  | none, some t => p.parentSpanId = none ∧ p.traceId = t
  | none, none => p.parentSpanId = none ∧ p.traceId = p.spanId

/-- The span ids of the rows were drawn, from number `start` on. -/
def SpansDrawn (env : Env) (start : Nat) (w : World) (rows : List DomainEventModel) : Prop :=
  ∀ row ∈ rows, ∃ k, start ≤ k ∧ k < w.drawn .span ∧ row.spanId = env.uuid4 .span k

/-- The tracer has a span id drawn from number `start` on, which none of the rows has. -/
structure NewSpan (env : Env) (start : Nat) (rows : List DomainEventModel) (w : World)
    (p : Tracer) : Prop where
  drawn : ∃ k, start ≤ k ∧ k < w.drawn .span ∧ p.spanId = env.uuid4 .span k
  fresh : p.spanId ∉ rows.map DomainEventModel.spanId

/-- The event is traced as `u` says, or will be so when its tracer is first read. -/
def Traceable (env : Env) (start : Nat) (rows : List DomainEventModel) (u : UseCaseBase) (w : World)
    (e : DomainEvent) : Prop :=
  match e.tracer with
  | some p => NewSpan env start rows w p ∧ Attached u p
  | none => u = ⟨none, none⟩

section
variable {env : Env} {start : Nat} {rows : List DomainEventModel} {u : UseCaseBase} {w w' : World}
  {e : DomainEvent} {p : Tracer}

theorem SpansDrawn.mono (h : SpansDrawn env start w rows) (hle : w.drawn .span ≤ w'.drawn .span) :
    SpansDrawn env start w' rows := by
  intro row hrow
  obtain ⟨k, hstart, hk, hspan⟩ := h row hrow
  exact ⟨k, hstart, Nat.lt_of_lt_of_le hk hle, hspan⟩

theorem NewSpan.mono (h : NewSpan env start rows w p) (hle : w.drawn .span ≤ w'.drawn .span) :
    NewSpan env start rows w' p := by
  obtain ⟨k, hstart, hk, hspan⟩ := h.drawn
  exact ⟨⟨k, hstart, Nat.lt_of_lt_of_le hk hle, hspan⟩, h.fresh⟩

theorem Traceable.mono (h : Traceable env start rows u w e)
    (hle : w.drawn .span ≤ w'.drawn .span) : Traceable env start rows u w' e := by
  unfold Traceable at h ⊢
  cases hp : e.tracer with
  | none => rw [hp] at h; exact h
  | some p => rw [hp] at h; exact ⟨h.1.mono hle, h.2⟩

/-- The tracer of an event that has none is created when it is read. -/
theorem getTracer_new (he : e.tracer = none) (hstart : start ≤ w.drawn .span)
    (hrows : SpansDrawn env start w rows) :
    ∃ p w', e.getTracer env w = .ok ({ e with tracer := some p }, p) w' ∧ Steady w w' ∧
      NewSpan env start rows w' p ∧ p.parentSpanId = none ∧ p.traceId = p.spanId := by
  let p : Tracer := ⟨w.clock, env.uuid4 .span (w.drawn .span), none,
    env.uuid4 .span (w.drawn .span)⟩
  let w' : World := { w with
    clock := w.clock + 1, drawn := Function.update w.drawn .span (w.drawn .span + 1) }
  have hrun : e.getTracer env w = .ok ({ e with tracer := some p }, p) w' := by
    unfold DomainEvent.getTracer
    rw [he]
    rfl
  have hdrawn : w'.drawn .span = w.drawn .span + 1 :=
    Function.update_self UuidKind.span (w.drawn .span + 1) w.drawn
  refine ⟨p, w', hrun, ?_, ⟨⟨w.drawn .span, hstart, by omega, rfl⟩, fun hmem => ?_⟩, rfl, rfl⟩
  · exact Steady.of_same rfl rfl rfl (by omega) rfl rfl rfl
  · obtain ⟨row, hrow, heq⟩ := List.mem_map.mp hmem
    obtain ⟨k, _, hk, hspan⟩ := hrows row hrow
    have hsame := (env.uuid4_inj (hspan.symm.trans heq)).2
    omega

theorem getTracer_traceable (he : Traceable env start rows u w e) (hstart : start ≤ w.drawn .span)
    (hrows : SpansDrawn env start w rows) :
    ∃ p w', e.getTracer env w = .ok ({ e with tracer := some p }, p) w' ∧ Steady w w' ∧
      NewSpan env start rows w' p ∧ Attached u p := by
  cases hp : e.tracer with
  | none =>
    obtain ⟨p, w', hrun, hs, hnew, hparent, htrace⟩ := getTracer_new hp hstart hrows
    have hu : u = ⟨none, none⟩ := by
      unfold Traceable at he
      rw [hp] at he
      exact he
    refine ⟨p, w', hrun, hs, hnew, ?_⟩
    rw [hu]
    exact ⟨hparent, htrace⟩
  | some p =>
    unfold Traceable at he
    rw [hp] at he
    refine ⟨p, w, ?_, Steady.refl w, he⟩
    unfold DomainEvent.getTracer
    rw [hp]
    obtain ⟨body, tracer⟩ := e
    cases hp
    rfl

/-- A save takes what is pending in its use case and attaches it to the event. -/
theorem saveTracing_traceable {owner : Owner} (hu : w.useCase owner = u) (hsingle : u.Single)
    (hparent : ∀ parent, u.parentEvent = some parent → ∃ q, parent.tracer = some q)
    (htrace : u.traceId ≠ some "") (hstart : start ≤ w.drawn .span)
    (hrows : SpansDrawn env start w rows) {a : YourAggregate} {b : EventBody}
    (ha : a.domainEvents = [⟨b, none⟩]) :
    ∃ e w', UseCaseBase.saveTracing env owner a w = .ok { a with domainEvents := [e] } w' ∧
      e.body = b ∧ Steady (w.setUseCase owner ⟨none, none⟩) w' ∧
      Traceable env start rows u w' e := by
  obtain ⟨p, w₁, hget, hs, hnew, hpp, hpt⟩ :=
    getTracer_new (e := ⟨b, none⟩) rfl hstart hrows
  unfold UseCaseBase.saveTracing
  obtain ⟨parentEvent, traceId⟩ := u
  cases parentEvent with
  | some parent =>
    -- a child of the event that is handled
    obtain ⟨q, hq⟩ := hparent parent rfl
    have htraceId : traceId = none := hsingle.resolve_left (Option.some_ne_none parent)
    -- the parent's tracer is there to be read
    have hgetq : parent.getTracer env w = .ok (parent, q) w := by
      unfold DomainEvent.getTracer
      rw [hq]
      rfl
    have hevents : a.saveEventsTracing env (some parent) none w = .ok { a with domainEvents :=
        [⟨b, some { p with parentSpanId := some q.spanId, traceId := q.traceId }⟩] } w₁ := by
      unfold YourAggregate.saveEventsTracing
      rw [ha]
      exact bind_ok (bind_ok hgetq (bind_ok hget (bind_ok rfl rfl))) rfl
    refine ⟨⟨b, some { p with parentSpanId := some q.spanId, traceId := q.traceId }⟩,
      w₁.setUseCase owner ⟨none, none⟩, bind_ok (get_run w) ?_, rfl, hs.setUseCase owner _,
      ⟨hnew.drawn, hnew.fresh⟩, q, hq, rfl, rfl⟩
    rw [hu, htraceId]
    exact bind_ok hevents rfl
  | none =>
    cases traceId with
    | some t =>
      -- the first event of the call, which takes the call's trace id
      have ht : ¬t = "" := fun h => htrace (congrArg some h)
      have hevents : a.saveEventsTracing env none (some t) w = .ok { a with domainEvents :=
          [⟨b, some { p with traceId := t }⟩] } w₁ := by
        unfold YourAggregate.saveEventsTracing
        rw [ha]
        refine run_ite_neg ht (bind_ok ?_ rfl)
        unfold AggregateRoot.traceAs
        rw [List.mapM_cons]
        exact bind_ok (bind_ok hget rfl) rfl
      refine ⟨⟨b, some { p with traceId := t }⟩, w₁.setUseCase owner ⟨none, none⟩,
        bind_ok (get_run w) ?_, rfl, hs.setUseCase owner _, ⟨hnew.drawn, hnew.fresh⟩, hpp, rfl⟩
      rw [hu]
      exact run_ite_neg ht (bind_ok hevents rfl)
    | none =>
      -- the event stays as it was raised, and draws a tracer when it is first read
      have hsame : w.setUseCase owner ⟨none, none⟩ = w := by
        unfold World.setUseCase
        rw [← hu, Function.update_eq_self]
      refine ⟨⟨b, none⟩, w, bind_ok (get_run w) ?_, rfl, ?_, rfl⟩
      · rw [hu, ← ha]
        rfl
      · rw [hsame]
        exact Steady.refl w

theorem archiveIfRaised_traceable {a : YourAggregate} (ha : a.domainEvents = [e])
    (he : Traceable env start rows u w e) (hstart : start ≤ w.drawn .span)
    (hrows : SpansDrawn env start w rows) {x : AsyncSession} (hx : w.provider.session = some x)
    (model : YourAggregateModel) :
    ∃ e' w', YourAggregateRepository.archiveIfRaised env a model w =
        .ok { a with domainEvents := [e'] } w' ∧ e'.body = e.body ∧ Steady w w' ∧
      Traceable env start rows u w' e' := by
  unfold YourAggregateRepository.archiveIfRaised
  by_cases hc : a.isArchive
  · -- the archive row's id is drawn first
    let w₁ : World := { w with
      drawn := Function.update w.drawn .archive (w.drawn .archive + 1) }
    have hdraw : uuid4 env .archive w = .ok (env.uuid4 .archive (w.drawn .archive)) w₁ := rfl
    have hs₁ : Steady w w₁ := by
      have h := Steady.uuid4 env .archive w
      rw [hdraw] at h
      exact h
    obtain ⟨p, w₂, hget, hs₂, hnew, hatt⟩ := getTracer_traceable
      (he.mono hs₁.spans) (Nat.le_trans hstart hs₁.spans)
      (hrows.mono hs₁.spans)
    obtain ⟨x₂, hx₂, _⟩ := (hs₁.trans hs₂).session x hx
    let model' : YourAggregateArchiveModel := { model with
      archiveId := env.uuid4 .archive (w.drawn .archive)
      doer := some (env.mixin.serializeUser e.body.doer)
      eventName := some e.body.name, eventSpanId := some p.spanId, eventTraceId := some p.traceId }
    have hs₃ := Steady.enqueued hx₂ model'
    -- the archive row reads the tracer, so the event has one from now on
    refine ⟨{ e with tracer := some p }, w₂.enqueued x₂ (.addArchive model'), ?_, rfl,
      (hs₁.trans hs₂).trans hs₃, hnew.mono hs₃.spans, hatt⟩
    rw [if_pos hc]
    refine bind_ok hdraw ?_
    rw [YourAggregate.allEvents, ha]
    exact bind_ok hget (bind_ok (enqueue_run hx₂ _) rfl)
  · refine ⟨e, w, ?_, rfl, Steady.refl w, he⟩
    rw [if_neg hc, ← ha]
    rfl

theorem serialize_traceable (he : Traceable env start rows u w e) (hstart : start ≤ w.drawn .span)
    (hrows : SpansDrawn env start w rows) :
    ∃ p w', e.serialize env w = .ok (⟨e.body, some p⟩, eventRow p e.body) w' ∧ Steady w w' ∧
      NewSpan env start rows w' p ∧ Attached u p := by
  obtain ⟨p, w', hget, hs, hnew, hatt⟩ := getTracer_traceable he hstart hrows
  exact ⟨p, w', bind_ok hget rfl, hs, hnew, hatt⟩

end

/-! ## What an operation raises -/

/-- The aggregate that was voided, if this says one was. -/
def EventBody.voidedId? : EventBody → Option String
  | .yourAggregateVoided id _ => some id
  | _ => none

/-- The operation that left `a` raised `b`, and nothing else was raised. -/
structure Raises (a : YourAggregate) (b : EventBody) : Prop where
  events : a.domainEvents = [⟨b, none⟩]
  voided : ∀ id, b.voidedId? = some id → a.id = id ∧ a.isDelete = false ∧ a.status = .voided

namespace Raises
variable {a a' : YourAggregate} {now : DateTime} {id : String} {v : YourValueObject} {doer : User}

theorem create (hr : YourAggregate.createYourAggregate now id v doer = .ok a) :
    Raises a (.yourAggregateCreated id v doer) := by
  rw [YourAggregate.createYourAggregate_eq] at hr
  rw [← Except.ok.inj hr]
  exact ⟨rfl, fun _ hid => nomatch hid⟩

theorem delete (ha : a.domainEvents = [])
    (hr : (YourAggregate.deleteYourAggregate doer).call a = .ok a') :
    Raises a' (.yourAggregateDeleted a.id doer) := by
  unfold YourAggregateM.call at hr
  rw [YourAggregate.deleteYourAggregate_run, ha] at hr
  rw [← Except.ok.inj hr]
  exact ⟨rfl, fun _ hid => nomatch hid⟩

theorem void (ha : a.domainEvents = []) (hd : a.isDelete = false)
    (hr : (YourAggregate.voidYourAggregate now doer).call a = .ok a') :
    Raises a' (.yourAggregateVoided a.id doer) := by
  unfold YourAggregateM.call at hr
  rw [YourAggregate.voidYourAggregate_run, ha] at hr
  by_cases hv : a.status = .voided
  · rw [if_pos hv] at hr
    cases hr
  · rw [if_neg hv] at hr
    rw [← Except.ok.inj hr]
    exact ⟨rfl, fun _ hid => ⟨Option.some.inj hid, hd, rfl⟩⟩

theorem update {mixin : DataclassMixin} (ha : a.domainEvents = [])
    (hr : (YourAggregate.updateYourAggregate mixin now v doer).call a = .ok a') :
    Raises a' (.yourAggregateUpdated a.id v doer) := by
  unfold YourAggregateM.call at hr
  rw [YourAggregate.updateYourAggregate_run, ha] at hr
  by_cases hv : a.status = .voided
  · rw [if_pos hv] at hr
    cases hr
  · rw [if_neg hv] at hr
    rw [← Except.ok.inj hr]
    exact ⟨rfl, fun _ hid => nomatch hid⟩

end Raises

/-! ## Rows and flushes -/

/-- The aggregate a row of a `YourAggregateVoided` is about. -/
def DomainEventModel.voidedId? (row : DomainEventModel) : Option String :=
  if row.name = "YourAggregateVoided" then (row.body.get? "your_aggregate_id").bind Json.asStr?
  else none

theorem eventRow_voidedId (p : Tracer) (b : EventBody) : (eventRow p b).voidedId? = b.voidedId? := by
  cases b <;> simp [DomainEventModel.voidedId?, eventRow, EventBody.name, EventBody.voidedId?,
    EventBody.asdict, Json.asStr?]

/-- If `b` says that an aggregate was voided, its row will say so too. -/
def RowSays (b : EventBody) (w : World) : Prop :=
  ∀ id, b.voidedId? = some id → ∃ x row, w.provider.session = some x ∧ x.rows id = some row ∧
    row.status = YourAggregateStatus.voided.value

section
variable {w w' : World} {x : AsyncSession}

theorem RowSays.steady {b : EventBody} (h : RowSays b w) (hs : StoresNothing w w') :
    RowSays b w' := by
  intro id hid
  obtain ⟨x, row, hx, hrow, hstatus⟩ := h id hid
  obtain ⟨x', hx', _, _, hrows⟩ := hs.session x hx
  exact ⟨x', row, hx', by rw [hrows, hrow], hstatus⟩

theorem flushed_of_nil (h : x.pending = []) : x.flushed = x := by
  obtain ⟨view, pending, active, now⟩ := x
  cases h
  rfl

/-- A flush that returns changes nothing that was not already decided. -/
theorem flush_steady (hx : w.provider.session = some x) (ha : x.active = true)
    (hr : AsyncSession.flush w = .ok () w') :
    Steady w w' ∧ w'.provider.session = some x.flushed := by
  by_cases hp : x.pending = []
  · rw [flush_nil hx hp] at hr
    cases hr
    exact ⟨Steady.refl w, by rw [hx, flushed_of_nil hp]⟩
  · cases hf : w.nextFault with
    | none =>
      rw [flush_ok hx hp ha hf] at hr
      cases hr
      refine ⟨⟨⟨rfl, rfl, rfl, fun s hs => ?_, Nat.le_refl _, rfl⟩, rfl, rfl⟩, rfl⟩
      rw [hx] at hs
      rw [← Option.some.inj hs]
      exact ⟨x.flushed, rfl, rfl, rfl, rfl⟩
    | some e =>
      rw [flush_error hx hp ha hf] at hr
      cases hr

theorem flush_raises (hx : w.provider.session = some x) {e : Exc}
    (hr : AsyncSession.flush w = .error e w') :
    w' = w ∨ w' = AsyncSession.deactivate x w.advance := by
  by_cases hp : x.pending = []
  · rw [flush_nil hx hp] at hr
    cases hr
  · cases ha : x.active with
    | false =>
      rw [flush_inactive hx hp ha] at hr
      cases hr
      exact Or.inl rfl
    | true =>
      cases hf : w.nextFault with
      | none =>
        rw [flush_ok hx hp ha hf] at hr
        cases hr
      | some e' =>
        rw [flush_error hx hp ha hf] at hr
        cases hr
        exact Or.inr rfl

theorem persist_enqueues {a : YourAggregate} {model : YourAggregateModel} {persistent : Bool}
    (hx : w.provider.session = some x) (hr : YourAggregateRepository.persist a model persistent w =
      .ok () w') : w' = w.enqueued x (if a.isDelete then .delete model.id else .add model) := by
  unfold YourAggregateRepository.persist at hr
  by_cases hd : a.isDelete = true
  · rw [if_pos hd] at hr ⊢
    cases persistent with
    | true =>
      rw [if_pos rfl, enqueue_run hx] at hr
      cases hr
      rfl
    | false => cases hr
  · rw [if_neg hd, enqueue_run hx] at hr
    rw [if_neg hd]
    cases hr
    rfl

theorem persist_raises {a : YourAggregate} {model : YourAggregateModel} {persistent : Bool}
    (hx : w.provider.session = some x) {e : Exc}
    (hr : YourAggregateRepository.persist a model persistent w = .error e w') : w' = w := by
  unfold YourAggregateRepository.persist at hr
  by_cases hd : a.isDelete = true
  · rw [if_pos hd] at hr
    cases persistent with
    | true => rw [if_pos rfl, enqueue_run hx] at hr; cases hr
    | false => cases hr; rfl
  · rw [if_neg hd, enqueue_run hx] at hr
    cases hr

end

/-! ## Telling of a voiding -/

/-- The message that tells of `items`. -/
def notification (t : String) (items : List Pushed) : QueueMessage Pushed :=
  QueueMessage.new t YourAggregateEventHandler.yourAggregateVoidedFunction (.list items)

/-- The buffer tells of the voided `ids`, in their order, and of nothing else. -/
inductive Told (ids : List String) (w : World) : Prop
  | nothing (hids : ids = []) (h : w.messages = .empty)
  | voided (t : String) (items : List Pushed) (ht : t ≠ "") (htrace : w.traceId = some t)
      (hids : items.map (·.payload.yourAggregateId) = ids) (hne : ids ≠ [])
      (h : w.messages = Buffer.place .empty YourAggregateEventHandler.yourAggregateService
        (Messages.mKey (notification t items)) (notification t items))

/-- If `b` says that an aggregate was voided, the handlers' session sees that it was. -/
def RowSeen (b : EventBody) (w : World) : Prop :=
  ∀ id, b.voidedId? = some id → ∃ x row, w.provider.session = some x ∧
    x.view.yourAggregate id = some row ∧ row.status = YourAggregateStatus.voided.value

section
variable {env : Env} {w w' : World} {ids : List String}

theorem Told.of_same (h : Told ids w) (hmessages : w'.messages = w.messages)
    (htrace : w'.traceId = w.traceId) : Told ids w' := by
  cases h with
  | nothing hids h => exact .nothing hids (hmessages.trans h)
  | voided t items ht ht' hids hne h =>
    exact .voided t items ht (htrace.trans ht') hids hne (hmessages.trans h)

/-- The context's trace id is drawn if it has none, and kept. -/
theorem getTraceId_run (env : Env) (w : World) :
    ∃ t w', getTraceId env w = .ok t w' ∧ t ≠ "" ∧ w'.traceId = some t ∧ StoresNothing w w' ∧
      w'.messages = w.messages ∧ ∀ t', w.traceId = some t' → t' ≠ "" → t = t' := by
  unfold getTraceId
  by_cases ht : w.traceId.getD "" = ""
  · let t := env.uuid4 .trace (w.drawn .trace)
    let w₁ : World := { w with drawn := Function.update w.drawn .trace (w.drawn .trace + 1) }
    have hdraw : uuid4 env .trace w = .ok t w₁ := rfl
    have hs : Steady w w₁ := by
      have h := Steady.uuid4 env .trace w
      rw [hdraw] at h
      exact h
    refine ⟨t, { w₁ with traceId := some t }, bind_ok (get_run w) (run_ite_pos ht (bind_ok hdraw
      rfl)), env.uuid4_ne _ _, rfl, ?_, rfl, ?_⟩
    · exact ⟨hs.db, hs.useCase, hs.count, hs.session, hs.spans, hs.sent⟩
    · intro t' ht' hne
      rw [ht'] at ht
      exact absurd ht hne
  · cases htrace : w.traceId with
    | none => rw [htrace] at ht; exact absurd rfl ht
    | some t =>
      rw [htrace] at ht
      refine ⟨t, w, bind_ok (get_run w) ?_, ht, htrace, (Steady.refl w).toStoresNothing, rfl,
        fun t' ht' _ => Option.some.inj ht'⟩
      rw [htrace]
      exact run_ite_neg ht rfl

/-- Another voiding is told of in the same message. -/
theorem Told.push (h : Told ids w) {t : String} (ht : t ≠ "") (htrace : w.traceId = some t)
    (x : Pushed) : ∃ ms, Messages.pushMessage YourAggregateEventHandler.yourAggregateService
        (notification t [x]) w.messages = .ok () ms ∧
      Told (ids ++ [x.payload.yourAggregateId]) { w with messages := ms } := by
  cases h with
  | nothing hids h =>
    refine ⟨Buffer.place .empty YourAggregateEventHandler.yourAggregateService
      (Messages.mKey (notification t [x])) (notification t [x]), ?_, ?_⟩
    · rw [Messages.pushMessage_run, h]
      rfl
    · exact .voided t [x] ht htrace (by rw [hids]; rfl) (by simp) rfl
  | voided t' items ht' htrace' hids hne h =>
    have hsame : t' = t := Option.some.inj (htrace'.symm.trans htrace)
    subst hsame
    -- the notification of before is pending under the same keys, since the trace id is the same
    have hpending : Buffer.pendingAt w.messages YourAggregateEventHandler.yourAggregateService
        (Messages.mKey (notification t' [x])) = some (notification t' items) := by
      rw [h, Buffer.pendingAt_place]
      exact if_pos ⟨rfl, rfl⟩
    have hmerge : QueueMessage.merge (some (notification t' items)) (notification t' [x]) =
        .ok (notification t' (items ++ [x])) := by
      simp [QueueMessage.merge, QueueMessage.iadd, QueueMessage.check, notification,
        QueueMessage.new]
    refine ⟨Buffer.place .empty YourAggregateEventHandler.yourAggregateService
      (Messages.mKey (notification t' (items ++ [x]))) (notification t' (items ++ [x])), ?_, ?_⟩
    · rw [Messages.pushMessage_run, hpending, hmerge, h]
      have htwice : ∀ k (m m' : QueueMessage Pushed), Buffer.place (Buffer.place .empty
          YourAggregateEventHandler.yourAggregateService k m)
          YourAggregateEventHandler.yourAggregateService k m' =
          Buffer.place .empty YourAggregateEventHandler.yourAggregateService k m' := by
        intro k m m'
        simp [Buffer.place, Dict.set_set]
      exact congrArg (EStateM.Result.ok ()) (htwice _ _ _)
    · refine .voided t' (items ++ [x]) ht htrace ?_ (by simp) rfl
      rw [List.map_append, hids]
      rfl

theorem handleYourAggregateVoided_stores (env : Env) (id : String) :
    Moves StoresNothing (YourAggregateEventHandler.handleYourAggregateVoided env id) := by
  have hload := (Steady.loadYourAggregate env id false).imp fun _ _ h => h.toStoresNothing
  have htrace : Moves StoresNothing (getTraceId env) := by
    intro w
    obtain ⟨t, w', hrun, _, _, hs, _⟩ := getTraceId_run env w
    rw [hrun]
    exact hs
  have hpush : ∀ rk m, Moves StoresNothing (RabbitMqPublisher.pushMessage rk m) := by
    intro rk m w
    unfold RabbitMqPublisher.pushMessage
    cases Messages.pushMessage rk m w.messages <;>
      exact ⟨rfl, rfl, rfl, fun s hs => ⟨s, hs, rfl, rfl, rfl⟩, Nat.le_refl _, rfl⟩
  refine Moves.bind hload fun a => Moves.ite ?_ (Moves.pure _)
  exact Moves.bind htrace fun _ => Moves.bind Moves.get fun _ => hpush _ _

/-- What is loaded is the row that the transaction sees. -/
theorem loadYourAggregate_returns {x : AsyncSession} (hx : w.provider.session = some x)
    {id : String} {lock : Bool} {a : YourAggregate}
    (hr : YourAggregateRepository.loadYourAggregate env id lock w = .ok a w') :
    ∃ model, x.view.yourAggregate id = some model ∧
      YourAggregateRepository.modelToEntity env model = .ok a := by
  obtain ⟨model, w₁, hget, hr⟩ := bind_eq_ok hr
  cases model with
  | none => cases hr
  | some model =>
    refine ⟨model, ?_, ?_⟩
    · rw [tryCatch_run] at hget
      cases hg : AsyncSession.get id w with
      | error e w₂ =>
        rw [hg] at hget
        dsimp only at hget
        by_cases he : e.isException = true
        · rw [if_pos he] at hget; cases hget
        · rw [if_neg he] at hget; cases hget
      | ok model' w₂ =>
        rw [hg] at hget
        cases hget
        obtain ⟨s, w₃, hs, hg⟩ := bind_eq_ok hg
        rw [currentSession_run hx] at hs
        cases hs
        by_cases ha : x.active = false
        · rw [if_pos ha] at hg; cases hg
        · rw [if_neg ha] at hg
          obtain ⟨_, w₄, _, hg⟩ := bind_eq_ok hg
          exact (EStateM.Result.ok.inj hg).1
    · dsimp only at hr
      cases hm : YourAggregateRepository.modelToEntity env model with
      | error e => rw [hm] at hr; cases hr
      | ok a' => rw [hm] at hr; cases hr; rfl

/-- The handler finds the aggregate voided, and tells of it. -/
theorem handleYourAggregateVoided_told {b : EventBody} {id : String} (hb : b.voidedId? = some id)
    (hrow : RowSeen b w) (ht : Told ids w)
    (hr : YourAggregateEventHandler.handleYourAggregateVoided env id w = .ok () w') :
    Told (ids ++ [id]) w' := by
  obtain ⟨x, row, hx, hseen, hstatus⟩ := hrow id hb
  obtain ⟨a, w₁, hload, hr⟩ := bind_eq_ok hr
  obtain ⟨model, hmodel, hentity⟩ := loadYourAggregate_returns hx hload
  have hsteady := Steady.loadYourAggregate env id false w
  rw [hload] at hsteady
  have ht₁ : Told ids w₁ := ht.of_same hsteady.messages hsteady.traceId
  have hvoided : a.status = .voided := by
    have hsame : row = model := Option.some.inj (hseen.symm.trans hmodel)
    obtain ⟨v, st, hs, c, t, hval, _, rfl⟩ := modelToEntity_cases hentity
    rw [← hsame, hstatus, YourAggregateStatus.ofValue_value] at hval
    exact (Except.ok.inj hval).symm
  rw [if_pos hvoided] at hr
  obtain ⟨t, w₂, hget, hr⟩ := bind_eq_ok hr
  obtain ⟨t', w₂', hget', hne, htrace, _, hmessages, hkept⟩ := getTraceId_run env w₁
  rw [hget'] at hget
  cases hget
  obtain ⟨w₃, w₃', hread, hr⟩ := bind_eq_ok hr
  cases hread
  -- the buffer still is as the load left it
  have ht₂ : Told ids w₂ := by
    cases ht₁ with
    | nothing hids h => exact .nothing hids (hmessages.trans h)
    | voided t₀ items ht₀ htrace₀ hids hne₀ h =>
      have hsame := hkept t₀ htrace₀ ht₀
      subst hsame
      exact .voided t items ht₀ htrace hids hne₀ (hmessages.trans h)
  obtain ⟨ms, hpush, htold⟩ := ht₂.push hne htrace ⟨⟨id⟩, w₂.tx, w₂.pushed.length⟩
  unfold RabbitMqPublisher.pushMessage at hr
  have hpush' : Messages.pushMessage YourAggregateEventHandler.yourAggregateService
      (QueueMessage.new t YourAggregateEventHandler.yourAggregateVoidedFunction
        (.list [⟨⟨id⟩, w₂.tx, w₂.pushed.length⟩])) w₂.messages = .ok () ms := hpush
  rw [hpush'] at hr
  cases hr
  exact htold.of_same rfl rfl

end

end DddService
