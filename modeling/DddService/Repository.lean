import DddService.World

/- `YourAggregateRepository` over the session: loading an aggregate, and saving
   one with its archive row and its events in one flush. An event's tracer is
   created when it is first read, so what reads it returns the event again. -/
namespace DddService

/-- Raises the error a pure step ends with. -/
def M.ofExcept {α : Type} : Except Exc α → M α
  | .ok a => pure a
  | .error e => throw e

namespace DomainEvent
variable (env : Env)

/-- The cached property `tracer`. -/
def getTracer (e : DomainEvent) : M (DomainEvent × Tracer) :=
  match e.tracer with
  | some t => pure (e, t)
  | none => do
    let createdAt ← datetimeNow
    let spanId ← uuid4 env .span
    let t : Tracer := { createdAt, spanId, parentSpanId := none, traceId := spanId }
    pure ({ e with tracer := some t }, t)

/-- `DomainEventModel(**event.serialize())` -/
def serialize (e : DomainEvent) : M (DomainEvent × DomainEventModel) := do
  let (e, t) ← e.getTracer env
  pure (e, { name := e.body.name, body := e.body.asdict, version := VERSION,
             createdAt := t.createdAt, spanId := t.spanId, parentSpanId := t.parentSpanId,
             traceId := t.traceId })

end DomainEvent

namespace AggregateRoot
variable (env : Env)

/-- The loop of `save_events_tracing` under a parent event. -/
def traceUnder : DomainEvent → List DomainEvent → M (List DomainEvent)
  | _, [] => pure []
  | parent, e :: es => do
    let (parent, p) ← parent.getTracer env
    let (e, t) ← e.getTracer env
    let es ← traceUnder parent es
    pure ({ e with tracer := some { t with parentSpanId := some p.spanId, traceId := p.traceId } } :: es)

/-- The loop of `save_events_tracing` with a trace id. -/
def traceAs (traceId : String) (events : List DomainEvent) : M (List DomainEvent) :=
  events.mapM fun e => do
    let (e, t) ← e.getTracer env
    pure { e with tracer := some { t with traceId } }

end AggregateRoot

namespace YourAggregate
variable (env : Env)

def saveEventsTracing (a : YourAggregate) (parentEvent : Option DomainEvent)
    (traceId : Option String) : M YourAggregate :=
  match parentEvent, traceId with
  | some parent, _ => do
    let events ← AggregateRoot.traceUnder env parent a.domainEvents
    pure { a with domainEvents := events }
  | none, some t =>
    if t = "" then pure a
    else do
      let events ← AggregateRoot.traceAs env t a.domainEvents
      pure { a with domainEvents := events }
  | none, none => pure a

end YourAggregate

namespace YourAggregateRepository
variable (env : Env)

def entityName : String := "Your Aggregate"

def modelToEntity (model : YourAggregateModel) : Except Exc YourAggregate := do
  let yourValueObject ← env.mixin.createValueObject model.yourValueObject
  let status ← YourAggregateStatus.ofValue model.status
  let operationHistories ← model.operationHistories.mapM env.mixin.createHistory
  let creator ← env.mixin.createUser model.creator
  match model.createdAt with
  | none => .error (.attributeError "'NoneType' object has no attribute 'timestamp'")
  | some t => pure (YourAggregate.mk' model.id yourValueObject status operationHistories creator
      (some t) model.updatedAt)

/-- `_get_model` -/
def getModel (pkey : String) : M (Option YourAggregateModel) := AsyncSession.get pkey

/-- `_load`. Whatever `Exception` the read raises counts as no row. A lock only
    matters to other transactions. -/
def loadYourAggregate (pkey : String) (_lock : Bool) : M YourAggregate := do
  let model ← tryCatch (AsyncSession.get pkey)
    (fun e => if e.isException then pure none else throw e)
  match model with
  | none => throw (.noResultFound (entityName ++ " " ++ pkey ++ " not found"))
  | some model => M.ofExcept (modelToEntity env model)

/-- `_archive`: copies the attributes that are set on `model`. It reads the
    tracer of the last event. -/
def archive (a : YourAggregate) (model : YourAggregateModel) : M YourAggregate := do
  let archiveId ← uuid4 env .archive
  match a.allEvents.getLast? with
  | none => do
    AsyncSession.enqueue (.addArchive { model with
      archiveId, doer := none, eventName := none, eventSpanId := none, eventTraceId := none })
    pure a
  | some event => do
    let (event, t) ← event.getTracer env
    AsyncSession.enqueue (.addArchive { model with
      archiveId, doer := some (env.mixin.serializeUser event.body.doer)
      eventName := some event.body.name, eventSpanId := some t.spanId
      eventTraceId := some t.traceId })
    pure { a with domainEvents := a.domainEvents.dropLast ++ [event] }

/-- `for event in aggregate.all_events: session.add(DomainEventModel(..))` -/
def addEvents : List DomainEvent → M (List DomainEvent)
  | [] => pure []
  | e :: es => do
    let (e, row) ← e.serialize env
    AsyncSession.enqueue (.addEvent row)
    let es ← addEvents es
    pure (e :: es)

/-- `session.delete(model)` or `session.add(model)`. -/
def persist (a : YourAggregate) (model : YourAggregateModel) (persistent : Bool) : M Unit :=
  if a.isDelete then
    if persistent then AsyncSession.enqueue (.delete model.id)
    else throw (.invalidRequestError "Instance is not persisted")
  else AsyncSession.enqueue (.add model)

/-- `if aggregate.is_archive: self._archive(aggregate, model)` -/
def archiveIfRaised (a : YourAggregate) (model : YourAggregateModel) : M YourAggregate :=
  if a.isArchive then archive env a model else pure a

/-- `_save` -/
def save (a : YourAggregate) (model : YourAggregateModel) (persistent : Bool) :
    M YourAggregate := do
  persist a model persistent
  let a ← archiveIfRaised env a model
  let events ← addEvents env a.allEvents
  AsyncSession.flush
  pure { a with domainEvents := events }

/-- The row `save_your_aggregate` fills in: the one found, or a new one. -/
def modelOf (a : YourAggregate) (found : Option YourAggregateModel) : YourAggregateModel :=
  { id := a.id
    yourValueObject := env.mixin.serializeValueObject a.yourValueObject
    status := a.status.value
    operationHistories := a.operationHistories.map env.mixin.serializeHistory
    creator := match found with
      | none => env.mixin.serializeUser a.creator
      | some m => m.creator
    createdAt := found.bind (·.createdAt)
    updatedAt := found.bind (·.updatedAt) }

def saveYourAggregate (a : YourAggregate) : M YourAggregate := do
  let found ← getModel a.id
  save env a (modelOf env a found) found.isSome

end YourAggregateRepository

theorem modelToEntity_cases {env : Env} {model : YourAggregateModel} {a : YourAggregate}
    (h : YourAggregateRepository.modelToEntity env model = .ok a) :
    ∃ v s hs c t, YourAggregateStatus.ofValue model.status = .ok s ∧
      model.operationHistories.mapM env.mixin.createHistory = .ok hs ∧
      a = YourAggregate.mk' model.id v s hs c (some t) model.updatedAt := by
  unfold YourAggregateRepository.modelToEntity at h
  cases hv : env.mixin.createValueObject model.yourValueObject with
  | error e => rw [hv] at h; cases h
  | ok v =>
    cases hs : YourAggregateStatus.ofValue model.status with
    | error e => rw [hv, hs] at h; cases h
    | ok s =>
      cases hh : model.operationHistories.mapM env.mixin.createHistory with
      | error e => rw [hv, hs, hh] at h; cases h
      | ok hs' =>
        cases hc : env.mixin.createUser model.creator with
        | error e => rw [hv, hs, hh, hc] at h; cases h
        | ok c =>
          rw [hv, hs, hh, hc] at h
          cases ht : model.createdAt with
          | none => rw [ht] at h; cases h
          | some t => rw [ht] at h; cases h; exact ⟨v, s, hs', c, t, rfl, rfl, rfl⟩

/-- An entity read back is the row's, and nothing has happened to it. -/
theorem modelToEntity_ok {env : Env} {model : YourAggregateModel} {a : YourAggregate}
    (h : YourAggregateRepository.modelToEntity env model = .ok a) :
    a.id = model.id ∧ a.domainEvents = [] ∧
      model.operationHistories.mapM env.mixin.createHistory = .ok a.operationHistories := by
  obtain ⟨v, s, hs, c, t, _, hh, rfl⟩ := modelToEntity_cases h
  exact ⟨rfl, rfl, hh⟩

end DddService
