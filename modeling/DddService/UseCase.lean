import DddService.Repository
import DddService.Publisher

/- The use case, the event bus and the event handlers, which call each other: a
   save publishes the events it stored, and a handler of an event may save. A
   bus is what publishing an event runs; `eventBus` ties the knot. -/
namespace DddService

/-- What publishing one event runs. -/
abbrev Bus := DomainEvent → M Unit

/-- `EventBus.publish_all` -/
def publishAll (bus : Bus) (events : List DomainEvent) : M Unit := events.forM bus

def World.setUseCase (w : World) (owner : Owner) (u : UseCaseBase) : World :=
  { w with useCase := Function.update w.useCase owner u }

namespace UseCaseBase
variable (env : Env)

/-- `_save_tracing`: attaches the pending parent or trace id, and clears it. -/
def saveTracing (owner : Owner) (a : YourAggregate) : M YourAggregate := do
  let u := (← get).useCase owner
  match u.parentEvent, u.traceId with
  | some parent, _ => do
    let a ← a.saveEventsTracing env (some parent) none
    modify fun w => w.setUseCase owner { u with parentEvent := none }
    pure a
  | none, some t =>
    if t = "" then pure a
    else do
      let a ← a.saveEventsTracing env none (some t)
      modify fun w => w.setUseCase owner { u with traceId := none }
      pure a
  | none, none => pure a

end UseCaseBase

namespace YourAggregateUseCase
variable (env : Env) (bus : Bus) (owner : Owner)

/-- `_save` -/
def save (a : YourAggregate) : M Unit := do
  let a ← UseCaseBase.saveTracing env owner a
  let a ← YourAggregateRepository.saveYourAggregate env a
  publishAll bus a.allEvents

def createYourAggregate (yourValueObject : YourValueObject) (creator : User) : M String := do
  let id ← uuid4 env .aggregate
  let now ← datetimeNow
  let a ← M.ofExcept (YourAggregate.createYourAggregate now id yourValueObject creator)
  save env bus owner a
  pure a.id

def deleteYourAggregate (yourAggregateId : String) (doer : User) : M Unit := do
  let a ← YourAggregateRepository.loadYourAggregate env yourAggregateId true
  let a ← M.ofExcept ((YourAggregate.deleteYourAggregate doer).call a)
  save env bus owner a

def voidYourAggregate (yourAggregateId : String) (doer : User) : M Unit := do
  let a ← YourAggregateRepository.loadYourAggregate env yourAggregateId true
  let now ← datetimeNow
  let a ← M.ofExcept ((YourAggregate.voidYourAggregate now doer).call a)
  save env bus owner a

def updateYourAggregate (yourAggregateId : String) (yourValueObject : YourValueObject)
    (doer : User) : M Unit := do
  let a ← YourAggregateRepository.loadYourAggregate env yourAggregateId true
  let now ← datetimeNow
  let a ← M.ofExcept ((YourAggregate.updateYourAggregate env.mixin now yourValueObject doer).call a)
  save env bus owner a

end YourAggregateUseCase

namespace EventHandlerHelper

/-- `set_tracing` -/
def setTracing (event : DomainEvent) : M Unit :=
  modify fun w => w.setUseCase .eventHandler ((w.useCase .eventHandler).setParentEvent event)

/-- `connect_db_session` -/
def connectDbSession (func : DomainEvent → M Unit) (event : DomainEvent) : M Unit :=
  SessionProvider.withSession <|
    tryCatch
      (do setTracing event
          func event
          AsyncSession.flush)
      (fun e => do
        if e.isException then AsyncSession.rollback
        throw e)

end EventHandlerHelper

namespace YourAggregateEventHandler
variable (env : Env) (bus : Bus)

/-- `YourAggregateServiceFuntion.YOUR_AGGREGATE_VOIDED` -/
def yourAggregateVoidedFunction : FunctionName :=
  .enum "YourAggregateServiceFuntion" "YOUR_AGGREGATE_VOIDED" "your_aggregate_voided"

/-- `RoutingKey.YOUR_AGGREGATE_SERVICE.value` -/
def yourAggregateService : String := "your-aggregate-service"

def handleYourAggregateCreated (id : String) (yourValueObject : YourValueObject) (doer : User) :
    M Unit :=
  YourAggregateUseCase.updateYourAggregate env bus .eventHandler id
    ⟨yourValueObject.propertyA ++ "_test_event_handler", yourValueObject.propertyB⟩ doer

def handleYourAggregateVoided (id : String) : M Unit := do
  let a ← YourAggregateRepository.loadYourAggregate env id false
  if a.status = .voided then do
    let traceId ← getTraceId env
    let w ← get
    RabbitMqPublisher.pushMessage yourAggregateService
      (QueueMessage.new traceId yourAggregateVoidedFunction
        (.list [⟨⟨id⟩, w.tx, w.pushed.length⟩]))

/-- The functions subscribed to the event's type, each in its session scope. -/
def handlers (event : DomainEvent) : List (DomainEvent → M Unit) :=
  match event.body with
  | .yourAggregateCreated id v d => [fun _ => handleYourAggregateCreated env bus id v d]
  | .yourAggregateVoided id _ => [fun _ => handleYourAggregateVoided env id]
  | .yourAggregateDeleted .. | .yourAggregateUpdated .. => []

end YourAggregateEventHandler

/-- `EventBus.publish`, with handlers nested at most `depth` deep; deeper Python
    raises `RecursionError`. -/
def publish (env : Env) : (depth : Nat) → Bus
  | 0, _ => throw .recursionError
  | depth + 1, event =>
    (YourAggregateEventHandler.handlers env (publish env depth) event).forM fun func =>
      EventHandlerHelper.connectDbSession func event

def recursionLimit : Nat := 1000

/-- The event bus the use cases publish to. -/
def eventBus (env : Env) : Bus := publish env recursionLimit

end DddService
