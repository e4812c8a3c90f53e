import DddService.Lib.Coroutine
import DddService.Controller

/- The service under an event loop. Requests are served by the same controller
   object, each in a context of its own, and take turns at their `await`s. The
   functions that await are here once more, as coroutines over a `Site`: the
   process, which all requests share, and the request. What does not await is used
   as it is (`onWorld`). `serve_alone` says that a request that runs alone does
   what the sequential controller does.

   Whenever a request is resumed its session may see another database: what other
   transactions committed in between is up to the environment.

   The request records its tracing: what `set_tracing` gave it, the event it is
   handling, the event rows it stored, and whether every save found its own tracing
   in the use case. The process records, for each use case, the request whose
   tracing was put there last and has not been taken (its window). -/
namespace DddService
open Coroutine

/-! ## Sites -/

/-- What a request has of its own: the context variables, and the records of its
    session and its publisher. -/
structure Context where
  provider : SessionProvider
  messages : Messages Pushed
  traceId : Option String
  tx : Nat
  journal : List (Nat × SessionAction)
  pushed : List Pushed

def Context.of (w : World) : Context :=
  ⟨w.provider, w.messages, w.traceId, w.tx, w.journal, w.pushed⟩

/-- The world with the context `c` entered. -/
def Context.enter (c : Context) (w : World) : World :=
  { w with
    provider := c.provider, messages := c.messages, traceId := c.traceId, tx := c.tx
    journal := c.journal, pushed := c.pushed }

/-- A new request's context. -/
def Context.new (traceId : Option String) : Context :=
  ⟨⟨none, 0⟩, .empty, traceId, 0, [], []⟩

/-- An event row a request stored, with the event it was handling then. -/
structure Stored where
  row : DomainEventModel
  handled : Option DomainEvent
  deriving DecidableEq

structure Request where
  context : Context
  trace : Option String
  handling : Option DomainEvent
  stored : List Stored
  undisturbed : Bool

/-- The tracing that a save of the request should find. -/
def Request.pending (r : Request) : UseCaseBase :=
  match r.handling with
  | none => ⟨none, r.trace⟩
  | some event => ⟨some event, none⟩

structure Process where
  world : World
  window : Owner → Option Nat

abbrev Site := Process × Request

/-- A piece of a request's code. -/
abbrev Task := Coro Site Exc

def Site.world (s : Site) : World := s.2.context.enter s.1.world

def Site.setWorld (w : World) (s : Site) : Site :=
  ({ s.1 with world := w }, { s.2 with context := Context.of w })

theorem Site.world_setWorld (w : World) (s : Site) : Site.world (s.setWorld w) = w := rfl

/-- Code that does not await. -/
def onWorld {α : Type} (x : M α) : Task α := Coro.lift Site.world Site.setWorld x

/-- An awaited call: others may run before it takes effect. -/
def awaiting {α : Type} (x : M α) : Task α := do
  Coro.suspend
  onWorld x

/-- A change of what the process and the request record. -/
abbrev record (f : Site → Site) : Task Unit := Coro.update f

/-! ## What a request records -/

namespace Site

/-- `set_tracing` of request `me` writes to the use case. -/
def openWindow (me : Nat) (owner : Owner) (s : Site) : Site :=
  ({ s.1 with window := Function.update s.1.window owner (some me) }, s.2)

/-- The trace id that `set_tracing` has put there. -/
def noteTrace (s : Site) : Site :=
  (s.1, { s.2 with trace := (s.1.world.useCase .controller).traceId })

/-- A save of request `me` takes the use case's tracing. It is the request's own if
    nobody touched it since, or if it is the same all the same. -/
def takeTracing (me : Nat) (owner : Owner) (s : Site) : Site :=
  let own : Bool := s.1.window owner = some me ∨ s.1.world.useCase owner = s.2.pending
  ({ s.1 with window := Function.update s.1.window owner none },
    { s.2 with undisturbed := s.2.undisturbed && own })

def noteStored (row : DomainEventModel) (s : Site) : Site :=
  (s.1, { s.2 with stored := s.2.stored ++ [⟨row, s.2.handling⟩] })

/-- `set_tracing` of the handler of `event`. -/
def handle (me : Nat) (event : DomainEvent) (s : Site) : Site :=
  ((s.openWindow me .eventHandler).1, { s.2 with handling := some event })

/-- Back in the handling of `outer`, with the handler's window closed. -/
def leave (me : Nat) (outer : Option DomainEvent) (s : Site) : Site :=
  ({ s.1 with window :=
      if s.1.window .eventHandler = some me then Function.update s.1.window .eventHandler none
      else s.1.window },
    { s.2 with handling := outer })

end Site

namespace Concurrent
variable (env : Env) (me : Nat)

/-- What publishing one event runs. -/
abbrev Bus := DomainEvent → Task Unit

namespace YourAggregateRepository

def loadYourAggregate (pkey : String) (lock : Bool) : Task YourAggregate :=
  awaiting (DddService.YourAggregateRepository.loadYourAggregate env pkey lock)

def addEvents : List DomainEvent → Task (List DomainEvent)
  | [] => pure []
  | e :: es => do
    let (e, row) ← onWorld (e.serialize env)
    onWorld (AsyncSession.enqueue (.addEvent row))
    record (Site.noteStored row)
    let es ← addEvents es
    pure (e :: es)

/-- `_save` -/
def save (a : YourAggregate) (model : YourAggregateModel) (persistent : Bool) :
    Task YourAggregate := do
  onWorld (DddService.YourAggregateRepository.persist a model persistent)
  let a ← onWorld (DddService.YourAggregateRepository.archiveIfRaised env a model)
  let events ← addEvents env a.allEvents
  awaiting AsyncSession.flush
  pure { a with domainEvents := events }

def saveYourAggregate (a : YourAggregate) : Task YourAggregate := do
  let found ← awaiting (DddService.YourAggregateRepository.getModel a.id)
  save env a (DddService.YourAggregateRepository.modelOf env a found) found.isSome

end YourAggregateRepository

namespace YourAggregateUseCase
variable (bus : Bus) (owner : Owner)

/-- `_save` -/
def save (a : YourAggregate) : Task Unit := do
  record (Site.takeTracing me owner)
  let a ← onWorld (UseCaseBase.saveTracing env owner a)
  let a ← YourAggregateRepository.saveYourAggregate env a
  a.allEvents.forM bus

def createYourAggregate (yourValueObject : YourValueObject) (creator : User) : Task String := do
  let id ← onWorld (uuid4 env .aggregate)
  let now ← onWorld datetimeNow
  let a ← onWorld (M.ofExcept (YourAggregate.createYourAggregate now id yourValueObject creator))
  save env me bus owner a
  pure a.id

def deleteYourAggregate (yourAggregateId : String) (doer : User) : Task Unit := do
  let a ← YourAggregateRepository.loadYourAggregate env yourAggregateId true
  let a ← onWorld (M.ofExcept ((YourAggregate.deleteYourAggregate doer).call a))
  save env me bus owner a

def voidYourAggregate (yourAggregateId : String) (doer : User) : Task Unit := do
  let a ← YourAggregateRepository.loadYourAggregate env yourAggregateId true
  let now ← onWorld datetimeNow
  let a ← onWorld (M.ofExcept ((YourAggregate.voidYourAggregate now doer).call a))
  save env me bus owner a

def updateYourAggregate (yourAggregateId : String) (yourValueObject : YourValueObject)
    (doer : User) : Task Unit := do
  let a ← YourAggregateRepository.loadYourAggregate env yourAggregateId true
  let now ← onWorld datetimeNow
  let a ← onWorld (M.ofExcept
    ((YourAggregate.updateYourAggregate env.mixin now yourValueObject doer).call a))
  save env me bus owner a

end YourAggregateUseCase

namespace EventHandlerHelper

/-- `set_tracing` -/
def setTracing (event : DomainEvent) : Task Unit := do
  record (Site.handle me event)
  onWorld (DddService.EventHandlerHelper.setTracing event)

/-- The part of the wrapper inside `async with`. -/
def guarded (func : DomainEvent → Task Unit) (event : DomainEvent) : Task Unit :=
  tryCatch
    (do setTracing me event
        func event
        awaiting AsyncSession.flush)
    (fun e => do
      if e.isException then awaiting AsyncSession.rollback
      throw e)

/-- `connect_db_session` -/
def connectDbSession (func : DomainEvent → Task Unit) (event : DomainEvent) : Task Unit := do
  let outer ← Coro.read fun s => s.2.handling
  Coro.scope (onWorld SessionProvider.aenter)
    (do record (Site.leave me outer)
        awaiting SessionProvider.aexit)
    (guarded me func event)

end EventHandlerHelper

namespace YourAggregateEventHandler
variable (bus : Bus)

def handleYourAggregateCreated (id : String) (yourValueObject : YourValueObject) (doer : User) :
    Task Unit :=
  YourAggregateUseCase.updateYourAggregate env me bus .eventHandler id
    ⟨yourValueObject.propertyA ++ "_test_event_handler", yourValueObject.propertyB⟩ doer

def handleYourAggregateVoided (id : String) : Task Unit :=
  awaiting (DddService.YourAggregateEventHandler.handleYourAggregateVoided env id)

def handlers (event : DomainEvent) : List (DomainEvent → Task Unit) :=
  match event.body with
  | .yourAggregateCreated id v d => [fun _ => handleYourAggregateCreated env me bus id v d]
  | .yourAggregateVoided id _ => [fun _ => handleYourAggregateVoided env id]
  | .yourAggregateDeleted .. | .yourAggregateUpdated .. => []

end YourAggregateEventHandler

/-- `EventBus.publish` -/
def publish : (depth : Nat) → Bus
  | 0, _ => throw .recursionError
  | depth + 1, event =>
    (YourAggregateEventHandler.handlers env me (publish depth) event).forM fun func =>
      EventHandlerHelper.connectDbSession me func event

def eventBus : Bus := publish env me recursionLimit

namespace ControllerBase

/-- `set_tracing` -/
def setTracing (traceId : Option String) : Task Unit := do
  record (Site.openWindow me .controller)
  onWorld (DddService.ControllerBase.setTracing env traceId)
  record Site.noteTrace

/-- The part of the wrapper inside `try`. -/
def traced {α : Type} (traceId : Option String) (func : Task α) : Task α := do
  setTracing env me traceId
  let result ← func
  awaiting AsyncSession.flush
  pure result

/-- The part of the wrapper inside `async with`. -/
def guarded {α : Type} (traceId : Option String) (func : Task α) : Task α :=
  tryCatch (traced env me traceId func)
    (fun e => do
      if e.isException then do
        awaiting AsyncSession.rollback
        onWorld RabbitMqPublisher.cleanMessages
        throw (DddService.ControllerBase.reraised e)
      else throw e)

/-- `connect_db_session` -/
def connectDbSession {α : Type} (traceId : Option String) (func : Task α) : Task α := do
  let result ← Coro.scope (onWorld SessionProvider.aenter) (awaiting SessionProvider.aexit)
    (guarded env me traceId func)
  let w ← onWorld get
  if w.messages.isEmpty then pure result
  else do
    onWorld RabbitMqPublisher.publishMessages
    pure result

end ControllerBase

namespace YourAggregateController

def batch {ρ : Type} (one : ρ → Task String) (requests : List ρ) : Task Response := do
  let resp ← requests.mapM one
  onWorld (M.ofExcept (DddService.YourAggregateController.respond resp))

def createOne (r : CreateYourAggregateRequest) : Task String :=
  YourAggregateUseCase.createYourAggregate env me (eventBus env me) .controller r.yourValueObject
    r.doer

def deleteOne (r : IdRequest) : Task String := do
  YourAggregateUseCase.deleteYourAggregate env me (eventBus env me) .controller r.id r.doer
  pure r.id

def updateOne (r : UpdateYourAggregateRequest) : Task String := do
  YourAggregateUseCase.updateYourAggregate env me (eventBus env me) .controller r.id
    r.yourValueObject r.doer
  pure r.id

def voidOne (r : IdRequest) : Task String := do
  YourAggregateUseCase.voidYourAggregate env me (eventBus env me) .controller r.id r.doer
  pure r.id

end YourAggregateController

/-- Request `me` makes the call `c`. -/
def serve : Call → Task Unit
  | .create rs => do
    let _ ← ControllerBase.connectDbSession env me (rs.head?.bind (·.traceId))
      (YourAggregateController.batch (YourAggregateController.createOne env me) rs)
  | .update rs => do
    let _ ← ControllerBase.connectDbSession env me (rs.head?.bind (·.traceId))
      (YourAggregateController.batch (YourAggregateController.updateOne env me) rs)
  | .void rs => do
    let _ ← ControllerBase.connectDbSession env me (rs.head?.bind (·.traceId))
      (YourAggregateController.batch (YourAggregateController.voidOne env me) rs)
  | .delete rs => do
    let _ ← ControllerBase.connectDbSession env me (rs.head?.bind (·.traceId))
      (YourAggregateController.batch (YourAggregateController.deleteOne env me) rs)
  | .get r => do
    let _ ← ControllerBase.connectDbSession env me r.traceId
      (YourAggregateRepository.loadYourAggregate env r.id false)
  | .newContext traceId => onWorld (Call.enterContext env traceId)

/-! ## A request that runs alone -/

section Alone
variable {α : Type}

theorem onWorld_alone (x : M α) : AloneIs Site.world (onWorld x) x :=
  AloneIs.lift Site.world_setWorld x

theorem awaiting_alone (x : M α) : AloneIs Site.world (awaiting x) x :=
  AloneIs.suspend_bind (onWorld_alone x)

theorem scope_alone {enter exit : Task Unit} {enter' exit' : M Unit} {body : Task α} {body' : M α}
    (henter : AloneIs Site.world enter enter') (hexit : AloneIs Site.world exit exit')
    (hbody : AloneIs Site.world body body') :
    AloneIs Site.world (Coro.scope enter exit body) (Hoare.scope enter' exit' body') := by
  apply henter.bind
  intro _
  apply AloneIs.bind
  · exact hbody.tryCatch fun e => hexit.bind fun _ => AloneIs.throw e
  · exact fun a => hexit.bind fun _ => AloneIs.pure a

theorem mapM_alone {ρ : Type} {one : ρ → Task α} {one' : ρ → M α}
    (h : ∀ r, AloneIs Site.world (one r) (one' r)) :
    ∀ rs : List ρ, AloneIs Site.world (rs.mapM one) (rs.mapM one')
  | [] => AloneIs.pure _
  | r :: rs => by
    rw [List.mapM_cons, List.mapM_cons]
    exact (h r).bind fun _ => (mapM_alone h rs).bind fun _ => AloneIs.pure _

theorem addEvents_alone : ∀ events, AloneIs Site.world
    (YourAggregateRepository.addEvents env events)
    (DddService.YourAggregateRepository.addEvents env events)
  | [] => AloneIs.pure _
  | e :: es => by
    apply (onWorld_alone _).bind
    intro r
    apply (onWorld_alone _).bind
    intro _
    apply AloneIs.update_bind
    · exact (addEvents_alone es).bind fun _ => AloneIs.pure _
    · exact fun _ => rfl

theorem saveYourAggregate_alone (a : YourAggregate) : AloneIs Site.world
    (YourAggregateRepository.saveYourAggregate env a)
    (DddService.YourAggregateRepository.saveYourAggregate env a) := by
  apply (awaiting_alone _).bind
  intro found
  apply (onWorld_alone _).bind
  intro _
  apply (onWorld_alone _).bind
  intro a
  exact (addEvents_alone env _).bind fun _ => (awaiting_alone _).bind fun _ => AloneIs.pure _

section UseCase
variable {bus : Bus} {bus' : DddService.Bus} (hbus : ∀ e, AloneIs Site.world (bus e) (bus' e))
  (owner : Owner)
include hbus

theorem useCaseSave_alone (a : YourAggregate) : AloneIs Site.world
    (YourAggregateUseCase.save env me bus owner a)
    (DddService.YourAggregateUseCase.save env bus' owner a) := by
  apply AloneIs.update_bind
  · apply (onWorld_alone _).bind
    intro a
    apply (saveYourAggregate_alone env a).bind
    intro a
    apply AloneIs.forM
    exact List.forall₂_same.mpr fun e _ => hbus e
  · exact fun _ => rfl

theorem createYourAggregate_alone (v : YourValueObject) (creator : User) : AloneIs Site.world
    (YourAggregateUseCase.createYourAggregate env me bus owner v creator)
    (DddService.YourAggregateUseCase.createYourAggregate env bus' owner v creator) := by
  apply (onWorld_alone _).bind
  intro id
  apply (onWorld_alone _).bind
  intro now
  apply (onWorld_alone _).bind
  intro a
  exact (useCaseSave_alone env me hbus owner a).bind fun _ => AloneIs.pure _

theorem deleteYourAggregate_alone (id : String) (doer : User) : AloneIs Site.world
    (YourAggregateUseCase.deleteYourAggregate env me bus owner id doer)
    (DddService.YourAggregateUseCase.deleteYourAggregate env bus' owner id doer) :=
  (awaiting_alone _).bind fun _ => (onWorld_alone _).bind fun a =>
    useCaseSave_alone env me hbus owner a

theorem voidYourAggregate_alone (id : String) (doer : User) : AloneIs Site.world
    (YourAggregateUseCase.voidYourAggregate env me bus owner id doer)
    (DddService.YourAggregateUseCase.voidYourAggregate env bus' owner id doer) :=
  (awaiting_alone _).bind fun _ => (onWorld_alone _).bind fun _ => (onWorld_alone _).bind fun a =>
    useCaseSave_alone env me hbus owner a

theorem updateYourAggregate_alone (id : String) (v : YourValueObject) (doer : User) :
    AloneIs Site.world (YourAggregateUseCase.updateYourAggregate env me bus owner id v doer)
      (DddService.YourAggregateUseCase.updateYourAggregate env bus' owner id v doer) :=
  (awaiting_alone _).bind fun _ => (onWorld_alone _).bind fun _ => (onWorld_alone _).bind fun a =>
    useCaseSave_alone env me hbus owner a

end UseCase

theorem handler_alone {func : DomainEvent → Task Unit} {func' : DomainEvent → M Unit}
    (event : DomainEvent) (h : AloneIs Site.world (func event) (func' event)) :
    AloneIs Site.world (EventHandlerHelper.connectDbSession me func event)
      (DddService.EventHandlerHelper.connectDbSession func' event) := by
  apply AloneIs.read_bind
  intro outer
  apply scope_alone (onWorld_alone _)
  · apply AloneIs.update_bind (awaiting_alone _)
    exact fun _ => rfl
  · apply AloneIs.tryCatch
    · apply AloneIs.bind
      · apply AloneIs.update_bind (onWorld_alone _)
        exact fun _ => rfl
      · exact fun _ => h.bind fun _ => awaiting_alone _
    · intro e
      apply AloneIs.ite
      · exact (awaiting_alone _).bind fun _ => AloneIs.throw e
      · exact AloneIs.throw e

theorem publish_alone : ∀ depth event, AloneIs Site.world (publish env me depth event)
    (DddService.publish env depth event)
  | 0, _ => AloneIs.throw _
  | depth + 1, event => by
    have hhandlers : List.Forall₂ (fun f f' => AloneIs Site.world (f event) (f' event))
        (YourAggregateEventHandler.handlers env me (publish env me depth) event)
        (DddService.YourAggregateEventHandler.handlers env (DddService.publish env depth) event) := by
      unfold YourAggregateEventHandler.handlers DddService.YourAggregateEventHandler.handlers
      cases event.body with
      | yourAggregateCreated id v d =>
        refine List.Forall₂.cons ?_ List.Forall₂.nil
        exact updateYourAggregate_alone env me (publish_alone depth) .eventHandler _ _ _
      | yourAggregateVoided id d => exact List.Forall₂.cons (awaiting_alone _) List.Forall₂.nil
      | yourAggregateDeleted id d => exact List.Forall₂.nil
      | yourAggregateUpdated id v d => exact List.Forall₂.nil
    apply AloneIs.forM
    exact hhandlers.imp fun _ _ h => handler_alone me event h

theorem guarded_alone (traceId : Option String) {func : Task α} {func' : M α}
    (h : AloneIs Site.world func func') :
    AloneIs Site.world (ControllerBase.guarded env me traceId func)
      (DddService.ControllerBase.guarded env traceId func') := by
  have htraced : AloneIs Site.world (ControllerBase.traced env me traceId func)
      (DddService.ControllerBase.traced env traceId func') := by
    apply AloneIs.bind
    · apply AloneIs.update_bind
      · apply AloneIs.bind_update (onWorld_alone _)
        exact fun _ => rfl
      · exact fun _ => rfl
    · exact fun _ => h.bind fun _ => (awaiting_alone _).bind fun _ => AloneIs.pure _
  apply htraced.tryCatch
  intro e
  apply AloneIs.ite
  · exact (awaiting_alone _).bind fun _ => (onWorld_alone _).bind fun _ => AloneIs.throw _
  · exact AloneIs.throw e

theorem connectDbSession_alone (traceId : Option String) {func : Task α} {func' : M α}
    (h : AloneIs Site.world func func') :
    AloneIs Site.world (ControllerBase.connectDbSession env me traceId func)
      (DddService.ControllerBase.connectDbSession env traceId func') := by
  apply AloneIs.bind
  · apply scope_alone (onWorld_alone _) (awaiting_alone _)
    exact guarded_alone env me traceId h
  · intro result
    apply (onWorld_alone get).bind
    intro w
    apply AloneIs.ite
    · exact AloneIs.pure result
    · exact (onWorld_alone _).bind fun _ => AloneIs.pure result

theorem eventBus_alone (e : DomainEvent) :
    AloneIs Site.world (eventBus env me e) (DddService.eventBus env e) :=
  publish_alone env me recursionLimit e

theorem batch_alone {ρ : Type} {one : ρ → Task String} {one' : ρ → M String}
    (h : ∀ r, AloneIs Site.world (one r) (one' r)) (rs : List ρ) :
    AloneIs Site.world (YourAggregateController.batch one rs)
      (DddService.YourAggregateController.batch one' rs) :=
  (mapM_alone h rs).bind fun _ => onWorld_alone _

theorem createOne_alone (r : CreateYourAggregateRequest) :
    AloneIs Site.world (YourAggregateController.createOne env me r)
      (DddService.YourAggregateController.createOne env r) :=
  createYourAggregate_alone env me (eventBus_alone env me) _ _ _

theorem updateOne_alone (r : UpdateYourAggregateRequest) :
    AloneIs Site.world (YourAggregateController.updateOne env me r)
      (DddService.YourAggregateController.updateOne env r) :=
  (updateYourAggregate_alone env me (eventBus_alone env me) _ _ _ _).bind fun _ => AloneIs.pure _

theorem voidOne_alone (r : IdRequest) :
    AloneIs Site.world (YourAggregateController.voidOne env me r)
      (DddService.YourAggregateController.voidOne env r) :=
  (voidYourAggregate_alone env me (eventBus_alone env me) _ _ _).bind fun _ => AloneIs.pure _

theorem deleteOne_alone (r : IdRequest) :
    AloneIs Site.world (YourAggregateController.deleteOne env me r)
      (DddService.YourAggregateController.deleteOne env r) :=
  (deleteYourAggregate_alone env me (eventBus_alone env me) _ _ _).bind fun _ => AloneIs.pure _

/-- A request that is resumed at once whenever it suspends does what the
    sequential controller does. -/
theorem serve_alone (c : Call) : AloneIs Site.world (serve env me c) (c.run env) := by
  cases c with
  | create rs =>
    exact (connectDbSession_alone env me _ (batch_alone (createOne_alone env me) rs)).bind fun _ =>
      AloneIs.pure _
  | update rs =>
    exact (connectDbSession_alone env me _ (batch_alone (updateOne_alone env me) rs)).bind fun _ =>
      AloneIs.pure _
  | void rs =>
    exact (connectDbSession_alone env me _ (batch_alone (voidOne_alone env me) rs)).bind fun _ =>
      AloneIs.pure _
  | delete rs =>
    exact (connectDbSession_alone env me _ (batch_alone (deleteOne_alone env me) rs)).bind fun _ =>
      AloneIs.pure _
  | get r => exact (connectDbSession_alone env me _ (awaiting_alone _)).bind fun _ => AloneIs.pure _
  | newContext t => exact onWorld_alone _

end Alone

end Concurrent

end DddService
