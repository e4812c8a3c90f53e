import DddService.UseCase
import Mathlib.Data.List.Induction

/- `YourAggregateController`: each method runs its requests in one session scope
   (`connectDbSession`), then publishes what the handlers pushed. A run is a
   sequence of calls; between two of them a new request context may begin, with
   a session provider, a publisher and a trace id of its own. -/
namespace DddService
open Hoare

namespace ControllerBase
variable (env : Env)

/-- `set_tracing` -/
def setTracing (traceId : Option String) : M Unit := do
  let t := traceId.getD ""
  let t ← if t = "" then uuid4 env .trace else pure t
  modify fun w => w.setUseCase .controller ((w.useCase .controller).setTraceId t)

/-- What the wrapper's `except` clauses raise: an `IntegrityError` becomes a
    `SQLAlchemyError`. The clauses differ in nothing else but the log level. -/
def reraised : Exc → Exc
  | .integrityError msg => .sqlAlchemyError msg
  | e => e

/-- The part of the wrapper inside `try`. -/
def traced {α : Type} (traceId : Option String) (func : M α) : M α := do
  setTracing env traceId
  let result ← func
  AsyncSession.flush
  pure result

/-- The part of the wrapper inside `async with`. -/
def guarded {α : Type} (traceId : Option String) (func : M α) : M α :=
  tryCatch (traced env traceId func)
    (fun e => do
      if e.isException then do
        AsyncSession.rollback
        RabbitMqPublisher.cleanMessages
        throw (reraised e)
      else throw e)

/-- `connect_db_session`; `traceId` is the one of the first request. -/
def connectDbSession {α : Type} (traceId : Option String) (func : M α) : M α := do
  let result ← SessionProvider.withSession (guarded env traceId func)
  if (← get).messages.isEmpty then pure result
  else do
    RabbitMqPublisher.publishMessages
    pure result

end ControllerBase

structure CreateYourAggregateRequest where
  doer : User
  traceId : Option String
  yourValueObject : YourValueObject

structure UpdateYourAggregateRequest where
  doer : User
  traceId : Option String
  id : String
  yourValueObject : YourValueObject

/-- The fields of a `DeleteYourAggregateRequest`, a `VoidYourAggregateRequest`
    and a `GetYourAggregateRequest`. -/
structure IdRequest where
  doer : User
  traceId : Option String
  id : String

/-- `list[str] | str` -/
inductive Response where
  | one (id : String)
  | many (ids : List String)
  deriving DecidableEq, Repr

namespace YourAggregateController
variable (env : Env)

/-- `resp if len(resp) > 1 else resp[0]` -/
def respond : List String → Except Exc Response
  | [] => .error (.indexError "list index out of range")
  | [id] => .ok (.one id)
  | ids => .ok (.many ids)

/-- One use case call for each request, in order, and the response. -/
def batch {ρ : Type} (one : ρ → M String) (requests : List ρ) : M Response := do
  let resp ← requests.mapM one
  M.ofExcept (respond resp)

def createOne (r : CreateYourAggregateRequest) : M String :=
  YourAggregateUseCase.createYourAggregate env (eventBus env) .controller r.yourValueObject r.doer

def createYourAggregate (requests : List CreateYourAggregateRequest) : M Response :=
  ControllerBase.connectDbSession env (requests.head?.bind (·.traceId))
    (batch (createOne env) requests)

def deleteOne (r : IdRequest) : M String := do
  YourAggregateUseCase.deleteYourAggregate env (eventBus env) .controller r.id r.doer
  pure r.id

def deleteYourAggregate (requests : List IdRequest) : M Response :=
  ControllerBase.connectDbSession env (requests.head?.bind (·.traceId))
    (batch (deleteOne env) requests)

def updateOne (r : UpdateYourAggregateRequest) : M String := do
  YourAggregateUseCase.updateYourAggregate env (eventBus env) .controller r.id r.yourValueObject
    r.doer
  pure r.id

def updateYourAggregate (requests : List UpdateYourAggregateRequest) : M Response :=
  ControllerBase.connectDbSession env (requests.head?.bind (·.traceId))
    (batch (updateOne env) requests)

def voidOne (r : IdRequest) : M String := do
  YourAggregateUseCase.voidYourAggregate env (eventBus env) .controller r.id r.doer
  pure r.id

def voidYourAggregate (requests : List IdRequest) : M Response :=
  ControllerBase.connectDbSession env (requests.head?.bind (·.traceId))
    (batch (voidOne env) requests)

/-- The response object is a copy of the entity's fields; the entity stands for it. -/
def getYourAggregate (request : IdRequest) : M YourAggregate :=
  ControllerBase.connectDbSession env request.traceId
    (YourAggregateRepository.loadYourAggregate env request.id false)

end YourAggregateController

/-! ## Runs -/

/-- A controller call, or the start of a new request context. -/
inductive Call where
  | create (requests : List CreateYourAggregateRequest)
  | update (requests : List UpdateYourAggregateRequest)
  | void (requests : List IdRequest)
  | delete (requests : List IdRequest)
  | get (request : IdRequest)
  | newContext (traceId : Option String)

/-- A call that creates one aggregate. -/
def Call.createOne : Call :=
  .create [⟨⟨none, none, none, none, none⟩, some "trace", ⟨"value", 1⟩⟩]

/-- A call that voids one aggregate. -/
def Call.voidOne (id : String) : Call :=
  .void [⟨⟨none, none, none, none, none⟩, some "trace", id⟩]

/-- `LoggingMiddleware` at the start of a request: `set_session_provider`,
    `set_message_queue_publisher` and `set_trace_id`. -/
def Call.enterContext (env : Env) (traceId : Option String) : M Unit := do
  modify fun w => { w with provider := ⟨none, 0⟩, messages := .empty }
  let t := traceId.getD ""
  let t ← if t = "" then uuid4 env .trace else pure t
  modify fun w => { w with traceId := some t }

/-- A method under `connectDbSession`: the first request's trace id, and the body. -/
structure Method where
  Result : Type
  traceId : Option String
  func : M Result

def Method.run (env : Env) (m : Method) : M m.Result :=
  ControllerBase.connectDbSession env m.traceId m.func

/-- The method a call runs. -/
def Call.method (env : Env) : Call → Option Method
  | .create rs => some ⟨Response, rs.head?.bind (·.traceId),
      YourAggregateController.batch (YourAggregateController.createOne env) rs⟩
  | .update rs => some ⟨Response, rs.head?.bind (·.traceId),
      YourAggregateController.batch (YourAggregateController.updateOne env) rs⟩
  | .void rs => some ⟨Response, rs.head?.bind (·.traceId),
      YourAggregateController.batch (YourAggregateController.voidOne env) rs⟩
  | .delete rs => some ⟨Response, rs.head?.bind (·.traceId),
      YourAggregateController.batch (YourAggregateController.deleteOne env) rs⟩
  | .get r => some ⟨YourAggregate, r.traceId,
      YourAggregateRepository.loadYourAggregate env r.id false⟩
  | .newContext _ => none

def Call.run (env : Env) : Call → M Unit
  | .create rs => do let _ ← YourAggregateController.createYourAggregate env rs
  | .update rs => do let _ ← YourAggregateController.updateYourAggregate env rs
  | .void rs => do let _ ← YourAggregateController.voidYourAggregate env rs
  | .delete rs => do let _ ← YourAggregateController.deleteYourAggregate env rs
  | .get r => do let _ ← YourAggregateController.getYourAggregate env r
  | .newContext traceId => Call.enterContext env traceId

theorem Call.run_eq {env : Env} {c : Call} {m : Method} (h : c.method env = some m) :
    c.run env = m.run env >>= fun _ => pure () := by
  cases c <;> cases h <;> rfl

theorem Call.run_method {env : Env} {c : Call} {m : Method} (h : c.method env = some m) (w : World) :
    stateOf (c.run env w) = stateOf (m.run env w) := by
  rw [Call.run_eq h, bind_run]
  cases m.run env w <;> rfl

theorem Call.run_error {env : Env} {c : Call} {m : Method} (h : c.method env = some m) {w w' : World}
    {e : Exc} (hr : c.run env w = .error e w') : m.run env w = .error e w' := by
  rw [Call.run_eq h] at hr
  apply (bind_eq_error hr).elim
  · exact id
  · intro hok
    obtain ⟨a, t, _, hp⟩ := hok
    cases hp

theorem Call.run_ok {env : Env} {c : Call} {m : Method} (h : c.method env = some m) {w w' : World}
    (hr : c.run env w = .ok () w') : ∃ a, m.run env w = .ok a w' := by
  rw [Call.run_eq h] at hr
  obtain ⟨a, t, ht, hp⟩ := bind_eq_ok hr
  cases hp
  exact ⟨a, ht⟩

theorem Call.newContext_run (env : Env) (traceId : Option String) (w : World) :
    ∃ t drawn, drawn .aggregate = w.drawn .aggregate ∧
      stateOf ((Call.newContext traceId).run env w) =
        { w with provider := ⟨none, 0⟩, messages := .empty, traceId := t, drawn := drawn } := by
  change ∃ t drawn, _ ∧ stateOf (Call.enterContext env traceId w) = _
  unfold Call.enterContext
  dsimp only
  split
  · exact ⟨_, Function.update w.drawn .trace (w.drawn .trace + 1), rfl, rfl⟩
  · exact ⟨_, w.drawn, rfl, rfl⟩

/-- The world after the calls, each of which may return or raise. -/
def runCalls (env : Env) (w : World) (calls : List Call) : World :=
  calls.foldl (fun w c => stateOf (c.run env w)) w

theorem runCalls_append (env : Env) (w : World) (calls calls' : List Call) :
    runCalls env w (calls ++ calls') = runCalls env (runCalls env w calls) calls' :=
  List.foldl_append

/-- What every call preserves, along a run, from the calls before it. -/
theorem runCalls_induction {env : Env} {w : World} {I : World → Prop} (hinit : I w) :
    ∀ calls, (∀ p c, p ++ [c] <+: calls → I (runCalls env w p) →
      I (stateOf (c.run env (runCalls env w p)))) → I (runCalls env w calls) :=
  foldl_induction hinit

end DddService
