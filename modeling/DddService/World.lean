import DddService.Domain
import DddService.MessageQueue
import DddService.Lib.Hoare
import Mathlib.Logic.Function.Basic

/- The state a request runs in: the database, the session provider and its
   session, the two use case objects (the controller's and the event handlers'),
   the publisher's buffer, the broker, and the environment's decisions.

   Every call that reaches the database or the broker first passes `awaitPoint`,
   which takes the environment's next decision: go on, or raise. A run is thus
   determined by its start, and a statement about every start covers a failure
   at every point.

   Three fields record and steer nothing: `tx` numbers the database transaction
   under way, `journal` lists what was asked of the session under which
   transaction, and `pushed` what was pushed to the publisher. -/
namespace DddService

/-! ## Tables -/

/-- The columns of `YourAggregateMixin`. -/
structure YourAggregateMixin where
  id : String
  yourValueObject : Json
  status : String
  operationHistories : List Json
  creator : Json
  createdAt : Option DateTime
  updatedAt : Option DateTime
  deriving DecidableEq, Repr

/-- A row of `your_aggregate`, and the session's object for one. On an object
    that was never flushed `createdAt` is not set. -/
structure YourAggregateModel extends YourAggregateMixin
  deriving DecidableEq, Repr

structure YourAggregateArchiveModel extends YourAggregateMixin where
  archiveId : String
  doer : Option Json
  eventName : Option String
  eventSpanId : Option String
  eventTraceId : Option String
  deriving DecidableEq, Repr

/-- A row of `domain_event`. Its id is its position in the table. -/
structure DomainEventModel where
  name : String
  body : Json
  version : Int
  createdAt : DateTime
  spanId : String
  parentSpanId : Option String
  traceId : String
  deriving DecidableEq, Repr

/-- The three tables. `your_aggregate` has a primary key; the other two are
    listed in insertion order. -/
structure Database where
  yourAggregate : String → Option YourAggregateModel
  yourAggregateArchive : List YourAggregateArchiveModel
  domainEvent : List DomainEventModel

def Database.empty : Database := ⟨fun _ => none, [], []⟩

/-- What the next flush writes. -/
inductive Pending where
  | add (model : YourAggregateModel)
  | delete (id : String)
  | addArchive (model : YourAggregateArchiveModel)
  | addEvent (model : DomainEventModel)
  deriving DecidableEq, Repr

/-- The row an update of `old` leaves. `updated_at` is set by every update, but for a model
    whose columns are as loaded no update is sent. -/
def YourAggregateModel.updateRow (model old : YourAggregateModel) (now : DateTime) :
    YourAggregateModel :=
  if { model with createdAt := old.createdAt, updatedAt := old.updatedAt } = old then old
  else { model with createdAt := old.createdAt, updatedAt := some now }

/-- The statement a flush sends, at database time `now`: `created_at` has a server
    default. -/
def Database.write (now : DateTime) (d : Database) : Pending → Database
  | .add model =>
    let row := match d.yourAggregate model.id with
      | none => { model with createdAt := some (model.createdAt.getD now) }
      | some old => model.updateRow old now
    { d with yourAggregate := Function.update d.yourAggregate model.id (some row) }
  | .delete id => { d with yourAggregate := Function.update d.yourAggregate id none }
  | .addArchive model =>
    { d with yourAggregateArchive :=
        d.yourAggregateArchive ++ [{ model with createdAt := some (model.createdAt.getD now) }] }
  | .addEvent model => { d with domainEvent := d.domainEvent ++ [model] }

/-- Either way the row is the model's, with the old creation time. -/
theorem YourAggregateModel.updateRow_cases (model old : YourAggregateModel) (now : DateTime) :
    ∃ updatedAt, model.updateRow old now =
      { model with createdAt := old.createdAt, updatedAt := updatedAt } := by
  unfold updateRow
  split
  · rename_i h
    exact ⟨old.updatedAt, h.symm⟩
  · exact ⟨some now, rfl⟩

def Database.writeAll (now : DateTime) (d : Database) (ps : List Pending) : Database :=
  ps.foldl (Database.write now) d

/-! ## The state -/

/-- `view` is the database as the session's transaction sees it: the committed
    state with the flushed writes. A failed flush or commit leaves the session
    inactive until it is rolled back. -/
structure AsyncSession where
  view : Database
  pending : List Pending
  active : Bool
  now : DateTime

structure SessionProvider where
  session : Option AsyncSession
  sessionCount : Int

inductive SessionAction where
  | opened
  | write (p : Pending)
  | commitCalled | committed | rolledBack | closed
  deriving DecidableEq, Repr

/-- Whose use case: the controller's, or the event handler helper's. -/
inductive Owner where
  | controller | eventHandler
  deriving DecidableEq, Repr

/-- The payload of `packages/message_queue/type.py`. -/
structure YourAggregateVoided where
  yourAggregateId : String
  deriving DecidableEq, Repr

/-- A data item, with the transaction it was pushed under and its number among
    all the pushes. Nothing reads the two. -/
structure Pushed where
  payload : YourAggregateVoided
  tx : Nat
  seq : Nat
  deriving DecidableEq, Repr

structure World where
  db : Database
  provider : SessionProvider
  messages : Messages Pushed
  useCase : Owner → UseCaseBase
  traceId : Option String
  drawn : UuidKind → Nat
  clock : DateTime
  faults : List (Option Exc)
  sent : List (String × QueueMessage Pushed)
  tx : Nat
  journal : List (Nat × SessionAction)
  pushed : List Pushed

/-- The empty database, and a fresh process. -/
def World.init (faults : List (Option Exc)) : World :=
  { db := .empty, provider := ⟨none, 0⟩, messages := .empty, useCase := fun _ => .init
    traceId := none, drawn := fun _ => 0, clock := 0, faults, sent := [], tx := 0, journal := []
    pushed := [] }

/-- Decisions that go on `n` times, then raise. -/
def failAt (n : Nat) (e : Exc) : List (Option Exc) := List.replicate n none ++ [some e]

/-- What comes from outside: fresh uuids and the dataclass package. -/
structure Env where
  mixin : DataclassMixin
  uuid4 : UuidKind → Nat → String
  uuid4_inj : ∀ {k k' n n'}, uuid4 k n = uuid4 k' n' → k = k' ∧ n = n'
  uuid4_ne : ∀ k n, uuid4 k n ≠ ""

/-- A uuid as its kind's letter and its number in unary. -/
def UuidKind.letter : UuidKind → Char
  | .aggregate => 'a'
  | .span => 's'
  | .archive => 'r'
  | .trace => 't'

def plainUuid (kind : UuidKind) (n : Nat) : String :=
  String.ofList (kind.letter :: List.replicate n 'x')

theorem plainUuid_inj {k k' : UuidKind} {n n' : Nat} (h : plainUuid k n = plainUuid k' n') :
    k = k' ∧ n = n' := by
  have hl : k.letter :: List.replicate n 'x' = k'.letter :: List.replicate n' 'x' :=
    String.ofList_injective h
  obtain ⟨hk, hn⟩ := List.cons.inj hl
  refine ⟨?_, ?_⟩
  · cases k <;> cases k' <;> first | rfl | exact absurd hk (by decide)
  · have := congrArg List.length hn
    simpa using this

theorem plainUuid_ne (k : UuidKind) (n : Nat) : plainUuid k n ≠ "" := by
  intro h
  have hl : k.letter :: List.replicate n 'x' = [] := String.ofList_injective h
  cases hl

/-- An environment that keeps the promises of `Env`. -/
def Env.plain : Env := ⟨.asdict, plainUuid, plainUuid_inj, plainUuid_ne⟩

/-- A piece of the service's code. -/
abbrev M := EStateM Exc World

/-! ## Primitive steps -/

/-- The environment's next decision. -/
def awaitPoint : M Unit := fun w =>
  match w.faults with
  | [] => .ok () w
  | none :: fs => .ok () { w with faults := fs }
  | some e :: fs => .error e { w with faults := fs }

def World.nextFault (w : World) : Option Exc := w.faults.head?.join

def World.advance (w : World) : World := { w with faults := w.faults.tail }

theorem awaitPoint_run (w : World) : awaitPoint w = match w.nextFault with
    | none => .ok () w.advance
    | some e => .error e w.advance := by
  obtain ⟨db, provider, messages, useCase, traceId, drawn, clock, faults, sent, tx, journal,
    pushed⟩ := w
  rcases faults with _ | ⟨_ | e, fs⟩ <;> rfl

theorem awaitPoint_ok {w : World} (h : w.nextFault = none) : awaitPoint w = .ok () w.advance := by
  rw [awaitPoint_run, h]

theorem awaitPoint_error {w : World} {e : Exc} (h : w.nextFault = some e) :
    awaitPoint w = .error e w.advance := by
  rw [awaitPoint_run, h]

/-- `DateTime.now()` -/
def datetimeNow : M DateTime :=
  modifyGet fun w => (w.clock, { w with clock := w.clock + 1 })

/-- `str(uuid.uuid4())` -/
def uuid4 (env : Env) (kind : UuidKind) : M String :=
  modifyGet fun w => (env.uuid4 kind (w.drawn kind),
    { w with drawn := Function.update w.drawn kind (w.drawn kind + 1) })

/-- `get_trace_id()` of `app/trace.py`. -/
def getTraceId (env : Env) : M String := do
  let t := (← get).traceId.getD ""
  if t = "" then do
    let t ← uuid4 env .trace
    modify fun w => { w with traceId := some t }
    pure t
  else pure t

/-! ## The session -/

/-- `self.session_provider.session`, which the code then calls a method of. -/
def currentSession : M AsyncSession := do
  match (← get).provider.session with
  | some s => pure s
  | none => throw (.attributeError "'NoneType' object has no attribute")

def World.setSession (w : World) (s : Option AsyncSession) : World :=
  { w with provider := { w.provider with session := s } }

def World.setCount (w : World) (n : Int) : World :=
  { w with provider := { w.provider with sessionCount := n } }

def World.note (w : World) (a : SessionAction) : World :=
  { w with journal := w.journal ++ [(w.tx, a)] }

namespace AsyncSession

/-- `session.get(YourAggregateModel, pkey)`: the row as the transaction sees it. -/
def get (pkey : String) : M (Option YourAggregateModel) := do
  let s ← currentSession
  if s.active = false then
    throw (.invalidRequestError "This Session's transaction has been rolled back")
  else do
    awaitPoint
    pure (s.view.yourAggregate pkey)

/-- `session.add` and `session.delete` -/
def enqueue (p : Pending) : M Unit := do
  let s ← currentSession
  modify fun w => (w.note (.write p)).setSession (some { s with pending := s.pending ++ [p] })

/-- The transaction is lost and the session waits for a rollback. -/
def deactivate (s : AsyncSession) (w : World) : World :=
  w.setSession (some { s with view := w.db, pending := [], active := false })

/-- Writes what is pending. -/
def flush : M Unit := do
  let s ← currentSession
  if s.pending.isEmpty then pure ()
  else if s.active = false then
    throw (.invalidRequestError "This Session's transaction has been rolled back")
  else do
    tryCatch awaitPoint (fun e => do modify (deactivate s); throw e)
    modify fun w => w.setSession (some { s with view := s.view.writeAll s.now s.pending, pending := [] })

/-- Discards every uncommitted write. -/
def rollback : M Unit := do
  let _ ← currentSession
  modify fun w =>
    { w.note .rolledBack with tx := w.tx + 1 }.setSession
      (some { view := w.db, pending := [], active := true, now := w.clock })

/-- Flushes, then commits. A commit that raises has committed nothing. -/
def commit : M Unit := do
  let s ← currentSession
  modify (World.note · .commitCalled)
  if s.active = false then
    throw (.invalidRequestError "This Session's transaction has been rolled back")
  else do
    flush
    let s ← currentSession
    tryCatch awaitPoint (fun e => do modify (deactivate s); throw e)
    modify fun w => { w.note .committed with db := s.view }

/-- `session.__aexit__`: closes the session. -/
def close : M Unit := do
  let _ ← currentSession
  modify (World.note · .closed)

end AsyncSession

namespace SessionProvider

/-- `DB_Session()`: a session on a new transaction. -/
def openSession (w : World) : World :=
  { w with tx := w.tx + 1 }.note .opened |>.setSession
    (some { view := w.db, pending := [], active := true, now := w.clock })

def aenter : M Unit := do
  if (← get).provider.sessionCount = 0 then modify openSession
  modify fun w => w.setCount (w.provider.sessionCount + 1)

def aexit : M Unit := do
  modify fun w => w.setCount (w.provider.sessionCount - 1)
  if (← get).provider.sessionCount ≤ 0 then do
    modify (World.setCount · 0)
    tryCatch
      (do AsyncSession.commit
          AsyncSession.close
          modify (World.setSession · none))
      (fun e => do
        if e.isException then do
          AsyncSession.rollback
          AsyncSession.close
          modify (World.setSession · none)
        throw e)

/-- `async with self.session_provider:` -/
def withSession {α : Type} (body : M α) : M α := Hoare.scope aenter aexit body

end SessionProvider

end DddService
