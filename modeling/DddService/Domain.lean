import DddService.Basic
import DddService.Lib.Hoare
import DddService.Lib.Lists

/- The domain layer (`app/core`): the value objects, the four domain events and
   the entity `YourAggregate`. An operation of the entity mutates the object it
   is called on, so it is a program over the object (`YourAggregateM`): when it
   raises, what it had already changed stays changed. `DateTime.now()` is passed
   in as `now`. -/
namespace DddService
open Hoare

structure User where
  id : Option String
  organizationId : Option String
  name : Option String
  email : Option String
  mobile : Option String
  deriving DecidableEq, Repr

structure YourValueObject where
  propertyA : String
  propertyB : Int
  deriving DecidableEq, Repr

/-- `dataclasses.asdict` of a value object. -/
def YourValueObject.asdict (v : YourValueObject) : Json :=
  .obj [("property_a", .str v.propertyA), ("property_b", .num v.propertyB)]

/-- `dataclasses.asdict` of a user. -/
def User.asdict (u : User) : Json :=
  .obj [("id", .optStr u.id), ("organization_id", .optStr u.organizationId),
    ("name", .optStr u.name), ("email", .optStr u.email), ("mobile", .optStr u.mobile)]

/-- Reads back what `YourValueObject.asdict` writes. -/
def YourValueObject.ofDict? (j : Json) : Option YourValueObject := do
  let propertyA ← (← j.get? "property_a").asStr?
  let propertyB ← (← j.get? "property_b").asNum?
  pure ⟨propertyA, propertyB⟩

/-- Reads back what `User.asdict` writes. -/
def User.ofDict? (j : Json) : Option User := do
  let id ← (← j.get? "id").asOptStr?
  let organizationId ← (← j.get? "organization_id").asOptStr?
  let name ← (← j.get? "name").asOptStr?
  let email ← (← j.get? "email").asOptStr?
  let mobile ← (← j.get? "mobile").asOptStr?
  pure ⟨id, organizationId, name, email, mobile⟩

@[simp] theorem YourValueObject.ofDict_asdict (v : YourValueObject) :
    YourValueObject.ofDict? v.asdict = some v := rfl

@[simp] theorem User.ofDict_asdict (u : User) : User.ofDict? u.asdict = some u := by
  simp [User.ofDict?, User.asdict]

inductive YourAggregateStatus where
  | created | voided
  deriving DecidableEq, Repr

def YourAggregateStatus.value : YourAggregateStatus → String
  | .created => "created"
  | .voided => "voided"

/-- `YourAggregateStatus(value)`: the member with that value, or a `ValueError`. -/
def YourAggregateStatus.ofValue (value : String) : Except Exc YourAggregateStatus :=
  if value = "created" then .ok .created
  else if value = "voided" then .ok .voided
  else .error (.valueError (value ++ " is not a valid YourAggregateStatus"))

@[simp] theorem YourAggregateStatus.ofValue_value (s : YourAggregateStatus) :
    YourAggregateStatus.ofValue s.value = .ok s := by
  cases s <;> decide

inductive OperationHistoryType where
  | created | updated | voided
  deriving DecidableEq, Repr

/-- One field an operation changed. `before` and `after` are `Any`: a status
    text or a serialized value object. -/
structure OperationHistoryData where
  field : String
  before : Json
  after : Json
  deriving DecidableEq, Repr

structure OperationHistory where
  type : OperationHistoryType
  data : List OperationHistoryData
  doer : User
  createdAt : DateTime
  deriving DecidableEq, Repr

/-- What `DataclassMixin` puts on the dataclasses the repository stores:
    `serialize()` writes an instance as a dict, `create(**d)` (for `User` the
    constructor itself) reads one back, and reads what `serialize` wrote. -/
structure DataclassMixin where
  serializeValueObject : YourValueObject → Json
  createValueObject : Json → Except Exc YourValueObject
  serializeUser : User → Json
  createUser : Json → Except Exc User
  serializeHistory : OperationHistory → Json
  createHistory : Json → Except Exc OperationHistory
  createValueObject_serialize : ∀ v, createValueObject (serializeValueObject v) = .ok v
  createUser_serialize : ∀ u, createUser (serializeUser u) = .ok u
  createHistory_serialize : ∀ h, createHistory (serializeHistory h) = .ok h

namespace DataclassMixin
variable (mixin : DataclassMixin)

theorem serializeValueObject_inj {v w : YourValueObject} :
    mixin.serializeValueObject v = mixin.serializeValueObject w ↔ v = w := by
  constructor
  · intro h
    have hv := mixin.createValueObject_serialize v
    rw [h, mixin.createValueObject_serialize w] at hv
    simpa using hv.symm
  · intro h; rw [h]

/-- Reading the stored history of an aggregate back, entry by entry. -/
theorem mapM_createHistory (hs : List OperationHistory) :
    (hs.map mixin.serializeHistory).mapM mixin.createHistory = .ok hs :=
  Lists.mapM_map_inverse fun h _ => mixin.createHistory_serialize h

end DataclassMixin

/-! ## The mixin as plain dicts

   A pair as `DataclassMixin` asks for, which shows that its laws can hold. -/

def OperationHistoryType.value : OperationHistoryType → String
  | .created => "created"
  | .updated => "updated"
  | .voided => "voided"

def OperationHistoryType.ofValue? (value : String) : Option OperationHistoryType :=
  if value = "created" then some .created
  else if value = "updated" then some .updated
  else if value = "voided" then some .voided
  else none

def OperationHistoryData.asdict (d : OperationHistoryData) : Json :=
  .obj [("field", .str d.field), ("before", d.before), ("after", d.after)]

def OperationHistoryData.ofDict? (j : Json) : Option OperationHistoryData := do
  let field ← (← j.get? "field").asStr?
  let before ← j.get? "before"
  let after ← j.get? "after"
  pure ⟨field, before, after⟩

def OperationHistory.asdict (h : OperationHistory) : Json :=
  .obj [("type", .str h.type.value), ("data", .arr (h.data.map OperationHistoryData.asdict)),
    ("doer", h.doer.asdict), ("created_at", .num h.createdAt)]

def OperationHistory.ofDict? (j : Json) : Option OperationHistory := do
  let type ← OperationHistoryType.ofValue? (← (← j.get? "type").asStr?)
  let data ← (← (← j.get? "data").asArr?).mapM OperationHistoryData.ofDict?
  let doer ← User.ofDict? (← j.get? "doer")
  let createdAt ← (← j.get? "created_at").asNum?
  pure ⟨type, data, doer, createdAt⟩

theorem OperationHistoryData.mapM_ofDict (ds : List OperationHistoryData) :
    ds.mapM (OperationHistoryData.ofDict? ∘ OperationHistoryData.asdict) = some ds := by
  induction ds with
  | nil => rfl
  | cons d ds ih =>
    have hd : (OperationHistoryData.ofDict? ∘ OperationHistoryData.asdict) d = some d := rfl
    rw [List.mapM_cons, hd, ih]
    rfl

theorem OperationHistory.ofDict_asdict (h : OperationHistory) :
    OperationHistory.ofDict? h.asdict = some h := by
  have htype : OperationHistoryType.ofValue? h.type.value = some h.type := by
    cases h.type <;> decide
  simp [OperationHistory.ofDict?, OperationHistory.asdict, Json.asStr?, Json.asArr?, Json.asNum?,
    htype, OperationHistoryData.mapM_ofDict]

/-- A decoder's `None` is a `TypeError` of the constructor. -/
def orTypeError {α : Type} : Option α → Except Exc α
  | some a => .ok a
  | none => .error (.typeError "missing required positional argument")

def DataclassMixin.asdict : DataclassMixin where
  serializeValueObject := YourValueObject.asdict
  createValueObject j := orTypeError (YourValueObject.ofDict? j)
  serializeUser := User.asdict
  createUser j := orTypeError (User.ofDict? j)
  serializeHistory := OperationHistory.asdict
  createHistory j := orTypeError (OperationHistory.ofDict? j)
  createValueObject_serialize := fun _ => rfl
  createUser_serialize u := by rw [User.ofDict_asdict]; rfl
  createHistory_serialize h := by rw [OperationHistory.ofDict_asdict]; rfl

/-! ## Domain events -/

structure Tracer where
  createdAt : DateTime
  spanId : String
  parentSpanId : Option String
  traceId : String
  deriving DecidableEq, Repr

/-- The fields of the four event dataclasses. -/
inductive EventBody where
  | yourAggregateCreated (yourAggregateId : String) (yourValueObject : YourValueObject) (doer : User)
  | yourAggregateDeleted (yourAggregateId : String) (doer : User)
  | yourAggregateVoided (yourAggregateId : String) (doer : User)
  | yourAggregateUpdated (yourAggregateId : String) (yourValueObject : YourValueObject) (doer : User)
  deriving DecidableEq, Repr

namespace EventBody

/-- `type(self).__name__` -/
def name : EventBody → String
  | yourAggregateCreated .. => "YourAggregateCreated"
  | yourAggregateDeleted .. => "YourAggregateDeleted"
  | yourAggregateVoided .. => "YourAggregateVoided"
  | yourAggregateUpdated .. => "YourAggregateUpdated"

def yourAggregateId : EventBody → String
  | yourAggregateCreated id _ _ | yourAggregateDeleted id _ | yourAggregateVoided id _
  | yourAggregateUpdated id _ _ => id

def doer : EventBody → User
  | yourAggregateCreated _ _ d | yourAggregateDeleted _ d | yourAggregateVoided _ d
  | yourAggregateUpdated _ _ d => d

end EventBody

/-- `_convert_enum_dict(dataclasses.asdict(self))`. The fields of the four events
    hold no enum, datetime, list or set, so the conversion changes nothing. -/
def EventBody.asdict : EventBody → Json
  | yourAggregateCreated id v d =>
    .obj [("your_aggregate_id", .str id), ("your_value_object", v.asdict), ("doer", d.asdict)]
  | yourAggregateDeleted id d => .obj [("your_aggregate_id", .str id), ("doer", d.asdict)]
  | yourAggregateVoided id d => .obj [("your_aggregate_id", .str id), ("doer", d.asdict)]
  | yourAggregateUpdated id v d =>
    .obj [("your_aggregate_id", .str id), ("your_value_object", v.asdict), ("doer", d.asdict)]

/-- An event. Its tracer is a cached property: absent until it is first read. -/
structure DomainEvent where
  body : EventBody
  tracer : Option Tracer
  deriving DecidableEq, Repr

def DomainEvent.VERSION : Int := 1

/-! ## The entity -/

structure AggregateRoot where
  isArchive : Bool
  isDelete : Bool
  domainEvents : List DomainEvent
  deriving Repr

structure YourAggregate extends AggregateRoot where
  id : String
  yourValueObject : YourValueObject
  status : YourAggregateStatus
  operationHistories : List OperationHistory
  creator : User
  createdAt : Option DateTime
  updatedAt : Option DateTime
  deriving Repr

/-- A method of the entity. -/
abbrev YourAggregateM := EStateM Exc YourAggregate Unit

/-- Calls a method on an object that is dropped if the method raises. -/
def YourAggregateM.call (method : YourAggregateM) (a : YourAggregate) : Except Exc YourAggregate :=
  match method a with
  | .ok _ a' => .ok a'
  | .error e _ => .error e

namespace YourAggregate

/-- The constructor. -/
def mk' (id : String) (yourValueObject : YourValueObject) (status : YourAggregateStatus)
    (operationHistories : List OperationHistory) (creator : User)
    (createdAt updatedAt : Option DateTime) : YourAggregate :=
  { isArchive := false, isDelete := false, domainEvents := []
    id, yourValueObject, status, operationHistories, creator, createdAt, updatedAt }

def allEvents (a : YourAggregate) : List DomainEvent := a.domainEvents

def addEvent (event : EventBody) : YourAggregateM :=
  modify fun a => { a with domainEvents := a.domainEvents ++ [DomainEvent.mk event none], isArchive := true }

def markAsDelete : YourAggregateM :=
  modify fun a => { a with isDelete := true }

def addOperationHistory (now : DateTime) (type : OperationHistoryType)
    (data : List OperationHistoryData) (doer : User) : YourAggregateM := do
  let a ← get
  if a.status = .voided then
    throw (.yourAggregateStatusNotMatched ("Your Aggregate " ++ a.id ++ " is in Voided status"))
  else
    set { a with operationHistories := a.operationHistories ++
      [OperationHistory.mk type (data.filter (fun d => d.before ≠ d.after)) doer now] }

def deleteYourAggregate (doer : User) : YourAggregateM := do
  markAsDelete
  let a ← get
  addEvent (.yourAggregateDeleted a.id doer)

def voidYourAggregate (now : DateTime) (doer : User) : YourAggregateM := do
  let a ← get
  addOperationHistory now .voided
    [⟨"status", .str a.status.value, .str YourAggregateStatus.voided.value⟩] doer
  modify fun a => { a with status := .voided }
  addEvent (.yourAggregateVoided a.id doer)

def updateYourAggregate (mixin : DataclassMixin) (now : DateTime)
    (yourValueObject : YourValueObject) (doer : User) : YourAggregateM := do
  let a ← get
  addOperationHistory now .updated
    [⟨"your_value_object", mixin.serializeValueObject a.yourValueObject,
      mixin.serializeValueObject yourValueObject⟩] doer
  modify fun a => { a with yourValueObject := yourValueObject }
  addEvent (.yourAggregateUpdated a.id yourValueObject doer)

def createYourAggregate (now : DateTime) (yourAggregateId : String)
    (yourValueObject : YourValueObject) (creator : User) : Except Exc YourAggregate :=
  YourAggregateM.call
    (do addOperationHistory now .created [] creator
        addEvent (.yourAggregateCreated yourAggregateId yourValueObject creator))
    (mk' yourAggregateId yourValueObject .created [] creator none none)

/-! ## What the operations do -/

section
variable (a : YourAggregate) (now : DateTime) (doer : User)

/-- What `a` raises once it is voided. -/
def statusError : Exc :=
  .yourAggregateStatusNotMatched ("Your Aggregate " ++ a.id ++ " is in Voided status")

theorem addOperationHistory_run (type : OperationHistoryType) (data : List OperationHistoryData) :
    addOperationHistory now type data doer a =
      if a.status = .voided then .error a.statusError a
      else .ok () { a with operationHistories := a.operationHistories ++
        [OperationHistory.mk type (data.filter (fun d => d.before ≠ d.after)) doer now] } := by
  refine bind_ok (get_run a) ?_
  by_cases h : a.status = .voided
  · rw [if_pos h, if_pos h]
    rfl
  · rw [if_neg h, if_neg h]
    rfl

theorem deleteYourAggregate_run : deleteYourAggregate doer a =
    .ok () { a with
      isDelete := true
      isArchive := true
      domainEvents := a.domainEvents ++ [DomainEvent.mk (.yourAggregateDeleted a.id doer) none] } :=
  rfl

theorem voidYourAggregate_run : voidYourAggregate now doer a =
    if a.status = .voided then .error a.statusError a
    else .ok () { a with
      operationHistories := a.operationHistories ++
        [OperationHistory.mk .voided [⟨"status", .str "created", .str "voided"⟩] doer now]
      status := .voided
      isArchive := true
      domainEvents := a.domainEvents ++ [DomainEvent.mk (.yourAggregateVoided a.id doer) none] } := by
  have hrun := addOperationHistory_run a now doer .voided
    [⟨"status", .str a.status.value, .str YourAggregateStatus.voided.value⟩]
  by_cases h : a.status = .voided
  · rw [if_pos h] at hrun ⊢
    exact bind_ok (get_run a) (bind_error hrun)
  · rw [if_neg h] at hrun ⊢
    have hs : a.status = .created := by
      cases hst : a.status with
      | created => rfl
      | voided => exact absurd hst h
    refine bind_ok (get_run a) (bind_ok hrun ?_)
    rw [hs]
    rfl

theorem updateYourAggregate_run (mixin : DataclassMixin) (v : YourValueObject) :
    updateYourAggregate mixin now v doer a =
      if a.status = .voided then .error a.statusError a
      else .ok () { a with
        operationHistories := a.operationHistories ++ [OperationHistory.mk .updated
          (if a.yourValueObject = v then [] else [⟨"your_value_object",
            mixin.serializeValueObject a.yourValueObject, mixin.serializeValueObject v⟩]) doer now]
        yourValueObject := v
        isArchive := true
        domainEvents := a.domainEvents ++
          [DomainEvent.mk (.yourAggregateUpdated a.id v doer) none] } := by
  have hrun := addOperationHistory_run a now doer .updated
    [⟨"your_value_object", mixin.serializeValueObject a.yourValueObject,
      mixin.serializeValueObject v⟩]
  by_cases h : a.status = .voided
  · rw [if_pos h] at hrun ⊢
    exact bind_ok (get_run a) (bind_error hrun)
  · rw [if_neg h] at hrun ⊢
    refine bind_ok (get_run a) (bind_ok hrun ?_)
    by_cases hv : a.yourValueObject = v
    · simp only [hv, List.filter_cons, List.filter_nil, ne_eq, not_true_eq_false, decide_false,
        Bool.false_eq_true, if_false, if_true]
      rfl
    · have hne : ¬mixin.serializeValueObject a.yourValueObject = mixin.serializeValueObject v :=
        fun hs => hv (mixin.serializeValueObject_inj.mp hs)
      simp only [hv, hne, List.filter_cons, List.filter_nil, ne_eq, not_false_eq_true, decide_true,
        if_true, if_false]
      rfl

/-- A new aggregate is not voided, so creating one never raises. -/
theorem createYourAggregate_eq (id : String) (v : YourValueObject) :
    createYourAggregate now id v doer = .ok
      { mk' id v .created [OperationHistory.mk .created [] doer now] doer none none with
        isArchive := true
        domainEvents := [DomainEvent.mk (.yourAggregateCreated id v doer) none] } := rfl

end

/-- The operations that change a stored aggregate. -/
inductive Operation (mixin : DataclassMixin) : YourAggregateM → Prop
  | delete (doer : User) : Operation mixin (deleteYourAggregate doer)
  | void (now : DateTime) (doer : User) : Operation mixin (voidYourAggregate now doer)
  | update (now : DateTime) (v : YourValueObject) (doer : User) :
      Operation mixin (updateYourAggregate mixin now v doer)

/-- An operation that raises leaves the aggregate as it was. -/
theorem Operation.error {mixin : DataclassMixin} {op : YourAggregateM} (h : Operation mixin op)
    {a a' : YourAggregate} {e : Exc} (hr : op a = .error e a') : a' = a := by
  cases h with
  | delete doer => rw [deleteYourAggregate_run] at hr; cases hr
  | void now doer =>
    rw [voidYourAggregate_run] at hr
    split at hr
    · cases hr; rfl
    · cases hr
  | update now v doer =>
    rw [updateYourAggregate_run] at hr
    split at hr
    · cases hr; rfl
    · cases hr

/-- An operation only adds to the history. -/
theorem Operation.history_grows {mixin : DataclassMixin} {op : YourAggregateM} (h : Operation mixin op)
    {a a' : YourAggregate} (hr : op a = .ok () a') :
    a.operationHistories <+: a'.operationHistories := by
  cases h with
  | delete doer => rw [deleteYourAggregate_run] at hr; cases hr; exact List.prefix_rfl
  | void now doer =>
    rw [voidYourAggregate_run] at hr
    split at hr
    · cases hr
    · cases hr; exact List.prefix_append _ _
  | update now v doer =>
    rw [updateYourAggregate_run] at hr
    split at hr
    · cases hr
    · cases hr; exact List.prefix_append _ _

end YourAggregate

/-! ## The use case's pending tracing -/

/-- `UseCaseBase`: the parent event or the trace id that the next save attaches
    to the events it stores. -/
structure UseCaseBase where
  parentEvent : Option DomainEvent
  traceId : Option String
  deriving DecidableEq, Repr

namespace UseCaseBase

def init : UseCaseBase := ⟨none, none⟩

/-- The `parent_event` setter. -/
def setParentEvent (_ : UseCaseBase) (event : DomainEvent) : UseCaseBase :=
  { parentEvent := some event, traceId := none }

/-- The `trace_id` setter. -/
def setTraceId (_ : UseCaseBase) (traceId : String) : UseCaseBase :=
  { parentEvent := none, traceId := some traceId }

end UseCaseBase

end DddService
