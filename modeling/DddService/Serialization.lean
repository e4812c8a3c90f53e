import DddService.Domain
import DddService.Lib.PyValue

/- `DomainEvent.serialize` on any event dataclass. `dataclasses.asdict` makes a dict of every
   dataclass it comes to, but it copies a set as it is; the conversion after it opens the
   sets, and passes on what it does not know. So an instance that is in a set stays one. An
   enum member becomes its value, whatever that is. The body can be stored exactly when no set
   holds an instance and the members' values are JSON (`serialize_storable_iff`).
   The fields of the four events hold no set. -/
namespace DddService
open PyValue

/-! ## The serialization -/

mutual
/-- `dataclasses.asdict` below the top. Of sets and single values it takes a deep copy. -/
def asdictInner : PyValue → PyValue
  | .scalar s => .scalar s
  | .enum cls member value => .enum cls member value
  | .dateTime t => .dateTime t
  | .instance _ fields => .dict (asdictFields fields)
  | .list xs => .list (asdictList xs)
  | .set xs => .set xs
  | .dict entries => .dict (asdictFields entries)

def asdictList : List PyValue → List PyValue
  | [] => []
  | x :: xs => asdictInner x :: asdictList xs

def asdictFields : List (String × PyValue) → List (String × PyValue)
  | [] => []
  | (k, x) :: fields => (k, asdictInner x) :: asdictFields fields
end

/-- An instance of an event dataclass. -/
structure EventObject where
  name : String
  fields : List (String × PyValue)
  version : Int
  tracer : Tracer

/-- The dict that `serialize` returns. -/
structure SerializedEvent where
  name : String
  body : List (String × PyValue)
  createdAt : DateTime
  version : Int
  spanId : String
  parentSpanId : Option String
  traceId : String

namespace EventObject
variable (isoformat : DateTime → String)

mutual
/-- What both loops make of an item. -/
def convertEnum : PyValue → PyValue
  | .dict entries => .dict (convertEnumDict entries)
  | .list xs => .list (convertEnumIterable xs)
  | .set xs => .list (convertEnumIterable xs)
  | .enum _ _ value => value
  | .dateTime t => .scalar (.str (isoformat t))
  | .scalar s => .scalar s
  | .instance cls fields => .instance cls fields

/-- `_convert_enum_dict` -/
def convertEnumDict : List (String × PyValue) → List (String × PyValue)
  | [] => []
  | (k, v) :: target => (k, convertEnum v) :: convertEnumDict target

/-- `_convert_enum_iterable` -/
def convertEnumIterable : List PyValue → List PyValue
  | [] => []
  | v :: target => convertEnum v :: convertEnumIterable target
end

def serialize (e : EventObject) : SerializedEvent where
  name := e.name
  body := convertEnumDict isoformat (asdictFields e.fields)
  createdAt := e.tracer.createdAt
  version := e.version
  spanId := e.tracer.spanId
  parentSpanId := e.tracer.parentSpanId
  traceId := e.tracer.traceId

end EventObject

/-! ## What can be stored -/

/-- The types that a JSON document is made of. -/
def isJson : PyValue → Bool
  | .scalar _ | .list _ | .dict _ => true
  | _ => false

def notInstance : PyValue → Bool
  | .instance _ _ => false
  | _ => true

/-- If it is a set, there is no instance in it, at any depth. -/
def plainSet : PyValue → Bool
  | .set xs => allList notInstance xs
  | _ => true

/-- If it is an enum member, its value is made of JSON types, as a scalar is. -/
def plainMember : PyValue → Bool
  | .enum _ _ value => all isJson value
  | _ => true

/-- Made of JSON types at every depth. -/
def SerializedEvent.Storable (s : SerializedEvent) : Prop := allFields isJson s.body = true

/-- No set of the event, at any depth, holds an instance, at any depth. -/
def EventObject.PlainSets (e : EventObject) : Prop := allFields plainSet e.fields = true

/-- The values of the enum members of the event, at any depth, can be stored. -/
def EventObject.PlainMembers (e : EventObject) : Prop := allFields plainMember e.fields = true

instance (s : SerializedEvent) : Decidable s.Storable := inferInstanceAs (Decidable (_ = true))

instance (e : EventObject) : Decidable e.PlainSets := inferInstanceAs (Decidable (_ = true))

theorem asdictFields_eq (fields : List (String × PyValue)) :
    asdictFields fields = fields.map fun e => (e.1, asdictInner e.2) := by
  induction fields with
  | nil => rfl
  | cons e fields ih => rw [asdictFields, ih, List.map_cons]

theorem asdictList_eq (xs : List PyValue) : asdictList xs = xs.map asdictInner := by
  induction xs with
  | nil => rfl
  | cons x xs ih => rw [asdictList, ih, List.map_cons]

namespace EventObject
variable {isoformat : DateTime → String}

theorem convertEnumDict_eq (target : List (String × PyValue)) :
    convertEnumDict isoformat target = target.map fun e => (e.1, convertEnum isoformat e.2) := by
  induction target with
  | nil => rfl
  | cons e target ih => rw [convertEnumDict, ih, List.map_cons]

theorem convertEnumIterable_eq (target : List PyValue) :
    convertEnumIterable isoformat target = target.map (convertEnum isoformat) := by
  induction target with
  | nil => rfl
  | cons v target ih => rw [convertEnumIterable, ih, List.map_cons]

/-- The conversion opens every container and turns all into JSON but the instances and the
    members that have other values. -/
theorem convertEnum_isJson (v : PyValue) :
    all isJson (convertEnum isoformat v) = true ↔
      all notInstance v = true ∧ all plainMember v = true := by
  induction v using PyValue.induct with
  | scalar s => exact ⟨fun _ => ⟨rfl, rfl⟩, fun _ => rfl⟩
  | enum cls member value ih => exact ⟨fun h => ⟨rfl, h⟩, fun h => h.2⟩
  | dateTime t => exact ⟨fun _ => ⟨rfl, rfl⟩, fun _ => rfl⟩
  | instance_ cls fields ih =>
    refine ⟨fun h => ?_, fun h => ?_⟩
    · cases h
    · cases h.1
  | list xs ih =>
    show allList isJson (convertEnumIterable isoformat xs) = true ↔
      allList notInstance xs = true ∧ allList plainMember xs = true
    rw [convertEnumIterable_eq, allList_map_iff, allList_iff, allList_iff, ← forall₂_and]
    exact forall₂_congr ih
  | set xs ih =>
    show allList isJson (convertEnumIterable isoformat xs) = true ↔
      allList notInstance xs = true ∧ allList plainMember xs = true
    rw [convertEnumIterable_eq, allList_map_iff, allList_iff, allList_iff, ← forall₂_and]
    exact forall₂_congr ih
  | dict entries ih =>
    show allFields isJson (convertEnumDict isoformat entries) = true ↔
      allFields notInstance entries = true ∧ allFields plainMember entries = true
    rw [convertEnumDict_eq, allFields_map_iff, allFields_iff, allFields_iff, ← forall₂_and]
    exact forall₂_congr ih

end EventObject

/-- Without instances there are none in the sets. -/
theorem plainSet_of_notInstance (v : PyValue) (h : all notInstance v = true) :
    all plainSet v = true := by
  induction v using PyValue.induct with
  | scalar s => rfl
  | enum cls member value ih => rfl
  | dateTime t => rfl
  | instance_ cls fields ih => cases h
  | list xs ih =>
    have hxs : allList notInstance xs = true := h
    show allList plainSet xs = true
    rw [allList_iff] at hxs ⊢
    exact fun x hx => ih x hx (hxs x hx)
  | set xs ih =>
    have hxs : allList notInstance xs = true := h
    show (allList notInstance xs && allList plainSet xs) = true
    rw [hxs, Bool.true_and]
    rw [allList_iff] at hxs ⊢
    exact fun x hx => ih x hx (hxs x hx)
  | dict entries ih =>
    have hentries : allFields notInstance entries = true := h
    show allFields plainSet entries = true
    rw [allFields_iff] at hentries ⊢
    exact fun e he => ih e he (hentries e he)

/-- `asdict` leaves the instances that are in sets, and no others. -/
theorem asdictInner_notInstance (v : PyValue) :
    all notInstance (asdictInner v) = true ↔ all plainSet v = true := by
  induction v using PyValue.induct with
  | scalar s => exact Iff.rfl
  | enum cls member value ih => exact Iff.rfl
  | dateTime t => exact Iff.rfl
  | instance_ cls fields ih =>
    show allFields notInstance (asdictFields fields) = true ↔ allFields plainSet fields = true
    rw [asdictFields_eq, allFields_map_iff, allFields_iff]
    exact forall₂_congr ih
  | list xs ih =>
    show allList notInstance (asdictList xs) = true ↔ allList plainSet xs = true
    rw [asdictList_eq, allList_map_iff, allList_iff]
    exact forall₂_congr ih
  | set xs ih =>
    show allList notInstance xs = true ↔ (allList notInstance xs && allList plainSet xs) = true
    rw [Bool.and_eq_true]
    refine ⟨fun h => ⟨h, ?_⟩, And.left⟩
    rw [allList_iff] at h ⊢
    exact fun x hx => plainSet_of_notInstance x (h x hx)
  | dict entries ih =>
    show allFields notInstance (asdictFields entries) = true ↔ allFields plainSet entries = true
    rw [asdictFields_eq, allFields_map_iff, allFields_iff]
    exact forall₂_congr ih

theorem asdictInner_plainMember (v : PyValue) :
    all plainMember (asdictInner v) = true ↔ all plainMember v = true := by
  induction v using PyValue.induct with
  | scalar s => exact Iff.rfl
  | enum cls member value ih => exact Iff.rfl
  | dateTime t => exact Iff.rfl
  | instance_ cls fields ih =>
    show allFields plainMember (asdictFields fields) = true ↔ allFields plainMember fields = true
    rw [asdictFields_eq, allFields_map_iff, allFields_iff]
    exact forall₂_congr ih
  | list xs ih =>
    show allList plainMember (asdictList xs) = true ↔ allList plainMember xs = true
    rw [asdictList_eq, allList_map_iff, allList_iff]
    exact forall₂_congr ih
  | set xs ih => exact Iff.rfl
  | dict entries ih =>
    show allFields plainMember (asdictFields entries) = true ↔
      allFields plainMember entries = true
    rw [asdictFields_eq, allFields_map_iff, allFields_iff]
    exact forall₂_congr ih

/-- The body of an event can be stored if and only if no set in it holds an instance and the
    values of its enum members are JSON. -/
theorem serialize_storable_iff (isoformat : DateTime → String) (e : EventObject) :
    (e.serialize isoformat).Storable ↔ e.PlainSets ∧ e.PlainMembers := by
  have hbody : (e.serialize isoformat).body =
      e.fields.map fun f => (f.1, EventObject.convertEnum isoformat (asdictInner f.2)) := by
    show EventObject.convertEnumDict isoformat (asdictFields e.fields) = _
    rw [EventObject.convertEnumDict_eq, asdictFields_eq, List.map_map]
    rfl
  unfold SerializedEvent.Storable EventObject.PlainSets EventObject.PlainMembers
  rw [hbody, allFields_iff, allFields_iff, allFields_iff, List.forall_mem_map, ← forall₂_and]
  refine forall₂_congr fun f _ => ?_
  rw [EventObject.convertEnum_isJson, asdictInner_notInstance, asdictInner_plainMember]

/-- An event whose field `members` is a set of one user. -/
def eventWithMembers : EventObject where
  name := "MembersAdded"
  fields := [("members", .set [.instance "User" [("id", .scalar (.str "u"))]])]
  version := 1
  tracer := ⟨0, "span", none, "span"⟩

theorem user_in_set_not_storable : ¬(eventWithMembers.serialize toString).Storable := by decide

/-! ## The events of the service -/

namespace Json

mutual
/-- A JSON document as the values it is read into. -/
def toValue : Json → PyValue
  | .null => .scalar .none
  | .num n => .scalar (.int n)
  | .str s => .scalar (.str s)
  | .arr xs => .list (toValueList xs)
  | .obj fields => .dict (toValueFields fields)

def toValueList : List Json → List PyValue
  | [] => []
  | x :: xs => toValue x :: toValueList xs

def toValueFields : List (String × Json) → List (String × PyValue)
  | [] => []
  | (k, x) :: fields => (k, toValue x) :: toValueFields fields
end

end Json

def optText : Option String → PyValue
  | none => .scalar .none
  | some s => .scalar (.str s)

def User.toValue (u : User) : PyValue :=
  .instance "User" [("id", optText u.id), ("organization_id", optText u.organizationId),
    ("name", optText u.name), ("email", optText u.email), ("mobile", optText u.mobile)]

def YourValueObject.toValue (v : YourValueObject) : PyValue :=
  .instance "YourValueObject"
    [("property_a", .scalar (.str v.propertyA)), ("property_b", .scalar (.int v.propertyB))]

/-- The dataclass fields of the four events. -/
def EventBody.fields : EventBody → List (String × PyValue)
  | yourAggregateCreated id v d | yourAggregateUpdated id v d =>
    [("your_aggregate_id", .scalar (.str id)), ("your_value_object", v.toValue),
      ("doer", d.toValue)]
  | yourAggregateDeleted id d | yourAggregateVoided id d =>
    [("your_aggregate_id", .scalar (.str id)), ("doer", d.toValue)]

/-- An event and its tracer, as an object of its dataclass. -/
def EventBody.toObject (b : EventBody) (t : Tracer) : EventObject :=
  ⟨b.name, b.fields, DomainEvent.VERSION, t⟩

theorem User.convert_asdict (isoformat : DateTime → String) (u : User) :
    EventObject.convertEnum isoformat (asdictInner u.toValue) = u.asdict.toValue := by
  obtain ⟨id, organizationId, name, email, mobile⟩ := u
  have hopt : ∀ o, EventObject.convertEnum isoformat (asdictInner (optText o)) =
      (Json.optStr o).toValue := by
    intro o
    cases o <;> rfl
  simp only [User.toValue, User.asdict, asdictInner, asdictFields, EventObject.convertEnum,
    EventObject.convertEnumDict, Json.toValue, Json.toValueFields, hopt]

theorem EventBody.serialize_body (isoformat : DateTime → String) (b : EventBody) (t : Tracer) :
    PyValue.dict ((b.toObject t).serialize isoformat).body = b.asdict.toValue := by
  cases b <;>
    simp only [EventBody.toObject, EventObject.serialize, EventBody.fields, EventBody.asdict,
      asdictFields, EventObject.convertEnumDict, User.convert_asdict, Json.toValue,
      Json.toValueFields] <;> rfl

theorem EventBody.plain (b : EventBody) (t : Tracer) :
    (b.toObject t).PlainSets ∧ (b.toObject t).PlainMembers := by
  have hset : ∀ o, all plainSet (optText o) = true := by
    intro o
    cases o <;> rfl
  have hmember : ∀ o, all plainMember (optText o) = true := by
    intro o
    cases o <;> rfl
  unfold EventObject.PlainSets EventObject.PlainMembers
  cases b <;>
    simp [EventBody.toObject, EventBody.fields, User.toValue, YourValueObject.toValue, allFields,
      all, plainSet, plainMember, hset, hmember]

end DddService
