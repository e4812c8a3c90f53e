import DddService.Ledger
import DddService.Repository
import Mathlib.Data.List.Forall2

/- The tables as a ledger. `Represents` relates a database to a ledger store: each
   row holds the aggregate of its slot, the domain events are the log, and each
   log entry has its archive row. Ids, times and tracing fields are left open.

   One save is one entry: `Represents.save` says that the writes of a save take a
   database that represents a store to one that represents the store after one
   `append`. -/
namespace DddService
open EventLog

/-! ## The ledger of the service -/

abbrev Change := Ledger.Change YourValueObject User
abbrev Aggregate := Ledger.Aggregate YourValueObject User
abbrev Slot := Ledger.Slot YourValueObject User
abbrev Store := Ledger.Store String YourValueObject User
abbrev machine := Ledger.machine YourValueObject User

/-- The event a change of the aggregate `id` is stored as. -/
def bodyOf (id : String) : Change → EventBody
  | .created v d => .yourAggregateCreated id v d
  | .updated v d => .yourAggregateUpdated id v d
  | .voided d => .yourAggregateVoided id d
  | .deleted d => .yourAggregateDeleted id d

def statusOf (voided : Bool) : YourAggregateStatus := if voided then .voided else .created

/-- What a history entry says, its time aside. -/
def OperationHistory.content (h : OperationHistory) :
    OperationHistoryType × List OperationHistoryData × User := (h.type, h.data, h.doer)

/-- What the entry of a record says. -/
def recordContent (mixin : DataclassMixin) : Ledger.Record YourValueObject User →
    OperationHistoryType × List OperationHistoryData × User
  | .created d => (.created, [], d)
  | .updated b a d => (.updated, if b = a then [] else [⟨"your_value_object",
      mixin.serializeValueObject b, mixin.serializeValueObject a⟩], d)
  | .voided d => (.voided, [⟨"status", .str "created", .str "voided"⟩], d)

/-- The aggregate a slot holds, or held when it was deleted. -/
def lastOf : Slot → Option Aggregate
  | .absent => none
  | .live a => some a
  | .deleted a => some a

def isDeleted : Slot → Bool
  | .deleted _ => true
  | _ => false

/-! ## Rows -/

/-- The columns hold the aggregate `g`. -/
structure StoredAs (mixin : DataclassMixin) (id : String) (m : YourAggregateMixin)
    (g : Aggregate) : Prop where
  key : m.id = id
  value : m.yourValueObject = mixin.serializeValueObject g.value
  status : m.status = (statusOf g.voided).value
  histories : ∃ hs : List OperationHistory, m.operationHistories = hs.map mixin.serializeHistory ∧
    hs.map OperationHistory.content = g.history.map (recordContent mixin)
  creator : m.creator = mixin.serializeUser g.creator

/-- The row of an id, if its slot is live; no row otherwise. -/
def RowIs (mixin : DataclassMixin) (id : String) (row : Option YourAggregateModel) (s : Slot) : Prop :=
  match s.aggregate? with
  | none => row = none
  | some g => ∃ m, row = some m ∧ StoredAs mixin id m.toYourAggregateMixin g ∧ m.createdAt.isSome = true

/-- The archive row of a log entry. -/
def ArchiveIs (mixin : DataclassMixin) (r : YourAggregateArchiveModel)
    (e : Entry String Slot Change) : Prop :=
  ∃ g, lastOf e.after = some g ∧ StoredAs mixin e.key r.toYourAggregateMixin g ∧
    r.doer = some (mixin.serializeUser (bodyOf e.key e.event).doer) ∧
    r.eventName = some (bodyOf e.key e.event).name

/-- The event columns of a log entry. -/
def eventColumns (e : Entry String Slot Change) : String × Json :=
  ((bodyOf e.key e.event).name, (bodyOf e.key e.event).asdict)

/-- Every row has the history entries that its last archive row has, with their times. -/
def Database.ArchivedLast (db : Database) : Prop :=
  ∀ id m, db.yourAggregate id = some m →
    ∃ r, (db.yourAggregateArchive.filter fun r => r.id = id).getLast? = some r ∧
      r.operationHistories = m.operationHistories

structure Represents (mixin : DataclassMixin) (db : Database) (L : Store) : Prop where
  rows : ∀ id, RowIs mixin id (db.yourAggregate id) (L.state id)
  events : db.domainEvent.map (fun r => (r.name, r.body)) = L.log.map eventColumns
  archives : List.Forall₂ (ArchiveIs mixin) db.yourAggregateArchive L.log
  archivedLast : db.ArchivedLast

theorem represents_empty (mixin : DataclassMixin) :
    Represents mixin Database.empty (EventLog.Store.init machine) where
  rows := fun _ => rfl
  events := rfl
  archives := List.Forall₂.nil
  archivedLast := fun _ _ h => nomatch h

/-! ## The entity -/

/-- The entity's fields hold the aggregate `g`. -/
structure Holds (mixin : DataclassMixin) (a : YourAggregate) (g : Aggregate) : Prop where
  value : a.yourValueObject = g.value
  status : a.status = statusOf g.voided
  histories : a.operationHistories.map OperationHistory.content = g.history.map (recordContent mixin)
  creator : a.creator = g.creator

/-- An entity as it is after loading: it holds `g` and has no events. -/
structure Loaded (mixin : DataclassMixin) (id : String) (a : YourAggregate) (g : Aggregate) : Prop
    extends Holds mixin a g where
  key : a.id = id
  isDelete : a.isDelete = false
  events : a.domainEvents = []

/-- An entity ready to be saved: it holds what `c` makes of the slot `s`, and its
    one event is `c`'s. -/
structure Ready (mixin : DataclassMixin) (id : String) (s : Slot) (c : Change) (a : YourAggregate)
    (s' : Slot) (g : Aggregate) : Prop extends Holds mixin a g where
  key : a.id = id
  isArchive : a.isArchive = true
  isDelete : a.isDelete = isDeleted s'
  events : a.domainEvents.map DomainEvent.body = [bodyOf id c]
  step : Ledger.next s c = some s'
  last : lastOf s' = some g

section
variable {mixin : DataclassMixin} {id : String}

theorem statusOf_voided_iff (b : Bool) : statusOf b = .voided ↔ b = true := by
  cases b <;> simp [statusOf]

theorem modelToEntity_stored {env : Env} {m : YourAggregateModel} {g : Aggregate}
    (h : StoredAs env.mixin id m.toYourAggregateMixin g) (hc : m.createdAt.isSome = true) :
    ∃ a, YourAggregateRepository.modelToEntity env m = .ok a ∧ Loaded env.mixin id a g := by
  obtain ⟨hs, hhs, hcont⟩ := h.histories
  obtain ⟨t, ht⟩ := Option.isSome_iff_exists.mp hc
  refine ⟨YourAggregate.mk' m.id g.value (statusOf g.voided) hs g.creator (some t) m.updatedAt, ?_,
    ⟨⟨rfl, rfl, hcont, rfl⟩, h.key, rfl, rfl⟩⟩
  unfold YourAggregateRepository.modelToEntity
  rw [h.value, h.status, h.creator, hhs, ht, env.mixin.createValueObject_serialize,
    YourAggregateStatus.ofValue_value, env.mixin.mapM_createHistory, env.mixin.createUser_serialize]
  rfl

/-! ## The operations are the machine's steps -/

theorem deleteYourAggregate_ready {a : YourAggregate} {g : Aggregate} (h : Loaded mixin id a g)
    (doer : User) : ∃ a', (YourAggregate.deleteYourAggregate doer).call a = .ok a' ∧
      Ready mixin id (.live g) (.deleted doer) a' (.deleted g) g := by
  refine ⟨_, rfl, ⟨⟨h.value, h.status, h.histories, h.creator⟩, h.key, rfl, rfl, ?_, rfl, rfl⟩⟩
  change (a.domainEvents ++ [DomainEvent.mk (.yourAggregateDeleted a.id doer) none]).map _ = _
  rw [h.events, h.key]
  rfl

/-- Voiding either is the machine's step, or raises because there is none. -/
theorem voidYourAggregate_ready {a : YourAggregate} {g : Aggregate} (h : Loaded mixin id a g)
    (now : DateTime) (doer : User) :
    (∃ a', (YourAggregate.voidYourAggregate now doer).call a = .ok a' ∧
      Ready mixin id (.live g) (.voided doer) a' (.live (g.void doer)) (g.void doer)) ∨
    (∃ e, (YourAggregate.voidYourAggregate now doer).call a = .error e ∧
      Ledger.next (.live g) (.voided doer) = none) := by
  unfold YourAggregateM.call
  rw [YourAggregate.voidYourAggregate_run]
  cases hv : g.voided with
  | true =>
    rw [if_pos (by rw [h.status, statusOf_voided_iff]; exact hv)]
    exact Or.inr ⟨_, rfl, by simp [Ledger.next, hv]⟩
  | false =>
    have hst : ¬a.status = .voided := by rw [h.status, statusOf_voided_iff, hv]; simp
    rw [if_neg hst]
    refine Or.inl ⟨_, rfl, ⟨⟨h.value, rfl, ?_, h.creator⟩, h.key, rfl, h.isDelete, ?_,
      by simp [Ledger.next, hv], rfl⟩⟩
    · change (a.operationHistories ++ [_]).map _ = (g.history ++ [_]).map _
      rw [List.map_append, List.map_append, h.histories]
      rfl
    · change (a.domainEvents ++ [DomainEvent.mk (.yourAggregateVoided a.id doer) none]).map _ = _
      rw [h.events, h.key]
      rfl

theorem updateYourAggregate_ready {a : YourAggregate} {g : Aggregate} (h : Loaded mixin id a g)
    (now : DateTime) (v : YourValueObject) (doer : User) :
    (∃ a', (YourAggregate.updateYourAggregate mixin now v doer).call a = .ok a' ∧
      Ready mixin id (.live g) (.updated v doer) a' (.live (g.update v doer)) (g.update v doer)) ∨
    (∃ e, (YourAggregate.updateYourAggregate mixin now v doer).call a = .error e ∧
      Ledger.next (.live g) (.updated v doer) = none) := by
  unfold YourAggregateM.call
  rw [YourAggregate.updateYourAggregate_run]
  cases hv : g.voided with
  | true =>
    rw [if_pos (by rw [h.status, statusOf_voided_iff]; exact hv)]
    exact Or.inr ⟨_, rfl, by simp [Ledger.next, hv]⟩
  | false =>
    have hst : ¬a.status = .voided := by rw [h.status, statusOf_voided_iff, hv]; simp
    rw [if_neg hst]
    refine Or.inl ⟨_, rfl, ⟨⟨rfl, h.status, ?_, h.creator⟩, h.key, rfl, h.isDelete, ?_,
      by simp [Ledger.next, hv], rfl⟩⟩
    · change (a.operationHistories ++ [_]).map _ = (g.history ++ [_]).map _
      rw [List.map_append, List.map_append, h.histories]
      simp only [List.map_singleton, OperationHistory.content, recordContent, h.value]
    · change (a.domainEvents ++ [DomainEvent.mk (.yourAggregateUpdated a.id v doer) none]).map _ = _
      rw [h.events, h.key]
      rfl

theorem createYourAggregate_ready (now : DateTime) (id : String) (v : YourValueObject)
    (creator : User) : ∃ a, YourAggregate.createYourAggregate now id v creator = .ok a ∧
      Ready mixin id .absent (.created v creator) a (.live (.create v creator)) (.create v creator) :=
  ⟨_, YourAggregate.createYourAggregate_eq now creator id v,
    ⟨⟨rfl, rfl, rfl, rfl⟩, rfl, rfl, rfl, rfl, rfl, rfl⟩⟩

/-! ## One save, one entry -/

def archiveRow (env : Env) (archiveId : String) (t : Tracer) (b : EventBody)
    (model : YourAggregateModel) : YourAggregateArchiveModel :=
  { model with
    archiveId, doer := some (env.mixin.serializeUser b.doer), eventName := some b.name
    eventSpanId := some t.spanId, eventTraceId := some t.traceId }

def eventRow (t : Tracer) (b : EventBody) : DomainEventModel :=
  { name := b.name, body := b.asdict, version := DomainEvent.VERSION, createdAt := t.createdAt
    spanId := t.spanId, parentSpanId := t.parentSpanId, traceId := t.traceId }

/-- What a save of `a` writes, whose one event is `b`. -/
def saveWrites (env : Env) (archiveId : String) (t : Tracer) (b : EventBody) (a : YourAggregate)
    (found : Option YourAggregateModel) : List Pending :=
  let model := YourAggregateRepository.modelOf env a found
  [if a.isDelete then .delete model.id else .add model,
    .addArchive (archiveRow env archiveId t b model), .addEvent (eventRow t b)]

theorem next_creator {g g' : Aggregate} {c : Change} {s' : Slot}
    (h : Ledger.next (.live g) c = some s') (hl : lastOf s' = some g') : g'.creator = g.creator := by
  rcases Ledger.next_cases h with ⟨_, _, hs, _⟩ | ⟨a, v, d, hs, _, _, rfl⟩ | ⟨a, d, hs, _, _, rfl⟩ |
    ⟨a, d, hs, _, rfl⟩ <;> cases hs <;> cases hl <;> rfl

theorem modelOf_stored {env : Env} {s s' : Slot} {c : Change} {a : YourAggregate} {g : Aggregate}
    {found : Option YourAggregateModel} (h : Ready env.mixin id s c a s' g)
    (hrow : RowIs env.mixin id found s) :
    StoredAs env.mixin id (YourAggregateRepository.modelOf env a found).toYourAggregateMixin g := by
  refine ⟨h.key, congrArg _ h.value, congrArg YourAggregateStatus.value h.status, ⟨_, rfl, h.histories⟩, ?_⟩
  cases found with
  | none => exact congrArg _ h.creator
  | some m =>
    cases s with
    | live g₀ =>
      obtain ⟨m', hm, hst, _⟩ := hrow
      cases hm
      change m.creator = _
      rw [hst.creator, next_creator h.step h.last]
    | absent => cases hrow
    | deleted g₀ => cases hrow

theorem StoredAs.archived {m : YourAggregateMixin} {g : Aggregate} (h : StoredAs mixin id m g)
    {m' : YourAggregateMixin} (hid : m'.id = m.id) (hv : m'.yourValueObject = m.yourValueObject)
    (hs : m'.status = m.status) (hh : m'.operationHistories = m.operationHistories)
    (hc : m'.creator = m.creator) : StoredAs mixin id m' g := by
  obtain ⟨h1, h2, h3, h4, h5⟩ := h
  exact ⟨hid.trans h1, hv.trans h2, hs.trans h3, by rw [hh]; exact h4, hc.trans h5⟩

/-- The first of the writes of a save, on the row it is about. -/
theorem persisted_row {env : Env} {db : Database} {s s' : Slot} {c : Change} {a : YourAggregate}
    {g : Aggregate} (now : DateTime) (h : Ready env.mixin id s c a s' g)
    (hrow : RowIs env.mixin id (db.yourAggregate id) s) :
    let model := YourAggregateRepository.modelOf env a (db.yourAggregate id)
    let db' := db.write now (if a.isDelete then .delete model.id else .add model)
    RowIs env.mixin id (db'.yourAggregate id) s' ∧
      (∀ id', id' ≠ id → db'.yourAggregate id' = db.yourAggregate id') ∧
      db'.yourAggregateArchive = db.yourAggregateArchive ∧ db'.domainEvent = db.domainEvent := by
  intro model db'
  have hstored : StoredAs env.mixin id model.toYourAggregateMixin g := modelOf_stored h hrow
  have hid : model.id = id := h.key
  cases hd : isDeleted s' with
  | true =>
    have hdb : db' = db.write now (.delete id) := by
      simp only [db', h.isDelete, hd, if_true, hid]
    rw [hdb]
    refine ⟨?_, fun id' hne => Function.update_of_ne hne _ _, rfl, rfl⟩
    cases s' with
    | deleted g' => exact Function.update_self _ _ _
    | absent => cases hd
    | live g' => cases hd
  | false =>
    have hdb : db' = db.write now (.add model) := by
      simp only [db', h.isDelete, hd, Bool.false_eq_true, if_false]
    rw [hdb]
    simp only [Database.write, hid]
    refine ⟨?_, fun id' hne => Function.update_of_ne hne _ _, trivial, trivial⟩
    rw [Function.update_self]
    have hl := h.last
    cases s' with
    | deleted g' => cases hd
    | absent => cases hl
    | live g' =>
      cases hl
      cases hf : db.yourAggregate id with
      | none => exact ⟨_, rfl, hstored.archived hid.symm rfl rfl rfl rfl, rfl⟩
      | some old =>
        obtain ⟨updatedAt, hupdate⟩ := model.updateRow_cases old now
        refine ⟨_, congrArg some hupdate, hstored.archived rfl rfl rfl rfl rfl, ?_⟩
        -- the row was there, and keeps its creation time
        cases s with
        | live g₀ =>
          obtain ⟨m', hm, _, hc⟩ := hrow
          rw [hf] at hm
          cases hm
          exact hc
        | absent => rw [hf] at hrow; cases hrow
        | deleted g₀ => rw [hf] at hrow; cases hrow

/-- A row that the first of the writes leaves has the history entries of the row's object. -/
theorem persisted_histories {d : Database} {now : DateTime} {deleted : Bool}
    {model m : YourAggregateModel}
    (h : (d.write now (if deleted then .delete model.id else .add model)).yourAggregate model.id =
      some m) : m.operationHistories = model.operationHistories := by
  cases deleted with
  | true =>
    change Function.update d.yourAggregate model.id none model.id = some m at h
    rw [Function.update_self] at h
    cases h
  | false =>
    change Function.update d.yourAggregate model.id _ model.id = some m at h
    rw [Function.update_self] at h
    cases h
    cases d.yourAggregate model.id with
    | none => rfl
    | some old =>
      obtain ⟨updatedAt, hupdate⟩ := model.updateRow_cases old now
      exact congrArg (·.operationHistories) hupdate

/-- The writes of one save are one entry of the ledger. -/
theorem Represents.save {env : Env} {db : Database} {L : Store} (hrep : Represents env.mixin db L)
    {c : Change} {a : YourAggregate} {s' : Slot} {g : Aggregate} (now : DateTime)
    (h : Ready env.mixin id (L.state id) c a s' g) (archiveId : String) (t : Tracer) :
    ∃ L', L.append machine id c = some L' ∧ Represents env.mixin (db.writeAll now
      (saveWrites env archiveId t (bodyOf id c) a (db.yourAggregate id))) L' := by
  obtain ⟨hself, hother, harch, hevs⟩ := persisted_row now h (hrep.rows id)
  have hstored := modelOf_stored h (hrep.rows id)
  have hid : (YourAggregateRepository.modelOf env a (db.yourAggregate id)).id = id := h.key
  refine ⟨⟨Function.update L.state id s', L.log ++ [⟨id, c, L.state id, s'⟩]⟩, ?_, ?_, ?_, ?_, ?_⟩
  · have hstep : machine.next (L.state id) c = some s' := h.step
    simp [EventLog.Store.append, hstep]
  · intro id'
    by_cases hid : id' = id
    · subst hid
      change RowIs env.mixin id' _ (Function.update L.state id' s' id')
      rw [Function.update_self]
      exact hself
    · change RowIs env.mixin id' _ (Function.update L.state id s' id')
      rw [Function.update_of_ne hid]
      have := hrep.rows id'
      rw [← hother id' hid] at this
      exact this
  · change ((Database.write now db _).domainEvent ++ [eventRow t (bodyOf id c)]).map _ = _
    rw [hevs, List.map_append, List.map_append, hrep.events]
    rfl
  · change List.Forall₂ _ ((Database.write now db _).yourAggregateArchive ++ [_]) _
    rw [harch]
    refine List.rel_append hrep.archives (List.Forall₂.cons ?_ List.Forall₂.nil)
    exact ⟨g, h.last, hstored.archived rfl rfl rfl rfl rfl, rfl, rfl⟩
  · intro id' m hm
    change (Database.write now db _).yourAggregate id' = some m at hm
    change ∃ r, (((Database.write now db _).yourAggregateArchive ++
      [archiveRow env archiveId t (bodyOf id c) _]).filter _).getLast? = some r ∧ _
    rw [harch, List.filter_append]
    by_cases hne : id' = id
    · -- the save's own archive row is the last one
      subst hne
      rw [List.filter_cons_of_pos (by exact decide_eq_true hid), List.filter_nil,
        List.getLast?_concat]
      rw [← hid] at hm
      exact ⟨_, rfl, (persisted_histories hm).symm⟩
    · rw [List.filter_cons_of_neg (by exact fun h' => hne ((of_decide_eq_true h').symm.trans hid)),
        List.filter_nil, List.append_nil]
      rw [hother id' hne] at hm
      exact hrep.archivedLast id' m hm

end

end DddService
