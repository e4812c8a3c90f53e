import DddService.Serializability

/- The archive table as a history of versions. A save adds one archive row and one event
   row, so the rows of the two tables go in pairs; the archive row says what the id's events
   up to its own make of the aggregate, except that a deletion archives the aggregate as it
   was (`IsVersion`). What the table has of an id is its last archive row.

   This holds after every run of calls, and of what any number of concurrent calls have
   committed under any schedule (`archive_is_version_history`). -/
namespace DddService
open EventLog Locking

/-! ## Words without their deletion -/

namespace Ledger
variable {V D : Type}

def Change.isDeletion : Change V D → Bool
  | .deleted _ => true
  | _ => false

/-- The slot before its deletion. -/
def Slot.undeleted : Slot V D → Slot V D
  | .deleted a => .live a
  | s => s

theorem run_undeleted : ∀ (es : List (Change V D)) (s : Slot V D),
    (machine V D).run .absent es = some s →
    (machine V D).run .absent (es.filter fun c => !c.isDeletion) = some s.undeleted := by
  refine (machine V D).run_induction (R := fun es s =>
    (machine V D).run .absent (es.filter fun c => !c.isDeletion) = some s.undeleted) rfl ?_
  intro es s e s' h hn
  rw [List.filter_append]
  rcases next_cases hn with ⟨x, y, rfl, rfl, rfl⟩ | ⟨a, x, y, rfl, ha, rfl, rfl⟩ |
    ⟨a, y, rfl, ha, rfl, rfl⟩ | ⟨a, y, rfl, rfl, rfl⟩
  · exact (machine V D).run_snoc h hn
  · exact (machine V D).run_snoc h hn
  · exact (machine V D).run_snoc h hn
  · -- the deletion is left out, and the slot was the aggregate's
    rw [show [Change.deleted y].filter (fun c => !c.isDeletion) = [] from rfl, List.append_nil]
    exact h

end Ledger

/-! ## Versions -/

def EventBody.isDeletion : EventBody → Bool
  | .yourAggregateDeleted _ _ => true
  | _ => false

/-- The events of an id that made it what it is, or was when it was deleted. -/
def livingEvents (id : String) (rows : List DomainEventModel) : List EventBody :=
  (eventsOf id rows).filter fun b => !b.isDeletion

/-- The entries record the events, one for one. -/
def Trails (mixin : DataclassMixin) (events : List EventBody) (entries : List Json) : Prop :=
  ∃ hs : List OperationHistory, entries = hs.map mixin.serializeHistory ∧
    hs.length = events.length ∧
    ∀ k e entry, events[k]? = some e → hs[k]? = some entry →
      Records mixin (valueInForce (events.take k)) entry e

/-- The columns say what the events make of the aggregate `id`. -/
structure Tells (mixin : DataclassMixin) (id : String) (events : List EventBody)
    (m : YourAggregateMixin) : Prop where
  id : m.id = id
  columns : (foldEvents events).map (fun (v, status, creator) =>
    (mixin.serializeValueObject v, status, mixin.serializeUser creator)) =
      some (m.yourValueObject, m.status, m.creator)
  histories : Trails mixin events m.operationHistories

/-- The archive row of the event row `e`, the last of `rows`. -/
structure IsVersion (mixin : DataclassMixin) (rows : List DomainEventModel)
    (e : DomainEventModel) (r : YourAggregateArchiveModel) : Prop where
  event : ∃ b, e.event? = some b ∧ r.id = b.yourAggregateId ∧ r.eventName = some b.name ∧
    r.doer = some (mixin.serializeUser b.doer)
  tells : Tells mixin r.id (livingEvents r.id rows) r.toYourAggregateMixin

/-- The row of `id` is its last version, with its operation histories, and there is none when
    that was a deletion. -/
def RestoredFrom (archives : List YourAggregateArchiveModel) (id : String) :
    Option YourAggregateModel → Prop
  | none => ∀ r, (archives.filter fun r => r.id = id).getLast? = some r →
      r.eventName = some "YourAggregateDeleted"
  | some m => ∃ r, (archives.filter fun r => r.id = id).getLast? = some r ∧
      r.eventName ≠ some "YourAggregateDeleted" ∧
      (r.yourValueObject, r.status, r.operationHistories, r.creator) =
        (m.yourValueObject, m.status, m.operationHistories, m.creator)

section
variable {mixin : DataclassMixin} {db : Database} {L : Store}

theorem isDeletion_bodyOf (id : String) (c : Change) : (bodyOf id c).isDeletion = c.isDeletion := by
  cases c <;> rfl

theorem StoredAs.tells {id : String} {m : YourAggregateMixin} {g : Aggregate} {cs : List Change}
    (h : StoredAs mixin id m g) (hrun : machine.run .absent cs = some (.live g)) :
    Tells mixin id (cs.map (bodyOf id)) m := by
  have hreplay := Ledger.replay_value _ _ hrun
  obtain ⟨⟨hlen, haudit⟩, -⟩ : Ledger.Trail cs (.live g) := Ledger.audit_trail _ _ hrun
  obtain ⟨entries, hser, hcont⟩ := h.histories
  have hlen' : entries.length = g.history.length := by
    have := congrArg List.length hcont
    simpa using this
  refine ⟨h.key, ?_, entries, hser, by rw [List.length_map, hlen', hlen], ?_⟩
  · rw [foldEvents_bodies, hreplay, h.value, h.status, h.creator]
    rfl
  · intro k e entry he hentry
    rw [List.getElem?_map, Option.map_eq_some_iff] at he
    obtain ⟨c, hc, rfl⟩ := he
    have hcontk := congrArg (fun l => l[k]?) hcont
    simp only [List.getElem?_map, hentry, Option.map_some] at hcontk
    obtain ⟨r, hr, hrc⟩ := Option.map_eq_some_iff.mp hcontk.symm
    rw [← List.map_take, valueInForce_bodies]
    exact records_of_record id (haudit k c r hc hr) hrc.symm

theorem livingEvents_eq {rows : List DomainEventModel} {log : List (Entry String Slot Change)}
    (h : rows.map (fun r => (r.name, r.body)) = log.map eventColumns) (id : String) :
    livingEvents id rows =
      ((EventLog.Store.wordOf log id).filter fun c => !c.isDeletion).map (bodyOf id) := by
  unfold livingEvents eventsOf
  rw [read_log rows log h, filter_log, List.filter_map]
  congr 1
  exact List.filter_congr fun c _ => congrArg (!·) (isDeletion_bodyOf id c)

/-- The slot of the log entry that has the aggregate, or had it before its deletion. -/
theorem undeleted_of_lastOf {s : Slot} {g : Aggregate} (h : lastOf s = some g) :
    s.undeleted = .live g := by
  cases s with
  | absent => cases h
  | live a => cases h; rfl
  | deleted a => cases h; rfl

theorem Represents.archived_at (h : Represents mixin db L) {k : Nat}
    {r : YourAggregateArchiveModel} (hr : db.yourAggregateArchive[k]? = some r) :
    ∃ entry, L.log[k]? = some entry ∧ ArchiveIs mixin r entry := by
  obtain ⟨hlt, rfl⟩ := List.getElem?_eq_some_iff.mp hr
  have hlt' : k < L.log.length := h.archives.length_eq ▸ hlt
  exact ⟨_, List.getElem?_eq_getElem hlt', h.archives.get hlt hlt'⟩

theorem Represents.isVersion (h : Represents mixin db L)
    (hl : EventLog.Store.Leads machine (EventLog.Store.init machine) L) {k : Nat}
    {e : DomainEventModel} {r : YourAggregateArchiveModel} (he : db.domainEvent[k]? = some e)
    (hr : db.yourAggregateArchive[k]? = some r) :
    IsVersion mixin (db.domainEvent.take (k + 1)) e r := by
  obtain ⟨entry, hentry, g, hlast, hstored, hdoer, hname⟩ := h.archived_at hr
  have hcolumns : (e.name, e.body) = eventColumns entry := by
    have hevents := congrArg (fun l => l[k]?) h.events
    simp only [List.getElem?_map, he, hentry, Option.map_some] at hevents
    exact Option.some.inj hevents
  have hbody : e.event? = some (bodyOf entry.key entry.event) :=
    DomainEventModel.event_asdict hcolumns
  have hid : r.id = entry.key := hstored.key
  obtain ⟨hrun, hnext⟩ := hl.chained.1 k entry hentry
  have htake : EventLog.Store.wordOf (L.log.take (k + 1)) entry.key =
      EventLog.Store.wordOf (L.log.take k) entry.key ++ [entry.event] := by
    rw [List.take_add_one, hentry, EventLog.Store.wordOf_append]
    exact congrArg _ (EventLog.Store.wordOf_single_self ..)
  have hword := Ledger.run_undeleted _ _ (machine.run_snoc hrun hnext)
  rw [undeleted_of_lastOf hlast, ← htake] at hword
  refine ⟨⟨_, hbody, ?_, hname, hdoer⟩, ?_⟩
  · rw [hid, bodyOf_yourAggregateId]
  · have hevents : (db.domainEvent.take (k + 1)).map (fun r => (r.name, r.body)) =
        (L.log.take (k + 1)).map eventColumns := by
      rw [List.map_take, List.map_take, h.events]
    rw [hid, livingEvents_eq hevents]
    exact hstored.tells hword

theorem isDeletion_iff {s s' : Slot} {c : Change} (h : Ledger.next s c = some s') :
    c.isDeletion = true ↔ isDeleted s' = true := by
  rcases Ledger.next_cases h with ⟨_, _, -, rfl, rfl⟩ | ⟨_, _, _, -, -, rfl, rfl⟩ |
    ⟨_, _, -, -, rfl, rfl⟩ | ⟨_, _, -, rfl, rfl⟩ <;> simp [Ledger.Change.isDeletion, isDeleted]

theorem name_eq_deleted_iff (id : String) (c : Change) :
    (bodyOf id c).name = "YourAggregateDeleted" ↔ c.isDeletion = true := by
  cases c <;> simp [bodyOf, EventBody.name, Ledger.Change.isDeletion]

theorem Represents.restoredFrom (h : Represents mixin db L)
    (hl : EventLog.Store.Leads machine (EventLog.Store.init machine) L) (id : String) :
    RestoredFrom db.yourAggregateArchive id (db.yourAggregate id) := by
  obtain ⟨hchained, hlatest⟩ := hl.chained
  have hfilter : List.Forall₂ (ArchiveIs mixin)
      (db.yourAggregateArchive.filter fun r => r.id = id) (L.log.filter fun e => e.key = id) := by
    refine List.rel_filter (fun r e hre => ?_) h.archives
    obtain ⟨g, -, hstored, -⟩ := hre
    simp [hstored.key]
  have hlast := Lists.forall₂_getLast? hfilter
  have hrow := h.rows id
  rw [hlatest id] at hrow
  unfold EventLog.Store.latest at hrow
  cases hentry : (L.log.filter fun e => e.key = id).getLast? with
  | none =>
    rw [hentry] at hlast hrow
    have hnone : db.yourAggregate id = none := hrow
    rw [hnone]
    intro r hr
    rw [hr] at hlast
    cases hlast
  | some entry =>
    rw [hentry] at hlast hrow
    change RowIs mixin id (db.yourAggregate id) entry.after at hrow
    obtain ⟨r, hr, hre⟩ : ∃ r, (db.yourAggregateArchive.filter fun r => r.id = id).getLast? =
        some r ∧ ArchiveIs mixin r entry := by
      generalize (db.yourAggregateArchive.filter fun r => r.id = id).getLast? = o at hlast
      cases hlast with
      | some hre => exact ⟨_, rfl, hre⟩
    obtain ⟨g, hg, hstored, -, hname⟩ := hre
    obtain ⟨k, hk⟩ :=
      List.mem_iff_getElem?.mp (List.mem_of_mem_filter (List.mem_of_getLast? hentry))
    have hdeleted : r.eventName = some "YourAggregateDeleted" ↔ isDeleted entry.after = true := by
      rw [hname, ← isDeletion_iff (hchained k entry hk).2, ← name_eq_deleted_iff entry.key,
        Option.some.injEq]
    cases hafter : entry.after with
    | absent => rw [hafter] at hg; cases hg
    | deleted g' =>
      rw [hafter] at hrow hdeleted
      have hnone : db.yourAggregate id = none := hrow
      rw [hnone]
      intro r' hr'
      rw [hr] at hr'
      cases hr'
      exact hdeleted.mpr rfl
    | live g' =>
      rw [hafter] at hrow hdeleted hg
      cases hg
      obtain ⟨m, hm, hst, -⟩ := hrow
      rw [hm]
      refine ⟨r, hr, fun hd => (nomatch hdeleted.mp hd), ?_⟩
      -- the two agree on the times in their histories, too, which the ledger leaves out
      obtain ⟨r', hr', hhistories⟩ := h.archivedLast id m hm
      rw [hr] at hr'
      cases hr'
      rw [hstored.value, hstored.status, hhistories, hstored.creator, hst.value, hst.status,
        hst.creator]

end

/-- What concurrent calls have committed represents a store that grew from the empty one. -/
theorem committed_represents (env : Env) (faults : List (Option Exc)) (calls : List Call)
    (batch : Nat → List Modification) (schedule : List (Action Stamp)) :
    ∃ L, EventLog.Store.Leads machine (EventLog.Store.init machine) L ∧
      Represents env.mixin ((State.start (KeyedDatabase.afterCalls env faults calls) batch).run
        (transactions env) schedule).store.db L := by
  obtain ⟨L, hleads, hidle⟩ := runCalls_represents env faults calls
  have hcons : Consistent (transactions env) (KeyedDatabase.afterCalls env faults calls) batch _ :=
    consistent_run (start_consistent _ batch) schedule
  obtain ⟨L₁, hall, hrep, -⟩ := performs_represents
    (d := KeyedDatabase.afterCalls env faults calls) hidle.represents hcons.performs
  rw [hcons.store] at hrep
  exact ⟨L₁, hleads.trans (EventLog.Store.Leads.of_appendAll hall), hrep⟩

/-- Any number of concurrent calls after any run of calls, under any schedule. The rows of
    the archive and of the event table go in pairs, and each archive row is the version of
    its aggregate that the events up to its own make; the aggregates that are stored are
    their last versions, those whose last version is not a deletion. -/
theorem archive_is_version_history (env : Env) (faults : List (Option Exc)) (calls : List Call)
    (batch : Nat → List Modification) (schedule : List (Action Stamp)) :
    let db := ((State.start (KeyedDatabase.afterCalls env faults calls) batch).run
      (transactions env) schedule).store.db
    db.yourAggregateArchive.length = db.domainEvent.length ∧
      (∀ k e r, db.domainEvent[k]? = some e → db.yourAggregateArchive[k]? = some r →
        IsVersion env.mixin (db.domainEvent.take (k + 1)) e r) ∧
      ∀ id, RestoredFrom db.yourAggregateArchive id (db.yourAggregate id) := by
  intro db
  obtain ⟨L, hleads, hrep⟩ := committed_represents env faults calls batch schedule
  refine ⟨?_, fun k e r he hr => hrep.isVersion hleads he hr, hrep.restoredFrom hleads⟩
  have hevents := congrArg List.length hrep.events
  rw [List.length_map, List.length_map] at hevents
  exact hrep.archives.length_eq.trans hevents.symm

end DddService
