import DddService.Storing
import DddService.TraceIsolation
import DddService.Lib.Lineage

/- How the events of a call hang together. A call runs alone, as a coroutine nobody
   interrupts; what it stores is what its request records. Between two statements the
   request `Stands`: its rows are in the session, each placed among those before it
   (`Placed`), what was voided was told, and the controller's use case holds the call's
   trace id until the first save took it. After a raise it is `Broken`: the rows are in
   the session, or the session has lost them all.

   Each save stores one event (`meets_save`), and the bus hands it to the handlers, which
   store theirs under it (`publish_spec`). Whatever a call does, it does not leave this
   picture (`guarded_stands`). -/
namespace DddService
open Hoare Coroutine Lineage

/-- A row that was not stored by a handler. -/
def Stored.isRoot (x : Stored) : Bool := x.handled.isNone

/-- The place of a row among those the call stored before. A row of the controller's use
    case has no parent: the first has the call's trace id, the others start their own
    trace. A row of a handler is a child of the row of the event handled. -/
structure Placed (trace : String) (pre : List Stored) (x : Stored) : Prop where
  fresh : x.row.spanId ∉ pre.map (·.row.spanId)
  root : x.handled = none → x.row.parentSpanId = none ∧
    x.row.traceId = if pre = [] then trace else x.row.spanId
  child : ∀ e, x.handled = some e → ∃ y ∈ pre, x.row.parentSpanId = some y.row.spanId ∧
    x.row.traceId = y.row.traceId

namespace Causality

/-! ## Where a call stands -/

/-- What a call starts from: the database, what was sent, how many span ids were drawn,
    the call's trace id, how many requests it makes, and whether nothing was pending. -/
structure Opening where
  db : Database
  sent : List (String × QueueMessage Pushed)
  start : Nat
  trace : String
  requests : Nat
  clean : Prop
  trace_ne : trace ≠ ""

/-- No use case holds a parent event and a trace id. -/
def Unmixed (s : Site) : Prop := ∀ owner, (s.world.useCase owner).Single

/-- What holds throughout a call, `n` scopes deep. -/
structure Kept (env : Env) (o : Opening) (n : Int) (s : Site) : Prop where
  db : s.world.db = o.db
  sent : s.world.sent = o.sent
  count : s.world.provider.sessionCount = n
  start : o.start ≤ s.world.drawn .span
  spans : SpansDrawn env o.start s.world (s.2.stored.map (·.row))
  grown : Grown (Placed o.trace) s.2.stored
  budget : s.2.stored.countP Stored.isRoot ≤ o.requests
  unmixed : Unmixed s

/-- Between two statements, while handling `h`: all that was stored is in the session,
    `r` rows of it are roots, what was voided is told but for `due`, and `c` is the trace
    id that waits in the controller's use case. -/
structure Stands (env : Env) (o : Opening) (n : Int) (h : Option DomainEvent) (due : List String)
    (c : Option String) (r : Nat) (s : Site) : Prop where
  kept : Kept env o n s
  session : ∃ x, s.world.provider.session = some x ∧ x.active = true ∧
    x.events = o.db.domainEvent ++ s.2.stored.map (·.row)
  handling : s.2.handling = h
  roots : s.2.stored.countP Stored.isRoot = r
  controller : s.world.useCase .controller = ⟨none, c⟩
  told : o.clean → ∃ ids, s.2.stored.filterMap (·.row.voidedId?) = ids ++ due ∧ Told ids s.world

/-- The trace id waits until the first row is stored. -/
def waiting (o : Opening) (stored : List Stored) : Option String :=
  if stored = [] then some o.trace else none

/-- Between two saves. -/
def Rest (env : Env) (o : Opening) (n : Int) (h : Option DomainEvent) (r : Nat) (s : Site) : Prop :=
  Stands env o n h [] (waiting o s.2.stored) r s

/-- After a raise. -/
structure Broken (env : Env) (o : Opening) (n : Int) (s : Site) : Prop where
  kept : Kept env o n s
  session : ∃ x, s.world.provider.session = some x ∧ (x.events = o.db.domainEvent ∨
    x.events = o.db.domainEvent ++ s.2.stored.map (·.row))

/-- The row of the event is stored. -/
def Known (e : DomainEvent) (s : Site) : Prop :=
  ∃ q, e.tracer = some q ∧ ∃ y ∈ s.2.stored, y.row.spanId = q.spanId ∧ y.row.traceId = q.traceId

/-- A handler can save: its event waits in its use case, and is stored. -/
def Ready (h : Option DomainEvent) (s : Site) : Prop :=
  ∀ e, h = some e → s.world.useCase .eventHandler = ⟨some e, none⟩ ∧ Known e s

/-- What a save finds pending in its use case. -/
def pendingFor (o : Opening) (h : Option DomainEvent) (stored : List Stored) : UseCaseBase :=
  match h with
  | none => ⟨none, waiting o stored⟩
  | some e => ⟨some e, none⟩

/-- In the middle of a save: what was pending is attached to its event `e`, or will be. -/
structure Saving (env : Env) (o : Opening) (n : Int) (h : Option DomainEvent) (r : Nat)
    (e : DomainEvent) (s : Site) : Prop where
  stands : Stands env o n h [] none r s
  event : Traceable env o.start (s.2.stored.map (·.row)) (pendingFor o h s.2.stored) s.world e
  parent : ∀ p, h = some p → Known p s

/-- Later in a save: its event `e` is stored. If it says that an aggregate was voided,
    nobody was told so far. -/
structure Saved (env : Env) (o : Opening) (n : Int) (h : Option DomainEvent) (r : Nat)
    (e : DomainEvent) (s : Site) : Prop where
  stands : Stands env o n h e.body.voidedId?.toList none r s
  known : Known e s

/-- The tables, the session and the buffer are the same. -/
structure SameStore (w w' : World) : Prop where
  db : w'.db = w.db
  sent : w'.sent = w.sent
  session : w'.provider.session = w.provider.session
  spans : w'.drawn .span = w.drawn .span
  messages : w'.messages = w.messages
  traceId : w'.traceId = w.traceId

section
variable {env : Env} {o : Opening} {n m : Int} {h : Option DomainEvent} {due : List String}
  {c c' : Option String} {r : Nat} {s t : Site} {e : DomainEvent}

theorem Kept.of_world (hk : Kept env o n s) (hstored : t.2.stored = s.2.stored)
    (hdb : t.world.db = s.world.db) (hsent : t.world.sent = s.world.sent)
    (hcount : t.world.provider.sessionCount = m)
    (hspans : s.world.drawn .span ≤ t.world.drawn .span) (hu : Unmixed t) :
    Kept env o m t where
  db := hdb.trans hk.db
  sent := hsent.trans hk.sent
  count := hcount
  start := Nat.le_trans hk.start hspans
  spans := by
    rw [hstored]
    exact hk.spans.mono hspans
  grown := by
    rw [hstored]
    exact hk.grown
  budget := by
    rw [hstored]
    exact hk.budget
  unmixed := hu

theorem Kept.stores (hk : Kept env o n s) (hstored : t.2.stored = s.2.stored)
    (hs : StoresNothing s.world t.world) : Kept env o n t := by
  refine hk.of_world hstored hs.db hs.sent (hs.count.trans hk.count) hs.spans fun owner => ?_
  rw [hs.useCase]
  exact hk.unmixed owner

theorem Stands.steady (hst : Stands env o n h due c r s) (hstored : t.2.stored = s.2.stored)
    (hhandling : t.2.handling = s.2.handling) (hs : Steady s.world t.world) :
    Stands env o n h due c r t where
  kept := hst.kept.stores hstored hs.toStoresNothing
  session := by
    obtain ⟨x, hx, ha, he⟩ := hst.session
    obtain ⟨x', hx', ha', he', _⟩ := hs.session x hx
    exact ⟨x', hx', ha'.trans ha, by rw [he', he, hstored]⟩
  handling := hhandling.trans hst.handling
  roots := by rw [hstored, hst.roots]
  controller := by rw [hs.useCase, hst.controller]
  told := by
    intro hc
    obtain ⟨ids, hids, ht⟩ := hst.told hc
    exact ⟨ids, by rw [hstored, hids], ht.of_same hs.messages hs.traceId⟩

/-- Other scopes, other tracing, and another event that is handled. -/
theorem Stands.of_same (hst : Stands env o n h due c r s) (hstored : t.2.stored = s.2.stored)
    (hw : SameStore s.world t.world) (hcount : t.world.provider.sessionCount = m) (hu : Unmixed t)
    (hc : t.world.useCase .controller = ⟨none, c'⟩) :
    Stands env o m t.2.handling due c' r t where
  kept := hst.kept.of_world hstored hw.db hw.sent hcount (Nat.le_of_eq hw.spans.symm) hu
  session := by
    rw [hw.session, hstored]
    exact hst.session
  handling := rfl
  roots := by rw [hstored, hst.roots]
  controller := hc
  told := by
    intro hclean
    obtain ⟨ids, hids, ht⟩ := hst.told hclean
    exact ⟨ids, by rw [hstored, hids], ht.of_same hw.messages hw.traceId⟩

theorem Stands.setCount (hst : Stands env o n h due c r s) (m : Int) :
    Stands env o m h due c r (s.setWorld (s.world.setCount m)) := by
  have hset : Stands env o m s.2.handling due c r (s.setWorld (s.world.setCount m)) :=
    hst.of_same (t := s.setWorld (s.world.setCount m)) rfl ⟨rfl, rfl, rfl, rfl, rfl, rfl⟩ rfl
      hst.kept.unmixed hst.controller
  rw [hst.handling] at hset
  exact hset

theorem Stands.setUseCase (hst : Stands env o n h due c r s) {owner : Owner} {u : UseCaseBase}
    (hu : u.Single) (hstored : t.2.stored = s.2.stored)
    (hworld : t.world = s.world.setUseCase owner u)
    (hc : t.world.useCase .controller = ⟨none, c'⟩) :
    Stands env o n t.2.handling due c' r t := by
  refine hst.of_same hstored ?_ ?_ (fun owner' => ?_) hc
  · rw [hworld]
    exact ⟨rfl, rfl, rfl, rfl, rfl, rfl⟩
  · rw [hworld]
    exact hst.kept.count
  · rw [hworld]
    show (Function.update s.world.useCase owner u owner').Single
    by_cases ho : owner' = owner
    · rw [ho, Function.update_self]
      exact hu
    · rw [Function.update_of_ne ho]
      exact hst.kept.unmixed owner'

theorem Stands.enqueued (hst : Stands env o n h due c r s) {x : AsyncSession} {p : Pending}
    (hx : s.world.provider.session = some x)
    (hevents : (x.flushed.view.write x.now p).domainEvent = x.events) :
    Stands env o n h due c r (s.setWorld (s.world.enqueued x p)) where
  kept := hst.kept.of_world rfl rfl rfl hst.kept.count (Nat.le_refl _) hst.kept.unmixed
  session := by
    obtain ⟨x', hx', ha, he⟩ := hst.session
    rw [hx] at hx'
    rw [← Option.some.inj hx'] at ha he
    refine ⟨_, rfl, ha, ?_⟩
    unfold AsyncSession.events at hevents he ⊢
    rw [flushed_enqueued, hevents, he]
    rfl
  handling := hst.handling
  roots := hst.roots
  controller := hst.controller
  told := fun hc => by
    obtain ⟨ids, hids, ht⟩ := hst.told hc
    exact ⟨ids, hids, ht.of_same rfl rfl⟩

theorem Stands.broken (hst : Stands env o n h due c r s) : Broken env o n s := by
  obtain ⟨x, hx, _, he⟩ := hst.session
  exact ⟨hst.kept, x, hx, Or.inr he⟩

theorem Broken.setCount (hb : Broken env o n s) (m : Int) :
    Broken env o m (s.setWorld (s.world.setCount m)) :=
  ⟨hb.kept.of_world rfl rfl rfl rfl (Nat.le_refl _) hb.kept.unmixed, hb.session⟩

theorem Broken.rolledBack (hb : Broken env o n s) :
    Broken env o n (s.setWorld s.world.rolledBack) := by
  refine ⟨hb.kept.of_world rfl rfl rfl hb.kept.count (Nat.le_refl _) hb.kept.unmixed, _, rfl, ?_⟩
  exact Or.inl (congrArg Database.domainEvent hb.kept.db)

theorem Broken.stores (hb : Broken env o n s) (hstored : t.2.stored = s.2.stored)
    (hs : StoresNothing s.world t.world) : Broken env o n t := by
  obtain ⟨x, hx, he⟩ := hb.session
  obtain ⟨x', hx', _, he', _⟩ := hs.session x hx
  refine ⟨hb.kept.stores hstored hs, x', hx', ?_⟩
  rw [he', hstored]
  exact he

theorem waiting_none {stored : List Stored} {y : Stored} (hy : y ∈ stored) :
    waiting o stored = none := if_neg (List.ne_nil_of_mem hy)

/-- When nothing is left to tell of the event, the save is done. -/
theorem Saved.rest (hs : Saved env o n h r e s) (hnone : e.body.voidedId? = none) :
    Rest env o n h r s := by
  obtain ⟨_, _, y, hy, _⟩ := hs.known
  have hst := hs.stands
  rw [hnone] at hst
  show Stands env o n h [] (waiting o s.2.stored) r s
  rw [waiting_none hy]
  exact hst

theorem Saving.broken (hs : Saving env o n h r e s) : Broken env o n s := hs.stands.broken

theorem Saving.steady (hs : Saving env o n h r e s) (hstored : t.2.stored = s.2.stored)
    (hhandling : t.2.handling = s.2.handling) (hw : Steady s.world t.world) :
    Saving env o n h r e t where
  stands := hs.stands.steady hstored hhandling hw
  event := by
    rw [hstored]
    exact hs.event.mono hw.spans
  parent := by
    intro p hp
    unfold Known
    rw [hstored]
    exact hs.parent p hp

end

/-! ## Code that stores nothing -/

section
variable {env : Env} {o : Opening} {n : Int} {α : Type} {P : Site → Prop} {x : M α}
  {E : Exc → Site → Prop}

/-- The contract of a call that runs alone. -/
abbrev alone : Contract Site := Contract.lone Unmixed

theorem onWorld_bind {β : Type} {f : α → Task β} {s : Site} {a : α} {w : World}
    (h : x s.world = .ok a w) : (onWorld x >>= f) s = f a (s.setWorld w) := by
  rw [Coro.bind_apply]
  unfold onWorld Coro.lift
  rw [h]
  rfl

theorem meets_steady (hx : Moves Steady x) (hP : ∀ s w, P s → Steady s.world w → P (s.setWorld w))
    (hE : ∀ e s, P s → E e s) {G : α → Prop}
    (hval : ∀ s a w, P s → x s.world = .ok a w → G a) :
    Meets alone P (onWorld x) (fun a s => P s ∧ G a) E := by
  apply Meets.lift
  intro s hs
  have hw := hx s.world
  cases hr : x s.world with
  | ok a w =>
    rw [hr] at hw
    exact ⟨trivial, hP s w hs hw, hval s a w hs hr⟩
  | error e w =>
    rw [hr] at hw
    exact ⟨trivial, hE e _ (hP s w hs hw)⟩

theorem meets_awaiting (hP : ∀ s, P s → Unmixed s) {Q : α → Site → Prop}
    (h : Meets alone P (onWorld x) Q E) : Meets alone P (awaiting x) Q E := by
  have hsuspend : Meets alone P (Coro.suspend : Task Unit) (fun _ => P) E :=
    Meets.suspend hP fun s s' hs hr => hr ▸ hs
  exact hsuspend.bind fun _ => h

end

/-! ## A save -/

section
variable {env : Env} {o : Opening} {n : Int} {h : Option DomainEvent} {r : Nat} {me : Nat}
  {b : EventBody}

theorem pendingFor_single (stored : List Stored) : (pendingFor o h stored).Single := by
  cases h with
  | none => exact Or.inl rfl
  | some e => exact Or.inr rfl

theorem pendingFor_trace_ne (stored : List Stored) : (pendingFor o h stored).traceId ≠ some "" := by
  intro ht
  cases h with
  | some e => cases ht
  | none =>
    have hw : waiting o stored = some "" := ht
    unfold waiting at hw
    split at hw
    · exact o.trace_ne (Option.some.inj hw)
    · cases hw

theorem Ready.traced {s : Site} (hready : Ready h s) {parent : DomainEvent}
    (hp : (pendingFor o h s.2.stored).parentEvent = some parent) :
    ∃ q, parent.tracer = some q := by
  cases h with
  | none => cases hp
  | some e =>
    rw [← Option.some.inj hp]
    obtain ⟨q, hq, _⟩ := (hready e rfl).2
    exact ⟨q, hq⟩

/-- A save attaches what is pending to the event that was raised. -/
theorem meets_takeTracing {a : YourAggregate} (ha : a.domainEvents = [⟨b, none⟩]) :
    Meets alone (fun s => Rest env o n h r s ∧ Ready h s)
      (record (Site.takeTracing me (ownerOf h)) >>= fun _ =>
        onWorld (UseCaseBase.saveTracing env (ownerOf h) a))
      (fun a' s => ∃ e, a' = { a with domainEvents := [e] } ∧ e.body = b ∧ Saving env o n h r e s)
      (fun _ => Broken env o n) := by
  intro s hs
  obtain ⟨hrest, hready⟩ := hs
  let s₁ := Site.takeTracing me (ownerOf h) s
  have huse : s₁.world.useCase (ownerOf h) = pendingFor o h s.2.stored := by
    cases h with
    | none => exact hrest.controller
    | some e => exact (hready e rfl).1
  obtain ⟨e, w, hrun, hbody, hsteady, htr⟩ := saveTracing_traceable (w := s₁.world) huse
    (pendingFor_single s.2.stored) (fun _ hp => hready.traced hp) (pendingFor_trace_ne s.2.stored)
    hrest.kept.start hrest.kept.spans ha
  -- the controller's use case has nothing left either way
  have hnone : (s₁.world.setUseCase (ownerOf h) ⟨none, none⟩).useCase .controller =
      ⟨none, none⟩ := by
    cases h with
    | none => exact Function.update_self Owner.controller _ s₁.world.useCase
    | some e =>
      obtain ⟨_, _, y, hy, _⟩ := (hready e rfl).2
      have hc := hrest.controller
      rw [waiting_none hy] at hc
      have hne : Owner.controller ≠ Owner.eventHandler := by decide
      exact (Function.update_of_ne hne ⟨none, none⟩ s₁.world.useCase).trans hc
  have hst : Stands env o n h [] none r
      (s₁.setWorld (s₁.world.setUseCase (ownerOf h) ⟨none, none⟩)) := by
    have hset := hrest.setUseCase (t := s₁.setWorld (s₁.world.setUseCase (ownerOf h) ⟨none, none⟩))
      (Or.inl rfl) rfl rfl hnone
    have hh : s₁.2.handling = h := hrest.handling
    change Stands env o n s₁.2.handling [] none r _ at hset
    rw [hh] at hset
    exact hset
  show (onWorld (UseCaseBase.saveTracing env (ownerOf h) a) s₁).Meets _ _ _ s
  unfold onWorld Coro.lift
  rw [hrun]
  exact ⟨trivial, e, rfl, hbody, hst.steady rfl rfl hsteady, htr, fun p hp => (hready p hp).2⟩

theorem meets_persist {a : YourAggregate} {e : DomainEvent} (hraises : Raises a b)
    (found : Option YourAggregateModel) (persistent : Bool)
    {a' : YourAggregate} (ha : a' = { a with domainEvents := [e] }) :
    Meets alone (Saving env o n h r e)
      (onWorld (YourAggregateRepository.persist a'
        (YourAggregateRepository.modelOf env a' found) persistent))
      (fun _ s => Saving env o n h r e s ∧ RowSays b s.world) (fun _ => Broken env o n) := by
  apply Meets.lift
  intro s hs
  obtain ⟨x, hx, ha₁, he⟩ := hs.stands.session
  let model := YourAggregateRepository.modelOf env a' found
  cases hr : YourAggregateRepository.persist a' model persistent s.world with
  | error e' w =>
    have hbroken : Broken env o n (s.setWorld s.world) :=
      (hs.steady (t := s.setWorld s.world) rfl rfl (Steady.refl _)).broken
    rw [persist_raises hx hr]
    exact ⟨trivial, hbroken⟩
  | ok u w =>
    have hw := persist_enqueues hx hr
    have hevents : (x.flushed.view.write x.now (if a'.isDelete then .delete model.id
        else .add model)).domainEvent = x.events := by
      split <;> rfl
    refine ⟨trivial, ⟨?_, ?_, hs.parent⟩, ?_⟩
    · rw [hw]
      exact hs.stands.enqueued hx hevents
    · rw [hw]
      exact hs.event.mono (Nat.le_refl _)
    · -- an event that voids is raised by an aggregate that is kept, so its row is written
      intro id hid
      obtain ⟨haid, hdel, hstatus⟩ := hraises.voided id hid
      have hkeep : a'.isDelete = false := by rw [ha]; exact hdel
      have hmodel : model.id = id := by
        show a'.id = id
        rw [ha]
        exact haid
      have hvoided : model.status = YourAggregateStatus.voided.value := by
        show a'.status.value = _
        rw [ha]
        exact congrArg YourAggregateStatus.value hstatus
      rw [if_neg (by simp [hkeep])] at hw
      let x' : AsyncSession := { x with pending := x.pending ++ [.add model] }
      have hrows : ∃ row, x'.rows id = some row ∧ row.status = model.status := by
        unfold AsyncSession.rows
        rw [flushed_enqueued, ← hmodel]
        refine ⟨_, Function.update_self _ _ _, ?_⟩
        split
        · rfl
        · rename_i old _
          obtain ⟨updatedAt, hupdate⟩ := model.updateRow_cases old x.now
          exact congrArg (·.status) hupdate
      obtain ⟨row, hrow, hst⟩ := hrows
      refine ⟨x', row, ?_, hrow, hst.trans hvoided⟩
      show w.provider.session = some x'
      rw [hw]
      rfl

theorem meets_archive {a : YourAggregate} {e : DomainEvent} (ha : a.domainEvents = [e])
    (model : YourAggregateModel) :
    Meets alone (fun s => Saving env o n h r e s ∧ RowSays e.body s.world)
      (onWorld (YourAggregateRepository.archiveIfRaised env a model))
      (fun a' s => ∃ e', a' = { a with domainEvents := [e'] } ∧ e'.body = e.body ∧
        Saving env o n h r e' s ∧ RowSays e.body s.world) (fun _ => Broken env o n) := by
  apply Meets.lift
  intro s hs
  obtain ⟨hsaving, hrow⟩ := hs
  obtain ⟨x, hx, _⟩ := hsaving.stands.session
  obtain ⟨e', w, hrun, hbody, hsteady, htr⟩ := archiveIfRaised_traceable ha hsaving.event
    hsaving.stands.kept.start hsaving.stands.kept.spans hx model
  rw [hrun]
  refine ⟨trivial, e', rfl, hbody, ⟨?_, htr, hsaving.parent⟩, ?_⟩
  · exact hsaving.stands.steady rfl rfl hsteady
  · exact hrow.steady hsteady.toStoresNothing

theorem Saving.placed {e : DomainEvent} {p : Tracer} {s : Site} (hs : Saving env o n h r e s)
    {w : World} (hnew : NewSpan env o.start (s.2.stored.map (·.row)) w p)
    (hatt : Attached (pendingFor o h s.2.stored) p) (b : EventBody) :
    Placed o.trace s.2.stored ⟨eventRow p b, h⟩ where
  fresh := by
    have hfresh := hnew.fresh
    rw [List.map_map] at hfresh
    exact hfresh
  root := by
    intro hh
    change h = none at hh
    rw [hh] at hatt
    show p.parentSpanId = none ∧ p.traceId = if s.2.stored = [] then o.trace else p.spanId
    unfold pendingFor waiting at hatt
    by_cases hnil : s.2.stored = []
    · rw [if_pos hnil] at hatt ⊢
      exact hatt
    · rw [if_neg hnil] at hatt ⊢
      exact hatt
  child := by
    intro parent hh
    change h = some parent at hh
    obtain ⟨q, hq, y, hy, hspan, htrace⟩ := hs.parent parent hh
    rw [hh] at hatt
    obtain ⟨q', hq', hparent, hsame⟩ := hatt
    rw [hq] at hq'
    rw [← Option.some.inj hq'] at hparent hsame
    refine ⟨y, hy, ?_, ?_⟩
    · rw [hspan]
      exact hparent
    · rw [htrace]
      exact hsame

/-- How many roots one more row makes. -/
def newRoot (h : Option DomainEvent) : Nat := if h.isNone then 1 else 0

/-- One more row leaves the scope standing, with what it says was voided still to tell. -/
theorem Stands.noteStored {s : Site} (hst : Stands env o n h [] none r s)
    {row : DomainEventModel} {x : AsyncSession} (hx : s.world.provider.session = some x)
    (hdrawn : ∃ k, o.start ≤ k ∧ k < s.world.drawn .span ∧ row.spanId = env.uuid4 .span k)
    (hplaced : Placed o.trace s.2.stored ⟨row, h⟩) (hle : r + newRoot h ≤ o.requests) :
    Stands env o n h row.voidedId?.toList none (r + newRoot h)
      (Site.noteStored row (s.setWorld (s.world.enqueued x (.addEvent row)))) := by
  let s' := Site.noteStored row (s.setWorld (s.world.enqueued x (.addEvent row)))
  have hstored : s'.2.stored = s.2.stored ++ [⟨row, h⟩] := by
    show s.2.stored ++ [⟨row, s.2.handling⟩] = _
    rw [hst.handling]
  have hroots : s'.2.stored.countP Stored.isRoot = r + newRoot h := by
    rw [hstored, List.countP_append, hst.roots, List.countP_singleton]
    rfl
  have hkept := hst.kept
  refine ⟨⟨hkept.db, hkept.sent, hkept.count, hkept.start, ?_, ?_, by rw [hroots]; exact hle,
    hkept.unmixed⟩, ?_, hst.handling, hroots, hst.controller, ?_⟩
  · -- the new row is one of those drawn
    intro row' hrow'
    rw [hstored, List.map_append] at hrow'
    rcases List.mem_append.mp hrow' with hold | hlast
    · exact hkept.spans row' hold
    · rw [List.mem_singleton.mp hlast]
      exact hdrawn
  · rw [hstored]
    exact hkept.grown.snoc hplaced
  · -- the session has it after all that was stored before
    obtain ⟨x₁, hx₁, ha, he⟩ := hst.session
    rw [hx] at hx₁
    cases hx₁
    refine ⟨{ x with pending := x.pending ++ [.addEvent row] }, rfl, ha, ?_⟩
    unfold AsyncSession.events at he ⊢
    rw [flushed_enqueued, hstored, List.map_append, ← List.append_assoc]
    exact congrArg (· ++ [row]) he
  · -- a voiding that is stored is still to be told of
    intro hclean
    obtain ⟨ids, hids, ht⟩ := hst.told hclean
    refine ⟨ids, ?_, ht.of_same rfl rfl⟩
    rw [hstored, List.filterMap_append, hids, List.append_nil]
    show ids ++ List.filterMap _ [(⟨row, h⟩ : Stored)] = ids ++ row.voidedId?.toList
    cases hid : row.voidedId? <;> simp [hid]

/-- The row of the event goes to the session, and is noted. -/
theorem meets_addEvents {e : DomainEvent} (hle : r + newRoot h ≤ o.requests) :
    Meets alone (fun s => Saving env o n h r e s ∧ RowSays e.body s.world)
      (Concurrent.YourAggregateRepository.addEvents env [e])
      (fun es s => ∃ e', es = [e'] ∧ e'.body = e.body ∧ Saved env o n h (r + newRoot h) e' s ∧
        RowSays e.body s.world) (fun _ => Broken env o n) := by
  intro s hs
  obtain ⟨hsaving, hrow⟩ := hs
  obtain ⟨p, w, hser, hsteady, hnew, hatt⟩ := serialize_traceable hsaving.event
    hsaving.stands.kept.start hsaving.stands.kept.spans
  have hst : Stands env o n h [] none r (s.setWorld w) :=
    hsaving.stands.steady (t := s.setWorld w) rfl rfl hsteady
  obtain ⟨x, hx, _⟩ := hst.session
  let e' : DomainEvent := ⟨e.body, some p⟩
  let row := eventRow p e.body
  let s' := Site.noteStored row (s.setWorld (w.enqueued x (.addEvent row)))
  have hrun : Concurrent.YourAggregateRepository.addEvents env [e] s = .ok [e'] s' := by
    refine (onWorld_bind hser).trans ?_
    exact onWorld_bind (s := s.setWorld w) (enqueue_run hx _)
  have hknown : Known e' s' :=
    ⟨p, rfl, ⟨row, s.2.handling⟩, List.mem_append_right _ (List.mem_singleton_self _), rfl, rfl⟩
  have hplaced : Placed o.trace s.2.stored ⟨row, h⟩ := hsaving.placed hnew hatt e.body
  have hstands : Stands env o n h row.voidedId?.toList none (r + newRoot h) s' :=
    hst.noteStored hx hnew.drawn hplaced hle
  rw [eventRow_voidedId] at hstands
  rw [hrun]
  refine ⟨trivial, e', rfl, rfl, ⟨hstands, hknown⟩, ?_⟩
  -- the row of the event leaves the rows of the aggregates as they are
  intro id hid
  obtain ⟨x₁, model, hx₁, hmodel, hstatus⟩ := (hrow.steady hsteady.toStoresNothing) id hid
  rw [show w.provider.session = some x from hx] at hx₁
  rw [← Option.some.inj hx₁] at hmodel
  refine ⟨{ x with pending := x.pending ++ [.addEvent row] }, model, rfl, ?_, hstatus⟩
  unfold AsyncSession.rows at hmodel ⊢
  rw [flushed_enqueued]
  exact hmodel

theorem Broken.flushRaises {s : Site} (hb : Broken env o n s) {e : Exc} {w : World}
    (hr : AsyncSession.flush s.world = .error e w) : Broken env o n (s.setWorld w) := by
  obtain ⟨x, hx, _⟩ := hb.session
  rcases flush_raises hx hr with rfl | rfl
  · exact hb.stores rfl (Steady.refl s.world).toStoresNothing
  · refine ⟨hb.kept.of_world rfl rfl rfl hb.kept.count (Nat.le_refl _) hb.kept.unmixed, _, rfl, ?_⟩
    exact Or.inl (congrArg Database.domainEvent hb.kept.db)

theorem meets_flush {e : DomainEvent} :
    Meets alone (fun s => Saved env o n h r e s ∧ RowSays e.body s.world)
      (awaiting AsyncSession.flush)
      (fun _ s => Saved env o n h r e s ∧ RowSeen e.body s.world) (fun _ => Broken env o n) := by
  apply meets_awaiting fun s hs => hs.1.stands.kept.unmixed
  apply Meets.lift
  intro s hs
  obtain ⟨hsaved, hrow⟩ := hs
  obtain ⟨x, hx, ha, he⟩ := hsaved.stands.session
  cases hr : AsyncSession.flush s.world with
  | error e' w => exact ⟨trivial, hsaved.stands.broken.flushRaises hr⟩
  | ok u w =>
    obtain ⟨hsteady, hx'⟩ := flush_steady hx ha hr
    refine ⟨trivial, ⟨hsaved.stands.steady rfl rfl hsteady, hsaved.known⟩, fun id hid => ?_⟩
    obtain ⟨x₁, row, hx₁, hrow, hstatus⟩ := hrow id hid
    rw [hx] at hx₁
    rw [← Option.some.inj hx₁] at hrow
    exact ⟨x.flushed, row, hx', hrow, hstatus⟩

theorem meets_saveYourAggregate {a : YourAggregate} (hraises : Raises a b) {e : DomainEvent}
    (hb : e.body = b) (hle : r + newRoot h ≤ o.requests) :
    Meets alone (Saving env o n h r e)
      (Concurrent.YourAggregateRepository.saveYourAggregate env { a with domainEvents := [e] })
      (fun a' s => ∃ e', a'.domainEvents = [e'] ∧ Saved env o n h (r + newRoot h) e' s ∧
        RowSeen e'.body s.world) (fun _ => Broken env o n) := by
  let a₁ : YourAggregate := { a with domainEvents := [e] }
  have hget : Meets alone (Saving env o n h r e)
      (awaiting (YourAggregateRepository.getModel a₁.id))
      (fun _ s => Saving env o n h r e s ∧ True) (fun _ => Broken env o n) := by
    apply meets_awaiting fun s hs => hs.stands.kept.unmixed
    apply meets_steady (Steady.sessionGet a₁.id)
    · exact fun s w hs hw => hs.steady rfl rfl hw
    · exact fun _ s hs => hs.broken
    · exact fun _ _ _ _ _ => trivial
  apply hget.bind
  intro found
  -- each part hands the next the event as it left it, with the row it speaks of
  refine Meets.bind ((meets_persist hraises found found.isSome rfl).conseq (fun s hs => hs.1)
    (fun _ _ hs => hs) fun _ _ hs => hs) fun _ => ?_
  subst hb
  apply (meets_archive rfl _).bind
  intro a₂
  apply Meets.exists_elim
  intro e₂
  apply Meets.intro
  intro s₀ hs₀
  obtain ⟨ha₂, hbody₂, hsaving, hrow⟩ := hs₀
  have hevents : a₂.allEvents = [e₂] := by
    rw [ha₂]
    rfl
  rw [← hbody₂] at hrow
  rw [hevents]
  refine Meets.bind ((meets_addEvents hle).start ⟨hsaving, hrow⟩) fun es => ?_
  apply Meets.exists_elim
  intro e₃
  apply Meets.intro
  intro s₁ hs₁
  obtain ⟨hes, hbody₃, hsaved, hrow₃⟩ := hs₁
  rw [hes]
  rw [← hbody₃] at hrow₃
  refine Meets.bind (meets_flush.start ⟨hsaved, hrow₃⟩) fun _ => Meets.pure fun s hs => ?_
  exact ⟨e₃, rfl, hs.1, hs.2⟩

/-- A bus whose handlers store what they store under the event, and tell what is due. -/
def BusStands (env : Env) (bus : Concurrent.Bus) : Prop :=
  ∀ (o : Opening) (n : Int) (h : Option DomainEvent) (r : Nat) (e : DomainEvent), 1 ≤ n →
    Meets alone (fun s => Saved env o n h r e s ∧ RowSeen e.body s.world) (bus e)
      (fun _ => Rest env o n h r) (fun _ => Broken env o n)

theorem meets_save {bus : Concurrent.Bus} (hbus : BusStands env bus) (hn : 1 ≤ n)
    {a : YourAggregate} (hraises : Raises a b) (hle : r + newRoot h ≤ o.requests) :
    Meets alone (fun s => Rest env o n h r s ∧ Ready h s)
      (Concurrent.YourAggregateUseCase.save env me bus (ownerOf h) a)
      (fun _ => Rest env o n h (r + newRoot h)) (fun _ => Broken env o n) := by
  show Meets _ _ (record _ >>= fun _ => onWorld _ >>= _) _ _
  rw [← bind_assoc]
  apply (meets_takeTracing hraises.events).bind
  intro a₁
  apply Meets.exists_elim
  intro e
  apply Meets.intro
  intro s₀ hs₀
  obtain ⟨rfl, hb, hsaving⟩ := hs₀
  refine Meets.bind ((meets_saveYourAggregate hraises hb hle).start hsaving) fun a₂ => ?_
  apply Meets.exists_elim
  intro e₂
  apply Meets.intro
  intro s₁ hs₁
  obtain ⟨hevents, hsaved, hrow⟩ := hs₁
  show Meets _ _ (a₂.domainEvents.forM bus) _ _
  rw [hevents]
  exact ((hbus o n h _ e₂ hn).start ⟨hsaved, hrow⟩).bind fun _ => Meets.pure fun _ hs => hs

/-! ## Use cases -/

/-- A use case call may save now. -/
structure MaySave (env : Env) (o : Opening) (n : Int) (h : Option DomainEvent) (r : Nat)
    (s : Site) : Prop where
  rest : Rest env o n h r s
  ready : Ready h s
  within : r + newRoot h ≤ o.requests

theorem MaySave.steady {s : Site} {w : World} (hs : MaySave env o n h r s)
    (hw : Steady s.world w) : MaySave env o n h r (s.setWorld w) := by
  refine ⟨hs.rest.steady rfl rfl hw, fun e he => ?_, hs.within⟩
  obtain ⟨huse, hknown⟩ := hs.ready e he
  exact ⟨(congrFun hw.useCase .eventHandler).trans huse, hknown⟩

theorem MaySave.broken {s : Site} (hs : MaySave env o n h r s) : Broken env o n s :=
  hs.rest.broken

section
variable {α : Type} {x : M α}

theorem meets_maySave (hx : Moves Steady x) {G : α → Prop}
    (hval : ∀ s a w, MaySave env o n h r s → x s.world = .ok a w → G a) :
    Meets alone (MaySave env o n h r) (onWorld x) (fun a s => MaySave env o n h r s ∧ G a)
      (fun _ => Broken env o n) :=
  meets_steady hx (fun _ _ hs hw => hs.steady hw) (fun _ _ hs => hs.broken) hval

theorem keeps_maySave (hx : Moves Steady x) :
    Meets alone (MaySave env o n h r) (onWorld x) (fun _ => MaySave env o n h r)
      (fun _ => Broken env o n) :=
  (meets_maySave (G := fun _ => True) hx fun _ _ _ _ _ => trivial).conseq (fun _ hs => hs)
    (fun _ _ hs => hs.1) fun _ _ hs => hs

theorem meets_load (id : String) (lock : Bool) :
    Meets alone (MaySave env o n h r)
      (Concurrent.YourAggregateRepository.loadYourAggregate env id lock)
      (fun a s => MaySave env o n h r s ∧ a.domainEvents = [] ∧ a.isDelete = false)
      (fun _ => Broken env o n) := by
  apply meets_awaiting fun s hs => hs.rest.kept.unmixed
  apply meets_maySave (Steady.loadYourAggregate env id lock)
  intro s a w hs hr
  obtain ⟨x, hx, _⟩ := hs.rest.session
  obtain ⟨model, _, hentity⟩ := loadYourAggregate_returns hx hr
  obtain ⟨v, st, hs', c, t, _, _, rfl⟩ := modelToEntity_cases hentity
  exact ⟨rfl, rfl⟩

end

theorem meets_operation {result : Except Exc YourAggregate}
    (hraises : ∀ a, result = .ok a → ∃ b, Raises a b) :
    Meets alone (MaySave env o n h r) (onWorld (M.ofExcept result))
      (fun a s => MaySave env o n h r s ∧ ∃ b, Raises a b) (fun _ => Broken env o n) := by
  apply meets_maySave (Steady.ofExcept result)
  intro s a w _ hr
  cases result with
  | error e => cases hr
  | ok a' =>
    cases hr
    exact hraises _ rfl

section UseCase
variable {bus : Concurrent.Bus} (hbus : BusStands env bus) (hn : 1 ≤ n)
include hbus hn

theorem meets_saveRaised (a : YourAggregate) :
    Meets alone (fun s => MaySave env o n h r s ∧ ∃ b, Raises a b)
      (Concurrent.YourAggregateUseCase.save env me bus (ownerOf h) a)
      (fun _ => Rest env o n h (r + newRoot h)) (fun _ => Broken env o n) := by
  intro s hs
  obtain ⟨hmay, b, hb⟩ := hs
  exact meets_save hbus hn hb hmay.within s ⟨hmay.rest, hmay.ready⟩

theorem meets_createYourAggregate (v : YourValueObject) (creator : User) :
    Meets alone (MaySave env o n h r)
      (Concurrent.YourAggregateUseCase.createYourAggregate env me bus (ownerOf h) v creator)
      (fun _ => Rest env o n h (r + newRoot h)) (fun _ => Broken env o n) := by
  apply (keeps_maySave (Steady.uuid4 env .aggregate)).bind
  intro id
  apply (keeps_maySave Steady.datetimeNow).bind
  intro now
  apply (meets_operation fun a ha => ⟨_, Raises.create ha⟩).bind
  intro a
  exact (meets_saveRaised hbus hn a).bind fun _ => Meets.pure fun _ hs => hs

theorem meets_deleteYourAggregate (id : String) (doer : User) :
    Meets alone (MaySave env o n h r)
      (Concurrent.YourAggregateUseCase.deleteYourAggregate env me bus (ownerOf h) id doer)
      (fun _ => Rest env o n h (r + newRoot h)) (fun _ => Broken env o n) := by
  apply (meets_load id true).bind
  intro a s hs
  obtain ⟨hmay, hevents, _⟩ := hs
  refine Meets.bind ?_ (meets_saveRaised hbus hn) s hmay
  exact meets_operation fun a' ha' => ⟨_, Raises.delete hevents ha'⟩

theorem meets_voidYourAggregate (id : String) (doer : User) :
    Meets alone (MaySave env o n h r)
      (Concurrent.YourAggregateUseCase.voidYourAggregate env me bus (ownerOf h) id doer)
      (fun _ => Rest env o n h (r + newRoot h)) (fun _ => Broken env o n) := by
  apply (meets_load id true).bind
  intro a s hs
  obtain ⟨hmay, hevents, hdelete⟩ := hs
  refine Meets.bind (keeps_maySave Steady.datetimeNow) (fun now => ?_) s hmay
  refine Meets.bind ?_ (meets_saveRaised hbus hn)
  exact meets_operation fun a' ha' => ⟨_, Raises.void hevents hdelete ha'⟩

theorem meets_updateYourAggregate (id : String) (v : YourValueObject) (doer : User) :
    Meets alone (MaySave env o n h r)
      (Concurrent.YourAggregateUseCase.updateYourAggregate env me bus (ownerOf h) id v doer)
      (fun _ => Rest env o n h (r + newRoot h)) (fun _ => Broken env o n) := by
  apply (meets_load id true).bind
  intro a s hs
  obtain ⟨hmay, hevents, _⟩ := hs
  refine Meets.bind (keeps_maySave Steady.datetimeNow) (fun now => ?_) s hmay
  refine Meets.bind ?_ (meets_saveRaised hbus hn)
  exact meets_operation fun a' ha' => ⟨_, Raises.update hevents ha'⟩

end UseCase

/-! ## Handlers -/

theorem rest_flush : Meets alone (Rest env o n h r) (awaiting AsyncSession.flush)
    (fun _ => Rest env o n h r) (fun _ => Broken env o n) := by
  apply meets_awaiting fun s hs => hs.kept.unmixed
  apply Meets.lift
  intro s hs
  obtain ⟨x, hx, ha, _⟩ := hs.session
  cases hr : AsyncSession.flush s.world with
  | error e w => exact ⟨trivial, hs.broken.flushRaises hr⟩
  | ok u w => exact ⟨trivial, hs.steady rfl rfl (flush_steady hx ha hr).1⟩

theorem broken_rollback : Meets alone (Broken env o n) (awaiting AsyncSession.rollback)
    (fun _ => Broken env o n) (fun _ => Broken env o n) := by
  apply meets_awaiting fun s hs => hs.kept.unmixed
  apply Meets.lift
  intro s hs
  obtain ⟨x, hx, _⟩ := hs.session
  rw [rollback_run hx]
  exact ⟨trivial, hs.rolledBack⟩

/-- A handler that takes over where the event `e` is stored. -/
def HandlerStands (env : Env) (func : DomainEvent → Task Unit) (e : DomainEvent) : Prop :=
  ∀ (o : Opening) (n : Int) (r : Nat), 1 ≤ n →
    Meets alone (fun s => Saved env o n (some e) r e s ∧ Ready (some e) s ∧ RowSeen e.body s.world)
      (func e) (fun _ => Rest env o n (some e) r) (fun _ => Broken env o n)

theorem meets_setTracing {e : DomainEvent} {E : Exc → Site → Prop} :
    Meets alone (fun s => Saved env o n h r e s ∧ RowSeen e.body s.world)
      (Concurrent.EventHandlerHelper.setTracing me e)
      (fun _ s => Saved env o n (some e) r e s ∧ Ready (some e) s ∧ RowSeen e.body s.world) E := by
  intro s hs
  obtain ⟨hsaved, hrow⟩ := hs
  let t := (Site.handle me e s).setWorld (s.world.setUseCase .eventHandler ⟨some e, none⟩)
  have huse : t.world.useCase .eventHandler = ⟨some e, none⟩ :=
    Function.update_self Owner.eventHandler _ s.world.useCase
  have hne : Owner.controller ≠ Owner.eventHandler := by decide
  have hc : t.world.useCase .controller = ⟨none, none⟩ :=
    (Function.update_of_ne hne ⟨some e, none⟩ s.world.useCase).trans hsaved.stands.controller
  have hst := hsaved.stands.setUseCase (t := t) (Or.inr rfl) rfl rfl hc
  refine ⟨trivial, ⟨hst, hsaved.known⟩, fun e' he' => ?_, hrow⟩
  rw [← Option.some.inj he']
  exact ⟨huse, hsaved.known⟩

theorem meets_guarded {func : DomainEvent → Task Unit} {e : DomainEvent}
    (hfunc : HandlerStands env func e) (hn : 1 ≤ n) :
    Meets alone (fun s => Saved env o n h r e s ∧ RowSeen e.body s.world)
      (Concurrent.EventHandlerHelper.guarded me func e)
      (fun _ => Rest env o n (some e) r) (fun _ => Broken env o n) := by
  apply Meets.tryCatch (E := fun _ => Broken env o n)
  · apply meets_setTracing.bind
    intro _
    apply (hfunc o n r hn).bind
    intro _
    exact rest_flush
  · intro e'
    apply Meets.ite
    · exact fun _ => broken_rollback.bind fun _ => Meets.throw fun _ hs => hs
    · exact fun _ => Meets.throw fun _ hs => hs

/-- Leaving a nested scope counts it down, and does nothing else. -/
theorem meets_innerExit {P Q : Site → Prop} {E : Exc → Site → Prop} (hn : 1 ≤ n)
    (hunmixed : ∀ s, P s → Unmixed s)
    (hcount : ∀ s, P s → s.world.provider.sessionCount = n + 1)
    (hQ : ∀ s, P s → Q (s.setWorld (s.world.setCount n))) :
    Meets alone P (awaiting SessionProvider.aexit) (fun _ => Q) E := by
  apply meets_awaiting hunmixed
  apply Meets.lift
  intro s hs
  have hn₁ := hcount s hs
  have hback : s.world.provider.sessionCount - 1 = n := by omega
  rw [aexit_inner (by omega), hback]
  exact ⟨trivial, hQ s hs⟩

/-- A handler returned: what was handled before is handled again. -/
theorem rest_leave (e : DomainEvent) :
    Meets alone (Rest env o (n + 1) (some e) r) (record (Site.leave me h))
      (fun _ => Rest env o (n + 1) h r) (fun _ => Broken env o n) := by
  apply Meets.update
  intro s hs
  exact ⟨trivial, hs.of_same (t := Site.leave me h s) rfl ⟨rfl, rfl, rfl, rfl, rfl, rfl⟩
    hs.kept.count hs.kept.unmixed hs.controller⟩

theorem broken_leave : Meets alone (Broken env o (n + 1)) (record (Site.leave me h))
    (fun _ => Broken env o (n + 1)) (fun _ => Broken env o n) := by
  apply Meets.update
  intro s hs
  exact ⟨trivial, hs.stores (t := Site.leave me h s) rfl (Steady.refl s.world).toStoresNothing⟩

theorem meets_handler {func : DomainEvent → Task Unit} {e : DomainEvent}
    (hfunc : HandlerStands env func e) (hn : 1 ≤ n) :
    Meets alone (fun s => Saved env o n h r e s ∧ RowSeen e.body s.world)
      (Concurrent.EventHandlerHelper.connectDbSession me func e)
      (fun _ => Rest env o n h r) (fun _ => Broken env o n) := by
  let P : Site → Prop := fun s => Saved env o n h r e s ∧ RowSeen e.body s.world
  have henter : Meets alone P (onWorld SessionProvider.aenter)
      (fun _ s => Saved env o (n + 1) h r e s ∧ RowSeen e.body s.world) (fun _ => Broken env o n) := by
    apply Meets.lift
    intro s hs
    have hcount := hs.1.stands.kept.count
    rw [aenter_inner (by omega), hcount]
    exact ⟨trivial, ⟨hs.1.stands.setCount (n + 1), hs.1.known⟩, hs.2⟩
  have hscope : Meets alone P (Coro.scope (onWorld SessionProvider.aenter)
      (do record (Site.leave me h); awaiting SessionProvider.aexit)
      (Concurrent.EventHandlerHelper.guarded me func e))
      (fun _ => Rest env o n h r) (fun _ => Broken env o n) := by
    apply Meets.scope (fun s => Saved env o (n + 1) h r e s ∧ RowSeen e.body s.world)
      (fun _ => Rest env o (n + 1) (some e) r) (fun _ => Broken env o (n + 1)) henter
    · exact meets_guarded hfunc (by omega)
    · -- left as it was entered: one scope less, with what was handled before
      intro _
      apply (rest_leave e).bind
      intro _
      apply meets_innerExit hn
      · exact fun s hs => hs.kept.unmixed
      · exact fun s hs => hs.kept.count
      · exact fun s hs => hs.setCount n
    · intro _
      apply broken_leave.bind
      intro _
      apply meets_innerExit hn
      · exact fun s hs => hs.kept.unmixed
      · exact fun s hs => hs.kept.count
      · exact fun s hs => hs.setCount n
  have hread : Meets alone P (Coro.read fun s => s.2.handling : Task (Option DomainEvent))
      (fun outer s => outer = h ∧ P s) (fun _ => Broken env o n) :=
    Meets.read fun _ hs => ⟨hs.1.stands.handling, hs⟩
  apply hread.bind
  intro outer s hs
  rw [hs.1]
  exact hscope s hs.2

/-- The handler of a voiding stores nothing, and tells of it. -/
theorem voided_stands {e : DomainEvent} {id : String} {doer : User}
    (he : e.body = .yourAggregateVoided id doer) :
    HandlerStands env (fun _ => Concurrent.YourAggregateEventHandler.handleYourAggregateVoided env id)
      e := by
  intro o n r hn
  apply meets_awaiting fun s hs => hs.1.stands.kept.unmixed
  apply Meets.lift
  intro s hs
  obtain ⟨hsaved, _, hrow⟩ := hs
  have hst := hsaved.stands
  have hid : e.body.voidedId? = some id := by rw [he]; rfl
  have hmoves := handleYourAggregateVoided_stores env id s.world
  cases hr : YourAggregateEventHandler.handleYourAggregateVoided env id s.world with
  | error e' w =>
    rw [hr] at hmoves
    exact ⟨trivial, hst.broken.stores rfl hmoves⟩
  | ok u w =>
    rw [hr] at hmoves
    have hs : StoresNothing s.world w := hmoves
    obtain ⟨x, hx, ha, hev⟩ := hst.session
    obtain ⟨x', hx', ha', hev', _⟩ := hs.session x hx
    obtain ⟨_, _, y, hy, _⟩ := hsaved.known
    refine ⟨trivial, hst.kept.stores rfl hs, ⟨x', hx', ha'.trans ha, hev'.trans hev⟩,
      hst.handling, hst.roots, ?_, fun hclean => ?_⟩
    · show w.useCase .controller = ⟨none, waiting o s.2.stored⟩
      rw [waiting_none hy, hs.useCase]
      exact hst.controller
    · obtain ⟨ids, hids, ht⟩ := hst.told hclean
      refine ⟨ids ++ [id], ?_, handleYourAggregateVoided_told hid hrow ht hr⟩
      rw [hid] at hids
      rw [List.append_nil]
      exact hids

/-- The bus, as deep as it goes. -/
theorem publish_stands : ∀ depth, BusStands env (Concurrent.publish env me depth)
  | 0 => fun _ _ _ _ _ _ => Meets.throw fun _ hs => hs.1.stands.broken
  | depth + 1 => by
    intro o n h r e hn
    show Meets _ _ ((Concurrent.YourAggregateEventHandler.handlers env me _ e).forM _) _ _
    unfold Concurrent.YourAggregateEventHandler.handlers
    cases hb : e.body with
    | yourAggregateCreated id v d =>
      refine Meets.bind ?_ fun _ => Meets.pure fun _ hs => hs
      rw [← hb]
      refine meets_handler (fun o n r hn => ?_) hn
      intro s hs
      refine meets_updateYourAggregate (h := some e) (r := r) (publish_stands depth) hn id _ d s
        ⟨hs.1.rest ?_, hs.2.1, ?_⟩
      · rw [hb]
        rfl
      · exact Nat.le_trans (Nat.le_of_eq hs.1.stands.roots.symm) hs.1.stands.kept.budget
    | yourAggregateVoided id d =>
      refine Meets.bind ?_ fun _ => Meets.pure fun _ hs => hs
      rw [← hb]
      exact meets_handler (voided_stands hb) hn
    | yourAggregateDeleted id d =>
      exact Meets.pure fun s hs => hs.1.rest (by rw [hb]; rfl)
    | yourAggregateUpdated id v d =>
      exact Meets.pure fun s hs => hs.1.rest (by rw [hb]; rfl)

end

end Causality

end DddService
