import DddService.ObjectSaves
import DddService.Storing

/- Archive rows as snapshots. `_archive` copies the attributes of the row's object before
   the flush, and the flush computes `updated_at`: the copy keeps the time that was loaded,
   while the row gets a new one whenever the save changes a column.

   In every world that sessions can lead to (`World.Reachable`) a save of an aggregate with
   events adds one archive row, which names the last event; it is the row's snapshot just
   when the save leaves `updated_at` alone (`archived_faithfully_iff`). -/
namespace DddService
open Hoare

/-! ## Reachable worlds -/

/-- `w` when the row of `id` is `row`, for the session, too. -/
def World.sees (w : World) (id : String) (row : Option YourAggregateModel) : World :=
  let put (d : Database) : Database :=
    { d with yourAggregate := Function.update d.yourAggregate id row }
  { w with
    db := put w.db
    provider := { w.provider with
      session := w.provider.session.map fun s => { s with view := put s.view } } }

/-- The worlds that the service's sessions lead to: scopes are entered and left, aggregates
    loaded and saved, in any order and under any failure. What touches neither the database
    nor the session may happen at any time, and others may commit a row. -/
inductive World.Reachable (env : Env) : World → Prop where
  | init (faults : List (Option Exc)) : World.Reachable env (World.init faults)
  | aenter {w : World} (h : World.Reachable env w) :
      World.Reachable env (stateOf (SessionProvider.aenter w))
  | aexit {w : World} (h : World.Reachable env w) :
      World.Reachable env (stateOf (SessionProvider.aexit w))
  | load {w : World} (h : World.Reachable env w) (id : String) (lock : Bool) :
      World.Reachable env (stateOf (YourAggregateRepository.loadYourAggregate env id lock w))
  | save {w : World} (h : World.Reachable env w) (a : YourAggregate) :
      World.Reachable env (stateOf (YourAggregateRepository.saveYourAggregate env a w))
  | flush {w : World} (h : World.Reachable env w) :
      World.Reachable env (stateOf (AsyncSession.flush w))
  | rollback {w : World} (h : World.Reachable env w) :
      World.Reachable env (stateOf (AsyncSession.rollback w))
  | elsewhere {w w' : World} (h : World.Reachable env w) (hdb : w'.db = w.db)
      (hprovider : w'.provider = w.provider) : World.Reachable env w'
  | others {w v : World} (h : World.Reachable env w) (hv : World.Reachable env v) (id : String) :
      World.Reachable env (w.sees id (v.db.yourAggregate id))

/-! ## What is asked of an archive row -/

/-- The save of `a`, which left it as `a'`, added `row`. It names the last event, and unless
    `a` is deleted it agrees with the live row on all columns they share. -/
structure SnapshotOf (env : Env) (a a' : YourAggregate) (before after : Database)
    (row : YourAggregateArchiveModel) : Prop where
  added : after.yourAggregateArchive = before.yourAggregateArchive ++ [row]
  event : ∃ e t, a.domainEvents.getLast? = some e ∧
    a'.domainEvents.getLast? = some { e with tracer := some t } ∧
    (∀ t₀, e.tracer = some t₀ → t₀ = t) ∧
    row.doer = some (env.mixin.serializeUser e.body.doer) ∧ row.eventName = some e.body.name ∧
    row.eventSpanId = some t.spanId ∧ row.eventTraceId = some t.traceId
  live : a.isDelete = false → after.yourAggregate a.id = some ⟨row.toYourAggregateMixin⟩

/-- The flush does not change `updated_at`: the row goes, or is new, or no column of it
    changes, or it was updated in this transaction already. -/
def LeavesUpdatedAt (env : Env) (a : YourAggregate) (s : AsyncSession) : Prop :=
  a.isDelete = true ∨ s.view.yourAggregate a.id = none ∨
    ∃ old, s.view.yourAggregate a.id = some old ∧
      (YourAggregateRepository.modelOf env a (some old) = old ∨ old.updatedAt = some s.now)

/-! ## Between the statements of a session -/

/-- Every row has its creation time. -/
def Database.Timed (d : Database) : Prop :=
  ∀ id row, d.yourAggregate id = some row → row.createdAt.isSome = true

/-- Nothing is pending, and the rows have their creation times. -/
structure World.Tidy (w : World) : Prop where
  db : w.db.Timed
  session : ∀ s, w.provider.session = some s → s.view.Timed ∧ s.pending = []

section
variable {env : Env} {w w' : World} {s : AsyncSession}

theorem Database.timed_update {d : Database} (h : d.Timed) {id : String}
    {row : Option YourAggregateModel} (hrow : ∀ m, row = some m → m.createdAt.isSome = true) :
    Database.Timed { d with yourAggregate := Function.update d.yourAggregate id row } := by
  intro id' m hm
  by_cases hid : id' = id
  · subst hid
    dsimp only at hm
    rw [Function.update_self] at hm
    exact hrow m hm
  · dsimp only at hm
    rw [Function.update_of_ne hid] at hm
    exact h id' m hm

theorem Database.Timed.write {d : Database} (h : d.Timed) (now : DateTime) (p : Pending) :
    (d.write now p).Timed := by
  cases p with
  | add model =>
    refine Database.timed_update h fun m hm => ?_
    cases hold : d.yourAggregate model.id with
    | none =>
      rw [hold] at hm
      cases hm
      rfl
    | some old =>
      obtain ⟨updatedAt, hupdate⟩ := model.updateRow_cases old now
      rw [hold] at hm
      cases hm
      dsimp only
      rw [hupdate]
      exact h model.id old hold
  | delete id => exact Database.timed_update h fun m hm => nomatch hm
  | addArchive model => exact h
  | addEvent model => exact h

theorem Database.Timed.writeAll {d : Database} (h : d.Timed) (now : DateTime) (ps : List Pending) :
    (d.writeAll now ps).Timed :=
  foldl_induction (I := Database.Timed) h ps fun _ p _ hd => hd.write now p

theorem World.Tidy.same (h : w.Tidy) (hdb : w'.db = w.db) (hprovider : w'.provider = w.provider) :
    w'.Tidy where
  db := by
    rw [hdb]
    exact h.db
  session := by
    rw [hprovider]
    exact h.session

theorem World.Tidy.quiet (h : w.Tidy) (hq : Quiet w w') : w'.Tidy := h.same hq.db hq.provider

theorem World.Tidy.setSession (h : w.Tidy) (hview : s.view.Timed) (hpending : s.pending = []) :
    (w.setSession (some s)).Tidy where
  db := h.db
  session s' hs' := by
    cases hs'
    exact ⟨hview, hpending⟩

/-- A tidy world stays one. -/
abbrev KeepsTidy {α : Type} (x : M α) : Prop := Triple World.Tidy x (fun _ => World.Tidy) fun _ => World.Tidy

theorem KeepsTidy.of_quiets {α : Type} {x : M α} (hq : Quiets x) : KeepsTidy x := by
  intro w hw
  have hquiet := hq w
  cases hx : x w with
  | ok a t =>
    rw [hx] at hquiet
    exact hw.quiet hquiet
  | error e t =>
    rw [hx] at hquiet
    exact hw.quiet hquiet

theorem KeepsTidy.stateOf {α : Type} {x : M α} (h : KeepsTidy x) (hw : w.Tidy) :
    (stateOf (x w)).Tidy := by
  have hrun := h w hw
  cases hx : x w with
  | ok a t =>
    rw [hx] at hrun
    exact hrun
  | error e t =>
    rw [hx] at hrun
    exact hrun

theorem currentSession_tidy : Triple World.Tidy currentSession
    (fun s w => w.Tidy ∧ s.view.Timed ∧ s.pending = []) fun _ => World.Tidy := by
  intro w hw
  cases hs : w.provider.session with
  | none =>
    have hrun : currentSession w = .error (.attributeError "'NoneType' object has no attribute") w :=
      bind_ok (get_run w) (by rw [hs]; rfl)
    rw [hrun]
    exact hw
  | some s =>
    rw [currentSession_run hs]
    exact ⟨hw, hw.session s hs⟩

theorem modify_tidy {f : World → World} (h : ∀ w, w.Tidy → (f w).Tidy) :
    KeepsTidy (modify f : M PUnit) := Triple.modify h

theorem note_tidy (a : SessionAction) : KeepsTidy (modify (World.note · a) : M PUnit) :=
  modify_tidy fun _ hw => hw.same rfl rfl

theorem deactivate_tidy (s : AsyncSession) : ∀ w, w.Tidy → (AsyncSession.deactivate s w).Tidy :=
  fun _ hw => hw.setSession hw.db rfl

theorem rollback_tidy : KeepsTidy AsyncSession.rollback := by
  refine currentSession_tidy.bind fun s => Triple.modify fun w hw => ?_
  have hnoted : World.Tidy { w.note .rolledBack with tx := w.tx + 1 } := hw.1.same rfl rfl
  exact hnoted.setSession hw.1.db rfl

theorem flush_tidy : KeepsTidy AsyncSession.flush := by
  refine currentSession_tidy.bind fun s => Triple.intro fun w hw => ?_
  rw [hw.2.2]
  exact Triple.pure fun w' hw' => hw' ▸ hw.1

theorem awaitOr_tidy (s : AsyncSession) :
    KeepsTidy (tryCatch awaitPoint fun e => do modify (AsyncSession.deactivate s); throw e) :=
  (KeepsTidy.of_quiets Quiets.awaitPoint).tryCatch fun _ =>
    (modify_tidy (deactivate_tidy s)).bind fun _ => Triple.throw fun _ hw => hw

theorem commit_tidy : KeepsTidy AsyncSession.commit := by
  refine (KeepsTidy.of_quiets Quiets.currentSession).bind fun s => (note_tidy _).bind fun _ => ?_
  refine Triple.ite (fun _ => Triple.throw fun _ hw => hw) fun _ => flush_tidy.bind fun _ => ?_
  refine currentSession_tidy.bind fun s => Triple.intro fun w hw => ?_
  refine ((awaitOr_tidy s).start hw.1).bind fun _ => Triple.modify fun w' hw' => ?_
  -- what is committed is the session's view
  exact ⟨hw.2.1, hw'.session⟩

theorem close_tidy : KeepsTidy AsyncSession.close :=
  (KeepsTidy.of_quiets Quiets.currentSession).bind fun _ => note_tidy _

theorem forget_tidy : KeepsTidy (modify (World.setSession · none) : M PUnit) :=
  modify_tidy fun _ hw => ⟨hw.db, fun _ hs => nomatch hs⟩

theorem setCount_tidy (n : World → Int) :
    KeepsTidy (modify fun w => w.setCount (n w) : M PUnit) :=
  modify_tidy fun _ hw => ⟨hw.db, hw.session⟩

theorem aenter_tidy : KeepsTidy SessionProvider.aenter := by
  intro w hw
  by_cases h : w.provider.sessionCount = 0
  · rw [aenter_outer h]
    have hnoted : World.Tidy ({ w with tx := w.tx + 1 }.note .opened) := hw.same rfl rfl
    have hopened : (SessionProvider.openSession w).Tidy := hnoted.setSession hw.db rfl
    exact ⟨hopened.db, hopened.session⟩
  · rw [aenter_inner h]
    exact ⟨hw.db, hw.session⟩

theorem aexit_tidy : KeepsTidy SessionProvider.aexit := by
  refine (setCount_tidy fun w => w.provider.sessionCount - 1).bind fun _ => ?_
  refine Triple.bind (R := fun _ => World.Tidy) (Triple.get fun _ hw => hw) fun v => ?_
  refine Triple.ite (fun _ => (setCount_tidy fun _ => 0).bind fun _ => ?_) fun _ =>
    Triple.pure fun _ hw => hw
  have hraise : ∀ e : Exc, Triple World.Tidy (throw e : M PUnit) (fun _ => World.Tidy)
      fun _ => World.Tidy := fun _ => Triple.throw fun _ hw => hw
  refine Triple.tryCatch (R := fun _ => World.Tidy)
    (commit_tidy.bind fun _ => close_tidy.bind fun _ => forget_tidy) fun e => ?_
  refine Triple.ite (fun _ => ?_) fun _ => hraise e
  exact rollback_tidy.bind fun _ => close_tidy.bind fun _ => forget_tidy.bind fun _ => hraise e

theorem load_quiets (id : String) (lock : Bool) :
    Quiets (YourAggregateRepository.loadYourAggregate env id lock) := by
  refine Quiets.bind ((Quiets.sessionGet id).tryCatch fun e => ?_) fun model => ?_
  · split
    · exact Quiets.pure none
    · exact Quiets.throw e
  · cases model with
    | none => exact Quiets.throw _
    | some model =>
      dsimp only
      cases YourAggregateRepository.modelToEntity env model with
      | ok a => exact Quiets.pure a
      | error e => exact Quiets.throw e

end

/-! ## What a save leaves pending -/

/-- The session is `s`, with the writes `ps` pending, and the database is `d`. -/
structure Awaits (d : Database) (s : AsyncSession) (ps : List Pending) (w : World) : Prop where
  db : w.db = d
  session : w.provider.session = some { s with pending := ps }

/-- Always returns, with writes added to the pending ones; `R` says which. -/
def Appends {α : Type} (x : M α) (R : α → List Pending → Prop) : Prop :=
  ∀ d s ps w, Awaits d s ps w → ∃ a w' qs, x w = .ok a w' ∧ Awaits d s (ps ++ qs) w' ∧ R a qs

namespace Appends
variable {α β : Type} {R : α → List Pending → Prop} {S : β → List Pending → Prop}

theorem pure {a : α} (h : R a []) : Appends (pure a) R :=
  fun d s ps w hw => ⟨a, w, [], rfl, by rw [List.append_nil]; exact hw, h⟩

theorem bind {x : M α} {f : α → M β} (hx : Appends x R)
    (hf : ∀ a qs, R a qs → Appends (f a) fun b rs => S b (qs ++ rs)) : Appends (x >>= f) S := by
  intro d s ps w hw
  obtain ⟨a, w₁, qs, h₁, hw₁, ha⟩ := hx d s ps w hw
  obtain ⟨b, w₂, rs, h₂, hw₂, hb⟩ := hf a qs ha d s _ w₁ hw₁
  rw [List.append_assoc] at hw₂
  exact ⟨b, w₂, qs ++ rs, bind_ok h₁ h₂, hw₂, hb⟩

theorem of_harmless {x : M α} {P : α → Prop} (hx : Harmless x P) :
    Appends x fun a qs => qs = [] ∧ P a := by
  intro d s ps w hw
  obtain ⟨a, w', hrun, hframed, ha⟩ := hx w
  refine ⟨a, w', [], hrun, ⟨hframed.db.trans hw.db, ?_⟩, rfl, ha⟩
  rw [List.append_nil, hframed.provider]
  exact hw.session

theorem enqueue (p : Pending) : Appends (AsyncSession.enqueue p) fun _ qs => qs = [p] :=
  fun _ _ _ _ hw => ⟨(), _, [p], enqueue_run hw.session p, ⟨hw.db, rfl⟩, rfl⟩

end Appends

section
variable {env : Env} {a a' : YourAggregate}

/-- The archive row of the last event, which is traced then. -/
structure Archived (env : Env) (a : YourAggregate) (model : YourAggregateModel) (e : DomainEvent)
    (events : List DomainEvent) (qs : List Pending) : Prop where
  row : ∃ archiveId t, qs = [.addArchive (archiveRow env archiveId t e.body model)] ∧
    events = a.domainEvents.dropLast ++ [{ e with tracer := some t }] ∧
    ∀ t₀, e.tracer = some t₀ → t₀ = t

theorem archiveIfRaised_appends (model : YourAggregateModel) :
    Appends (YourAggregateRepository.archiveIfRaised env a model) fun a' qs =>
      a.isArchive = true → ∀ e, a.domainEvents.getLast? = some e →
        Archived env a model e a'.domainEvents qs := by
  unfold YourAggregateRepository.archiveIfRaised
  by_cases harchive : a.isArchive = true
  · rw [if_pos harchive]
    unfold YourAggregateRepository.archive
    refine (Appends.of_harmless (Harmless.uuid4 (show UuidKind.archive ≠ .aggregate by decide))).bind
      fun archiveId qs hqs => ?_
    rw [hqs.1, YourAggregate.allEvents]
    cases hlast : a.domainEvents.getLast? with
    | none =>
      refine (Appends.enqueue _).bind fun _ _ _ => Appends.pure fun _ e he => ?_
      cases he
    | some e =>
      refine (Appends.of_harmless (getTracer_keeps e)).bind fun r qs hr => ?_
      obtain ⟨rfl, hevent, hkeeps⟩ := hr
      refine (Appends.enqueue _).bind fun _ qs hqs => Appends.pure fun _ e' he' => ?_
      cases he'
      rw [hqs, hevent]
      exact ⟨archiveId, r.2, rfl, rfl, hkeeps⟩
  · rw [if_neg harchive]
    exact Appends.pure fun h => absurd h harchive

/-- The event rows. An event that is traced stays as it is. -/
theorem addEvents_appends : ∀ events : List DomainEvent,
    Appends (YourAggregateRepository.addEvents env events) fun events' qs =>
      (∃ rows : List DomainEventModel, qs = rows.map Pending.addEvent) ∧
        List.Forall₂ (fun e e' => ∀ t, e.tracer = some t → e' = e) events events'
  | [] => Appends.pure ⟨⟨[], rfl⟩, List.Forall₂.nil⟩
  | e :: events => by
    have hrow : Appends (e.serialize env) fun r qs => qs = [] ∧ ∀ t, e.tracer = some t → r.1 = e := by
      refine (Appends.of_harmless (getTracer_keeps e)).bind fun r qs hr => ?_
      obtain ⟨rfl, hevent, hkeeps⟩ := hr
      refine Appends.pure ⟨rfl, fun t ht => ?_⟩
      show r.1 = e
      rw [hevent, ← hkeeps t ht, ← ht]
    refine hrow.bind fun r qs hr => (Appends.enqueue _).bind fun _ qs' hqs =>
      (addEvents_appends events).bind fun events' rs hrs => Appends.pure ?_
    obtain ⟨⟨rows, hrs⟩, hsame⟩ := hrs
    refine ⟨⟨r.2 :: rows, ?_⟩, List.Forall₂.cons hr.2 hsame⟩
    rw [hr.1, hqs, hrs, List.append_nil]
    rfl

/-! ## A save -/

/-- The save of `a` with the row's object `model` returned `a'`: the session sees what it
    wrote, and the archive row is that of the last event. -/
def Saved (env : Env) (a a' : YourAggregate) (model : YourAggregateModel) (s : AsyncSession)
    (w : World) : Prop :=
  ∃ (qs : List Pending) (rows : List DomainEventModel),
    w.provider.session = some { s with
      view := s.view.writeAll s.now ((if a.isDelete then .delete model.id else .add model) ::
        (qs ++ rows.map Pending.addEvent))
      pending := [] } ∧
    (a.isArchive = true → ∀ e, a.domainEvents.getLast? = some e → ∃ archiveId t,
      qs = [.addArchive (archiveRow env archiveId t e.body model)] ∧
      a'.domainEvents.getLast? = some { e with tracer := some t } ∧
      ∀ t₀, e.tracer = some t₀ → t₀ = t)

theorem flush_awaits {w : World} {s : AsyncSession} {ps : List Pending} (hw : w.db.Timed)
    (h : Awaits w.db s ps w) (hps : ps ≠ []) (hactive : s.active = true) :
    Triple (fun v => v = w) AsyncSession.flush
      (fun _ v => v.db = w.db ∧ v.provider.session =
        some { s with view := s.view.writeAll s.now ps, pending := [] })
      fun _ => World.Tidy := by
  intro v hv
  subst hv
  cases hf : v.nextFault with
  | none =>
    rw [flush_ok h.session hps hactive hf]
    exact ⟨rfl, rfl⟩
  | some e =>
    rw [flush_error h.session hps hactive hf]
    refine ⟨hw, fun s' hs' => ?_⟩
    cases hs'
    exact ⟨hw, rfl⟩

/-- A save from the write of the row on: nothing raises before the flush. -/
theorem save_written (env : Env) (a : YourAggregate) {d : Database} {s : AsyncSession} {v : World}
    (hd : d.Timed) (hactive : s.active = true) (model : YourAggregateModel)
    (hv : Awaits d s [if a.isDelete then .delete model.id else .add model] v) :
    Triple (fun w => w = v) (do
        let a ← YourAggregateRepository.archiveIfRaised env a model
        let events ← YourAggregateRepository.addEvents env a.allEvents
        AsyncSession.flush
        pure { a with domainEvents := events } : M YourAggregate)
      (fun a' w => w.db = d ∧ Saved env a a' model s w) fun _ => World.Tidy := by
  rintro _ rfl
  obtain ⟨a₁, v₂, qs, h₂, hv₂, harchived⟩ := archiveIfRaised_appends model d s _ _ hv
  obtain ⟨events, v₃, rs, h₃, hv₃, ⟨rows, hrows⟩, hsame⟩ :=
    addEvents_appends a₁.allEvents d s _ v₂ hv₂
  have htimed : v₃.db.Timed := by
    rw [hv₃.db]
    exact hd
  -- only the flush can raise, since what comes before it only adds to the session
  have hflush := flush_awaits htimed (by rw [hv₃.db]; exact hv₃) (by simp) hactive v₃ rfl
  rw [bind_ok h₂ (bind_ok h₃ rfl), bind_run]
  cases hf : AsyncSession.flush v₃ with
  | error e v₄ =>
    rw [hf] at hflush
    exact hflush
  | ok u v₄ =>
    rw [hf] at hflush
    refine ⟨hflush.1.trans hv₃.db, qs, rows, ?_, fun harchive e he => ?_⟩
    · rw [hflush.2, hrows, List.append_assoc]
      rfl
    · obtain ⟨archiveId, t, hqs, hevents, hkeeps⟩ := (harchived harchive e he).row
      have hlast : a₁.allEvents.getLast? = some { e with tracer := some t } := by
        rw [YourAggregate.allEvents, hevents, List.getLast?_append]
        rfl
      -- the archive read the last event's tracer, and writing the events keeps it
      obtain ⟨e', he', htraced⟩ := Lists.exists_getLast?_of_forall₂ hsame hlast
      rw [htraced t rfl] at he'
      exact ⟨archiveId, t, hqs, he', hkeeps⟩

theorem save_spec (env : Env) (a : YourAggregate) {w : World} {s : AsyncSession} (hw : w.Tidy)
    (hs : w.provider.session = some s) (hactive : s.active = true) (model : YourAggregateModel)
    (persistent : Bool) :
    Triple (fun v => v = w) (YourAggregateRepository.save env a model persistent)
      (fun a' v => v.db = w.db ∧ Saved env a a' model s v) fun _ => World.Tidy := by
  rintro v rfl
  unfold YourAggregateRepository.save
  rw [bind_run]
  cases hpersist : YourAggregateRepository.persist a model persistent v with
  | error e v₁ =>
    rw [persist_raises hs hpersist]
    exact hw
  | ok u v₁ =>
    rw [persist_enqueues hs hpersist]
    have hv : Awaits v.db s [if a.isDelete then .delete model.id else .add model]
        (v.enqueued s (if a.isDelete then .delete model.id else .add model)) := by
      refine ⟨rfl, ?_⟩
      show some { s with pending := s.pending ++ _ } = _
      rw [(hw.session s hs).2]
      rfl
    exact save_written env a hw.db hactive model hv _ rfl

/-- A row that was read was read in an active session. -/
theorem sessionGet_returns {id : String} {found : Option YourAggregateModel} {w w' : World}
    (h : AsyncSession.get id w = .ok found w') :
    ∃ s, w.provider.session = some s ∧ s.active = true ∧ found = s.view.yourAggregate id := by
  obtain ⟨s, w₁, hs, h⟩ := bind_eq_ok h
  have hsession : w.provider.session = some s := by
    cases hw : w.provider.session with
    | none =>
      rw [currentSession, bind_ok (get_run w) rfl, hw] at hs
      cases hs
    | some s' =>
      rw [currentSession_run hw] at hs
      cases hs
      rfl
  refine ⟨s, hsession, ?_⟩
  cases hactive : s.active with
  | false =>
    rw [if_pos hactive] at h
    cases h
  | true =>
    rw [if_neg (by simp [hactive])] at h
    obtain ⟨_, w₂, _, h⟩ := bind_eq_ok h
    cases h
    exact ⟨rfl, rfl⟩

theorem saveYourAggregate_saved (env : Env) (a : YourAggregate) {w : World} (hw : w.Tidy) :
    Triple (fun v => v = w) (YourAggregateRepository.saveYourAggregate env a)
      (fun a' v => v.db = w.db ∧ ∃ s, w.provider.session = some s ∧
        Saved env a a' (YourAggregateRepository.modelOf env a (s.view.yourAggregate a.id)) s v)
      fun _ => World.Tidy := by
  intro v hv
  subst hv
  unfold YourAggregateRepository.saveYourAggregate
  rw [bind_run]
  have hquiet := Quiets.sessionGet a.id v
  cases hget : YourAggregateRepository.getModel a.id v with
  | error e v₁ =>
    rw [show AsyncSession.get a.id v = _ from hget] at hquiet
    exact hw.quiet hquiet
  | ok found v₁ =>
    rw [show AsyncSession.get a.id v = _ from hget] at hquiet
    -- the row could only be read in an active session
    obtain ⟨s, hs, hactive, hfound⟩ := sessionGet_returns hget
    have hs₁ : v₁.provider.session = some s :=
      (congrArg SessionProvider.session hquiet.provider).trans hs
    have hsave := save_spec env a (hw.quiet hquiet) hs₁ hactive
      (YourAggregateRepository.modelOf env a found) found.isSome v₁ rfl
    dsimp only
    cases hrun : YourAggregateRepository.save env a (YourAggregateRepository.modelOf env a found)
        found.isSome v₁ with
    | error e v₂ =>
      rw [hrun] at hsave
      exact hsave
    | ok a' v₂ =>
      rw [hrun] at hsave
      rw [hfound] at hsave
      exact ⟨hsave.1.trans hquiet.db, s, hs, hsave.2⟩

theorem save_tidy (a : YourAggregate) :
    KeepsTidy (YourAggregateRepository.saveYourAggregate env a) := by
  refine Triple.intro fun w hw =>
    (saveYourAggregate_saved env a hw).conseq (fun _ => id) ?_ fun _ _ => id
  intro a' v hv
  obtain ⟨hdb, s, hs, qs, rows, hsession, _⟩ := hv
  refine ⟨?_, fun s' hs' => ?_⟩
  · rw [hdb]
    exact hw.db
  · rw [hsession] at hs'
    cases hs'
    exact ⟨(hw.session s hs).1.writeAll s.now _, rfl⟩

theorem World.Reachable.tidy {w : World} (h : World.Reachable env w) : w.Tidy := by
  induction h with
  | init faults => exact ⟨fun _ _ hrow => (nomatch hrow), fun _ hs => (nomatch hs)⟩
  | aenter _ ih => exact aenter_tidy.stateOf ih
  | aexit _ ih => exact aexit_tidy.stateOf ih
  | load _ id lock ih => exact (KeepsTidy.of_quiets (load_quiets id lock)).stateOf ih
  | save _ a ih => exact (save_tidy a).stateOf ih
  | flush _ ih => exact flush_tidy.stateOf ih
  | rollback _ ih => exact rollback_tidy.stateOf ih
  | elsewhere _ hdb hprovider ih => exact ih.same hdb hprovider
  | @others w v _ _ id ih ihv =>
    have hrow := ihv.db id
    refine ⟨Database.timed_update ih.db hrow, fun s hs => ?_⟩
    obtain ⟨s', hs', rfl⟩ := Option.map_eq_some_iff.mp hs
    obtain ⟨hview, hpending⟩ := ih.session s' hs'
    exact ⟨Database.timed_update hview hrow, hpending⟩

end

/-! ## The archive row and the live row -/

section
variable {env : Env} {a a' : YourAggregate}

/-- Event rows are not archive rows, nor rows of aggregates. -/
theorem writeAll_events (now : DateTime) (rows : List DomainEventModel) (d : Database) :
    (d.writeAll now (rows.map Pending.addEvent)).yourAggregate = d.yourAggregate ∧
      (d.writeAll now (rows.map Pending.addEvent)).yourAggregateArchive = d.yourAggregateArchive := by
  induction rows generalizing d with
  | nil => exact ⟨rfl, rfl⟩
  | cons row rows ih => exact ih (d.write now (.addEvent row))

/-- The archive row as the flush writes it. -/
def YourAggregateArchiveModel.stored (row : YourAggregateArchiveModel) (now : DateTime) :
    YourAggregateArchiveModel :=
  { row with createdAt := some (row.createdAt.getD now) }

theorem writeAll_save (now : DateTime) (d : Database) (p : Pending)
    (hp : (d.write now p).yourAggregateArchive = d.yourAggregateArchive)
    (archive : YourAggregateArchiveModel) (rows : List DomainEventModel) :
    let d' := d.writeAll now (p :: ([.addArchive archive] ++ rows.map Pending.addEvent))
    d'.yourAggregate = (d.write now p).yourAggregate ∧
      d'.yourAggregateArchive = d.yourAggregateArchive ++ [archive.stored now] := by
  obtain ⟨hrows, harchive⟩ := writeAll_events now rows ((d.write now p).write now (.addArchive archive))
  refine ⟨hrows, harchive.trans ?_⟩
  show (d.write now p).yourAggregateArchive ++ [_] = _
  rw [hp]
  rfl

/-- The row that an update leaves. The model filled in from a row has the row's times. -/
theorem updateRow_modelOf (a : YourAggregate) (old : YourAggregateModel) (now : DateTime) :
    (YourAggregateRepository.modelOf env a (some old)).updateRow old now =
      if YourAggregateRepository.modelOf env a (some old) = old then old
      else { YourAggregateRepository.modelOf env a (some old) with updatedAt := some now } := rfl

theorem write_new {d : Database} (model : YourAggregateModel) (now : DateTime)
    (h : d.yourAggregate model.id = none) :
    (d.write now (.add model)).yourAggregate model.id =
      some { model with createdAt := some (model.createdAt.getD now) } := by
  rw [Database.write, h]
  exact Function.update_self _ _ _

theorem write_existing {d : Database} {old : YourAggregateModel} (model : YourAggregateModel)
    (now : DateTime) (h : d.yourAggregate model.id = some old) :
    (d.write now (.add model)).yourAggregate model.id = some (model.updateRow old now) := by
  rw [Database.write, h]
  exact Function.update_self _ _ _

/-- The live row of a save is the archived copy just when `updated_at` is left alone. -/
theorem live_iff {s : AsyncSession} (hview : s.view.Timed) (hlive : a.isDelete = false)
    (archiveId : String) (t : Tracer) (b : EventBody) :
    (s.view.write s.now (.add (YourAggregateRepository.modelOf env a
        (s.view.yourAggregate a.id)))).yourAggregate a.id =
      some ⟨((archiveRow env archiveId t b (YourAggregateRepository.modelOf env a
        (s.view.yourAggregate a.id))).stored s.now).toYourAggregateMixin⟩ ↔
      LeavesUpdatedAt env a s := by
  unfold LeavesUpdatedAt
  cases hold : s.view.yourAggregate a.id with
  | none =>
    have hwrite := write_new (YourAggregateRepository.modelOf env a none) s.now hold
    exact ⟨fun _ => Or.inr (Or.inl rfl), fun _ => hwrite⟩
  | some old =>
    have hwrite := write_existing (YourAggregateRepository.modelOf env a (some old)) s.now hold
    rw [show a.id = (YourAggregateRepository.modelOf env a (some old)).id from rfl, hwrite]
    obtain ⟨c, hc⟩ := Option.isSome_iff_exists.mp (hview a.id old hold)
    -- the copy keeps both times
    have hcopy : (⟨((archiveRow env archiveId t b (YourAggregateRepository.modelOf env a
        (some old))).stored s.now).toYourAggregateMixin⟩ : YourAggregateModel) =
          YourAggregateRepository.modelOf env a (some old) := by
      have hcreated : (YourAggregateRepository.modelOf env a (some old)).createdAt = some c := hc
      unfold YourAggregateArchiveModel.stored archiveRow
      dsimp only
      rw [hcreated, Option.getD_some, ← hcreated]
    rw [hcopy, Option.some_inj]
    rw [updateRow_modelOf]
    by_cases hsame : YourAggregateRepository.modelOf env a (some old) = old
    · rw [if_pos hsame]
      exact ⟨fun _ => Or.inr (Or.inr ⟨old, rfl, Or.inl hsame⟩), fun _ => hsame.symm⟩
    · rw [if_neg hsame]
      constructor
      · intro h
        refine Or.inr (Or.inr ⟨old, rfl, Or.inr ?_⟩)
        exact (congrArg (fun m : YourAggregateModel => m.updatedAt) h).symm
      · rintro (h | h | ⟨old', h, hor⟩)
        · rw [hlive] at h
          cases h
        · cases h
        · cases h
          have hnow : old.updatedAt = some s.now := hor.resolve_left hsame
          rw [← hnow]
          rfl

/-- The save of `a`, which left it as `a'`, took the session from `s` to `s'`: the archive has
    one more row, that of the last event `e`, and a row that was written is there. -/
structure ArchivesLast (env : Env) (a a' : YourAggregate) (s s' : AsyncSession)
    (archiveId : String) (t : Tracer) (e : DomainEvent) : Prop where
  last : a.domainEvents.getLast? = some e
  traced : a'.domainEvents.getLast? = some { e with tracer := some t }
  kept : ∀ t₀, e.tracer = some t₀ → t₀ = t
  added : s'.view.yourAggregateArchive = s.view.yourAggregateArchive ++
    [(archiveRow env archiveId t e.body
      (YourAggregateRepository.modelOf env a (s.view.yourAggregate a.id))).stored s.now]
  written : a.isDelete = false → s'.view.yourAggregate a.id = (s.view.write s.now
    (.add (YourAggregateRepository.modelOf env a (s.view.yourAggregate a.id)))).yourAggregate a.id

/-- A save of an aggregate with events archives it once, whatever it does to the row. -/
theorem saveYourAggregate_archives {a : LiveAggregate} {w w' : World} {s : AsyncSession}
    (hw : w.Tidy) (hs : w.provider.session = some s) (hevents : a.object.domainEvents ≠ [])
    (h : YourAggregateRepository.saveYourAggregate env a.object w = .ok a' w') :
    ∃ s' archiveId t e, w'.provider.session = some s' ∧
      ArchivesLast env a.object a' s s' archiveId t e := by
  obtain ⟨a, harchives⟩ := a
  dsimp only at hevents h ⊢
  have hsaved := saveYourAggregate_saved env a hw w rfl
  rw [h] at hsaved
  obtain ⟨_, s₀, hs₀, qs, rows, hsession, hevent⟩ := hsaved
  rw [hs] at hs₀
  cases hs₀
  have harchive : a.isArchive = true := by
    rw [harchives]
    simpa using hevents
  obtain ⟨e, he⟩ := Option.isSome_iff_exists.mp (List.getLast?_isSome.mpr hevents)
  obtain ⟨archiveId, t, rfl, hlast, hkeeps⟩ := hevent harchive e he
  let model := YourAggregateRepository.modelOf env a (s.view.yourAggregate a.id)
  let p : Pending := if a.isDelete then .delete model.id else .add model
  have hp : (s.view.write s.now p).yourAggregateArchive = s.view.yourAggregateArchive := by
    change (s.view.write s.now
      (if a.isDelete then .delete model.id else .add model)).yourAggregateArchive = _
    cases a.isDelete <;> rfl
  obtain ⟨hrows, hadded⟩ :=
    writeAll_save s.now s.view p hp (archiveRow env archiveId t e.body model) rows
  refine ⟨_, archiveId, t, e, hsession, he, hlast, hkeeps, hadded, fun hd => ?_⟩
  have hadd : p = .add model := if_neg (by simp [hd])
  have hrow : (s.view.write s.now p).yourAggregate = (s.view.write s.now (.add model)).yourAggregate := by
    rw [hadd]
  exact congrFun (hrows.trans hrow) a.id

/-- A save of an aggregate with events, in a reachable world: what it adds to the archive is a
    snapshot if and only if the flush leaves the row's `updated_at` as it was loaded. -/
theorem archived_faithfully_iff {a : LiveAggregate} {w w' : World} {s : AsyncSession}
    (hw : World.Reachable env w) (hs : w.provider.session = some s)
    (hevents : a.object.domainEvents ≠ [])
    (h : YourAggregateRepository.saveYourAggregate env a.object w = .ok a' w') :
    (∃ s' row, w'.provider.session = some s' ∧
        SnapshotOf env a.object a' s.view s'.view row) ↔ LeavesUpdatedAt env a.object s := by
  obtain ⟨s', archiveId, t, e, hs', hsaved⟩ := saveYourAggregate_archives hw.tidy hs hevents h
  have hview : s.view.Timed := (hw.tidy.session s hs).1
  constructor
  · rintro ⟨s'', row, hs'', hsnap⟩
    rw [hs'] at hs''
    cases hs''
    cases hd : a.object.isDelete with
    | true => exact Or.inl hd
    | false =>
      -- the snapshot is the row that was added
      have hboth := hsnap.added.symm.trans hsaved.added
      have hlive := hsnap.live hd
      rw [(List.cons.inj (List.append_cancel_left hboth)).1, hsaved.written hd] at hlive
      exact (live_iff hview hd archiveId t e.body).mp hlive
  · intro hleaves
    refine ⟨s', _, hs', hsaved.added,
      ⟨e, t, hsaved.last, hsaved.traced, hsaved.kept, rfl, rfl, rfl, rfl⟩, fun hd => ?_⟩
    rw [hsaved.written hd]
    exact (live_iff hview hd archiveId t e.body).mpr hleaves

end

/-- A fresh process in its first scope, with the new aggregate saved there, and in the scope
    after that. -/
def firstScope : World := stateOf (SessionProvider.aenter (World.init []))

def savedInFirst : World :=
  stateOf (YourAggregateRepository.saveYourAggregate .plain newObject.object firstScope)

def secondScope : World :=
  stateOf (SessionProvider.aenter (stateOf (SessionProvider.aexit savedInFirst)))

theorem firstScope_reachable : World.Reachable .plain firstScope := (World.Reachable.init []).aenter

theorem secondScope_reachable : World.Reachable .plain secondScope :=
  (firstScope_reachable.save newObject.object).aexit.aenter

theorem archived_faithfully_new : ∃ a' w',
    YourAggregateRepository.saveYourAggregate .plain newObject.object firstScope = .ok a' w' ∧
      ∃ s' row, w'.provider.session = some s' ∧
        SnapshotOf .plain newObject.object a' Database.empty s'.view row := by
  have hreturns : raised (YourAggregateRepository.saveYourAggregate .plain newObject.object
      firstScope) = none := by decide +kernel
  obtain ⟨a', hrun⟩ := eq_ok_of_raised hreturns
  exact ⟨a', _, hrun, (archived_faithfully_iff firstScope_reachable rfl (List.cons_ne_nil _ _)
    hrun).mpr (Or.inr (Or.inl rfl))⟩

/-- The new aggregate as it is loaded later, and then updated. -/
def changedObject : LiveAggregate :=
  ⟨stateOf (YourAggregate.updateYourAggregate .asdict 1 ⟨"q", 2⟩ ⟨some "u", none, none, none, none⟩
    { newObject.object with domainEvents := [], isArchive := false }), rfl⟩

theorem archived_before_update : World.Reachable .plain secondScope ∧
    changedObject.object.domainEvents ≠ [] ∧ ∃ s a' w',
      secondScope.provider.session = some s ∧
      YourAggregateRepository.saveYourAggregate .plain changedObject.object secondScope = .ok a' w' ∧
      ¬∃ s' row, w'.provider.session = some s' ∧
        SnapshotOf .plain changedObject.object a' s.view s'.view row := by
  have hrun : raised (YourAggregateRepository.saveYourAggregate .plain changedObject.object
      secondScope) = none := by decide +kernel
  obtain ⟨a', hrun⟩ := eq_ok_of_raised hrun
  have hopen : (secondScope.provider.session.map fun _ => ()) = some () := by decide +kernel
  obtain ⟨s, hs, _⟩ := Option.map_eq_some_iff.mp hopen
  refine ⟨secondScope_reachable, List.cons_ne_nil _ _, s, a', _, hs, hrun, ?_⟩
  rintro ⟨s', row, hs', hsnap⟩
  -- the row was just updated, and the two copies say that it never was
  have hrows : ((stateOf (YourAggregateRepository.saveYourAggregate .plain changedObject.object
      secondScope)).provider.session.map fun s =>
        ((s.view.yourAggregate changedObject.object.id).map (·.updatedAt),
          s.view.yourAggregateArchive.map (·.updatedAt))) =
            some (some (some 1), [none, none]) := by decide +kernel
  rw [hs', Option.map_some, Option.some_inj, Prod.mk.injEq, hsnap.live rfl, hsnap.added,
    List.map_append] at hrows
  obtain ⟨hlive, harchive⟩ := hrows
  have hcopy : row.updatedAt = none := by
    have hlast := congrArg List.getLast? harchive
    rw [List.getLast?_append] at hlast
    exact Option.some.inj hlast
  have hupdated : row.updatedAt = some 1 := Option.some.inj hlive
  rw [hcopy] at hupdated
  cases hupdated

end DddService
