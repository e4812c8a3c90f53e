import DddService.Calls

/- The controller's calls on stored aggregates as transactions. A request loads its
   row for update, applies the entity's operation, and saves the whole row with its
   archive row and its event (`Modification.execute`). The times and ids it draws
   are the environment's (`Stamp`).

   `Modification.run_executes` says that the use case does just this, handlers and
   all. -/
namespace DddService
open Hoare EventLog

/-! ## Requests -/

inductive Modification where
  | update (r : UpdateYourAggregateRequest)
  | void (r : IdRequest)
  | delete (r : IdRequest)

/-- What the environment gives an executed request. Its operation raises one event,
    so one tracer is enough. -/
structure Stamp where
  now : DateTime
  archiveId : String
  tracer : Tracer
  dbNow : DateTime

namespace Modification
variable (env : Env)

def id : Modification → String
  | update r => r.id
  | void r => r.id
  | delete r => r.id

/-- The operation of the entity. -/
def operation (now : DateTime) : Modification → YourAggregateM
  | update r => YourAggregate.updateYourAggregate env.mixin now r.yourValueObject r.doer
  | void r => YourAggregate.voidYourAggregate now r.doer
  | delete r => YourAggregate.deleteYourAggregate r.doer

/-- The change of the ledger. -/
def change : Modification → Change
  | update r => .updated r.yourValueObject r.doer
  | void r => .voided r.doer
  | delete r => .deleted r.doer

/-- What `save_your_aggregate` writes on the row `found`: the row, its archive row,
    and the events. -/
def savedWrites (st : Stamp) (a : YourAggregate) (found : Option YourAggregateModel) :
    List Pending :=
  let model := YourAggregateRepository.modelOf env a found
  let archived : List Pending := match a.allEvents.getLast? with
    | some e => [.addArchive (archiveRow env st.archiveId st.tracer e.body model)]
    | none => [.addArchive { model with
        archiveId := st.archiveId, doer := none, eventName := none, eventSpanId := none
        eventTraceId := none }]
  [if a.isDelete then .delete model.id else .add model] ++ (if a.isArchive then archived else []) ++
    a.allEvents.map fun e => .addEvent (eventRow st.tracer e.body)

/-- The request on the row it has loaded, with the row its save finds; `none` if it
    raises. -/
def execute (st : Stamp) (m : Modification) (row found : Option YourAggregateModel) :
    Option (DateTime × List Pending) := do
  let model ← row
  let a ← (YourAggregateRepository.modelToEntity env model).toOption
  let a ← ((m.operation env st.now).call a).toOption
  pure (st.dbNow, savedWrites env st a found)

end Modification

/-! ## What a request does -/

section
variable {env : Env}

/-- An operation that returns adds its one event, and at most an entry of history. -/
theorem Modification.call_ok {m : Modification} {now : DateTime} {a a' : YourAggregate}
    (h : (m.operation env now).call a = .ok a') :
    a'.id = a.id ∧ a'.isArchive = true ∧
      a'.domainEvents = a.domainEvents ++ [⟨bodyOf a.id m.change, none⟩] ∧
      a.operationHistories <+: a'.operationHistories := by
  unfold YourAggregateM.call at h
  cases m with
  | update r =>
    unfold Modification.operation at h
    dsimp only at h
    rw [YourAggregate.updateYourAggregate_run] at h
    by_cases hv : a.status = .voided
    · rw [if_pos hv] at h
      cases h
    · rw [if_neg hv] at h
      cases h
      exact ⟨rfl, rfl, rfl, List.prefix_append _ _⟩
  | void r =>
    unfold Modification.operation at h
    dsimp only at h
    rw [YourAggregate.voidYourAggregate_run] at h
    by_cases hv : a.status = .voided
    · rw [if_pos hv] at h
      cases h
    · rw [if_neg hv] at h
      cases h
      exact ⟨rfl, rfl, rfl, List.prefix_append _ _⟩
  | delete r =>
    cases h
    exact ⟨rfl, rfl, rfl, List.prefix_rfl⟩

theorem Modification.savedWrites_eq {a : YourAggregate} {e : DomainEvent} (ha : a.isArchive = true)
    (he : a.domainEvents = [e]) (st : Stamp) (found : Option YourAggregateModel) :
    savedWrites env st a found = saveWrites env st.archiveId st.tracer e.body a found := by
  unfold savedWrites YourAggregate.allEvents
  rw [he, ha]
  rfl

theorem Modification.execute_ok {m : Modification} {model : YourAggregateModel}
    {a a' : YourAggregate} {st : Stamp} (found : Option YourAggregateModel)
    (hload : YourAggregateRepository.modelToEntity env model = .ok a)
    (hcall : (m.operation env st.now).call a = .ok a') :
    m.execute env st (some model) found = some (st.dbNow,
      saveWrites env st.archiveId st.tracer (bodyOf model.id m.change) a' found) := by
  obtain ⟨hid, hnone, _⟩ := modelToEntity_ok hload
  obtain ⟨_, harch, hevents, _⟩ := call_ok hcall
  rw [hnone, List.nil_append, hid] at hevents
  rw [← savedWrites_eq harch hevents]
  show ((YourAggregateRepository.modelToEntity env model).toOption.bind fun a =>
    ((m.operation env st.now).call a).toOption.bind _) = _
  rw [hload]
  show ((m.operation env st.now).call a).toOption.bind _ = _
  rw [hcall]
  rfl

theorem eq_ok_of_toOption {α ε : Type} {r : Except ε α} {a : α} (h : r.toOption = some a) :
    r = .ok a := by
  cases r with
  | error e => cases h
  | ok b => exact congrArg Except.ok (Option.some.inj h)

/-- What a request that does not raise has loaded, done and written. -/
theorem Modification.execute_some {st : Stamp} {m : Modification}
    {row found : Option YourAggregateModel} {writes : DateTime × List Pending}
    (h : m.execute env st row found = some writes) :
    ∃ model a a', row = some model ∧ YourAggregateRepository.modelToEntity env model = .ok a ∧
      (m.operation env st.now).call a = .ok a' ∧
      writes = (st.dbNow,
        saveWrites env st.archiveId st.tracer (bodyOf model.id m.change) a' found) := by
  cases row with
  | none => cases h
  | some model =>
    obtain ⟨a, ha, hrest⟩ := Option.bind_eq_some_iff.mp h
    obtain ⟨a', ha', _⟩ := Option.bind_eq_some_iff.mp hrest
    have hload := eq_ok_of_toOption ha
    have hcall := eq_ok_of_toOption ha'
    rw [execute_ok found hload hcall] at h
    exact ⟨model, a, a', rfl, hload, hcall, (Option.some.inj h).symm⟩

end

/-! ## The use case does just this -/

section
variable {env : Env} {o : Origin env} {n : Int} {k : Nat} {view : Database}

/-- Inside a call, with the session's view and nothing pending. -/
abbrev Sees (o : Origin env) (n : Int) (k : Nat) (view : Database) (w : World) : Prop :=
  Inside o False n k view [] w

/-- The use case's function for the request. -/
def Modification.run (env : Env) (bus : Bus) (owner : Owner) : Modification → M Unit
  | .update r => YourAggregateUseCase.updateYourAggregate env bus owner r.id r.yourValueObject r.doer
  | .void r => YourAggregateUseCase.voidYourAggregate env bus owner r.id r.doer
  | .delete r => YourAggregateUseCase.deleteYourAggregate env bus owner r.id r.doer

/-- `x` leaves the session's view as it is, if it returns. -/
def KeepsView (o : Origin env) (n : Int) (k : Nat) (view : Database) {α : Type} (x : M α) : Prop :=
  Triple (Sees o n k view) x (fun _ => Sees o n k view) (fun _ _ => True)

theorem Harmless.keepsView {α : Type} {x : M α} {R : α → Prop} (h : Harmless x R) :
    KeepsView o n k view x := by
  intro w hw
  obtain ⟨a, w', hx, hi, _⟩ := hw.harmless h
  rw [hx]
  exact hi

theorem loadYourAggregate_view (id : String) (lock : Bool) :
    Triple (Sees o n k view) (YourAggregateRepository.loadYourAggregate env id lock)
      (fun a w => Sees o n k view w ∧ ∃ model, view.yourAggregate id = some model ∧
        YourAggregateRepository.modelToEntity env model = .ok a)
      (fun _ _ => True) := by
  have hget : Triple (Sees o n k view) (tryCatch (AsyncSession.get id)
      (fun e => if e.isException then pure none else throw e))
      (fun row w => Sees o n k view w ∧ (row = view.yourAggregate id ∨ row = none))
      (fun _ _ => True) := by
    intro w hi
    obtain ⟨s, h1, h2, h3, h4⟩ := hi.session
    cases hf : w.nextFault with
    | none =>
      rw [tryCatch_ok (sessionGet_ok h1 h2 hf id), h3]
      exact ⟨hi.advance, Or.inl rfl⟩
    | some e =>
      cases he : e.isException with
      -- a read that fails with an `Exception` is taken for a row that is not there
      | true =>
        rw [tryCatch_error (sessionGet_error h1 h2 hf id) (run_ite_pos he rfl)]
        exact ⟨hi.advance, Or.inr rfl⟩
      | false =>
        rw [tryCatch_error (sessionGet_error h1 h2 hf id) (run_ite_neg (by simp [he]) rfl)]
        trivial
  apply hget.bind
  intro row w hw
  cases row with
  | none => trivial
  | some model =>
    have hrow : view.yourAggregate id = some model := by
      rcases hw.2 with h | h
      · exact h.symm
      · cases h
    dsimp only
    cases hload : YourAggregateRepository.modelToEntity env model with
    | error e => trivial
    | ok a => exact ⟨hw.1, model, hrow, hload⟩

theorem saveYourAggregate_view {a : YourAggregate} {e : DomainEvent} (ha : a.isArchive = true)
    (he : a.domainEvents = [e]) {model : YourAggregateModel}
    (hrow : view.yourAggregate a.id = some model) :
    Triple (Sees o n k view) (YourAggregateRepository.saveYourAggregate env a)
      (fun a' w => a'.domainEvents.map DomainEvent.body = [e.body] ∧ ∃ archiveId t now,
        Sees o n k (view.writeAll now (saveWrites env archiveId t e.body a (some model))) w)
      (fun _ _ => True) := by
  intro w hi
  obtain ⟨s, h1, h2, h3, h4⟩ := hi.session
  cases hf : w.nextFault with
  | some e =>
    have hrun : YourAggregateRepository.saveYourAggregate env a w = .error e w.advance :=
      bind_error (sessionGet_error h1 h2 hf a.id)
    rw [hrun]
    trivial
  | none =>
    have hget : AsyncSession.get a.id w = .ok (some model) w.advance := by
      rw [sessionGet_ok h1 h2 hf, h3, hrow]
    obtain ⟨archiveId, t, w₁, hi₁, hrun⟩ := saveYourAggregate_run ha he (fun _ => rfl) hget hi.advance
    rw [hrun]
    obtain ⟨s₁, g1, g2, g3, g4⟩ := hi₁.session
    have hne : s₁.pending ≠ [] := by
      rw [g4]
      exact List.cons_ne_nil _ _
    cases hf₁ : w₁.nextFault with
    | some e => rw [bind_error (flush_error g1 hne g2 hf₁)]; trivial
    | none =>
      rw [bind_ok (flush_ok g1 hne g2 hf₁) rfl]
      refine ⟨rfl, archiveId, t, s₁.now, hi₁.db, hi₁.count, hi₁.drawn, ⟨_, rfl, g2, ?_, rfl⟩,
        False.elim⟩
      show s₁.view.writeAll s₁.now s₁.pending = _
      rw [g3, g4]

theorem handler_keepsView {func : DomainEvent → M Unit} {event : DomainEvent} (hn : 1 ≤ n)
    (hfunc : KeepsView o (n + 1) k view (func event)) :
    KeepsView o n k view (EventHandlerHelper.connectDbSession func event) := by
  have htrue : ∀ {x : M Unit}, Triple (fun _ => True) x (fun _ _ => True) (fun _ _ => True) := by
    intro x w _
    cases x w <;> trivial
  have hflush : KeepsView o (n + 1) k view AsyncSession.flush := by
    intro w hi
    obtain ⟨s, h1, h2, h3, h4⟩ := hi.session
    rw [flush_nil h1 h4]
    exact hi
  apply Triple.scope (Sees o (n + 1) k view) (fun _ => Sees o (n + 1) k view)
    (fun _ _ => True)
  · intro w hi
    have hc := hi.count
    rw [aenter_inner (by omega), hc]
    exact hi.setCount (n + 1)
  · apply Triple.tryCatch (R := fun _ _ => True)
    · have hset : Harmless (EventHandlerHelper.setTracing event) fun _ => True :=
        Harmless.modify fun _ => ⟨rfl, rfl, rfl, rfl, rfl⟩
      exact hset.keepsView.bind fun _ => hfunc.bind fun _ => hflush
    · intro e
      exact Triple.ite (fun _ => htrue.bind fun _ => Triple.throw fun _ h => h) fun _ =>
        Triple.throw fun _ h => h
  · intro _ w hi
    have hc := hi.count
    have hcount : w.provider.sessionCount - 1 = n := by omega
    rw [aexit_inner (by omega), hcount]
    exact hi.setCount n
  · exact fun _ => htrue

theorem handleYourAggregateVoided_keepsView (id : String) :
    KeepsView o n k view (YourAggregateEventHandler.handleYourAggregateVoided env id) := by
  have hpush : ∀ rk message, KeepsView o n k view (RabbitMqPublisher.pushMessage rk message) := by
    intro rk message w hi
    unfold RabbitMqPublisher.pushMessage
    cases Messages.pushMessage rk message w.messages with
    | ok _ ms => exact ⟨hi.db, hi.count, hi.drawn, hi.session, False.elim⟩
    | error e ms => trivial
  have hget : KeepsView o n k view (get : M World) := fun w hi => hi
  have hload : KeepsView o n k view (YourAggregateRepository.loadYourAggregate env id false) :=
    (loadYourAggregate_view id false).conseq (fun _ h => h) (fun _ _ h => h.1) fun _ _ h => h
  apply hload.bind
  intro a
  apply Triple.ite
  · intro _
    have htrace : KeepsView o n k view (getTraceId env) := Harmless.keepsView Harmless.getTraceId
    exact htrace.bind fun _ => hget.bind fun _ => hpush _ _
  · exact fun _ => Triple.pure fun _ h => h

theorem publish_keepsView (depth : Nat) (m : Modification) {e : DomainEvent} (hn : 1 ≤ n)
    (he : e.body = bodyOf m.id m.change) :
    KeepsView o n k view (publish env (depth + 1) e) := by
  show Triple _ ((YourAggregateEventHandler.handlers env (publish env depth) e).forM _) _ _
  unfold YourAggregateEventHandler.handlers
  rw [he]
  cases m with
  | update r => exact Triple.pure fun _ h => h
  | delete r => exact Triple.pure fun _ h => h
  | void r =>
    have hone : KeepsView o n k view (EventHandlerHelper.connectDbSession
        (fun _ => YourAggregateEventHandler.handleYourAggregateVoided env r.id) e) :=
      handler_keepsView hn (handleYourAggregateVoided_keepsView r.id)
    exact hone.bind fun _ => Triple.pure fun _ h => h

theorem Modification.load_apply_save (m : Modification) (owner : Owner) (hn : 1 ≤ n)
    (hkeyed : ∀ model, view.yourAggregate m.id = some model → model.id = m.id) {clock : M DateTime}
    (hclock : Harmless clock fun _ => True) :
    Triple (Sees o n k view)
      (do let a ← YourAggregateRepository.loadYourAggregate env m.id true
          let now ← clock
          let a ← M.ofExcept ((m.operation env now).call a)
          YourAggregateUseCase.save env (eventBus env) owner a)
      (fun _ w => ∃ st writes,
        m.execute env st (view.yourAggregate m.id) (view.yourAggregate m.id) = some writes ∧
          Sees o n k (view.writeAll writes.1 writes.2) w)
      (fun _ _ => True) := by
  apply (loadYourAggregate_view m.id true).bind
  intro a
  apply Triple.intro
  intro w₀ hw₀
  obtain ⟨hsees, model, hrow, hload⟩ := hw₀
  have hid : model.id = m.id := hkeyed model hrow
  have hclock' : KeepsView o n k view clock := hclock.keepsView
  apply (hclock'.start hsees).bind
  intro now
  cases hcall : (m.operation env now).call a with
  | error e =>
    apply Triple.bind (R := fun _ _ => False) (Triple.throw fun _ _ => trivial)
    exact fun _ _ h => h.elim
  | ok a' =>
    obtain ⟨haid, hnone, _⟩ := modelToEntity_ok hload
    obtain ⟨hid', harch, hevents, _⟩ := call_ok hcall
    rw [hnone, List.nil_append, haid, hid] at hevents
    apply Triple.bind (R := fun b w => b = a' ∧ Sees o n k view w)
      (Triple.pure fun w hw => ⟨rfl, hw⟩)
    intro b
    apply Triple.intro
    intro w₁ hw₁
    rw [hw₁.1]
    -- tracing changes nothing of what is written but the tracer
    have htrace : Triple (Sees o n k view) (UseCaseBase.saveTracing env owner a')
        (fun b w => Sees o n k view w ∧ Retraced a' b) (fun _ _ => True) := by
      intro w hw
      obtain ⟨b, w', hx, hi, hb⟩ := hw.harmless (saveTracing_harmless owner a')
      rw [hx]
      exact ⟨hi, hb⟩
    apply (htrace.start hw₁.2).bind
    intro b
    apply Triple.intro
    intro w₂ hw₂
    obtain ⟨hsees₂, events, rfl, hbodies⟩ := hw₂
    rw [hevents] at hbodies
    obtain ⟨e, hone, hbody⟩ := List.map_eq_singleton_iff.mp hbodies
    have hrow' : view.yourAggregate a'.id = some model := by rw [hid', haid, hid, hrow]
    have hsave := saveYourAggregate_view (o := o) (n := n) (k := k)
      (a := { a' with domainEvents := events }) harch hone hrow'
    apply (hsave.start hsees₂).bind
    intro a₃
    apply Triple.intro
    intro w₃ hw₃
    obtain ⟨hevents₃, archiveId, t, dbNow, hsees₃⟩ := hw₃
    obtain ⟨e₃, hone₃, hbody₃⟩ := List.map_eq_singleton_iff.mp hevents₃
    have hpublish : KeepsView o n k (view.writeAll dbNow
        (saveWrites env archiveId t e.body a' (some model))) (eventBus env e₃) :=
      publish_keepsView 999 m hn (hbody₃.trans hbody)
    show Triple _ (a₃.domainEvents.forM _) _ _
    rw [hone₃]
    apply (hpublish.start hsees₃).bind
    intro _
    apply Triple.pure
    intro w hw
    refine ⟨⟨now, archiveId, t, dbNow⟩, (dbNow, saveWrites env archiveId t e.body a' (some model)),
      ?_, hw⟩
    rw [hrow, execute_ok _ hload hcall, hid, hbody]

/-- The use case's function, if it returns, has executed the request on the view. -/
theorem Modification.run_executes (m : Modification) (owner : Owner) (hn : 1 ≤ n)
    (hkeyed : ∀ model, view.yourAggregate m.id = some model → model.id = m.id) :
    Triple (Sees o n k view) (m.run env (eventBus env) owner)
      (fun _ w => ∃ st writes,
        m.execute env st (view.yourAggregate m.id) (view.yourAggregate m.id) = some writes ∧
          Sees o n k (view.writeAll writes.1 writes.2) w)
      (fun _ _ => True) := by
  cases m with
  | update r => exact (update r).load_apply_save owner hn hkeyed Harmless.datetimeNow
  | void r => exact (void r).load_apply_save owner hn hkeyed Harmless.datetimeNow
  | delete r =>
    have hclock : Harmless (pure 0 : M DateTime) fun _ => True := Harmless.pure trivial
    exact (delete r).load_apply_save owner hn hkeyed hclock

end

end DddService
