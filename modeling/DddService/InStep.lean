import DddService.Calls
import DddService.Lib.Coupling

/- Two runs of a controller method, side by side. What is left over from earlier calls (the
   buffer, the event handlers' use case, the numbers of the transactions) may differ between
   the two worlds. Every function of the service keeps such runs in step (`InStep`): it
   returns the same value or raises the same `Exception`, and the database, the session and
   what the environment gives stay the same on both sides.

   A handler writes its use case before it reads it, and the controller its own; so which
   use cases agree is a parameter of the relation. -/
namespace DddService
open Hoare

/-! ## Worlds side by side -/

/-- From here on the environment raises nothing but `Exception`s. -/
def World.Tame (w : World) : Prop := ∀ e, some e ∈ w.faults → e.isException = true

/-- Two worlds that agree on all that a method reads, the use cases of `known` among it. -/
structure Twin (t : String) (known : Owner → Prop) (w v : World) : Prop where
  db : v.db = w.db
  provider : v.provider = w.provider
  useCase : ∀ o, known o → v.useCase o = w.useCase o
  drawn : v.drawn = w.drawn
  clock : v.clock = w.clock
  faults : v.faults = w.faults
  tame : w.Tame
  traceIds : w.traceId = some t ∧ v.traceId = some t
  named : t ≠ ""
  left : Buffered w.messages
  right : Buffered v.messages

/-- How the two raise: with one `Exception`, and still side by side. -/
def Tripped (t : String) (known : Owner → Prop) (e : Exc) (w v : World) : Prop :=
  e.isException = true ∧ Twin t known w v

/-- Two runs of `x` from such worlds exit the same way, in such worlds. -/
def InStep {α : Type} (t : String) (known : Owner → Prop) (x : M α) : Prop :=
  Couples (Twin t known) x (fun _ => Twin t known) (Tripped t known)

theorem Buffered.empty : Buffered .empty := by
  intro rk k m h
  rw [Buffer.pendingAt, Dict.get?_empty] at h
  cases h

/-- A buffer of which something was taken out. -/
theorem Buffered.kept {ms ms' : Messages Pushed} (h : Buffered ms)
    (hkept : ∀ rk k m, ms'.pendingAt rk k = some m → ms.pendingAt rk k = some m) : Buffered ms' :=
  fun rk k m hm => h rk k m (hkept rk k m hm)

theorem World.Tame.advance {w : World} (h : w.Tame) : w.advance.Tame :=
  fun e he => h e (List.mem_of_mem_tail he)

theorem World.Tame.next {w : World} (h : w.Tame) {e : Exc} (he : w.nextFault = some e) :
    e.isException = true := by
  apply h e
  unfold World.nextFault at he
  cases hf : w.faults with
  | nil => rw [hf] at he; cases he
  | cons f fs =>
    rw [hf] at he
    have hfe : f = some e := he
    rw [hfe]
    exact List.mem_cons_self

section
variable {t : String} {known : Owner → Prop} {w v : World}

namespace Twin

theorem advance (h : Twin t known w v) : Twin t known w.advance v.advance :=
  { h with faults := congrArg List.tail h.faults, tame := h.tame.advance }

theorem nextFault (h : Twin t known w v) : v.nextFault = w.nextFault := by
  unfold World.nextFault
  rw [h.faults]

/-- The same session on both sides. -/
theorem setSession (h : Twin t known w v) {s s' : Option AsyncSession} (hs : s' = s) :
    Twin t known (w.setSession s) (v.setSession s') := by
  have hprovider : (v.setSession s').provider = (w.setSession s).provider := by
    show { v.provider with session := s' } = { w.provider with session := s }
    rw [h.provider, hs]
  exact { h with provider := hprovider }

theorem setCount (h : Twin t known w v) (n : Int) :
    Twin t known (w.setCount n) (v.setCount n) := by
  have hprovider : (v.setCount n).provider = (w.setCount n).provider := by
    show { v.provider with sessionCount := n } = { w.provider with sessionCount := n }
    rw [h.provider]
  exact { h with provider := hprovider }

theorem note (h : Twin t known w v) (a : SessionAction) : Twin t known (w.note a) (v.note a) :=
  { h with }

theorem deactivate (h : Twin t known w v) (s : AsyncSession) :
    Twin t known (AsyncSession.deactivate s w) (AsyncSession.deactivate s v) := by
  apply h.setSession
  rw [h.db]

/-- A session on a new transaction, on both sides. -/
theorem opened (h : Twin t known w v) (a : SessionAction) :
    Twin t known
      ({ w with tx := w.tx + 1 }.note a |>.setSession
        (some { view := w.db, pending := [], active := true, now := w.clock }))
      ({ v with tx := v.tx + 1 }.note a |>.setSession
        (some { view := v.db, pending := [], active := true, now := v.clock })) := by
  have hnumbered : Twin t known { w with tx := w.tx + 1 } { v with tx := v.tx + 1 } := { h with }
  apply (hnumbered.note a).setSession
  rw [h.db, h.clock]

theorem rolledBack (h : Twin t known w v) : Twin t known w.rolledBack v.rolledBack := by
  have hnumbered : Twin t known { w.note .rolledBack with tx := w.tx + 1 }
      { v.note .rolledBack with tx := v.tx + 1 } := { h with }
  apply hnumbered.setSession
  rw [h.db, h.clock]

/-- A use case written on both sides agrees, and so do those that agreed. -/
theorem setUseCase (h : Twin t known w v) (owner : Owner) (u : UseCaseBase) :
    Twin t (fun o => o = owner ∨ known o) (w.setUseCase owner u) (v.setUseCase owner u) := by
  refine { h with useCase := fun o ho => ?_ }
  show Function.update v.useCase owner u o = Function.update w.useCase owner u o
  by_cases he : o = owner
  · rw [he, Function.update_self, Function.update_self]
  · rw [Function.update_of_ne he, Function.update_of_ne he]
    exact h.useCase o (ho.resolve_left he)

theorem forget {known' : Owner → Prop} (h : Twin t known w v) (hk : ∀ o, known' o → known o) :
    Twin t known' w v :=
  { h with useCase := fun o ho => h.useCase o (hk o ho) }

end Twin

end

/-! ## The rules -/

namespace InStep
variable {t : String} {known : Owner → Prop} {α β γ : Type}

theorem pure (a : α) : InStep t known (pure a : M α) := Couples.pure fun _ _ h => h

theorem throw {e : Exc} (he : e.isException = true) : InStep t known (throw e : M α) :=
  Couples.throw fun _ _ h => ⟨he, h⟩

theorem modify {f : World → World} (h : ∀ w v, Twin t known w v → Twin t known (f w) (f v)) :
    InStep t known (modify f : M PUnit) :=
  Couples.modify h

theorem bind {x : M α} {f : α → M β} (hx : InStep t known x) (hf : ∀ a, InStep t known (f a)) :
    InStep t known (x >>= f) :=
  Couples.bind hx hf

theorem get_bind {f : World → M β} (hsame : ∀ w v, Twin t known w v → f v = f w)
    (hf : ∀ w, InStep t known (f w)) : InStep t known (get >>= f) :=
  Couples.get_bind hsame hf

theorem tryCatch {x : M α} {k : Exc → M α} (hx : InStep t known x)
    (hk : ∀ e, e.isException = true → InStep t known (k e)) : InStep t known (tryCatch x k) := by
  apply Couples.tryCatch hx
  intro e w v h
  exact hk e h.1 w v h.2

theorem ite {c : Prop} [Decidable c] {x y : M α} (hx : c → InStep t known x)
    (hy : ¬c → InStep t known y) : InStep t known (if c then x else y) :=
  Couples.ite hx hy

theorem forM {f : γ → M PUnit} (h : ∀ c, InStep t known (f c)) (l : List γ) :
    InStep t known (l.forM f) :=
  Couples.forM h l

theorem mapM {f : γ → M α} (h : ∀ c, InStep t known (f c)) (l : List γ) :
    InStep t known (l.mapM f) :=
  Couples.mapM h l

theorem ofExcept {r : Except Exc α} (h : ∀ e, r = .error e → e.isException = true) :
    InStep t known (M.ofExcept r) := by
  cases r with
  | ok a => exact pure a
  | error e => exact throw (h e rfl)

end InStep

/-! ## Steps of the environment -/

section
variable {t : String} {known : Owner → Prop}

theorem awaitPoint_inStep : InStep t known awaitPoint := by
  intro w v h
  rw [awaitPoint_run, awaitPoint_run, h.nextFault]
  cases hf : w.nextFault with
  | none => exact .ok h.advance
  | some e => exact .error ⟨h.tame.next hf, h.advance⟩

theorem datetimeNow_inStep : InStep t known datetimeNow := by
  intro w v h
  have hrun : ∀ u : World, datetimeNow u = .ok u.clock { u with clock := u.clock + 1 } := fun _ => rfl
  rw [hrun, hrun, h.clock]
  exact .ok { h with clock := rfl }

theorem uuid4_inStep (env : Env) (kind : UuidKind) : InStep t known (uuid4 env kind) := by
  intro w v h
  have hrun : ∀ u : World, uuid4 env kind u = .ok (env.uuid4 kind (u.drawn kind))
      { u with drawn := Function.update u.drawn kind (u.drawn kind + 1) } := fun _ => rfl
  rw [hrun, hrun, h.drawn]
  exact .ok { h with drawn := rfl }

/-- The request has its trace id, so none is drawn. -/
theorem getTraceId_named (env : Env) {w : World} (h : w.traceId = some t) (hne : t ≠ "") :
    getTraceId env w = .ok t w := by
  apply bind_ok (get_run w)
  rw [h]
  exact run_ite_neg hne rfl

theorem getTraceId_inStep (env : Env) : InStep t known (getTraceId env) := by
  intro w v h
  rw [getTraceId_named env h.traceIds.1 h.named, getTraceId_named env h.traceIds.2 h.named]
  exact .ok h

/-! ## The session -/

theorem currentSession_inStep : InStep t known currentSession := by
  apply InStep.get_bind
  · intro w v h
    rw [h.provider]
  · intro w
    cases w.provider.session with
    | none => exact InStep.throw rfl
    | some s => exact InStep.pure s

namespace AsyncSession

theorem get_inStep (pkey : String) : InStep t known (AsyncSession.get pkey) := by
  apply currentSession_inStep.bind
  intro s
  apply InStep.ite
  · exact fun _ => InStep.throw rfl
  · exact fun _ => awaitPoint_inStep.bind fun _ => InStep.pure _

theorem enqueue_inStep (p : Pending) : InStep t known (AsyncSession.enqueue p) := by
  apply currentSession_inStep.bind
  intro s
  exact InStep.modify fun w v h => (h.note (.write p)).setSession rfl

/-- A statement of the session; where it raises, the transaction is lost. -/
theorem awaiting_inStep (s : AsyncSession) :
    InStep t known (tryCatch awaitPoint (fun e => do modify (deactivate s); throw e)) := by
  apply awaitPoint_inStep.tryCatch
  intro e he
  apply InStep.bind (InStep.modify fun w v h => h.deactivate s)
  exact fun _ => InStep.throw he

theorem flush_inStep : InStep t known AsyncSession.flush := by
  apply currentSession_inStep.bind
  intro s
  apply InStep.ite
  · exact fun _ => InStep.pure _
  · intro _
    apply InStep.ite
    · exact fun _ => InStep.throw rfl
    · intro _
      apply (awaiting_inStep s).bind
      exact fun _ => InStep.modify fun w v h => h.setSession rfl

theorem rollback_inStep : InStep t known AsyncSession.rollback :=
  currentSession_inStep.bind fun _ => InStep.modify fun _ _ h => h.rolledBack

theorem close_inStep : InStep t known AsyncSession.close :=
  currentSession_inStep.bind fun _ => InStep.modify fun _ _ h => h.note .closed

theorem commit_inStep : InStep t known AsyncSession.commit := by
  apply currentSession_inStep.bind
  intro s
  apply InStep.bind (InStep.modify fun w v h => h.note .commitCalled)
  intro _
  apply InStep.ite
  · exact fun _ => InStep.throw rfl
  · intro _
    apply flush_inStep.bind
    intro _
    apply currentSession_inStep.bind
    intro s
    apply (awaiting_inStep s).bind
    exact fun _ => InStep.modify fun w v h => { h.note .committed with db := rfl }

end AsyncSession

namespace SessionProvider

theorem aenter_inStep : InStep t known aenter := by
  have hcount : InStep t known (modify fun w => w.setCount (w.provider.sessionCount + 1)) := by
    apply InStep.modify
    intro w v h
    rw [h.provider]
    exact h.setCount _
  apply InStep.get_bind
  · intro w v h
    rw [h.provider]
  · intro w
    apply InStep.ite
    · exact fun _ => (InStep.modify fun w v h => h.opened .opened).bind fun _ => hcount
    · exact fun _ => hcount

theorem aexit_inStep : InStep t known aexit := by
  have hleave : InStep t known (modify fun w => w.setCount (w.provider.sessionCount - 1)) := by
    apply InStep.modify
    intro w v h
    rw [h.provider]
    exact h.setCount _
  have hclose : InStep t known (do AsyncSession.close; modify (World.setSession · none)) :=
    AsyncSession.close_inStep.bind fun _ => InStep.modify fun w v h => h.setSession rfl
  apply hleave.bind
  intro _
  apply InStep.get_bind
  · intro w v h
    rw [h.provider]
  · intro w
    apply InStep.ite
    · intro _
      apply InStep.bind (InStep.modify fun w v h => h.setCount 0)
      intro _
      apply InStep.tryCatch
      · exact AsyncSession.commit_inStep.bind fun _ => hclose
      · intro e he
        rw [if_pos he]
        apply AsyncSession.rollback_inStep.bind
        intro _
        apply AsyncSession.close_inStep.bind
        intro _
        apply InStep.bind (InStep.modify fun w v h => h.setSession rfl)
        exact fun _ => InStep.throw he
    · exact fun _ => InStep.pure _

end SessionProvider

end

/-! ## The repository -/

/-- What the dataclass package raises on a stored dict it cannot read. -/
structure DataclassMixin.RaisesExceptions (mixin : DataclassMixin) : Prop where
  valueObject : ∀ j e, mixin.createValueObject j = .error e → e.isException = true
  user : ∀ j e, mixin.createUser j = .error e → e.isException = true
  history : ∀ j e, mixin.createHistory j = .error e → e.isException = true

theorem YourAggregateStatus.ofValue_error {value : String} {e : Exc}
    (h : YourAggregateStatus.ofValue value = .error e) : ∃ msg, e = .valueError msg := by
  unfold YourAggregateStatus.ofValue at h
  split at h
  · cases h
  · split at h
    · cases h
    · cases h
      exact ⟨_, rfl⟩

/-- What reading a row raises: what the dataclass package raises, or an error of its own. -/
theorem modelToEntity_raises {env : Env} {Q : Exc → Prop}
    (hobject : ∀ j e, env.mixin.createValueObject j = .error e → Q e)
    (huser : ∀ j e, env.mixin.createUser j = .error e → Q e)
    (hhistory : ∀ j e, env.mixin.createHistory j = .error e → Q e)
    (hvalue : ∀ msg, Q (.valueError msg)) (hattribute : ∀ msg, Q (.attributeError msg))
    {model : YourAggregateModel} {e : Exc}
    (h : YourAggregateRepository.modelToEntity env model = .error e) : Q e := by
  unfold YourAggregateRepository.modelToEntity at h
  cases hv : env.mixin.createValueObject model.yourValueObject with
  | error e' => rw [hv] at h; cases h; exact hobject _ _ hv
  | ok v =>
    cases hs : YourAggregateStatus.ofValue model.status with
    | error e' =>
      rw [hv, hs] at h
      cases h
      obtain ⟨msg, rfl⟩ := YourAggregateStatus.ofValue_error hs
      exact hvalue msg
    | ok s =>
      cases hh : model.operationHistories.mapM env.mixin.createHistory with
      | error e' =>
        rw [hv, hs, hh] at h
        cases h
        obtain ⟨j, -, hj⟩ := Lists.exists_of_mapM_error hh
        exact hhistory _ _ hj
      | ok hs' =>
        cases hc : env.mixin.createUser model.creator with
        | error e' => rw [hv, hs, hh, hc] at h; cases h; exact huser _ _ hc
        | ok c =>
          rw [hv, hs, hh, hc] at h
          cases ht : model.createdAt with
          | none => rw [ht] at h; cases h; exact hattribute _
          | some t => rw [ht] at h; cases h

theorem modelToEntity_error {env : Env} (hmixin : env.mixin.RaisesExceptions)
    {model : YourAggregateModel} {e : Exc}
    (h : YourAggregateRepository.modelToEntity env model = .error e) : e.isException = true :=
  modelToEntity_raises (Q := fun e => e.isException = true) hmixin.valueObject hmixin.user
    hmixin.history (fun _ => rfl) (fun _ => rfl) h

section
variable {env : Env} {t : String} {known : Owner → Prop}

theorem getTracer_inStep (e : DomainEvent) : InStep t known (e.getTracer env) := by
  unfold DomainEvent.getTracer
  cases e.tracer with
  | some t => exact InStep.pure _
  | none =>
    apply datetimeNow_inStep.bind
    intro createdAt
    apply (uuid4_inStep env .span).bind
    exact fun spanId => InStep.pure _

theorem serialize_inStep (e : DomainEvent) : InStep t known (e.serialize env) :=
  (getTracer_inStep e).bind fun _ => InStep.pure _

theorem traceUnder_inStep :
    ∀ (es : List DomainEvent) (parent : DomainEvent),
      InStep t known (AggregateRoot.traceUnder env parent es)
  | [], _ => InStep.pure _
  | e :: es, parent => by
    apply (getTracer_inStep parent).bind
    intro p
    apply (getTracer_inStep e).bind
    intro t
    apply (traceUnder_inStep es p.1).bind
    exact fun _ => InStep.pure _

theorem traceAs_inStep (traceId : String) (es : List DomainEvent) :
    InStep t known (AggregateRoot.traceAs env traceId es) := by
  apply InStep.mapM
  exact fun e => (getTracer_inStep e).bind fun _ => InStep.pure _

theorem saveEventsTracing_inStep (a : YourAggregate) (parent : Option DomainEvent)
    (traceId : Option String) : InStep t known (a.saveEventsTracing env parent traceId) := by
  unfold YourAggregate.saveEventsTracing
  split
  · exact (traceUnder_inStep a.domainEvents _).bind fun _ => InStep.pure _
  · apply InStep.ite
    · exact fun _ => InStep.pure _
    · exact fun _ => (traceAs_inStep _ a.domainEvents).bind fun _ => InStep.pure _
  · exact InStep.pure _

namespace YourAggregateRepository

theorem loadYourAggregate_inStep (hmixin : env.mixin.RaisesExceptions) (pkey : String)
    (lock : Bool) : InStep t known (loadYourAggregate env pkey lock) := by
  have hread : InStep t known (tryCatch (AsyncSession.get pkey)
      (fun e => if e.isException then pure none else throw e)) := by
    apply (AsyncSession.get_inStep pkey).tryCatch
    intro e he
    rw [if_pos he]
    exact InStep.pure none
  apply hread.bind
  intro model
  cases model with
  | none => exact InStep.throw rfl
  | some model => exact InStep.ofExcept fun e he => modelToEntity_error hmixin he

theorem archive_inStep (a : YourAggregate) (model : YourAggregateModel) :
    InStep t known (archive env a model) := by
  apply (uuid4_inStep env .archive).bind
  intro archiveId
  cases a.allEvents.getLast? with
  | none => exact (AsyncSession.enqueue_inStep _).bind fun _ => InStep.pure _
  | some event =>
    apply (getTracer_inStep event).bind
    intro t
    exact (AsyncSession.enqueue_inStep _).bind fun _ => InStep.pure _

theorem addEvents_inStep : ∀ es : List DomainEvent, InStep t known (addEvents env es)
  | [] => InStep.pure _
  | e :: es => by
    apply (serialize_inStep e).bind
    intro row
    apply (AsyncSession.enqueue_inStep _).bind
    intro _
    exact (addEvents_inStep es).bind fun _ => InStep.pure _

theorem persist_inStep (a : YourAggregate) (model : YourAggregateModel) (persistent : Bool) :
    InStep t known (persist a model persistent) := by
  apply InStep.ite
  · intro _
    apply InStep.ite
    · exact fun _ => AsyncSession.enqueue_inStep _
    · exact fun _ => InStep.throw rfl
  · exact fun _ => AsyncSession.enqueue_inStep _

theorem saveYourAggregate_inStep (a : YourAggregate) : InStep t known (saveYourAggregate env a) := by
  apply (AsyncSession.get_inStep a.id).bind
  intro found
  apply (persist_inStep a _ _).bind
  intro _
  have harchive : InStep t known (archiveIfRaised env a (modelOf env a found)) :=
    InStep.ite (fun _ => archive_inStep a _) fun _ => InStep.pure _
  apply harchive.bind
  intro a
  apply (addEvents_inStep a.allEvents).bind
  intro events
  exact AsyncSession.flush_inStep.bind fun _ => InStep.pure _

end YourAggregateRepository

/-! ## The use case, the bus and the handlers -/

/-- The first step writes `owner`'s use case; what follows may read it. -/
theorem InStep.writing {α β : Type} {owner : Owner} {x : M α} {f : α → M β}
    (hx : Couples (Twin t known) x (fun _ => Twin t fun o => o = owner ∨ known o) (Tripped t known))
    (hf : ∀ a, InStep t (fun o => o = owner ∨ known o) (f a)) : InStep t known (x >>= f) := by
  apply Couples.bind hx
  intro a
  apply (hf a).conseq
  · exact fun _ _ h => h
  · exact fun _ _ _ h => h.forget fun _ ho => Or.inr ho
  · exact fun _ _ _ h => ⟨h.1, h.2.forget fun _ ho => Or.inr ho⟩

theorem saveTracing_inStep {owner : Owner} (hk : known owner) (a : YourAggregate) :
    InStep t known (UseCaseBase.saveTracing env owner a) := by
  have hset : ∀ u : UseCaseBase, InStep t known (modify fun w => w.setUseCase owner u) := fun u =>
    InStep.modify fun w v h => (h.setUseCase owner u).forget fun _ ho => Or.inr ho
  apply InStep.get_bind
  · intro w v h
    rw [h.useCase owner hk]
  · intro w
    dsimp only
    split
    · apply (saveEventsTracing_inStep a _ _).bind
      intro a
      exact (hset _).bind fun _ => InStep.pure a
    · apply InStep.ite
      · exact fun _ => InStep.pure a
      · intro _
        apply (saveEventsTracing_inStep a _ _).bind
        intro a
        exact (hset _).bind fun _ => InStep.pure a
    · exact InStep.pure a

end

section
variable {env : Env} {t : String} {known : Owner → Prop}

/-- A program that calls methods of the entity raises the errors those return. -/
theorem operation_error {op : YourAggregateM} (hop : YourAggregate.Operation env.mixin op)
    {a : YourAggregate} {e : Exc} (h : op.call a = .error e) : e.isException = true := by
  unfold YourAggregateM.call at h
  cases hr : op a with
  | ok u a' => rw [hr] at h; cases h
  | error e' a' =>
    rw [hr] at h
    cases h
    cases hop with
    | delete doer => rw [YourAggregate.deleteYourAggregate_run] at hr; cases hr
    | void now doer =>
      rw [YourAggregate.voidYourAggregate_run] at hr
      split at hr
      · cases hr; rfl
      · cases hr
    | update now v doer =>
      rw [YourAggregate.updateYourAggregate_run] at hr
      split at hr
      · cases hr; rfl
      · cases hr

namespace YourAggregateUseCase
variable {bus : Bus} {owner : Owner}

theorem save_inStep (hbus : ∀ e, InStep t known (bus e)) (hk : known owner) (a : YourAggregate) :
    InStep t known (save env bus owner a) := by
  apply (saveTracing_inStep hk a).bind
  intro a
  apply (YourAggregateRepository.saveYourAggregate_inStep a).bind
  exact fun a => InStep.forM hbus a.allEvents

theorem createYourAggregate_inStep (hbus : ∀ e, InStep t known (bus e)) (hk : known owner)
    (v : YourValueObject) (creator : User) :
    InStep t known (createYourAggregate env bus owner v creator) := by
  apply (uuid4_inStep env .aggregate).bind
  intro id
  apply datetimeNow_inStep.bind
  intro now
  apply InStep.bind (InStep.pure _)
  intro a
  exact (save_inStep hbus hk a).bind fun _ => InStep.pure a.id

/-- The part that deleting, voiding and updating share. -/
theorem operate_inStep (hbus : ∀ e, InStep t known (bus e)) (hk : known owner)
    {op : YourAggregateM} (hop : YourAggregate.Operation env.mixin op) (a : YourAggregate) :
    InStep t known (do
      let a ← M.ofExcept (op.call a)
      save env bus owner a) := by
  apply InStep.bind (InStep.ofExcept fun e he => operation_error hop he)
  exact fun a => save_inStep hbus hk a

theorem deleteYourAggregate_inStep (hmixin : env.mixin.RaisesExceptions)
    (hbus : ∀ e, InStep t known (bus e)) (hk : known owner) (id : String) (doer : User) :
    InStep t known (deleteYourAggregate env bus owner id doer) := by
  apply (YourAggregateRepository.loadYourAggregate_inStep hmixin id true).bind
  exact operate_inStep hbus hk (.delete doer)

theorem voidYourAggregate_inStep (hmixin : env.mixin.RaisesExceptions)
    (hbus : ∀ e, InStep t known (bus e)) (hk : known owner) (id : String) (doer : User) :
    InStep t known (voidYourAggregate env bus owner id doer) := by
  apply (YourAggregateRepository.loadYourAggregate_inStep hmixin id true).bind
  intro a
  apply datetimeNow_inStep.bind
  exact fun now => operate_inStep hbus hk (.void now doer) a

theorem updateYourAggregate_inStep (hmixin : env.mixin.RaisesExceptions)
    (hbus : ∀ e, InStep t known (bus e)) (hk : known owner) (id : String) (v : YourValueObject)
    (doer : User) : InStep t known (updateYourAggregate env bus owner id v doer) := by
  apply (YourAggregateRepository.loadYourAggregate_inStep hmixin id true).bind
  intro a
  apply datetimeNow_inStep.bind
  exact fun now => operate_inStep hbus hk (.update now v doer) a

end YourAggregateUseCase

theorem withSession_inStep {α : Type} {body : M α} (hbody : InStep t known body) :
    InStep t known (SessionProvider.withSession body) :=
  Couples.scope (Twin t known) (fun _ => Twin t known) (Tripped t known) SessionProvider.aenter_inStep
    hbody (fun _ => SessionProvider.aexit_inStep) fun _ => Couples.carry SessionProvider.aexit_inStep

/-- A handler writes its use case, so it may have been anything before. -/
theorem EventHandlerHelper.connectDbSession_inStep {func : DomainEvent → M Unit}
    {event : DomainEvent} (hfunc : InStep t (fun o => o = .eventHandler ∨ known o) (func event)) :
    InStep t known (connectDbSession func event) := by
  have hset : Couples (Twin t known) (setTracing event)
      (fun _ => Twin t fun o => o = .eventHandler ∨ known o) (Tripped t known) := by
    apply Couples.modify
    intro w v h
    exact h.setUseCase .eventHandler { parentEvent := some event, traceId := none }
  apply withSession_inStep
  apply InStep.tryCatch
  · apply InStep.writing hset
    exact fun _ => hfunc.bind fun _ => AsyncSession.flush_inStep
  · intro e he
    rw [if_pos he]
    exact AsyncSession.rollback_inStep.bind fun _ => InStep.throw he

/-- No push fails, whatever else waits in the two buffers. -/
theorem handleYourAggregateVoided_inStep (hmixin : env.mixin.RaisesExceptions) (id : String) :
    InStep t known (YourAggregateEventHandler.handleYourAggregateVoided env id) := by
  apply (YourAggregateRepository.loadYourAggregate_inStep hmixin id false).bind
  intro a
  apply InStep.ite
  · intro _
    apply (getTraceId_inStep env).bind
    intro traceId w v h
    have hpush : ∀ u : World, Buffered u.messages → ∃ ms ps, (do
        let w ← get
        RabbitMqPublisher.pushMessage YourAggregateEventHandler.yourAggregateService
          (QueueMessage.new traceId YourAggregateEventHandler.yourAggregateVoidedFunction
            (.list [⟨⟨id⟩, w.tx, w.pushed.length⟩])) : M Unit) u =
          .ok () { u with messages := ms, pushed := ps } ∧ Buffered ms := by
      intro u hu
      obtain ⟨ms, hms, hbuffered⟩ := hu.push YourAggregateEventHandler.yourAggregateService traceId
        [⟨⟨id⟩, u.tx, u.pushed.length⟩]
      refine ⟨ms, u.pushed ++ [⟨⟨id⟩, u.tx, u.pushed.length⟩], ?_, hbuffered⟩
      apply bind_ok (get_run u)
      unfold RabbitMqPublisher.pushMessage
      rw [hms]
      rfl
    obtain ⟨ms, ps, hw, hms⟩ := hpush w h.left
    obtain ⟨ms', ps', hv, hms'⟩ := hpush v h.right
    rw [hw, hv]
    exact .ok { h with left := hms, right := hms' }
  · exact fun _ => InStep.pure _

theorem publish_inStep (hmixin : env.mixin.RaisesExceptions) :
    ∀ (depth : Nat) (known : Owner → Prop) (e : DomainEvent), InStep t known (publish env depth e)
  | 0, _, _ => InStep.throw rfl
  | depth + 1, known, e => by
    have hbus := publish_inStep hmixin depth fun o => o = .eventHandler ∨ known o
    have hhandlers : ∀ func ∈ YourAggregateEventHandler.handlers env (publish env depth) e,
        InStep t (fun o => o = .eventHandler ∨ known o) (func e) := by
      intro func hf
      cases hb : e.body with
      | yourAggregateCreated id v d =>
        rw [YourAggregateEventHandler.handlers, hb, List.mem_singleton] at hf
        rw [hf]
        exact YourAggregateUseCase.updateYourAggregate_inStep hmixin hbus (Or.inl rfl) id _ d
      | yourAggregateVoided id d =>
        rw [YourAggregateEventHandler.handlers, hb, List.mem_singleton] at hf
        rw [hf]
        exact handleYourAggregateVoided_inStep hmixin id
      | yourAggregateDeleted id d => rw [YourAggregateEventHandler.handlers, hb] at hf; cases hf
      | yourAggregateUpdated id v d => rw [YourAggregateEventHandler.handlers, hb] at hf; cases hf
    show InStep t known ((YourAggregateEventHandler.handlers env (publish env depth) e).forM
      fun func => EventHandlerHelper.connectDbSession func e)
    revert hhandlers
    generalize YourAggregateEventHandler.handlers env (publish env depth) e = funcs
    intro hhandlers
    induction funcs with
    | nil => exact InStep.pure _
    | cons func funcs ih =>
      apply InStep.bind
      · exact EventHandlerHelper.connectDbSession_inStep (hhandlers func List.mem_cons_self)
      · exact fun _ => ih fun g hg => hhandlers g (List.mem_cons_of_mem func hg)

end

/-! ## The controller -/

section
variable {env : Env} {t : String} {known : Owner → Prop}

theorem reraised_exception {e : Exc} (he : e.isException = true) :
    (ControllerBase.reraised e).isException = true :=
  (reraised_isException e).trans he

/-- The controller writes its use case before the body reads it. -/
theorem guarded_inStep {α : Type} (traceId : Option String) {func : M α}
    (hfunc : InStep t (fun o => o = .controller ∨ known o) func) :
    InStep t known (ControllerBase.guarded env traceId func) := by
  have hset : ∀ s : String, Couples (Twin t known)
      (modify fun w => w.setUseCase .controller ((w.useCase .controller).setTraceId s) : M PUnit)
      (fun _ => Twin t fun o => o = .controller ∨ known o) (Tripped t known) := by
    intro s
    apply Couples.modify
    intro w v h
    exact h.setUseCase .controller { parentEvent := none, traceId := some s }
  have hsetTracing : Couples (Twin t known) (ControllerBase.setTracing env traceId)
      (fun _ => Twin t fun o => o = .controller ∨ known o) (Tripped t known) := by
    unfold ControllerBase.setTracing
    dsimp only
    split
    · exact Couples.bind (uuid4_inStep env .trace) hset
    · exact Couples.bind (InStep.pure _) hset
  apply InStep.tryCatch
  · apply InStep.writing hsetTracing
    intro _
    apply hfunc.bind
    intro a
    exact AsyncSession.flush_inStep.bind fun _ => InStep.pure a
  · intro e he
    rw [if_pos he]
    apply AsyncSession.rollback_inStep.bind
    intro _
    refine InStep.bind (InStep.modify ?_) fun _ => InStep.throw (reraised_exception he)
    exact fun w v h => { h with left := Buffered.empty, right := Buffered.empty }

theorem batch_inStep {ρ : Type} {one : ρ → M String} (hone : ∀ r, InStep t known (one r))
    (requests : List ρ) : InStep t known (YourAggregateController.batch one requests) := by
  apply (InStep.mapM hone requests).bind
  intro resp
  apply InStep.ofExcept
  intro e he
  match resp with
  | [] => cases he; rfl
  | [id] => cases he
  | id :: id' :: ids => cases he

/-- The body of every method keeps in step, once the controller's use case is written. -/
theorem Call.func_inStep (hmixin : env.mixin.RaisesExceptions) {c : Call} {m : Method}
    (hm : c.method env = some m) : InStep t (fun o => o = .controller ∨ known o) m.func := by
  have hbus : ∀ e, InStep t (fun o => o = .controller ∨ known o) (eventBus env e) :=
    fun e => publish_inStep hmixin recursionLimit _ e
  have hk : Owner.controller = .controller ∨ known .controller := Or.inl rfl
  cases c with
  | create rs =>
    cases hm
    apply batch_inStep
    exact fun r => YourAggregateUseCase.createYourAggregate_inStep hbus hk _ _
  | update rs =>
    cases hm
    apply batch_inStep
    intro r
    apply (YourAggregateUseCase.updateYourAggregate_inStep hmixin hbus hk _ _ _).bind
    exact fun _ => InStep.pure r.id
  | void rs =>
    cases hm
    apply batch_inStep
    intro r
    apply (YourAggregateUseCase.voidYourAggregate_inStep hmixin hbus hk _ _).bind
    exact fun _ => InStep.pure r.id
  | delete rs =>
    cases hm
    apply batch_inStep
    intro r
    apply (YourAggregateUseCase.deleteYourAggregate_inStep hmixin hbus hk _ _).bind
    exact fun _ => InStep.pure r.id
  | get r =>
    cases hm
    exact YourAggregateRepository.loadYourAggregate_inStep hmixin r.id false
  | newContext traceId => cases hm

end

/-! ## After the commit -/

/-- In a request with trace id `t`, with nothing but `Exception`s to come. -/
def World.Serves (t : String) (w : World) : Prop := w.Tame ∧ w.traceId = some t

section
variable {t : String}

theorem awaitPoint_serves : Triple (World.Serves t) awaitPoint (fun _ => World.Serves t)
    (fun e w => e.isException = true ∧ w.Serves t) := by
  intro w hw
  rw [awaitPoint_run]
  cases hf : w.nextFault with
  | none => exact ⟨hw.1.advance, hw.2⟩
  | some e => exact ⟨hw.1.next hf, hw.1.advance, hw.2⟩

theorem publishOne_serves (rk k : String) (m : QueueMessage Pushed) :
    Triple (World.Serves t) (RabbitMqPublisher.publishOne rk k m) (fun _ => World.Serves t)
      (fun e w => e.isException = true ∧ w.Serves t) := by
  have hbasic : Triple (World.Serves t) (RabbitMqPublisher.basicPublish rk m)
      (fun _ => World.Serves t) (fun e w => e.isException = true ∧ w.Serves t) :=
    awaitPoint_serves.bind fun _ => Triple.modify fun w hw => hw
  apply awaitPoint_serves.bind
  intro _
  exact hbasic.bind fun _ => Triple.modify fun w hw => hw

/-- Publishing swallows whatever it meets, so it returns. -/
theorem publishMessages_serves : Triple (World.Serves t) RabbitMqPublisher.publishMessages
    (fun _ => World.Serves t) (fun _ _ => False) := by
  have hopen : Triple (World.Serves t) RabbitMqPublisher.openConnection (fun _ => World.Serves t)
      (fun e w => e.isException = true ∧ w.Serves t) := by
    apply awaitPoint_serves.tryCatch
    intro e w hw
    show Exc.isException (if e.isException then _ else e) = true ∧ _
    rw [if_pos hw.1]
    exact ⟨rfl, hw.2⟩
  have hcopy : ∀ copy : Messages Pushed, Triple (World.Serves t)
      (RabbitMqPublisher.publishCopy copy) (fun _ => World.Serves t)
      (fun e w => e.isException = true ∧ w.Serves t) := by
    intro copy
    apply Triple.forM (fun _ => World.Serves t) copy.entries []
    intro _ e _
    apply Triple.forM (fun _ => World.Serves t) e.2.entries []
    exact fun _ f _ => publishOne_serves e.1 f.1 f.2
  have hbody : Triple (World.Serves t) (do
        RabbitMqPublisher.publishCopy (← get).messages
        RabbitMqPublisher.cleanMessages) (fun _ => World.Serves t)
      (fun e w => e.isException = true ∧ w.Serves t) := by
    apply Triple.bind (R := fun _ => World.Serves t) (Triple.get fun w hw => hw)
    intro u
    exact (hcopy u.messages).bind fun _ => Triple.modify fun w hw => hw
  apply Triple.tryCatch (R := fun e w => e.isException = true ∧ w.Serves t)
  · apply Triple.scope (World.Serves t) (fun _ => World.Serves t)
      (fun e w => e.isException = true ∧ w.Serves t) hopen hbody
    · exact fun _ => awaitPoint_serves
    · exact fun _ => awaitPoint_serves.carry
  · intro e w hw
    rw [if_pos hw.1]
    exact hw.2

/-! ## From call to call -/

/-- Two worlds between the calls of a request: what earlier calls left, apart from the
    database, may differ. -/
structure Alike (t : String) (w v : World) : Prop where
  db : v.db = w.db
  counts : w.provider.sessionCount = 0 ∧ v.provider.sessionCount = 0
  traceIds : w.traceId = some t ∧ v.traceId = some t
  named : t ≠ ""
  left : Buffered w.messages
  right : Buffered v.messages

theorem Alike.symm {w v : World} (h : Alike t w v) : Alike t v w :=
  ⟨h.db.symm, h.counts.symm, h.traceIds.symm, h.named, h.right, h.left⟩

theorem Alike.trans {w v u : World} (h : Alike t w v) (h' : Alike t v u) : Alike t w u :=
  ⟨h'.db.trans h.db, ⟨h.counts.1, h'.counts.2⟩, ⟨h.traceIds.1, h'.traceIds.2⟩, h.named, h.left,
    h'.right⟩

/-- Publishing what is pending, if anything is, and the method's answer. -/
theorem published_alike {α : Type} {w : World} (a : α) (hcount : w.provider.sessionCount = 0)
    (htame : w.Tame) (htrace : w.traceId = some t) (hnamed : t ≠ "") (hm : Buffered w.messages) :
    ∃ w', (do if (← get).messages.isEmpty then pure a
              else do
                RabbitMqPublisher.publishMessages
                pure a : M α) w = .ok a w' ∧ Alike t w w' := by
  by_cases he : w.messages.isEmpty = true
  · refine ⟨w, bind_ok (get_run w) (run_ite_pos he rfl), ?_⟩
    exact ⟨rfl, ⟨hcount, hcount⟩, ⟨htrace, htrace⟩, hnamed, hm, hm⟩
  · have hserves := publishMessages_serves w ⟨htame, htrace⟩
    have hpublished := RabbitMqPublisher.publishMessages_published w w rfl
    cases hr : RabbitMqPublisher.publishMessages w with
    | error e w' =>
      rw [hr] at hserves
      exact hserves.elim
    | ok u w' =>
      rw [hr] at hserves hpublished
      refine ⟨w', bind_ok (get_run w) (run_ite_neg he (bind_ok hr rfl)), ?_⟩
      have hcount' : w'.provider.sessionCount = 0 := by
        rw [hpublished.provider]
        exact hcount
      exact ⟨hpublished.db, ⟨hcount, hcount'⟩, ⟨htrace, hserves.2⟩, hnamed, hm,
        hm.kept hpublished.kept⟩

theorem withSession_count {env : Env} {m : Method} {c : Call} (hm : c.method env = some m)
    {w : World} (h0 : w.provider.sessionCount = 0) :
    (stateOf (SessionProvider.withSession
      (ControllerBase.guarded env m.traceId m.func) w)).provider.sessionCount = 0 := by
  have hlive := guarded_live env m.traceId (Body.method env hm) w
  rcases withSession_cases h0 hlive with ⟨_, s, _, hrun⟩ | ⟨_, e, w', hrun, ha⟩
  · rw [hrun]
    cases ControllerBase.guarded env m.traceId m.func w.entered <;> rfl
  · rw [hrun]
    exact ha.count

/-- A method run in two worlds that are side by side. -/
theorem Method.run_alike {env : Env} (hmixin : env.mixin.RaisesExceptions) {c : Call} {m : Method}
    (hm : c.method env = some m) {w v : World} (h : Twin t (fun _ => False) w v)
    (h0 : w.provider.sessionCount = 0) :
    SameExit (fun _ => Alike t) (fun e w v => e.isException = true ∧ Alike t w v)
      (m.run env w) (m.run env v) := by
  have h0' : v.provider.sessionCount = 0 := by
    rw [h.provider]
    exact h0
  have hcount := withSession_count hm h0
  have hcount' := withSession_count hm h0'
  have hsession : SameExit (fun _ => Twin t fun _ => False) (Tripped t fun _ => False)
      (SessionProvider.withSession (ControllerBase.guarded env m.traceId m.func) w)
      (SessionProvider.withSession (ControllerBase.guarded env m.traceId m.func) v) :=
    withSession_inStep (guarded_inStep m.traceId (Call.func_inStep hmixin hm)) w v h
  show SameExit _ _ (ControllerBase.connectDbSession env m.traceId m.func w)
    (ControllerBase.connectDbSession env m.traceId m.func v)
  unfold ControllerBase.connectDbSession
  rw [bind_run, bind_run]
  revert hsession hcount hcount'
  generalize SessionProvider.withSession (ControllerBase.guarded env m.traceId m.func) w = r,
    SessionProvider.withSession (ControllerBase.guarded env m.traceId m.func) v = r'
  intro hcount hcount' hsession
  cases hsession with
  | @ok a w₁ v₁ ht =>
    -- both publish what they buffered, and nothing they publish makes them differ
    have hcount : w₁.provider.sessionCount = 0 := hcount
    have hcount' : v₁.provider.sessionCount = 0 := hcount'
    have htame : v₁.Tame := by
      intro e he
      rw [ht.faults] at he
      exact ht.tame e he
    obtain ⟨w₂, hw₂, hleft⟩ := published_alike a hcount ht.tame ht.traceIds.1 ht.named ht.left
    obtain ⟨v₂, hv₂, hright⟩ := published_alike a hcount' htame ht.traceIds.2 ht.named ht.right
    show SameExit _ _ ((do if (← get).messages.isEmpty then pure a
                           else do
                             RabbitMqPublisher.publishMessages
                             pure a : M m.Result) w₁)
      ((do if (← get).messages.isEmpty then pure a
           else do
             RabbitMqPublisher.publishMessages
             pure a : M m.Result) v₁)
    rw [hw₂, hv₂]
    have hmid : Alike t w₁ v₁ :=
      ⟨ht.db, ⟨hcount, hcount'⟩, ht.traceIds, ht.named, ht.left, ht.right⟩
    exact .ok ((hleft.symm.trans hmid).trans hright)
  | error ht =>
    exact .error ⟨ht.1, ht.2.db, ⟨hcount, hcount'⟩, ht.2.traceIds, ht.2.named, ht.2.left,
      ht.2.right⟩

end

end DddService
