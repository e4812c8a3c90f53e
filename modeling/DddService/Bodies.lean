import DddService.Session
import DddService.Controller

/- What may run inside a session scope. `Body` is the language of controller and
   handler bodies: quiet code, writes to the session, flushes, pushes to the
   publisher, sequences of these, and event handlers in a scope of their own. A
   use case's save is one, whatever the bus runs, as long as the bus does.

   `Body.does` says once what a body can do to the world: a body that returns has
   only worked (`Work`); a body that raises has worked, and then undone
   (`Undo`). What `Work` and `Undo` preserve, every body preserves. -/
namespace DddService
open Hoare Relation

/-! ## Steps -/

/-- One step forward inside a transaction. -/
inductive Work : World → World → Prop
  | quiet {w w'} (h : Quiet w w') : Work w w'
  | count (w : World) (n : Int) : Work w (w.setCount n)
  | enqueue {w : World} {s} (h : w.provider.session = some s) (p : Pending) : Work w (w.enqueued s p)
  | flush {w : World} {s} (h : w.provider.session = some s) (ha : s.active = true) :
      Work w (w.advance.setSession (some s.flushed))
  | push {w : World} {rk m ms} (h : Messages.pushMessage rk m w.messages = .ok () ms)
      (htag : ∀ x ∈ m.data.items, x.tx = w.tx) :
      Work w { w with messages := ms, pushed := w.pushed ++ m.data.items }

/-- One step of the unwinding of `e`. Only an `Exception` is rolled back. -/
inductive Undo (e : Exc) : World → World → Prop
  | quiet {w w'} (h : Quiet w w') : Undo e w w'
  | count (w : World) (n : Int) : Undo e w (w.setCount n)
  | deactivate {w : World} {s} (h : w.provider.session = some s) :
      Undo e w (AsyncSession.deactivate s w)
  | rollback {w : World} {s} (he : e.isException = true) (h : w.provider.session = some s) :
      Undo e w w.rolledBack

def Worked : World → World → Prop := ReflTransGen Work

/-- Worked, then unwound. -/
def Undone (e : Exc) (w w' : World) : Prop := ∃ t, Worked w t ∧ ReflTransGen (Undo e) t w'

theorem Worked.refl (w : World) : Worked w w := ReflTransGen.refl

theorem Worked.single {w w' : World} (h : Work w w') : Worked w w' := ReflTransGen.single h

theorem Worked.trans {w w' w'' : World} (h : Worked w w') (h' : Worked w' w'') : Worked w w'' :=
  ReflTransGen.trans h h'

theorem Worked.undone {w w' w'' : World} {e : Exc} (h : Worked w w') (h' : Undone e w' w'') :
    Undone e w w'' := by
  obtain ⟨t, ht, hu⟩ := h'
  exact ⟨t, h.trans ht, hu⟩

theorem Undone.of_worked {w w' : World} (e : Exc) (h : Worked w w') : Undone e w w' :=
  ⟨w', h, ReflTransGen.refl⟩

theorem Undone.undo {w w' w'' : World} {e : Exc} (h : Undone e w w') (h' : Undo e w' w'') :
    Undone e w w'' := by
  obtain ⟨t, ht, hu⟩ := h
  exact ⟨t, ht, hu.tail h'⟩

/-- What every step forward preserves holds after all of them. -/
theorem Worked.preserves {I : World → Prop} {w w' : World} (h : Worked w w')
    (hstep : ∀ w w', Work w w' → I w → I w') (hi : I w) : I w' := by
  induction h with
  | refl => exact hi
  | tail _ hs ih => exact hstep _ _ hs ih

/-- What every step of either kind preserves holds after an unwinding too. -/
theorem Undone.preserves {I : World → Prop} {w w' : World} {e : Exc} (h : Undone e w w')
    (hwork : ∀ w w', Work w w' → I w → I w') (hundo : ∀ w w', Undo e w w' → I w → I w')
    (hi : I w) : I w' := by
  obtain ⟨t, ht, hu⟩ := h
  have := ht.preserves hwork hi
  induction hu with
  | refl => exact this
  | tail _ hs ih => exact hundo _ _ hs ih

/-- Inside `n` scopes, with a session. -/
def Live (n : Int) (w : World) : Prop :=
  w.provider.sessionCount = n ∧ ∃ s, w.provider.session = some s

theorem Live.quiet {n : Int} {w w' : World} (h : Live n w) (hq : Quiet w w') : Live n w' := by
  rw [Live, hq.provider]
  exact h

theorem Live.setCount {n m : Int} {w : World} (h : Live n w) : Live m (w.setCount m) := ⟨rfl, h.2⟩

/-! ## Bodies -/

/-- The code of a controller method or of an event handler. -/
inductive Body : {α : Type} → M α → Prop
  | quiet {α : Type} {x : M α} (h : Quiets x) : Body x
  | bind {α β : Type} {x : M α} {f : α → M β} (hx : Body x) (hf : ∀ a, Body (f a)) : Body (x >>= f)
  | enqueue (p : Pending) : Body (AsyncSession.enqueue p)
  | flush : Body AsyncSession.flush
  | push (rk : String) (message : World → QueueMessage Pushed)
      (htag : ∀ w, ∀ x ∈ (message w).data.items, x.tx = w.tx) :
      Body (do let w ← get; RabbitMqPublisher.pushMessage rk (message w))
  | handler {func : DomainEvent → M Unit} {event : DomainEvent} (h : Body (func event)) :
      Body (EventHandlerHelper.connectDbSession func event)

/-- What a program does from inside `n` scopes. -/
def Does {α : Type} (n : Int) (x : M α) : Prop :=
  ∀ w₀, Live n w₀ → Triple (fun w => w = w₀) x (fun _ w => Worked w₀ w ∧ Live n w)
    (fun e w => Undone e w₀ w ∧ Live n w)

namespace Does
variable {α β : Type} {n : Int}

theorem of_quiets {x : M α} (h : Quiets x) : Does n x := by
  intro w₀ hl w hw
  subst hw
  have hq := h w
  cases hx : x w with
  | ok a t =>
    rw [hx] at hq
    exact ⟨Worked.single (.quiet hq), hl.quiet hq⟩
  | error e t =>
    rw [hx] at hq
    exact ⟨Undone.of_worked e (Worked.single (.quiet hq)), hl.quiet hq⟩

theorem bind {x : M α} {f : α → M β} (hx : Does n x) (hf : ∀ a, Does n (f a)) :
    Does n (x >>= f) := by
  intro w₀ hl
  refine (hx w₀ hl).bind fun a => Triple.intro fun w₁ h₁ => ?_
  refine (hf a w₁ h₁.2).conseq (fun _ h => h) ?_ ?_
  · exact fun _ w h => ⟨h₁.1.trans h.1, h.2⟩
  · exact fun e w h => ⟨h₁.1.undone h.1, h.2⟩

theorem enqueue (p : Pending) : Does n (AsyncSession.enqueue p) := by
  intro w₀ hl w hw
  subst hw
  obtain ⟨hn, s, hs⟩ := hl
  rw [enqueue_run hs]
  exact ⟨Worked.single (.enqueue hs p), hn, _, rfl⟩

theorem flush : Does n AsyncSession.flush := by
  intro w₀ hl w hw
  subst hw
  obtain ⟨hn, s, hs⟩ := hl
  by_cases hp : s.pending = []
  · rw [flush_nil hs hp]
    exact ⟨Worked.refl w, hn, s, hs⟩
  · cases ha : s.active with
    | false =>
      rw [flush_inactive hs hp ha]
      exact ⟨Undone.of_worked _ (Worked.refl w), hn, s, hs⟩
    | true =>
      cases hf : w.nextFault with
      | none =>
        rw [flush_ok hs hp ha hf]
        exact ⟨Worked.single (.flush hs ha), hn, _, rfl⟩
      | some e =>
        rw [flush_error hs hp ha hf]
        have hw : Worked w w.advance := Worked.single (.quiet (Quiet.advance w))
        exact ⟨(Undone.of_worked e hw).undo (.deactivate hs), hn, _, rfl⟩

theorem push (rk : String) (message : World → QueueMessage Pushed)
    (htag : ∀ w, ∀ x ∈ (message w).data.items, x.tx = w.tx) :
    Does n (do let w ← get; RabbitMqPublisher.pushMessage rk (message w)) := by
  intro w₀ hl w hw
  subst hw
  rw [bind_ok (get_run w) rfl]
  unfold RabbitMqPublisher.pushMessage
  cases h : Messages.pushMessage rk (message w) w.messages with
  | ok a ms => exact ⟨Worked.single (.push h (htag w)), hl⟩
  | error e ms =>
    -- a push that raises leaves the buffer as it was
    have hms : ms = w.messages := by
      rw [Messages.pushMessage_run] at h
      split at h <;> cases h
      rfl
    subst hms
    exact ⟨Undone.of_worked e (Worked.refl w), hl⟩

theorem handler {func : DomainEvent → M Unit} {event : DomainEvent} (hn : 1 ≤ n)
    (h : Does (n + 1) (func event)) : Does n (EventHandlerHelper.connectDbSession func event) := by
  intro w₀ hl
  have hset : Does (n + 1) (EventHandlerHelper.setTracing event) :=
    of_quiets (Quiets.modify fun w => ⟨rfl, rfl, rfl, rfl, rfl, rfl, rfl⟩)
  have hbody := hset.bind fun _ => h.bind fun _ => flush (n := n + 1)
  have hin : Worked w₀ (w₀.setCount (n + 1)) := Worked.single (.count w₀ _)
  unfold EventHandlerHelper.connectDbSession SessionProvider.withSession
  refine Triple.scope (fun w => w = w₀.setCount (n + 1))
    (fun _ w => Worked w₀ w ∧ Live (n + 1) w) (fun e w => Undone e w₀ w ∧ Live (n + 1) w) ?_ ?_ ?_ ?_
  · intro w hw
    subst hw
    rw [aenter_inner (by rw [hl.1]; omega), hl.1]
  · -- the body, and the handler's own `except Exception`
    refine Triple.tryCatch (R := fun e w => Undone e w₀ w ∧ Live (n + 1) w) ?_ ?_
    · exact (hbody (w₀.setCount (n + 1)) hl.setCount).conseq (fun _ => id)
        (fun _ w hw => ⟨hin.trans hw.1, hw.2⟩) (fun e w hw => ⟨hin.undone hw.1, hw.2⟩)
    · intro e w hw
      obtain ⟨hu, hc, s, hs⟩ := hw
      cases he : e.isException with
      | true =>
        rw [run_ite_pos rfl (bind_ok (rollback_run hs) rfl)]
        exact ⟨hu.undo (.rollback he hs), hc, _, rfl⟩
      | false => exact ⟨hu, hc, s, hs⟩
  · intro _ w h
    obtain ⟨hw, hlw⟩ := h
    rw [aexit_inner (by rw [hlw.1]; omega), hlw.1]
    exact ⟨hw.trans (Worked.single (.count w _)), by change n + 1 - 1 = n; omega, hlw.2⟩
  · intro e w h
    obtain ⟨hu, hlw⟩ := h
    rw [aexit_inner (by rw [hlw.1]; omega), hlw.1]
    exact ⟨hu.undo (.count w _), by change n + 1 - 1 = n; omega, hlw.2⟩

end Does

/-- All that a body can do, however deep its handlers nest. -/
theorem Body.does {α : Type} {x : M α} (h : Body x) : ∀ n, 1 ≤ n → Does n x := by
  induction h with
  | quiet h => exact fun n _ => Does.of_quiets h
  | bind _ _ ihx ihf => exact fun n hn => (ihx n hn).bind fun a => ihf a n hn
  | enqueue p => exact fun n _ => Does.enqueue p
  | flush => exact fun n _ => Does.flush
  | push rk message htag => exact fun n _ => Does.push rk message htag
  | handler _ ih => exact fun n hn => Does.handler hn (ih (n + 1) (by omega))

/-! ## The service's bodies -/

namespace Body
variable {α β : Type}

theorem pure (a : α) : Body (pure a : M α) := quiet (Quiets.pure a)

theorem throw (e : Exc) : Body (throw e : M α) := quiet (Quiets.throw e)

theorem ofExcept (r : Except Exc α) : Body (M.ofExcept r) := by
  cases r with
  | ok a => exact pure a
  | error e => exact throw e

theorem forM {f : β → M PUnit} : ∀ (l : List β), (∀ x ∈ l, Body (f x)) → Body (l.forM f)
  | [], _ => pure _
  | x :: l, h => (h x List.mem_cons_self).bind fun _ =>
      forM l fun y hy => h y (List.mem_cons_of_mem x hy)

theorem mapM {f : β → M α} : ∀ (l : List β), (∀ x ∈ l, Body (f x)) → Body (l.mapM f)
  | [], _ => pure _
  | x :: l, h => by
    rw [List.mapM_cons]
    refine (h x List.mem_cons_self).bind fun _ => bind ?_ fun _ => pure _
    exact mapM l fun y hy => h y (List.mem_cons_of_mem x hy)

section
variable (env : Env)

theorem getTracer (e : DomainEvent) : Body (e.getTracer env) := by
  unfold DomainEvent.getTracer
  cases e.tracer with
  | some t => exact pure _
  | none => exact (quiet Quiets.datetimeNow).bind fun _ =>
      (quiet (Quiets.uuid4 env .span)).bind fun _ => pure _

theorem traceUnder : ∀ (parent : DomainEvent) (events : List DomainEvent),
    Body (AggregateRoot.traceUnder env parent events)
  | _, [] => pure _
  | parent, e :: es => (getTracer env parent).bind fun p => (getTracer env e).bind fun _ =>
      (traceUnder p.1 es).bind fun _ => pure _

theorem saveEventsTracing (a : YourAggregate) (parentEvent : Option DomainEvent)
    (traceId : Option String) : Body (a.saveEventsTracing env parentEvent traceId) := by
  unfold YourAggregate.saveEventsTracing
  cases parentEvent with
  | some parent => exact (traceUnder env parent a.domainEvents).bind fun _ => pure _
  | none =>
    cases traceId with
    | none => exact pure a
    | some t =>
      dsimp only
      split
      · exact pure a
      · exact (mapM a.domainEvents fun e _ => (getTracer env e).bind fun _ => pure _).bind
          fun _ => pure _

theorem saveTracing (owner : Owner) (a : YourAggregate) :
    Body (UseCaseBase.saveTracing env owner a) := by
  have hset : ∀ f : World → UseCaseBase, Body (modify fun w => w.setUseCase owner (f w) : M PUnit) :=
    fun f => quiet (Quiets.modify fun w => ⟨rfl, rfl, rfl, rfl, rfl, rfl, rfl⟩)
  refine (quiet Quiets.get).bind fun w => ?_
  dsimp only
  split
  · exact (saveEventsTracing env a _ _).bind fun _ => (hset fun _ => _).bind fun _ => pure _
  · split
    · exact pure a
    · exact (saveEventsTracing env a _ _).bind fun _ => (hset fun _ => _).bind fun _ => pure _
  · exact pure a

theorem loadYourAggregate (pkey : String) (lock : Bool) :
    Body (YourAggregateRepository.loadYourAggregate env pkey lock) := by
  refine (quiet ((Quiets.sessionGet pkey).tryCatch fun e => ?_)).bind fun model => ?_
  · split
    · exact Quiets.pure none
    · exact Quiets.throw e
  · cases model with
    | none => exact throw _
    | some model => exact ofExcept _

theorem archive (a : YourAggregate) (model : YourAggregateModel) :
    Body (YourAggregateRepository.archive env a model) := by
  refine (quiet (Quiets.uuid4 env .archive)).bind fun _ => ?_
  dsimp only
  split
  · exact (enqueue _).bind fun _ => pure a
  · exact (getTracer env _).bind fun _ => (enqueue _).bind fun _ => pure _

theorem addEvents : ∀ events, Body (YourAggregateRepository.addEvents env events)
  | [] => pure _
  | e :: es => ((getTracer env e).bind fun _ => pure _).bind fun _ => (enqueue _).bind fun _ =>
      (addEvents es).bind fun _ => pure _

theorem persist (a : YourAggregate) (model : YourAggregateModel) (persistent : Bool) :
    Body (YourAggregateRepository.persist a model persistent) := by
  unfold YourAggregateRepository.persist
  split
  · split
    · exact enqueue _
    · exact throw _
  · exact enqueue _

theorem archiveIfRaised (a : YourAggregate) (model : YourAggregateModel) :
    Body (YourAggregateRepository.archiveIfRaised env a model) := by
  unfold YourAggregateRepository.archiveIfRaised
  split
  · exact archive env a model
  · exact pure a

theorem saveYourAggregate (a : YourAggregate) :
    Body (YourAggregateRepository.saveYourAggregate env a) :=
  (quiet (Quiets.sessionGet a.id)).bind fun _ => (persist a _ _).bind fun _ =>
    (archiveIfRaised env a _).bind fun _ => (addEvents env _).bind fun _ => bind flush fun _ =>
      pure _

/-- A use case's save, on a bus that runs bodies. -/
theorem useCaseSave {bus : Bus} (hbus : ∀ e, Body (bus e)) (owner : Owner) (a : YourAggregate) :
    Body (YourAggregateUseCase.save env bus owner a) :=
  (saveTracing env owner a).bind fun a => (saveYourAggregate env a).bind fun a =>
    forM a.allEvents fun e _ => hbus e

section UseCase
variable {bus : Bus} (hbus : ∀ e, Body (bus e)) (owner : Owner)
include hbus

theorem createYourAggregate (v : YourValueObject) (creator : User) :
    Body (YourAggregateUseCase.createYourAggregate env bus owner v creator) :=
  (quiet (Quiets.uuid4 env .aggregate)).bind fun _ => (quiet Quiets.datetimeNow).bind fun _ =>
    (ofExcept _).bind fun a => (useCaseSave env hbus owner a).bind fun _ => pure _

theorem deleteYourAggregate (id : String) (doer : User) :
    Body (YourAggregateUseCase.deleteYourAggregate env bus owner id doer) :=
  (loadYourAggregate env id true).bind fun _ => (ofExcept _).bind fun a =>
    useCaseSave env hbus owner a

theorem voidYourAggregate (id : String) (doer : User) :
    Body (YourAggregateUseCase.voidYourAggregate env bus owner id doer) :=
  (loadYourAggregate env id true).bind fun _ => (quiet Quiets.datetimeNow).bind fun _ =>
    (ofExcept _).bind fun a => useCaseSave env hbus owner a

theorem updateYourAggregate (id : String) (v : YourValueObject) (doer : User) :
    Body (YourAggregateUseCase.updateYourAggregate env bus owner id v doer) :=
  (loadYourAggregate env id true).bind fun _ => (quiet Quiets.datetimeNow).bind fun _ =>
    (ofExcept _).bind fun a => useCaseSave env hbus owner a

end UseCase

theorem handleYourAggregateVoided (id : String) :
    Body (YourAggregateEventHandler.handleYourAggregateVoided env id) := by
  refine (loadYourAggregate env id false).bind fun a => ?_
  split
  · refine (quiet (Quiets.getTraceId env)).bind fun traceId => push _ (fun w =>
      QueueMessage.new traceId YourAggregateEventHandler.yourAggregateVoidedFunction
        (.list [⟨⟨id⟩, w.tx, w.pushed.length⟩])) ?_
    simp [QueueMessage.new, MessageData.items]
  · exact pure _

/-- Publishing an event runs handlers in their scopes, however deep. -/
theorem publish : ∀ depth event, Body (DddService.publish env depth event)
  | 0, _ => throw _
  | depth + 1, event => by
    refine forM _ fun func hfunc => handler ?_
    unfold YourAggregateEventHandler.handlers at hfunc
    split at hfunc
    · rw [List.mem_singleton.mp hfunc]
      exact updateYourAggregate env (publish depth) .eventHandler _ _ _
    · rw [List.mem_singleton.mp hfunc]
      exact handleYourAggregateVoided env _
    · cases hfunc
    · cases hfunc

/-- The body of every call the controller serves. -/
theorem method {c : Call} {m : Method} (h : c.method env = some m) : Body m.func := by
  have hbatch : ∀ {ρ : Type} (one : ρ → M String) (rs : List ρ), (∀ r, Body (one r)) →
      Body (YourAggregateController.batch one rs) := fun one rs hone =>
    (mapM rs fun r _ => hone r).bind fun _ => ofExcept _
  have hbus : ∀ e, Body (eventBus env e) := publish env recursionLimit
  cases c with
  | create rs => cases h; exact hbatch _ rs fun r => createYourAggregate env hbus _ _ _
  | update rs =>
    cases h
    exact hbatch _ rs fun r => (updateYourAggregate env hbus _ _ _ _).bind fun _ => pure _
  | void rs =>
    cases h
    exact hbatch _ rs fun r => (voidYourAggregate env hbus _ _ _).bind fun _ => pure _
  | delete rs =>
    cases h
    exact hbatch _ rs fun r => (deleteYourAggregate env hbus _ _ _).bind fun _ => pure _
  | get r => cases h; exact loadYourAggregate env r.id false
  | newContext t => cases h

end

end Body

end DddService
