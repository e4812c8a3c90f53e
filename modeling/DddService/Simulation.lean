import DddService.Refinement
import DddService.Atomicity

/- The service's programs against the ledger. Inside a call, the session's view of
   the database represents a store that the call's starting store leads to (`At`);
   a program that returns has appended its changes to that store, and one that
   raises has left a view that represents some such store (`Lost`).

   Where the environment makes no failure (`Calm`), a program raises only because
   the ledger refuses its changes; that is the `blocked` in `Fails`. -/
namespace DddService
open Hoare EventLog

variable {env : Env}

/-! ## Programs that do not matter to the ledger -/

/-- Everything the ledger's view of a world depends on is as it was. -/
structure Framed (w w' : World) : Prop where
  db : w'.db = w.db
  provider : w'.provider = w.provider
  messages : w'.messages = w.messages
  faults : w'.faults = w.faults
  drawn : w'.drawn .aggregate = w.drawn .aggregate

theorem Framed.refl (w : World) : Framed w w := ⟨rfl, rfl, rfl, rfl, rfl⟩

theorem Framed.trans {w w' w'' : World} (h : Framed w w') (h' : Framed w' w'') : Framed w w'' :=
  ⟨h'.db.trans h.db, h'.provider.trans h.provider, h'.messages.trans h.messages,
    h'.faults.trans h.faults, h'.drawn.trans h.drawn⟩

/-- Always returns, with a value in `R`. -/
def Harmless {α : Type} (x : M α) (R : α → Prop) : Prop :=
  ∀ w, ∃ a w', x w = .ok a w' ∧ Framed w w' ∧ R a

namespace Harmless
variable {α β : Type} {R : α → Prop} {S : β → Prop}

theorem pure {a : α} (h : R a) : Harmless (pure a) R := fun w => ⟨a, w, rfl, Framed.refl w, h⟩

theorem imp {x : M α} {R' : α → Prop} (hx : Harmless x R) (h : ∀ a, R a → R' a) :
    Harmless x R' := by
  intro w
  obtain ⟨a, w₁, hrun, hw₁, ha⟩ := hx w
  exact ⟨a, w₁, hrun, hw₁, h a ha⟩

theorem bind {x : M α} {f : α → M β} (hx : Harmless x R) (hf : ∀ a, R a → Harmless (f a) S) :
    Harmless (x >>= f) S := by
  intro w
  obtain ⟨a, w₁, h₁, hw₁, ha⟩ := hx w
  obtain ⟨b, w₂, h₂, hw₂, hb⟩ := hf a ha w₁
  exact ⟨b, w₂, bind_ok h₁ h₂, hw₁.trans hw₂, hb⟩

theorem datetimeNow : Harmless datetimeNow fun _ => True :=
  fun _ => ⟨_, _, rfl, ⟨rfl, rfl, rfl, rfl, rfl⟩, trivial⟩

theorem uuid4 {kind : UuidKind} (hk : kind ≠ .aggregate) :
    Harmless (uuid4 env kind) fun _ => True := by
  intro w
  refine ⟨_, _, rfl, ⟨rfl, rfl, rfl, rfl, ?_⟩, trivial⟩
  exact Function.update_of_ne hk.symm _ _

theorem modify {f : World → World} (h : ∀ w, Framed w (f w)) :
    Harmless (modify f : M PUnit) fun _ => True :=
  fun w => ⟨_, f w, rfl, h w, trivial⟩

theorem getTraceId : Harmless (getTraceId env) fun _ => True := by
  intro w
  by_cases h : w.traceId.getD "" = ""
  · obtain ⟨t, w₁, h₁, hw₁, _⟩ := uuid4 (show UuidKind.trace ≠ .aggregate by decide) w
    exact ⟨t, { w₁ with traceId := some t }, bind_ok (get_run w) (run_ite_pos h
      (bind_ok h₁ (bind_ok (modify_run _ _) rfl))),
      hw₁.trans ⟨rfl, rfl, rfl, rfl, rfl⟩, trivial⟩
  · exact ⟨_, w, bind_ok (get_run w) (run_ite_neg h rfl), Framed.refl w, trivial⟩

end Harmless

/-! ## Tracing leaves the events' bodies alone -/

/-- Reading a tracer keeps the one that is there. -/
theorem getTracer_keeps (e : DomainEvent) : Harmless (e.getTracer env) fun r =>
    r.1 = { e with tracer := some r.2 } ∧ ∀ t, e.tracer = some t → t = r.2 := by
  obtain ⟨body, tracer⟩ := e
  cases tracer with
  | some t => exact Harmless.pure ⟨rfl, fun t' h => (Option.some.inj h).symm⟩
  | none => exact Harmless.bind Harmless.datetimeNow fun _ _ =>
      (Harmless.uuid4 (by decide)).bind fun _ _ => Harmless.pure ⟨rfl, fun _ h => nomatch h⟩

theorem getTracer_harmless (e : DomainEvent) :
    Harmless (e.getTracer env) fun r => r.1 = { e with tracer := some r.2 } :=
  (getTracer_keeps e).imp fun _ hr => hr.1

theorem traceUnder_harmless : ∀ (parent : DomainEvent) (events : List DomainEvent),
    Harmless (AggregateRoot.traceUnder env parent events)
      fun es => es.map DomainEvent.body = events.map DomainEvent.body
  | _, [] => Harmless.pure rfl
  | parent, e :: es => (getTracer_harmless parent).bind fun p _ =>
      (getTracer_harmless e).bind fun r hr => (traceUnder_harmless p.1 es).bind fun es' hes =>
        Harmless.pure (by simp [hr, hes])

theorem traceAs_harmless (t : String) : ∀ events : List DomainEvent,
    Harmless (AggregateRoot.traceAs env t events)
      fun es => es.map DomainEvent.body = events.map DomainEvent.body
  | [] => Harmless.pure rfl
  | e :: es => by
    unfold AggregateRoot.traceAs
    rw [List.mapM_cons]
    apply Harmless.bind (R := fun r => r.body = e.body)
    · apply (getTracer_harmless e).bind
      intro r hr
      exact Harmless.pure (show r.1.body = e.body by rw [hr])
    · intro r hr
      apply (traceAs_harmless t es).bind
      intro es' hes
      exact Harmless.pure (by simp [hr, hes])

/-- The same aggregate up to the tracers of its events. -/
def Retraced (a a' : YourAggregate) : Prop :=
  ∃ events, a' = { a with domainEvents := events } ∧
    events.map DomainEvent.body = a.domainEvents.map DomainEvent.body

theorem Retraced.refl (a : YourAggregate) : Retraced a a := ⟨a.domainEvents, rfl, rfl⟩

theorem saveEventsTracing_harmless (a : YourAggregate) (parentEvent : Option DomainEvent)
    (traceId : Option String) : Harmless (a.saveEventsTracing env parentEvent traceId) (Retraced a) := by
  unfold YourAggregate.saveEventsTracing
  cases parentEvent with
  | some parent => exact (traceUnder_harmless parent a.domainEvents).bind fun es hes =>
      Harmless.pure ⟨es, rfl, hes⟩
  | none =>
    cases traceId with
    | none => exact Harmless.pure (Retraced.refl a)
    | some t =>
      dsimp only
      split
      · exact Harmless.pure (Retraced.refl a)
      · exact (traceAs_harmless t a.domainEvents).bind fun es hes => Harmless.pure ⟨es, rfl, hes⟩

theorem saveTracing_harmless (owner : Owner) (a : YourAggregate) :
    Harmless (UseCaseBase.saveTracing env owner a) (Retraced a) := by
  have hset : ∀ u : UseCaseBase,
      Harmless (modify fun w => w.setUseCase owner u : M PUnit) fun _ => True :=
    fun _ => Harmless.modify fun _ => ⟨rfl, rfl, rfl, rfl, rfl⟩
  have hget : Harmless (get : M World) fun _ => True := fun w => ⟨w, w, rfl, Framed.refl w, trivial⟩
  refine hget.bind fun w _ => ?_
  dsimp only
  split
  · exact (saveEventsTracing_harmless a _ _).bind fun a' ha => (hset _).bind fun _ _ =>
      Harmless.pure ha
  · split
    · exact Harmless.pure (Retraced.refl a)
    · exact (saveEventsTracing_harmless a _ _).bind fun a' ha => (hset _).bind fun _ _ =>
        Harmless.pure ha
  · exact Harmless.pure (Retraced.refl a)

/-! ## Inside a call -/

/-- Every pending message is the notification pushed under its own key. -/
def Buffered (ms : Messages Pushed) : Prop :=
  ∀ rk k m, ms.pendingAt rk k = some m → k = Messages.mKey m ∧
    m.functionName = YourAggregateEventHandler.yourAggregateVoidedFunction ∧ ∃ xs, m.data = .list xs

/-- No failure is to come, and no push can fail. -/
structure Calm (w : World) : Prop where
  faults : w.faults = []
  messages : Buffered w.messages

/-- Every id the store knows is among the first `k` drawn. -/
def Drawn (env : Env) (k : Nat) (L : Store) : Prop :=
  ∀ id, L.state id ≠ .absent → ∃ m, m < k ∧ id = env.uuid4 .aggregate m

/-- The database a call starts from, with its ledger. -/
structure Origin (env : Env) where
  db : Database
  ledger : Store
  represents : Represents env.mixin db ledger

/-- In `n` scopes of a call from `o`, with the session's view and pending writes. -/
structure Inside (o : Origin env) (calm : Prop) (n : Int) (k : Nat) (view : Database)
    (ps : List Pending) (w : World) : Prop where
  db : w.db = o.db
  count : w.provider.sessionCount = n
  drawn : w.drawn .aggregate = k
  session : ∃ s, w.provider.session = some s ∧ s.active = true ∧ s.view = view ∧ s.pending = ps
  calm : calm → Calm w

/-- The rows that were voided are as they were, or deleted. -/
def Frozen (db db' : Database) : Prop :=
  ∀ id m, db.yourAggregate id = some m → m.status = YourAggregateStatus.voided.value →
    db'.yourAggregate id = some m ∨ db'.yourAggregate id = none

/-- The view is a store's, one that the call's origin leads to. -/
structure Sound (o : Origin env) (k : Nat) (view : Database) (L : Store) : Prop where
  represents : Represents env.mixin view L
  leads : EventLog.Store.Leads machine o.ledger L
  frozen : Frozen o.db view
  fresh : Drawn env k L
  origin : Drawn env k o.ledger

/-- Between two statements of a call: nothing is pending, and the view is `L`'s. -/
def At (o : Origin env) (calm : Prop) (n : Int) (k : Nat) (L : Store) (w : World) : Prop :=
  ∃ view, Sound o k view L ∧ Inside o calm n k view [] w

/-- After a raise: nothing is pending, and the view is some store's. -/
structure Lost (o : Origin env) (n : Int) (w : World) : Prop where
  db : w.db = o.db
  count : w.provider.sessionCount = n
  session : ∃ s L, w.provider.session = some s ∧ s.pending = [] ∧ Sound o (w.drawn .aggregate) s.view L

/-- How a program raises; in a calm world only because it is `blocked`. -/
def Fails (o : Origin env) (calm : Prop) (n : Int) (blocked : Prop) : Exc → World → Prop :=
  fun _ w => Lost o n w ∧ (calm → blocked)

section
variable {o : Origin env} {calm : Prop} {n : Int} {k : Nat} {view : Database} {ps : List Pending}
  {L : Store}

theorem Inside.framed {w w' : World} (h : Inside o calm n k view ps w) (hf : Framed w w') :
    Inside o calm n k view ps w' where
  db := hf.db.trans h.db
  count := by rw [hf.provider]; exact h.count
  drawn := hf.drawn.trans h.drawn
  session := by rw [hf.provider]; exact h.session
  calm := fun hc => ⟨hf.faults.trans (h.calm hc).faults, by
    rw [hf.messages]; exact (h.calm hc).messages⟩

theorem Inside.advance {w : World} (h : Inside o calm n k view ps w) :
    Inside o calm n k view ps w.advance where
  db := h.db
  count := h.count
  drawn := h.drawn
  session := h.session
  calm := fun hc => ⟨by change w.faults.tail = []; rw [(h.calm hc).faults]; rfl, (h.calm hc).messages⟩

theorem Inside.no_fault {w : World} (h : Inside o calm n k view ps w) {e : Exc}
    (hf : w.nextFault = some e) : ¬calm := by
  intro hc
  rw [World.nextFault, (h.calm hc).faults] at hf
  cases hf

theorem Sound.lost {w : World} (hs : Sound o k view L) (h : Inside o calm n k view [] w) :
    Lost o n w where
  db := h.db
  count := h.count
  session := by
    obtain ⟨s, h1, _, h3, h4⟩ := h.session
    exact ⟨s, L, h1, h4, by rw [h3, h.drawn]; exact hs⟩

theorem Frozen.refl (db : Database) : Frozen db db := fun _ _ h _ => Or.inl h

theorem Sound.back (hs : Sound o k view L) : Sound o k o.db o.ledger :=
  ⟨o.represents, EventLog.Store.Leads.refl _, Frozen.refl _, hs.origin, hs.origin⟩

theorem Sound.deactivated {w : World} (hs : Sound o k view L) {s : AsyncSession}
    (h : Inside o calm n k view ps w) : Lost o n (AsyncSession.deactivate s w) where
  db := h.db
  count := h.count
  session := by
    refine ⟨_, o.ledger, rfl, rfl, ?_⟩
    change Sound o (w.drawn .aggregate) w.db o.ledger
    rw [h.db, h.drawn]
    exact hs.back

theorem Drawn.mono {k k' : Nat} (h : Drawn env k L) (hk : k ≤ k') : Drawn env k' L := by
  intro id hid
  obtain ⟨m, hm, rfl⟩ := h id hid
  exact ⟨m, by omega, rfl⟩

theorem Harmless.triple {α : Type} {x : M α} {R : α → Prop} (h : Harmless x R)
    {E : Exc → World → Prop} : Triple (At o calm n k L) x (fun a w => At o calm n k L w ∧ R a) E := by
  intro w hw
  obtain ⟨view, hs, hi⟩ := hw
  obtain ⟨a, w', hx, hf, ha⟩ := h w
  rw [hx]
  exact ⟨⟨view, hs, hi.framed hf⟩, ha⟩

/-- Loading finds the live aggregate of the slot, and nothing else. -/
theorem loadYourAggregate_spec (id : String) (lock : Bool) :
    Triple (At o calm n k L) (YourAggregateRepository.loadYourAggregate env id lock)
      (fun a w => At o calm n k L w ∧ ∃ g, L.state id = .live g ∧ Loaded env.mixin id a g)
      (Fails o calm n (∀ g, L.state id ≠ .live g)) := by
  have hget : Triple (At o calm n k L) (tryCatch (AsyncSession.get id)
      (fun e => if e.isException then pure none else throw e))
      (fun row w => At o calm n k L w ∧ (RowIs env.mixin id row (L.state id) ∨ row = none ∧ ¬calm))
      (Fails o calm n (∀ g, L.state id ≠ .live g)) := by
    intro w hw
    obtain ⟨view, hs, hi⟩ := hw
    obtain ⟨s, h1, h2, h3, h4⟩ := hi.session
    cases hf : w.nextFault with
    | none =>
      rw [tryCatch_ok (sessionGet_ok h1 h2 hf id)]
      exact ⟨⟨view, hs, hi.advance⟩, Or.inl (h3 ▸ hs.represents.rows id)⟩
    | some e =>
      have hcalm := hi.no_fault hf
      cases he : e.isException with
      | true =>
        -- any `Exception` of the read counts as no row
        rw [tryCatch_error (sessionGet_error h1 h2 hf id) (run_ite_pos he rfl)]
        exact ⟨⟨view, hs, hi.advance⟩, Or.inr ⟨rfl, hcalm⟩⟩
      | false =>
        rw [tryCatch_error (sessionGet_error h1 h2 hf id) (run_ite_neg (by simp [he]) rfl)]
        exact ⟨hs.lost hi.advance, fun hc => absurd hc hcalm⟩
  refine hget.bind fun row => ?_
  intro w hw
  obtain ⟨⟨view, hs, hi⟩, hrow⟩ := hw
  cases row with
  | none =>
    refine ⟨hs.lost hi, fun hc g hg => ?_⟩
    rcases hrow with hrow | ⟨_, hn⟩
    · rw [hg] at hrow
      obtain ⟨m, hm, _⟩ := hrow
      cases hm
    · exact hn hc
  | some m =>
    rcases hrow with hrow | ⟨hn, _⟩
    · cases hst : L.state id with
      | live g =>
        rw [hst] at hrow
        obtain ⟨m', hm, hstored, hc⟩ := hrow
        cases hm
        obtain ⟨a, ha, hl⟩ := modelToEntity_stored hstored hc
        dsimp only
        rw [ha]
        exact ⟨⟨view, hs, hi⟩, g, rfl, hl⟩
      | absent => rw [hst] at hrow; cases hrow
      | deleted g => rw [hst] at hrow; cases hrow
    · cases hn

/-! ## One save -/

theorem Inside.harmless {α : Type} {x : M α} {R : α → Prop} (hx : Harmless x R) {w : World}
    (h : Inside o calm n k view ps w) : ∃ a w', x w = .ok a w' ∧ Inside o calm n k view ps w' ∧ R a := by
  obtain ⟨a, w', hw, hf, ha⟩ := hx w
  exact ⟨a, w', hw, h.framed hf, ha⟩

theorem Inside.enqueue {w : World} (h : Inside o calm n k view ps w) (p : Pending) :
    ∃ w', AsyncSession.enqueue p w = .ok () w' ∧ Inside o calm n k view (ps ++ [p]) w' := by
  obtain ⟨s, h1, h2, h3, h4⟩ := h.session
  refine ⟨_, enqueue_run h1 p, h.db, h.count, h.drawn, ⟨_, rfl, h2, h3, ?_⟩, fun hc => ?_⟩
  · change s.pending ++ [p] = ps ++ [p]
    rw [h4]
  · exact ⟨(h.calm hc).faults, (h.calm hc).messages⟩

theorem persist_run {a : YourAggregate} {model : YourAggregateModel} {persistent : Bool}
    (hp : a.isDelete = true → persistent = true) {w : World} (h : Inside o calm n k view ps w) :
    ∃ w', YourAggregateRepository.persist a model persistent w = .ok () w' ∧
      Inside o calm n k view (ps ++ [if a.isDelete then .delete model.id else .add model]) w' := by
  unfold YourAggregateRepository.persist
  cases hd : a.isDelete with
  | true =>
    rw [hp hd]
    exact h.enqueue (.delete model.id)
  | false => exact h.enqueue (.add model)

/-- The archive row of an aggregate with the one event `e`, which is traced then. -/
theorem archive_run {a : YourAggregate} {e : DomainEvent} (ha : a.isArchive = true)
    (he : a.domainEvents = [e]) (model : YourAggregateModel) {w : World}
    (h : Inside o calm n k view ps w) :
    ∃ archiveId t w', YourAggregateRepository.archiveIfRaised env a model w =
        .ok { a with domainEvents := [{ e with tracer := some t }] } w' ∧
      Inside o calm n k view (ps ++ [.addArchive (archiveRow env archiveId t e.body model)]) w' := by
  obtain ⟨archiveId, w₁, h₁, hi₁, _⟩ := h.harmless
    (Harmless.uuid4 (show UuidKind.archive ≠ .aggregate by decide))
  obtain ⟨⟨e', t⟩, w₂, h₂, hi₂, htraced⟩ := hi₁.harmless (getTracer_harmless e)
  have he' : e' = { e with tracer := some t } := htraced
  subst he'
  obtain ⟨w₃, h₃, hi₃⟩ := hi₂.enqueue (.addArchive (archiveRow env archiveId t e.body model))
  refine ⟨archiveId, t, w₃, run_ite_pos ha (bind_ok h₁ ?_), hi₃⟩
  rw [YourAggregate.allEvents, he]
  exact bind_ok h₂ (bind_ok h₃ rfl)

theorem addEvents_run (b : EventBody) (t : Tracer) {w : World} (h : Inside o calm n k view ps w) :
    ∃ w', YourAggregateRepository.addEvents env [⟨b, some t⟩] w = .ok [⟨b, some t⟩] w' ∧
      Inside o calm n k view (ps ++ [.addEvent (eventRow t b)]) w' := by
  obtain ⟨w', hw', hi⟩ := h.enqueue (.addEvent (eventRow t b))
  exact ⟨w', bind_ok (show DomainEvent.serialize env ⟨b, some t⟩ w = .ok _ w from rfl)
    (bind_ok hw' rfl), hi⟩

/-- A save up to its flush, on the row `found`: the writes wait. -/
theorem saveYourAggregate_run {a : YourAggregate} {e : DomainEvent} (ha : a.isArchive = true)
    (he : a.domainEvents = [e]) {found : Option YourAggregateModel}
    (hfound : a.isDelete = true → found.isSome = true) {w w₀ : World}
    (hget : AsyncSession.get a.id w = .ok found w₀) (h : Inside o calm n k view [] w₀) :
    ∃ archiveId t w', Inside o calm n k view (saveWrites env archiveId t e.body a found) w' ∧
      YourAggregateRepository.saveYourAggregate env a w =
        (do AsyncSession.flush
            pure { a with domainEvents := [{ e with tracer := some t }] } : M YourAggregate) w' := by
  obtain ⟨w₁, h₁, hi₁⟩ := persist_run hfound h
  obtain ⟨archiveId, t, w₂, h₂, hi₂⟩ := archive_run ha he
    (YourAggregateRepository.modelOf env a found) hi₁
  obtain ⟨w₃, h₃, hi₃⟩ := addEvents_run e.body t hi₂
  exact ⟨archiveId, t, w₃, hi₃, bind_ok hget (bind_ok h₁ (bind_ok h₂ (bind_ok h₃ rfl)))⟩

theorem flush_spec (hs : Sound o k view L) (hp : ps ≠ []) :
    Triple (Inside o calm n k view ps) AsyncSession.flush
      (fun _ w => ∃ now, Inside o calm n k (view.writeAll now ps) [] w)
      (fun _ w => Lost o n w ∧ ¬calm) := by
  intro w hi
  obtain ⟨s, h1, h2, h3, h4⟩ := hi.session
  have hp' : s.pending ≠ [] := h4 ▸ hp
  cases hf : w.nextFault with
  | none =>
    rw [flush_ok h1 hp' h2 hf]
    refine ⟨s.now, hi.db, hi.count, hi.drawn, ⟨_, rfl, h2, ?_, rfl⟩, fun hc =>
      ⟨(hi.advance.calm hc).faults, (hi.calm hc).messages⟩⟩
    change s.view.writeAll s.now s.pending = _
    rw [h3, h4]
  | some e =>
    rw [flush_error h1 hp' h2 hf]
    exact ⟨hs.deactivated hi.advance, hi.no_fault hf⟩

/-- A row that was voided holds a voided aggregate ever since. -/
theorem Represents.voided {mixin : DataclassMixin} {db : Database} {L L' : Store}
    (h : Represents mixin db L) (hl : EventLog.Store.Leads machine L L') {id : String}
    {m : YourAggregateModel} (hrow : db.yourAggregate id = some m)
    (hm : m.status = YourAggregateStatus.voided.value) :
    ∃ g, g.voided = true ∧ (L'.state id = .live g ∨ L'.state id = .deleted g) := by
  have hr := h.rows id
  rw [hrow] at hr
  cases hst : L.state id with
  | live g =>
    rw [hst] at hr
    obtain ⟨m', hm', hstored, _⟩ := hr
    cases hm'
    have hv : g.voided = true := by
      have hval := hstored.status
      rw [hm] at hval
      cases hg : g.voided with
      | true => rfl
      | false => rw [hg] at hval; exact absurd hval (by decide)
    obtain ⟨es, hes⟩ := hl.run id
    rw [hst] at hes
    exact ⟨g, hv, Ledger.voided_run hv hes⟩
  | absent => rw [hst] at hr; cases hr
  | deleted g => rw [hst] at hr; cases hr

/-- The one step left to such a row is its deletion. -/
theorem Sound.frozen_save (hs : Sound o k view L) {id : String} {c : Change} {s' : Slot}
    (hstep : Ledger.next (L.state id) c = some s') {view' : Database}
    (hself : RowIs env.mixin id (view'.yourAggregate id) s')
    (hother : ∀ id', id' ≠ id → view'.yourAggregate id' = view.yourAggregate id') :
    Frozen o.db view' := by
  intro id' m hrow hm
  by_cases hid : id' = id
  · subst hid
    obtain ⟨g, hv, hst⟩ := o.represents.voided hs.leads hrow hm
    rcases hst with hst | hst <;> rw [hst] at hstep
    · rw [Ledger.voided_next hv hstep] at hself
      exact Or.inr hself
    · cases c <;> cases hstep
  · rw [hother id' hid]
    exact hs.frozen id' m hrow hm

theorem saveYourAggregate_spec {id : String} {c : Change} {a : YourAggregate} {s' : Slot}
    {g : Aggregate} (h : Ready env.mixin id (L.state id) c a s' g)
    (hid : ∃ m, m < k ∧ id = env.uuid4 .aggregate m) :
    Triple (At o calm n k L) (YourAggregateRepository.saveYourAggregate env a)
      (fun a' w => ∃ L', L.append machine id c = some L' ∧ At o calm n k L' w ∧
        a'.domainEvents.map DomainEvent.body = [bodyOf id c])
      (Fails o calm n False) := by
  intro w hw
  obtain ⟨view, hs, hi⟩ := hw
  obtain ⟨s, h1, h2, h3, _⟩ := hi.session
  -- the entity's one event
  obtain ⟨e, he, hbody⟩ := List.map_eq_singleton_iff.mp h.events
  cases hf : w.nextFault with
  | some e =>
    have hrun : YourAggregateRepository.saveYourAggregate env a w = .error e w.advance :=
      bind_error (sessionGet_error h1 h2 hf a.id)
    rw [hrun]
    exact ⟨hs.lost hi.advance, hi.no_fault hf⟩
  | none =>
    have hfound : AsyncSession.get a.id w = .ok (view.yourAggregate id) w.advance := by
      rw [sessionGet_ok h1 h2 hf, h3, h.key]
    -- a deletion is of a row that is there
    have hrow := hs.represents.rows id
    have hpers : a.isDelete = true → (view.yourAggregate id).isSome = true := by
      intro hd
      rw [h.isDelete] at hd
      have hstep := h.step
      cases hst : L.state id with
      | live g₀ =>
        rw [hst] at hrow
        obtain ⟨m, hm, _⟩ := hrow
        rw [hm]
        rfl
      | absent => rw [hst] at hstep; cases c <;> cases hstep; cases hd
      | deleted g₀ => rw [hst] at hstep; cases c <;> cases hstep
    obtain ⟨archiveId, t, w₃, hi₃, hrun⟩ := saveYourAggregate_run h.isArchive he hpers hfound
      hi.advance
    have hflush := flush_spec hs (List.cons_ne_nil _ _) w₃ hi₃
    cases hfl : AsyncSession.flush w₃ with
    | error e w₄ =>
      rw [hfl] at hflush
      rw [hrun, bind_error hfl]
      exact ⟨hflush.1, hflush.2⟩
    | ok u w₄ =>
      rw [hfl] at hflush
      rw [hrun, bind_ok hfl rfl]
      obtain ⟨now, hi₄⟩ := hflush
      rw [hbody] at hi₄
      obtain ⟨L', happ, hrep⟩ := hs.represents.save now h archiveId t
      obtain ⟨hself, hother, _, _⟩ := persisted_row now h (hs.represents.rows id)
      refine ⟨L', happ, ⟨_, ⟨hrep, ?_, hs.frozen_save h.step hself hother, ?_, hs.origin⟩, hi₄⟩, ?_⟩
      · have hall : L.appendAll machine [(id, c)] = some L' := by
          rw [EventLog.Store.appendAll_single]
          exact happ
        exact hs.leads.trans (EventLog.Store.Leads.of_appendAll hall)
      · intro id' hne
        obtain ⟨s'', _, hstate, _⟩ := EventLog.Store.append_cases happ
        by_cases hid' : id' = id
        · rw [hid']
          exact hid
        · rw [hstate, Function.update_of_ne hid'] at hne
          exact hs.fresh id' hne
      · change [e.body] = _
        rw [hbody]

/-! ## Publishing events -/

/-- The changes the handlers of a change make. -/
def reaction (id : String) : Change → List (String × Change)
  | .created v d => [(id, .updated ⟨v.propertyA ++ "_test_event_handler", v.propertyB⟩ d)]
  | _ => []

/-- Publishing the event of `c`, just after `c`, appends `es`. -/
def Reacts (env : Env) (bus : Bus) (id : String) (c : Change) (es : List (String × Change)) : Prop :=
  ∀ (o : Origin env) (calm : Prop) (n : Int) (k : Nat) (L : Store) (e : DomainEvent), 1 ≤ n →
    e.body = bodyOf id c → (∃ s, Ledger.next s c = some (L.state id)) →
    Triple (At o calm n k L) (bus e)
      (fun _ w => ∃ L', L.appendAll machine es = some L' ∧ At o calm n k L' w)
      (Fails o calm n (L.appendAll machine es = none))

theorem Retraced.ready {id : String} {s s' : Slot} {c : Change} {a a' : YourAggregate}
    {g : Aggregate} (h : Retraced a a') (hr : Ready env.mixin id s c a s' g) :
    Ready env.mixin id s c a' s' g := by
  obtain ⟨events, rfl, hev⟩ := h
  exact ⟨⟨hr.value, hr.status, hr.histories, hr.creator⟩, hr.key, hr.isArchive, hr.isDelete,
    hev.trans hr.events, hr.step, hr.last⟩

theorem appendAll_cons (L : Store) (id : String) (c : Change) (es : List (String × Change)) :
    L.appendAll machine ((id, c) :: es) =
      (L.append machine id c).bind (fun L' => L'.appendAll machine es) := rfl

theorem appendAll_refused {L : Store} {id : String} {c : Change} (es : List (String × Change))
    (h : Ledger.next (L.state id) c = none) : L.appendAll machine ((id, c) :: es) = none := by
  have hstep : machine.next (L.state id) c = none := h
  rw [appendAll_cons, EventLog.Store.append, hstep]
  rfl

theorem useCaseSave_spec {bus : Bus} {owner : Owner} {id : String} {c : Change}
    {es : List (String × Change)} (hbus : Reacts env bus id c es) (hn : 1 ≤ n) {a : YourAggregate}
    {s' : Slot} {g : Aggregate} (h : Ready env.mixin id (L.state id) c a s' g)
    (hid : ∃ m, m < k ∧ id = env.uuid4 .aggregate m) :
    Triple (At o calm n k L) (YourAggregateUseCase.save env bus owner a)
      (fun _ w => ∃ L', L.appendAll machine ((id, c) :: es) = some L' ∧ At o calm n k L' w)
      (Fails o calm n (L.appendAll machine ((id, c) :: es) = none)) := by
  refine (saveTracing_harmless owner a).triple.bind fun a₁ => ?_
  refine Triple.bind (R := fun a₂ w => ∃ L₁, L.append machine id c = some L₁ ∧
    At o calm n k L₁ w ∧ a₂.domainEvents.map DomainEvent.body = [bodyOf id c]) ?_ fun a₂ => ?_
  · refine Triple.intro fun w₁ h₁ => ?_
    exact ((saveYourAggregate_spec (h₁.2.ready h) hid).start h₁.1).raises
      fun _ w hw => ⟨hw.1, fun hc => (hw.2 hc).elim⟩
  · refine Triple.intro fun w₂ h₂ => ?_
    obtain ⟨L₁, happ, hat, hev⟩ := h₂
    obtain ⟨e, he, hbody⟩ := List.map_eq_singleton_iff.mp hev
    rw [publishAll, YourAggregate.allEvents, he]
    obtain ⟨s₁, hs₁, hstate, _⟩ := EventLog.Store.append_cases happ
    have hafter : ∃ s, Ledger.next s c = some (L₁.state id) := by
      rw [hstate, Function.update_self]
      exact ⟨_, hs₁⟩
    have hall : ∀ es, L.appendAll machine ((id, c) :: es) = L₁.appendAll machine es := by
      intro es
      rw [appendAll_cons, happ]
      rfl
    rw [hall]
    refine Triple.bind (R := fun _ w => ∃ L', L₁.appendAll machine es = some L' ∧
      At o calm n k L' w) ?_ fun _ => Triple.pure fun _ h => h
    exact (hbus o calm n k L₁ e hn hbody hafter).start hat

section UseCase
variable {bus : Bus} {owner : Owner} {id : String} {es : List (String × Change)}

/-- The part the three operations on a stored aggregate share: `op` on what was
    loaded is the change `c`, or raises because the ledger refuses `c`. -/
theorem operation_spec {c : Change} (hbus : Reacts env bus id c es) (hn : 1 ≤ n)
    (hc : ∀ s, Ledger.next s c ≠ none → ∃ g, s = .live g) {op : DateTime → YourAggregateM}
    (hop : ∀ now a g, Loaded env.mixin id a g →
      (∃ a' s' g', (op now).call a = .ok a' ∧ Ready env.mixin id (.live g) c a' s' g') ∨
      (∃ e, (op now).call a = .error e ∧ Ledger.next (.live g) c = none)) {clock : M DateTime}
    (hclock : Harmless clock fun _ => True) :
    Triple (At o calm n k L)
      (do let a ← YourAggregateRepository.loadYourAggregate env id true
          let now ← clock
          let a ← M.ofExcept ((op now).call a)
          YourAggregateUseCase.save env bus owner a)
      (fun _ w => ∃ L', L.appendAll machine ((id, c) :: es) = some L' ∧ At o calm n k L' w)
      (Fails o calm n (L.appendAll machine ((id, c) :: es) = none)) := by
  -- without a live slot the load raises, and the ledger refuses the change
  have hrefused : (∀ g, L.state id ≠ .live g) → L.appendAll machine ((id, c) :: es) = none := by
    intro h
    refine appendAll_refused es ?_
    by_contra hne
    obtain ⟨g, hg⟩ := hc _ hne
    exact h g hg
  refine ((loadYourAggregate_spec id true).raises fun _ w hw => ⟨hw.1, fun hcalm =>
    hrefused (hw.2 hcalm)⟩).bind fun a => Triple.intro fun w₁ h₁ => ?_
  obtain ⟨hat, g, hg, hloaded⟩ := h₁
  refine (hclock.triple.start hat).bind fun now => ?_
  rcases hop now a g hloaded with ⟨a', s', g', hcall, hready⟩ | ⟨e, hcall, hnone⟩
  · rw [hcall]
    have hid : ∃ m, m < k ∧ id = env.uuid4 .aggregate m := by
      obtain ⟨view, hs, _⟩ := hat
      exact hs.fresh id (by rw [hg]; simp)
    refine Triple.bind (R := fun b w => b = a' ∧ At o calm n k L w)
      (Triple.pure fun w hw => ⟨rfl, hw.1⟩) fun b => Triple.intro fun w₂ h₂ => ?_
    rw [h₂.1]
    exact (useCaseSave_spec hbus hn (hg ▸ hready) hid).start h₂.2
  · -- the operation raises because the ledger refuses its change
    rw [hcall]
    refine Triple.bind (R := fun _ _ => False) (Triple.throw fun w hw => ?_) fun _ _ hf => hf.elim
    obtain ⟨⟨view, hs, hi⟩, _⟩ := hw
    exact ⟨hs.lost hi, fun _ => appendAll_refused es (by rw [hg]; exact hnone)⟩

theorem next_needs_live {c : Change} (hc : ∀ v d, c ≠ .created v d) (s : Slot)
    (h : Ledger.next s c ≠ none) : ∃ g, s = .live g := by
  cases s with
  | live g => exact ⟨g, rfl⟩
  | absent =>
    cases c with
    | created v d => exact absurd rfl (hc v d)
    | _ => exact absurd rfl h
  | deleted g => cases c <;> exact absurd rfl h

theorem updateYourAggregate_spec {v : YourValueObject} {doer : User}
    (hbus : Reacts env bus id (.updated v doer) es) (hn : 1 ≤ n) :
    Triple (At o calm n k L) (YourAggregateUseCase.updateYourAggregate env bus owner id v doer)
      (fun _ w => ∃ L', L.appendAll machine ((id, .updated v doer) :: es) = some L' ∧
        At o calm n k L' w)
      (Fails o calm n (L.appendAll machine ((id, .updated v doer) :: es) = none)) := by
  refine operation_spec hbus hn (next_needs_live (by simp)) ?_ Harmless.datetimeNow
  intro now a g h
  exact (updateYourAggregate_ready h now v doer).imp_left fun ⟨a', hc, hr⟩ => ⟨a', _, _, hc, hr⟩

theorem voidYourAggregate_spec {doer : User} (hbus : Reacts env bus id (.voided doer) es)
    (hn : 1 ≤ n) :
    Triple (At o calm n k L) (YourAggregateUseCase.voidYourAggregate env bus owner id doer)
      (fun _ w => ∃ L', L.appendAll machine ((id, .voided doer) :: es) = some L' ∧
        At o calm n k L' w)
      (Fails o calm n (L.appendAll machine ((id, .voided doer) :: es) = none)) := by
  refine operation_spec hbus hn (next_needs_live (by simp)) ?_ Harmless.datetimeNow
  intro now a g h
  exact (voidYourAggregate_ready h now doer).imp_left fun ⟨a', hc, hr⟩ => ⟨a', _, _, hc, hr⟩

theorem deleteYourAggregate_spec {doer : User} (hbus : Reacts env bus id (.deleted doer) es)
    (hn : 1 ≤ n) :
    Triple (At o calm n k L) (YourAggregateUseCase.deleteYourAggregate env bus owner id doer)
      (fun _ w => ∃ L', L.appendAll machine ((id, .deleted doer) :: es) = some L' ∧
        At o calm n k L' w)
      (Fails o calm n (L.appendAll machine ((id, .deleted doer) :: es) = none)) := by
  have hclock : Harmless (pure 0 : M DateTime) fun _ => True := Harmless.pure trivial
  have hop : ∀ (_ : DateTime) (a : YourAggregate) (g : Aggregate), Loaded env.mixin id a g →
      (∃ a' s' g', (YourAggregate.deleteYourAggregate doer).call a = .ok a' ∧
        Ready env.mixin id (.live g) (.deleted doer) a' s' g') ∨
      (∃ e, (YourAggregate.deleteYourAggregate doer).call a = .error e ∧
        Ledger.next (.live g) (.deleted doer) = none) := ?_
  · exact operation_spec hbus hn (next_needs_live (by simp)) hop hclock
  intro _ a g h
  obtain ⟨a', hcall, hready⟩ := deleteYourAggregate_ready h doer
  exact Or.inl ⟨a', _, _, hcall, hready⟩

/-- Creating draws an id that no slot has, and makes its first change. -/
theorem createYourAggregate_spec {v : YourValueObject} {creator : User}
    (hbus : Reacts env bus (env.uuid4 .aggregate k) (.created v creator) es) (hn : 1 ≤ n) :
    Triple (At o calm n k L) (YourAggregateUseCase.createYourAggregate env bus owner v creator)
      (fun _ w => ∃ L', L.appendAll machine ((env.uuid4 .aggregate k, .created v creator) :: es) =
        some L' ∧ At o calm n (k + 1) L' w)
      (Fails o calm n (L.appendAll machine ((env.uuid4 .aggregate k, .created v creator) :: es) = none)) := by
  refine Triple.intro fun w₀ h₀ => ?_
  obtain ⟨view, hs, hi⟩ := h₀
  have hnew : L.state (env.uuid4 .aggregate k) = .absent := by
    by_contra hne
    obtain ⟨m, hm, heq⟩ := hs.fresh _ hne
    have := (env.uuid4_inj heq).2
    omega
  have hdraw : Triple (fun w => w = w₀) (uuid4 env .aggregate)
      (fun id w => id = env.uuid4 .aggregate k ∧ At o calm n (k + 1) L w)
      (Fails o calm n (L.appendAll machine
        ((env.uuid4 .aggregate k, .created v creator) :: es) = none)) := by
    intro w hw
    rw [hw]
    refine ⟨congrArg _ hi.drawn, view, ⟨hs.represents, hs.leads, hs.frozen, hs.fresh.mono (by omega),
      hs.origin.mono (by omega)⟩, hi.db, hi.count, ?_, hi.session, fun hc => ?_⟩
    · change Function.update w₀.drawn .aggregate (w₀.drawn .aggregate + 1) .aggregate = k + 1
      rw [Function.update_self, hi.drawn]
    · exact ⟨(hi.calm hc).faults, (hi.calm hc).messages⟩
  refine hdraw.bind fun id => Triple.intro fun w₁ h₁ => ?_
  rw [h₁.1]
  refine (Triple.start (Harmless.triple Harmless.datetimeNow) h₁.2).bind fun now => ?_
  obtain ⟨a, ha, hready⟩ := createYourAggregate_ready now
    (env.uuid4 .aggregate k) v creator
  rw [ha]
  refine Triple.bind (R := fun b w => b = a ∧ At o calm n (k + 1) L w)
    (Triple.pure fun w hw => ⟨rfl, hw.1⟩) fun b => Triple.intro fun w₂ h₂ => ?_
  rw [h₂.1]
  exact ((useCaseSave_spec hbus hn (hnew ▸ hready) ⟨k, by omega, rfl⟩).start h₂.2).bind
    fun _ => Triple.pure fun _ h => h

end UseCase

end

end DddService
