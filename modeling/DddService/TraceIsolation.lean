import DddService.Concurrent
import DddService.Tracing

/- Tracing under concurrency. The tracing of a request passes through the use case
   objects, which all requests share: `set_tracing` puts it there before the load,
   and the save takes it from there after it. A request is undisturbed if each of
   its saves finds its own tracing: no other `set_tracing` and no save touched the
   use case since the request's own, or what is there now is the same.

   `trace_isolation`: under any schedule, what an undisturbed request stores carries
   its own trace id, and what it stores from inside an event handler is a child of
   the event handled. `trace_mixed_up` is a schedule of two updates that disturb
   each other. -/
namespace DddService
open Hoare Coroutine

/-! ## The contract of a request -/

/-- The row carries the trace id `t`, and its parent is the event it was stored
    under, which is one of the same request's. -/
structure Isolated (t : String) (stored : List Stored) (x : Stored) : Prop where
  trace : x.row.traceId = t
  parent : ∀ e, x.handled = some e → ∃ p, e.tracer = some p ∧
    x.row.parentSpanId = some p.spanId ∧ ∃ y ∈ stored, y.row.spanId = p.spanId

/-- Every row the request stored carries its trace id. `given` is the trace id it
    came with, if it came with one. -/
def Request.Traces (given : Option String) (r : Request) : Prop :=
  ∀ x ∈ r.stored, ∃ t, r.trace = some t ∧ (given.getD "" ≠ "" → t = given.getD "") ∧
    Isolated t r.stored x

def Request.Clean (given : Option String) (r : Request) : Prop :=
  r.undisturbed = true → r.Traces given

/-- What others may do while request `me` is suspended: they leave a use case alone
    as long as its window is `me`'s. -/
structure Rely (me : Nat) (s s' : Site) : Prop where
  trace : s'.2.trace = s.2.trace
  handling : s'.2.handling = s.2.handling
  stored : s'.2.stored = s.2.stored
  undisturbed : s'.2.undisturbed = s.2.undisturbed
  window : ∀ o, s'.1.window o = some me →
    s.1.window o = some me ∧ s'.1.world.useCase o = s.1.world.useCase o

/-- What request `me` does to the windows of others. -/
def Guarantee (me : Nat) (s s' : Site) : Prop :=
  ∀ o j, j ≠ me → s'.1.window o = some j →
    s.1.window o = some j ∧ s'.1.world.useCase o = s.1.world.useCase o

theorem Guarantee.trans {me : Nat} {s s' s'' : Site} (h : Guarantee me s s')
    (h' : Guarantee me s' s'') : Guarantee me s s'' := by
  intro o j hj hw
  obtain ⟨hw', hu'⟩ := h' o j hj hw
  obtain ⟨hw'', hu''⟩ := h o j hj hw'
  exact ⟨hw'', hu'.trans hu''⟩

def isolation (given : Option String) (me : Nat) : Contract Site where
  rely := Rely me
  guar := Guarantee me
  inv s := s.2.Clean given
  guar_refl _ _ _ _ hw := ⟨hw, rfl⟩
  guar_trans := Guarantee.trans

/-! ## What an undisturbed request knows -/

/-- The event has a stored row, and the trace id `t`. -/
def Known (t : String) (stored : List Stored) (e : DomainEvent) : Prop :=
  ∃ p, e.tracer = some p ∧ p.traceId = t ∧ ∃ y ∈ stored, y.row.spanId = p.spanId

theorem Known.more {t : String} {stored : List Stored} {e : DomainEvent} (h : Known t stored e)
    (x : Stored) : Known t (stored ++ [x]) e := by
  obtain ⟨p, hp, ht, y, hy, hs⟩ := h
  exact ⟨p, hp, ht, y, List.mem_append_left _ hy, hs⟩

theorem Isolated.more {t : String} {stored : List Stored} {y : Stored} (h : Isolated t stored y)
    (x : Stored) : Isolated t (stored ++ [x]) y := by
  refine ⟨h.trace, fun e he => ?_⟩
  obtain ⟨p, hp, hs, z, hz, hzs⟩ := h.parent e he
  exact ⟨p, hp, hs, z, List.mem_append_left _ hz, hzs⟩

/-- While handling `h`: `K` are events the request has stored, and `F` is what else
    is known. -/
structure Facts (t : String) (me : Nat) (h : Option DomainEvent) (K : List DomainEvent) (F : Prop)
    (s : Site) : Prop where
  controller : s.1.window .controller = some me → s.1.world.useCase .controller = ⟨none, some t⟩
  handler : ∀ e, h = some e → s.1.window .eventHandler = some me →
    s.1.world.useCase .eventHandler = ⟨some e, none⟩
  handled : ∀ e, h = some e → Known t s.2.stored e
  known : ∀ e ∈ K, Known t s.2.stored e
  stored : ∀ x ∈ s.2.stored, Isolated t s.2.stored x
  fact : F

structure Good (t : String) (me : Nat) (h : Option DomainEvent) (K : List DomainEvent) (F : Prop)
    (s : Site) : Prop where
  trace : s.2.trace = some t
  handling : s.2.handling = h
  facts : s.2.undisturbed = true → Facts t me h K F s

theorem Good.pending {t : String} {me : Nat} {h : Option DomainEvent} {K : List DomainEvent}
    {F : Prop} {s : Site} (hs : Good t me h K F s) : s.2.pending = pendingOf t h := by
  unfold Request.pending
  rw [hs.handling, hs.trace]
  cases h <;> rfl

section
variable {env : Env} {given : Option String} {me : Nat} {t : String} {h : Option DomainEvent}
  {K K' : List DomainEvent} {F F' : Prop} {s s' : Site} {α : Type}

theorem Good.weaken (hs : Good t me h K F s) (hK : ∀ e ∈ K', e ∈ K) (hF : F → F') :
    Good t me h K' F' s := by
  refine ⟨hs.trace, hs.handling, fun hu => ?_⟩
  have hf := hs.facts hu
  exact ⟨hf.controller, hf.handler, hf.handled, fun e he => hf.known e (hK e he), hf.stored,
    hF hf.fact⟩

theorem Good.clean (hgiven : given.getD "" ≠ "" → t = given.getD "") (hs : Good t me h K F s) :
    s.2.Clean given :=
  fun hu x hx => ⟨t, hs.trace, hgiven, (hs.facts hu).stored x hx⟩

theorem Good.rely (hs : Good t me h K F s) (hr : Rely me s s') : Good t me h K F s' := by
  refine ⟨hr.trace.trans hs.trace, hr.handling.trans hs.handling, fun hu => ?_⟩
  rw [hr.undisturbed] at hu
  obtain ⟨hc, hh, hd, hk, hst, hf⟩ := hs.facts hu
  refine ⟨?_, ?_, ?_, ?_, ?_, hf⟩
  · intro hw
    obtain ⟨hw', hu'⟩ := hr.window _ hw
    exact hu'.trans (hc hw')
  · intro e he hw
    obtain ⟨hw', hu'⟩ := hr.window _ hw
    exact hu'.trans (hh e he hw')
  · rw [hr.stored]; exact hd
  · rw [hr.stored]; exact hk
  · rw [hr.stored]; exact hst

theorem Good.setWorld (hs : Good t me h K F s) {w : World}
    (hw : w.useCase = s.1.world.useCase) : Good t me h K F (s.setWorld w) := by
  refine ⟨hs.trace, hs.handling, fun hu => ?_⟩
  obtain ⟨hc, hh, hd, hk, hst, hf⟩ := hs.facts hu
  refine ⟨fun hwin => ?_, fun e he hwin => ?_, hd, hk, hst, hf⟩
  · show w.useCase .controller = _
    rw [hw]
    exact hc hwin
  · show w.useCase .eventHandler = _
    rw [hw]
    exact hh e he hwin

theorem Guarantee.setWorld {w : World} (hw : w.useCase = s.1.world.useCase) :
    Guarantee me s (s.setWorld w) :=
  fun o _ _ hwin => ⟨hwin, congrFun hw o⟩

/-! ## Code that leaves the tracing alone -/

/-- It keeps what is known, and may add to it what its result says. -/
theorem meets_onWorld {x : M α} (hx : LeavesTracing x) {G : α → Prop}
    (hval : ∀ w a w', x w = .ok a w' → F → G a) :
    Meets (isolation given me) (Good t me h K F) (onWorld x) (fun a => Good t me h K (G a))
      (fun _ => Good t me h K F) := by
  apply Meets.lift
  intro s hs
  have hw := hx s.world
  cases hr : x s.world with
  | ok a w =>
    rw [hr] at hw
    exact ⟨Guarantee.setWorld hw, (hs.setWorld hw).weaken (fun _ he => he) (hval _ a w hr)⟩
  | error e w =>
    rw [hr] at hw
    exact ⟨Guarantee.setWorld hw, hs.setWorld hw⟩

/-- `x` keeps what is known. -/
def Keeps (given : Option String) (t : String) (me : Nat) (h : Option DomainEvent) (x : Task α) :
    Prop :=
  ∀ K F, Meets (isolation given me) (Good t me h K F) x (fun _ => Good t me h K F)
    (fun _ => Good t me h K F)

theorem keeps_onWorld {x : M α} (hx : LeavesTracing x) : Keeps given t me h (onWorld x) :=
  fun _ _ => meets_onWorld hx fun _ _ _ _ hF => hF

theorem keeps_awaiting (hgiven : given.getD "" ≠ "" → t = given.getD "") {x : M α}
    (hx : LeavesTracing x) : Keeps given t me h (awaiting x) := by
  intro K F
  have hsuspend : Meets (isolation given me) (Good t me h K F) (Coro.suspend : Task Unit)
      (fun _ => Good t me h K F) (fun _ => Good t me h K F) :=
    Meets.suspend (fun _ hs => hs.clean hgiven) fun _ _ hs hr => hs.rely hr
  exact hsuspend.bind fun _ => keeps_onWorld hx K F

/-! ## Storing events -/

/-- The row of a traced event is stored. -/
theorem meets_noteStored {row : DomainEventModel} {e : DomainEvent}
    (hF : F → Traced t (h.bind (·.tracer)) e ∧ ∀ p, e.tracer = some p →
      row.traceId = p.traceId ∧ row.spanId = p.spanId ∧ row.parentSpanId = p.parentSpanId) :
    Meets (isolation given me) (Good t me h K F) (record (Site.noteStored row))
      (fun _ => Good t me h (K ++ [e]) F) (fun _ => Good t me h K F) := by
  apply Meets.update
  intro s hs
  refine ⟨fun o _ _ hw => ⟨hw, rfl⟩, hs.trace, hs.handling, fun hu => ?_⟩
  obtain ⟨hc, hh, hd, hk, hst, hf⟩ := hs.facts hu
  obtain ⟨⟨p, hp, hpt, hparent⟩, hrow⟩ := hF hf
  obtain ⟨hrt, hrs, hrp⟩ := hrow p hp
  have hnew : Stored.mk row s.2.handling ∈ s.2.stored ++ [Stored.mk row s.2.handling] :=
    List.mem_append_right _ (List.mem_singleton.mpr rfl)
  refine ⟨hc, hh, fun e' he' => (hd e' he').more _, ?_, ?_, hf⟩
  · intro e' he'
    rcases List.mem_append.mp he' with he' | he'
    · exact (hk e' he').more _
    · rw [List.mem_singleton.mp he']
      exact ⟨p, hp, hpt, _, hnew, hrs⟩
  · intro x hx
    rcases List.mem_append.mp hx with hx | hx
    · exact (hst x hx).more _
    · rw [List.mem_singleton.mp hx]
      refine ⟨hrt.trans hpt, fun e' he' => ?_⟩
      have he : h = some e' := hs.handling.symm.trans he'
      obtain ⟨q, hq, _, y, hy, hys⟩ := hd e' he
      have hbind : h.bind (·.tracer) = some q := by
        rw [he]
        exact hq
      exact ⟨q, hq, hrp.trans (hparent q hbind), y, List.mem_append_left _ hy, hys⟩

theorem meets_addEvents : ∀ (events : List DomainEvent) (K : List DomainEvent) (F : Prop),
    (F → ∀ e ∈ events, Traced t (h.bind (·.tracer)) e) →
    Meets (isolation given me) (Good t me h K F)
      (Concurrent.YourAggregateRepository.addEvents env events)
      (fun r => Good t me h (K ++ r) F) (fun _ => Good t me h K F)
  | [], K, F, _ => Meets.pure fun s hs => by rw [List.append_nil]; exact hs
  | e :: events, K, F, hF => by
    -- what the row says of the tracer is needed until the row is noted, and dropped then
    let G : DomainEvent × DomainEventModel → Prop := fun r => F ∧ r.1 = e ∧
      ∀ p, e.tracer = some p → r.2.traceId = p.traceId ∧ r.2.spanId = p.spanId ∧
        r.2.parentSpanId = p.parentSpanId
    have hser : Meets (isolation given me) (Good t me h K F) (onWorld (e.serialize env))
        (fun r => Good t me h K (G r)) (fun _ => Good t me h K F) := by
      apply meets_onWorld (LeavesTracing.serialize env e)
      intro w r w' hr hf
      obtain ⟨p, hp, _⟩ := hF hf e List.mem_cons_self
      obtain ⟨row, hrow, h1, h2, h3⟩ := serialize_run env hp w
      rw [hrow] at hr
      cases hr
      refine ⟨hf, rfl, fun p' hp' => ?_⟩
      rw [← Option.some.inj (hp.symm.trans hp')]
      exact ⟨h1, h2, h3⟩
    apply hser.bind
    intro r
    have hweak : ∀ s, Good t me h K (G r) s → Good t me h K F s := fun s hs =>
      hs.weaken (fun _ he => he) fun hg => hg.1
    have henq : Meets (isolation given me) (Good t me h K (G r))
        (onWorld (AsyncSession.enqueue (.addEvent r.2))) (fun _ => Good t me h K (G r))
        (fun _ => Good t me h K F) :=
      (keeps_onWorld (LeavesTracing.enqueue _) K (G r)).conseq (fun _ hs => hs) (fun _ _ hs => hs)
        fun _ => hweak
    apply henq.bind
    intro _
    have hnote : Meets (isolation given me) (Good t me h K (G r))
        (record (Site.noteStored r.2)) (fun _ => Good t me h (K ++ [r.1]) (G r))
        (fun _ => Good t me h K F) := by
      refine (meets_noteStored fun hg => ?_).conseq (fun _ hs => hs) (fun _ _ hs => hs) fun _ => hweak
      rw [hg.2.1]
      exact ⟨hF hg.1 e List.mem_cons_self, hg.2.2⟩
    apply hnote.bind
    intro _
    have hrest := meets_addEvents events (K ++ [r.1]) (G r)
      fun hg e' he' => hF hg.1 e' (List.mem_cons_of_mem e he')
    refine (hrest.conseq (fun _ hs => hs) (fun _ _ hs => hs) fun _ s hs => ?_).bind fun es =>
      Meets.pure fun s hs => ?_
    · exact hs.weaken (fun e' he' => List.mem_append_left _ he') fun hg => hg.1
    · rw [List.append_assoc] at hs
      exact hs.weaken (fun _ he => he) fun hg => hg.1

theorem meets_saveYourAggregate (hgiven : given.getD "" ≠ "" → t = given.getD "")
    {a : YourAggregate} (hF : F → ∀ e ∈ a.domainEvents, Traced t (h.bind (·.tracer)) e) :
    Meets (isolation given me) (Good t me h K F)
      (Concurrent.YourAggregateRepository.saveYourAggregate env a)
      (fun a' => Good t me h (K ++ a'.domainEvents) F) (fun _ => Good t me h K F) := by
  apply (keeps_awaiting hgiven (LeavesTracing.sessionGet a.id) K F).bind
  intro found
  apply (keeps_onWorld (LeavesTracing.persist a _ _) K F).bind
  intro _
  let G : YourAggregate → Prop := fun a₁ => F ∧ a₁.domainEvents = a.domainEvents
  have harch : Meets (isolation given me) (Good t me h K F)
      (onWorld (YourAggregateRepository.archiveIfRaised env a
        (YourAggregateRepository.modelOf env a found)))
      (fun a₁ => Good t me h K (G a₁)) (fun _ => Good t me h K F) := by
    apply meets_onWorld (LeavesTracing.archiveIfRaised env a _)
    intro w a₁ w' hr hf
    refine ⟨hf, archiveIfRaised_events env (fun e he => ?_) hr⟩
    obtain ⟨p, hp, _⟩ := hF hf e he
    exact ⟨p, hp⟩
  apply harch.bind
  intro a₁
  have hevents : Meets (isolation given me) (Good t me h K (G a₁))
      (Concurrent.YourAggregateRepository.addEvents env a₁.allEvents)
      (fun r => Good t me h (K ++ r) (G a₁)) (fun _ => Good t me h K (G a₁)) :=
    meets_addEvents a₁.allEvents K (G a₁) fun hg e he => hF hg.1 e (hg.2 ▸ he)
  refine (hevents.conseq (fun _ hs => hs) (fun _ _ hs => hs) fun _ s hs =>
    hs.weaken (fun _ he => he) fun hg => hg.1).bind fun es => ?_
  refine ((keeps_awaiting hgiven LeavesTracing.flush (K ++ es) (G a₁)).conseq (fun _ hs => hs)
    (fun _ _ hs => hs) fun _ s hs => ?_).bind fun _ => Meets.pure fun s hs => ?_
  · exact hs.weaken (fun e he => List.mem_append_left _ he) fun hg => hg.1
  · exact hs.weaken (fun _ he => he) fun hg => hg.1

/-- Whose use case saves while `h` is handled. -/
def ownerOf : Option DomainEvent → Owner
  | none => .controller
  | some _ => .eventHandler

/-- The save takes what its own `set_tracing` has left, or the request is disturbed. -/
theorem meets_takeTracing (ht : t ≠ "") (a : YourAggregate) :
    Meets (isolation given me) (Good t me h K F)
      (record (Site.takeTracing me (ownerOf h)) >>= fun _ =>
        onWorld (UseCaseBase.saveTracing env (ownerOf h) a))
      (fun a' => Good t me h K (F ∧ ∀ e ∈ a'.domainEvents, Traced t (h.bind (·.tracer)) e))
      (fun _ => Good t me h K F) := by
  intro s hs
  -- what is left to show, once it is clear that the rest of the state is as it was
  let s₁ := Site.takeTracing me (ownerOf h) s
  have hwin : ∀ o, o ≠ ownerOf h → s₁.1.window o = s.1.window o := by
    intro o ho
    show Function.update s.1.window (ownerOf h) none o = _
    exact Function.update_of_ne ho none s.1.window
  have hself : s₁.1.window (ownerOf h) = none := Function.update_self _ _ _
  have hu₁ : s₁.2.undisturbed = true → s.2.undisturbed = true ∧
      s.1.world.useCase (ownerOf h) = pendingOf t h := by
    intro hu
    have hboth : s.2.undisturbed = true ∧ (s.1.window (ownerOf h) = some me ∨
        s.1.world.useCase (ownerOf h) = s.2.pending) := by
      simpa [s₁, Site.takeTracing] using hu
    refine ⟨hboth.1, ?_⟩
    have hf := hs.facts hboth.1
    rcases hboth.2 with hmine | hsame
    · -- nobody else may have touched it
      cases h with
      | none => exact hf.controller hmine
      | some e => exact hf.handler e rfl hmine
    · rw [hsame, hs.pending]
  have hframe : ∀ o, o ≠ ownerOf h →
      (stateOf (UseCaseBase.saveTracing env (ownerOf h) a s₁.world)).useCase o =
        s.1.world.useCase o := fun o ho => saveTracing_frames env ho a s₁.world
  have hend : ∀ w, (∀ o, o ≠ ownerOf h → w.useCase o = s.1.world.useCase o) →
      Guarantee me s (s₁.setWorld w) ∧ ∀ G : Prop, (s₁.2.undisturbed = true → F → G) →
        Good t me h K G (s₁.setWorld w) := by
    intro w hw
    refine ⟨fun o j _ hwin' => ?_, fun G hG => ⟨hs.trace, hs.handling, fun hu => ?_⟩⟩
    · by_cases ho : o = ownerOf h
      · have hnone : s₁.1.window o = some j := hwin'
        rw [ho, hself] at hnone
        cases hnone
      · exact ⟨(hwin o ho).symm.trans hwin', hw o ho⟩
    · obtain ⟨hc, hh, hd, hk, hst, hf⟩ := hs.facts (hu₁ hu).1
      refine ⟨fun hwin' => ?_, fun e he hwin' => ?_, hd, hk, hst, hG hu hf⟩
      · by_cases ho : Owner.controller = ownerOf h
        · have hnone : s₁.1.window .controller = some me := hwin'
          rw [ho, hself] at hnone
          cases hnone
        · exact (hw _ ho).trans (hc ((hwin _ ho).symm.trans hwin'))
      · have ho : ownerOf h = .eventHandler := by rw [he]; rfl
        have hnone : s₁.1.window .eventHandler = some me := hwin'
        rw [← ho, hself] at hnone
        cases hnone
  show (onWorld (UseCaseBase.saveTracing env (ownerOf h) a) s₁).Meets _ _ _ s
  unfold onWorld Coro.lift
  cases hr : UseCaseBase.saveTracing env (ownerOf h) a s₁.world with
  | error e w =>
    rw [hr] at hframe
    obtain ⟨hg, hgood⟩ := hend w hframe
    exact ⟨hg, hgood F fun _ hf => hf⟩
  | ok a' w =>
    rw [hr] at hframe
    obtain ⟨hg, hgood⟩ := hend w hframe
    refine ⟨hg, hgood _ fun hu hf => ⟨hf, ?_⟩⟩
    obtain ⟨hu', hpend⟩ := hu₁ hu
    have hh : ∀ e, h = some e → ∃ p, e.tracer = some p ∧ p.traceId = t := by
      intro e he
      obtain ⟨p, hp, hpt, _⟩ := (hs.facts hu').handled e he
      exact ⟨p, hp, hpt⟩
    obtain ⟨a'', w', hrun, htraced⟩ := saveTracing_traced env ht hh (w := s₁.world) hpend a
    rw [hrun] at hr
    cases hr
    exact htraced

/-! ## Use cases and handlers -/

/-- A bus that keeps what is known, whatever stored event is published to it. -/
def BusKeeps (given : Option String) (t : String) (me : Nat) (bus : Concurrent.Bus) : Prop :=
  ∀ h K F e, e ∈ K → Meets (isolation given me) (Good t me h K F) (bus e)
    (fun _ => Good t me h K F) (fun _ => Good t me h K F)

section UseCase
variable {bus : Concurrent.Bus} (ht : t ≠ "") (hgiven : given.getD "" ≠ "" → t = given.getD "")
  (hbus : BusKeeps given t me bus)
include ht hgiven hbus

theorem keeps_useCaseSave (a : YourAggregate) : Keeps given t me h
    (Concurrent.YourAggregateUseCase.save env me bus (ownerOf h) a) := by
  intro K F
  show Meets _ _ (record _ >>= fun _ => onWorld _ >>= _) _ _
  rw [← bind_assoc]
  apply (meets_takeTracing ht a).bind
  intro a
  let G : Prop := F ∧ ∀ e ∈ a.domainEvents, Traced t (h.bind (·.tracer)) e
  have hweak : ∀ K' s, (∀ e ∈ K, e ∈ K') → Good t me h K' G s → Good t me h K F s := fun K' s hK hs =>
    hs.weaken hK fun hg => hg.1
  have hsave : Meets (isolation given me) (Good t me h K G)
      (Concurrent.YourAggregateRepository.saveYourAggregate env a)
      (fun a' => Good t me h (K ++ a'.domainEvents) G) (fun _ => Good t me h K G) :=
    meets_saveYourAggregate hgiven fun hg => hg.2
  refine (hsave.conseq (fun _ hs => hs) (fun _ _ hs => hs) fun _ s hs =>
    hweak K s (fun _ he => he) hs).bind fun a' => ?_
  have hsub : ∀ e ∈ K, e ∈ K ++ a'.domainEvents := fun e he => List.mem_append_left _ he
  refine (Meets.forM a'.allEvents fun e he => ?_).conseq (fun _ hs => hs)
    (fun _ s hs => hweak _ s hsub hs) fun _ s hs => hweak _ s hsub hs
  exact hbus h _ G e (List.mem_append_right _ he)

theorem keeps_createYourAggregate (v : YourValueObject) (creator : User) : Keeps given t me h
    (Concurrent.YourAggregateUseCase.createYourAggregate env me bus (ownerOf h) v creator) := by
  intro K F
  apply (keeps_onWorld (LeavesTracing.uuid4 env .aggregate) K F).bind
  intro id
  apply (keeps_onWorld LeavesTracing.datetimeNow K F).bind
  intro now
  apply (keeps_onWorld (LeavesTracing.ofExcept _) K F).bind
  intro a
  exact (keeps_useCaseSave ht hgiven hbus a K F).bind fun _ => Meets.pure fun _ hs => hs

theorem keeps_deleteYourAggregate (id : String) (doer : User) : Keeps given t me h
    (Concurrent.YourAggregateUseCase.deleteYourAggregate env me bus (ownerOf h) id doer) := by
  intro K F
  apply (keeps_awaiting hgiven (LeavesTracing.loadYourAggregate env id true) K F).bind
  intro a
  apply (keeps_onWorld (LeavesTracing.ofExcept _) K F).bind
  intro a
  exact keeps_useCaseSave ht hgiven hbus a K F

theorem keeps_voidYourAggregate (id : String) (doer : User) : Keeps given t me h
    (Concurrent.YourAggregateUseCase.voidYourAggregate env me bus (ownerOf h) id doer) := by
  intro K F
  apply (keeps_awaiting hgiven (LeavesTracing.loadYourAggregate env id true) K F).bind
  intro a
  apply (keeps_onWorld LeavesTracing.datetimeNow K F).bind
  intro now
  apply (keeps_onWorld (LeavesTracing.ofExcept _) K F).bind
  intro a
  exact keeps_useCaseSave ht hgiven hbus a K F

theorem keeps_updateYourAggregate (id : String) (v : YourValueObject) (doer : User) :
    Keeps given t me h
      (Concurrent.YourAggregateUseCase.updateYourAggregate env me bus (ownerOf h) id v doer) := by
  intro K F
  apply (keeps_awaiting hgiven (LeavesTracing.loadYourAggregate env id true) K F).bind
  intro a
  apply (keeps_onWorld LeavesTracing.datetimeNow K F).bind
  intro now
  apply (keeps_onWorld (LeavesTracing.ofExcept _) K F).bind
  intro a
  exact keeps_useCaseSave ht hgiven hbus a K F

end UseCase

/-! ## Handlers -/

/-- The event that is handled is one of those known. -/
theorem Good.remember (hs : Good t me h K F s) : Good t me h (h.toList ++ K) F s := by
  refine ⟨hs.trace, hs.handling, fun hu => ?_⟩
  obtain ⟨hc, hh, hd, hk, hst, hf⟩ := hs.facts hu
  refine ⟨hc, hh, hd, fun e he => ?_, hst, hf⟩
  rcases List.mem_append.mp he with he | he
  · exact hd e (Option.mem_toList.mp he)
  · exact hk e he

theorem meets_setTracing {e : DomainEvent} (he : e ∈ K) {E : Exc → Site → Prop} :
    Meets (isolation given me) (Good t me h K F) (Concurrent.EventHandlerHelper.setTracing me e)
      (fun _ => Good t me (some e) K F) E := by
  intro s hs
  let s₁ := Site.handle me e s
  let w := s₁.world.setUseCase .eventHandler ((s₁.world.useCase .eventHandler).setParentEvent e)
  have hwin : s₁.1.window .eventHandler = some me := by
    show Function.update s.1.window .eventHandler (some me) .eventHandler = _
    exact Function.update_self _ _ _
  have hother : ∀ o, o ≠ .eventHandler → s₁.1.window o = s.1.window o ∧
      w.useCase o = s.1.world.useCase o := by
    intro o ho
    constructor
    · show Function.update s.1.window .eventHandler (some me) o = _
      exact Function.update_of_ne ho _ _
    · show Function.update s.1.world.useCase .eventHandler _ o = _
      exact Function.update_of_ne ho _ _
  refine ⟨fun o j hj hw => ?_, hs.trace, rfl, fun hu => ?_⟩
  · by_cases ho : o = .eventHandler
    · have hme : s₁.1.window o = some j := hw
      rw [ho, hwin] at hme
      exact absurd (Option.some.inj hme).symm hj
    · exact ⟨(hother o ho).1.symm.trans hw, (hother o ho).2⟩
  · obtain ⟨hc, hh, hd, hk, hst, hf⟩ := hs.facts hu
    have hne : Owner.controller ≠ .eventHandler := by decide
    refine ⟨fun hw => ?_, fun e' he' _ => ?_, fun e' he' => ?_, hk, hst, hf⟩
    · exact (hother _ hne).2.trans (hc ((hother _ hne).1.symm.trans hw))
    · show Function.update s.1.world.useCase .eventHandler ⟨some e, none⟩ .eventHandler = _
      rw [← Option.some.inj he']
      exact Function.update_self _ _ _
    · rw [← Option.some.inj he']
      exact hk e he

/-- Back in the outer handling, with the window closed. -/
theorem meets_leave (hh : ∀ e, h = some e → e ∈ K) {E : Exc → Site → Prop} :
    Meets (isolation given me) (fun s => ∃ h', Good t me h' K F s) (record (Site.leave me h))
      (fun _ => Good t me h K F) E := by
  apply Meets.exists_elim
  intro h'
  apply Meets.update
  intro s hs
  have hwin : ∀ o j, (Site.leave me h s).1.window o = some j → s.1.window o = some j ∧
      ¬(o = .eventHandler ∧ j = me) := by
    intro o j hw
    unfold Site.leave at hw
    dsimp only at hw
    split at hw
    · by_cases ho : o = .eventHandler
      · rw [ho, Function.update_self] at hw
        cases hw
      · rw [Function.update_of_ne ho] at hw
        exact ⟨hw, fun hc => ho hc.1⟩
    · rename_i hne
      refine ⟨hw, fun hc => hne ?_⟩
      rw [← hc.1, hw, hc.2]
  refine ⟨fun o j _ hw => ⟨(hwin o j hw).1, rfl⟩, hs.trace, rfl, fun hu => ?_⟩
  obtain ⟨hc, _, _, hk, hst, hf⟩ := hs.facts hu
  refine ⟨fun hw => hc (hwin _ _ hw).1, fun e he hw => ?_, fun e he => hk e (hh e he), hk, hst, hf⟩
  exact absurd ⟨rfl, rfl⟩ (hwin _ _ hw).2

/-- A handler in its scope keeps what is known, if its function does. -/
theorem keeps_handler (hgiven : given.getD "" ≠ "" → t = given.getD "")
    {func : DomainEvent → Task Unit} {e : DomainEvent} (hfunc : Keeps given t me (some e) (func e))
    (he : e ∈ K) : Meets (isolation given me) (Good t me h K F)
      (Concurrent.EventHandlerHelper.connectDbSession me func e) (fun _ => Good t me h K F)
      (fun _ => Good t me h K F) := by
  -- what is handled outside is remembered: the scope comes back to it
  let K₁ := h.toList ++ K
  let raised : Exc → Site → Prop := fun _ s => ∃ h', Good t me h' K₁ F s
  have hweak : ∀ s, Good t me h K₁ F s → Good t me h K F s := fun s hs =>
    hs.weaken (fun _ he => List.mem_append_right _ he) fun hf => hf
  -- the tracing comes from `e`; an `Exception` is rolled back and raised again
  have hguarded : Meets (isolation given me) (Good t me h K₁ F)
      (Concurrent.EventHandlerHelper.guarded me func e) (fun _ => Good t me (some e) K₁ F) raised := by
    have hin : ∀ {x : Task Unit}, Keeps given t me (some e) x → Meets (isolation given me)
        (Good t me (some e) K₁ F) x (fun _ => Good t me (some e) K₁ F) raised := fun hx =>
      (hx K₁ F).conseq (fun _ hs => hs) (fun _ _ hs => hs) fun _ _ hs => ⟨_, hs⟩
    apply Meets.tryCatch (E := raised)
    · apply (meets_setTracing (List.mem_append_right _ he)).bind
      intro _
      apply (hin hfunc).bind
      intro _
      exact hin (keeps_awaiting hgiven LeavesTracing.flush)
    · intro exc
      apply Meets.ite
      · intro _
        have hroll : Meets (isolation given me) (fun s => ∃ h', Good t me h' K₁ F s)
            (awaiting AsyncSession.rollback) (fun _ s => ∃ h', Good t me h' K₁ F s) raised := by
          apply Meets.exists_elim
          intro h'
          exact (keeps_awaiting hgiven LeavesTracing.rollback K₁ F).conseq (fun _ hs => hs)
            (fun _ _ hs => ⟨h', hs⟩) fun _ _ hs => ⟨h', hs⟩
        exact hroll.bind fun _ => Meets.throw fun _ hs => hs
      · exact fun _ => Meets.throw fun _ hs => hs
  have hexit : Meets (isolation given me) (fun s => ∃ h', Good t me h' K₁ F s)
      (do record (Site.leave me h); awaiting SessionProvider.aexit)
      (fun _ => Good t me h K F) (fun _ => Good t me h K F) := by
    have hmem : ∀ e', h = some e' → e' ∈ K₁ := by
      intro e' he'
      refine List.mem_append_left _ ?_
      rw [he']
      exact List.mem_singleton.mpr rfl
    apply (meets_leave hmem).bind
    intro _
    exact (keeps_awaiting hgiven LeavesTracing.aexit K₁ F).conseq (fun _ hs => hs)
      (fun _ s hs => hweak s hs) fun _ s hs => hweak s hs
  have hscope : Meets (isolation given me) (Good t me h K F)
      (Coro.scope (onWorld SessionProvider.aenter)
        (do record (Site.leave me h); awaiting SessionProvider.aexit)
        (Concurrent.EventHandlerHelper.guarded me func e))
      (fun _ => Good t me h K F) (fun _ => Good t me h K F) := by
    apply Meets.scope (Good t me h K₁ F) (fun _ s => ∃ h', Good t me h' K₁ F s) raised
    · exact (keeps_onWorld LeavesTracing.aenter K₁ F).conseq (fun _ hs => hs.remember)
        (fun _ _ hs => hs) fun _ s hs => hweak s hs
    · exact hguarded.conseq (fun _ hs => hs) (fun _ _ hs => ⟨_, hs⟩) fun _ _ hs => hs
    · exact fun _ => hexit
    · exact fun _ => hexit
  have hread : Meets (isolation given me) (Good t me h K F)
      (Coro.read fun s => s.2.handling : Task (Option DomainEvent))
      (fun outer s => outer = h ∧ Good t me h K F s) (fun _ => Good t me h K F) :=
    Meets.read fun _ hs => ⟨hs.handling, hs⟩
  apply hread.bind
  intro outer s hs
  rw [hs.1]
  exact hscope s hs.2

theorem publish_keeps (ht : t ≠ "") (hgiven : given.getD "" ≠ "" → t = given.getD "") :
    ∀ depth, BusKeeps given t me (Concurrent.publish env me depth)
  | 0 => fun _ _ _ _ _ => Meets.throw fun _ hs => hs
  | depth + 1 => by
    intro h K F e he
    apply Meets.forM
    intro func hfunc
    refine keeps_handler hgiven ?_ he
    unfold Concurrent.YourAggregateEventHandler.handlers at hfunc
    cases hb : e.body with
    | yourAggregateCreated id v d =>
      rw [hb] at hfunc
      rw [List.mem_singleton.mp hfunc]
      exact keeps_updateYourAggregate (h := some e) ht hgiven (publish_keeps ht hgiven depth) _ _ _
    | yourAggregateVoided id d =>
      rw [hb] at hfunc
      rw [List.mem_singleton.mp hfunc]
      exact keeps_awaiting hgiven (LeavesTracing.handleYourAggregateVoided env id)
    | yourAggregateDeleted id d => rw [hb] at hfunc; cases hfunc
    | yourAggregateUpdated id v d => rw [hb] at hfunc; cases hfunc

/-! ## The controller -/

/-- A request that has stored nothing yet. -/
def Start (s : Site) : Prop := s.2.handling = none ∧ s.2.stored = []

theorem Start.clean {given : Option String} {s : Site} (hs : Start s) : s.2.Clean given := by
  intro _ x hx
  rw [hs.2] at hx
  cases hx

/-- A request with the trace id `t`, which is its own. -/
structure Served (given : Option String) (me : Nat) (t : String) (s : Site) : Prop where
  ne : t ≠ ""
  given : given.getD "" ≠ "" → t = given.getD ""
  good : Good t me none [] True s

theorem start_onWorld {x : M α} (hx : LeavesTracing x) : Meets (isolation given me) Start (onWorld x)
    (fun _ => Start) (fun _ => Start) := by
  apply Meets.lift
  intro s hs
  have hw := hx s.world
  cases hr : x s.world with
  | ok a w => rw [hr] at hw; exact ⟨Guarantee.setWorld hw, hs⟩
  | error e w => rw [hr] at hw; exact ⟨Guarantee.setWorld hw, hs⟩

theorem start_setTracing {E : Exc → Site → Prop} : Meets (isolation given me) Start
    (Concurrent.ControllerBase.setTracing env me given)
    (fun _ s => ∃ t, Served given me t s) E := by
  intro s hs
  let s₁ := Site.openWindow me .controller s
  obtain ⟨t, w, hrun, huse, ht, hgiven⟩ := setTracing_run env given s₁.world
  have hall : Concurrent.ControllerBase.setTracing env me given s =
      .ok () (Site.noteTrace (s₁.setWorld w)) := by
    show (onWorld (ControllerBase.setTracing env given) s₁).andThen _ _ = _
    unfold onWorld Coro.lift
    rw [hrun]
    rfl
  have hself : w.useCase .controller = ⟨none, some t⟩ := by rw [huse, Function.update_self]
  have hwin : ∀ o, s₁.1.window o = Function.update s.1.window .controller (some me) o :=
    fun _ => rfl
  rw [hall]
  refine ⟨fun o j hj hw => ?_, t, ht, hgiven, ?_, hs.1, fun hu => ?_⟩
  · have hme : s₁.1.window o = some j := hw
    rw [hwin] at hme
    by_cases ho : o = .controller
    · rw [ho, Function.update_self] at hme
      exact absurd (Option.some.inj hme).symm hj
    · rw [Function.update_of_ne ho] at hme
      refine ⟨hme, ?_⟩
      show w.useCase o = _
      rw [huse]
      exact Function.update_of_ne ho _ s.1.world.useCase
  · show (w.useCase .controller).traceId = some t
    rw [hself]
  · refine ⟨fun _ => hself, fun e he => (nomatch he), fun e he => (nomatch he),
      fun e he => (nomatch he), fun x hx => ?_, trivial⟩
    have hstored : x ∈ s.2.stored := hx
    rw [hs.2] at hstored
    cases hstored

theorem connectDbSession_clean {func : Task α}
    (hfunc : ∀ t, t ≠ "" → (given.getD "" ≠ "" → t = given.getD "") → Keeps given t me none func) :
    Meets (isolation given me) Start (Concurrent.ControllerBase.connectDbSession env me given func)
      (fun _ s => s.2.Clean given) (fun _ s => s.2.Clean given) := by
  -- from the tracing on there is one trace id, which every later step keeps
  let served : Site → Prop := fun s => ∃ t, Served given me t s
  have hclean : ∀ s, served s → s.2.Clean given := by
    intro s hs
    obtain ⟨t, h⟩ := hs
    exact h.good.clean h.given
  have hkeeps : ∀ {β : Type} {x : Task β}, (∀ t, t ≠ "" → (given.getD "" ≠ "" → t = given.getD "") →
      Keeps given t me none x) → Meets (isolation given me) served x (fun _ => served)
        (fun _ => served) := by
    intro β x hx
    apply Meets.exists_elim
    intro t s hs
    refine ((hx t hs.ne hs.given [] True).conseq (fun _ h => h) ?_ ?_) s hs.good
    · exact fun _ _ h => ⟨t, hs.ne, hs.given, h⟩
    · exact fun _ _ h => ⟨t, hs.ne, hs.given, h⟩
  have hawait : ∀ {β : Type} {x : M β}, LeavesTracing x → Meets (isolation given me) served
      (awaiting x) (fun _ => served) (fun _ => served) := fun hx =>
    hkeeps fun t _ hg => keeps_awaiting hg hx
  have hworld : ∀ {β : Type} {x : M β}, LeavesTracing x → Meets (isolation given me) served
      (onWorld x) (fun _ => served) (fun _ => served) := fun hx =>
    hkeeps fun t _ _ => keeps_onWorld hx
  have hguarded : Meets (isolation given me) Start
      (Concurrent.ControllerBase.guarded env me given func) (fun _ => served) (fun _ => served) := by
    apply Meets.tryCatch (E := fun _ => served)
    · apply Meets.bind start_setTracing
      intro _
      apply (hkeeps hfunc).bind
      intro _
      exact (hawait LeavesTracing.flush).bind fun _ => Meets.pure fun _ hs => hs
    · intro e
      apply Meets.ite
      · intro _
        have hclean : LeavesTracing RabbitMqPublisher.cleanMessages := Frames.modify fun _ => rfl
        exact (hawait LeavesTracing.rollback).bind fun _ => (hworld hclean).bind fun _ =>
          Meets.throw fun _ hs => hs
      · exact fun _ => Meets.throw fun _ hs => hs
  have hscope : Meets (isolation given me) Start
      (Coro.scope (onWorld SessionProvider.aenter) (awaiting SessionProvider.aexit)
        (Concurrent.ControllerBase.guarded env me given func))
      (fun _ => served) (fun _ s => s.2.Clean given) := by
    apply Meets.scope Start (fun _ => served) (fun _ => served)
    · exact (start_onWorld LeavesTracing.aenter).conseq (fun _ hs => hs) (fun _ _ hs => hs)
        fun _ _ hs => hs.clean
    · exact hguarded
    · exact fun _ => (hawait LeavesTracing.aexit).conseq (fun _ hs => hs) (fun _ _ hs => hs)
        fun _ => hclean
    · exact fun _ => (hawait LeavesTracing.aexit).conseq (fun _ hs => hs) (fun _ => hclean)
        fun _ => hclean
  -- publishing comes after the outermost exit, and reads no tracing
  apply hscope.bind
  intro result
  have hpublish : Meets (isolation given me) served
      (do let w ← onWorld get
          if w.messages.isEmpty then pure result
          else do
            onWorld RabbitMqPublisher.publishMessages
            pure result) (fun _ => served) (fun _ => served) := by
    apply (hworld Frames.get).bind
    intro w
    apply Meets.ite
    · exact fun _ => Meets.pure fun _ hs => hs
    · exact fun _ => (hworld LeavesTracing.publishMessages).bind fun _ => Meets.pure fun _ hs => hs
  exact hpublish.conseq (fun _ hs => hs) (fun _ => hclean) fun _ => hclean

end

/-- The trace id a call comes with. -/
def Call.traceId : Call → Option String
  | .create rs => rs.head?.bind (·.traceId)
  | .update rs => rs.head?.bind (·.traceId)
  | .void rs => rs.head?.bind (·.traceId)
  | .delete rs => rs.head?.bind (·.traceId)
  | .get r => r.traceId
  | .newContext _ => none

theorem serve_clean (env : Env) (me : Nat) (c : Call) :
    Meets (isolation c.traceId me) Start (Concurrent.serve env me c)
      (fun _ s => s.2.Clean c.traceId) (fun _ s => s.2.Clean c.traceId) := by
  have hmethod : ∀ {given : Option String} {α : Type} {func : Task α},
      (∀ t, t ≠ "" → (given.getD "" ≠ "" → t = given.getD "") → Keeps given t me none func) →
      Meets (isolation given me) Start
        (do let _ ← Concurrent.ControllerBase.connectDbSession env me given func)
        (fun _ s => s.2.Clean given) (fun _ s => s.2.Clean given) := fun hfunc =>
    (connectDbSession_clean hfunc).bind fun _ => Meets.pure fun _ hs => hs
  have hbatch : ∀ {given : Option String} {t : String} {ρ : Type} {one : ρ → Task String}
      (rs : List ρ), (∀ r, Keeps given t me none (one r)) →
      Keeps given t me none (Concurrent.YourAggregateController.batch one rs) :=
    fun rs hone K F => (Meets.mapM (fun r => hone r K F) rs).bind fun _ =>
      keeps_onWorld (LeavesTracing.ofExcept _) K F
  have hdone : ∀ {given : Option String} {t : String} {x : Task Unit} (id : String),
      Keeps given t me none x → Keeps given t me none (do x; pure id) :=
    fun id hx K F => (hx K F).bind fun _ => Meets.pure fun _ hs => hs
  cases c with
  | create rs =>
    apply hmethod
    intro t ht hg
    apply hbatch rs
    exact fun r => keeps_createYourAggregate ht hg (publish_keeps ht hg recursionLimit) _ _
  | update rs =>
    apply hmethod
    intro t ht hg
    apply hbatch rs
    intro r
    apply hdone r.id
    exact keeps_updateYourAggregate ht hg (publish_keeps ht hg recursionLimit) _ _ _
  | void rs =>
    apply hmethod
    intro t ht hg
    apply hbatch rs
    intro r
    apply hdone r.id
    exact keeps_voidYourAggregate ht hg (publish_keeps ht hg recursionLimit) _ _
  | delete rs =>
    apply hmethod
    intro t ht hg
    apply hbatch rs
    intro r
    apply hdone r.id
    exact keeps_deleteYourAggregate ht hg (publish_keeps ht hg recursionLimit) _ _
  | get r =>
    apply hmethod
    exact fun t _ hg => keeps_awaiting hg (LeavesTracing.loadYourAggregate env r.id false)
  | newContext traceId =>
    refine (start_onWorld (LeavesTracing.enterContext env traceId)).conseq (fun _ hs => hs) ?_ ?_
    · intro _ s hs
      exact hs.clean
    · intro _ s hs
      exact hs.clean

/-! ## Requests under any schedule -/

def Request.new : Request := ⟨Context.new none, none, none, [], true⟩

/-- The request goes on, and its session sees the database `view`. -/
def Request.wake (view : Database) (r : Request) : Request :=
  let session := r.context.provider.session.map fun s => { s with view := view }
  { r with context := { r.context with provider := { r.context.provider with session } } }

/-- Request `i` makes the call `calls i`, in a process that was in the state `w`. -/
def serving (env : Env) (w : World) (calls : Nat → Call) : Pool Process Request Exc Unit where
  shared := ⟨w, fun _ => none⟩
  thread i := ⟨Request.new, some (Concurrent.serve env i (calls i))⟩

/-- Request `i` after the schedule, which says who goes on and what it sees. -/
def requestAfter (env : Env) (w : World) (calls : Nat → Call) (schedule : List (Nat × Database))
    (i : Nat) : Request :=
  (((serving env w calls).run Request.wake schedule).thread i).loc

/-- Two requests may rely on what each other guarantees. -/
theorem isolation_compatible (given : Nat → Option String) :
    Compatible (fun i => isolation (given i) i) Request.wake where
  wake i v s l := ⟨rfl, rfl, rfl, rfl, fun o hw => ⟨hw, rfl⟩⟩
  trans i a b c h h' := by
    refine ⟨h'.trace.trans h.trace, h'.handling.trans h.handling, h'.stored.trans h.stored,
      h'.undisturbed.trans h.undisturbed, fun o hw => ?_⟩
    obtain ⟨hw', hu'⟩ := h'.window o hw
    obtain ⟨hw'', hu''⟩ := h.window o hw'
    exact ⟨hw'', hu'.trans hu''⟩
  others i j hij s s' l l' m hg :=
    ⟨rfl, rfl, rfl, rfl, fun o hw => hg o i hij hw⟩

/-- Under any schedule, the rows of an undisturbed request carry its own trace id,
    and those it stored in a handler are children of the event handled. -/
theorem trace_isolation (env : Env) (w : World) (calls : Nat → Call)
    (schedule : List (Nat × Database)) (i : Nat)
    (h : (requestAfter env w calls schedule i).undisturbed = true) :
    (requestAfter env w calls schedule i).Traces (calls i).traceId := by
  have hclean : ∀ j, Thread.Keeps (fun j => isolation (calls j).traceId j)
      (fun j r => r.Clean (calls j).traceId) j (serving env w calls).shared
      ((serving env w calls).thread j) := by
    intro j
    have hstart : Start ((serving env w calls).shared, Request.new) := ⟨rfl, rfl⟩
    refine ⟨hstart.clean, fun k hk s' hr => ?_⟩
    rw [← Option.some.inj hk]
    exact serve_clean env j (calls j) s' ⟨hr.handling, hr.stored⟩
  have hrun := Pool.run_keeps (isolation_compatible fun j => (calls j).traceId)
    (fun _ _ _ hinv => hinv) schedule hclean i
  exact hrun.1 h

/-- A process in which two aggregates were created. -/
def twoCreated : World := runCalls .plain (World.init []) [.createOne, .createOne]

/-- An update of one of the two, with a trace id for each. -/
def updateOfTwo (i : Nat) : Call :=
  let doer : User := ⟨none, none, none, none, none⟩
  if i = 0 then .update [⟨doer, some "first", "a", ⟨"new", 1⟩⟩]
  else .update [⟨doer, some "second", "ax", ⟨"new", 1⟩⟩]

/-- Both updates set their tracing before they load; the first to save takes the
    trace id of the other. -/
theorem trace_mixed_up :
    ¬(requestAfter .plain twoCreated updateOfTwo
      ([0, 1, 0, 0].map (·, twoCreated.db)) 0).Traces (updateOfTwo 0).traceId := by
  intro h
  have hall : ∀ x ∈ (requestAfter .plain twoCreated updateOfTwo
      ([0, 1, 0, 0].map (·, twoCreated.db)) 0).stored, x.row.traceId = "first" := by
    intro x hx
    obtain ⟨t, _, hgiven, hrow⟩ := h x hx
    exact hrow.trace.trans (hgiven (by decide))
  revert hall
  decide +kernel

/-- The two updates take turns, but the second sets its tracing after the first has used its
    own: each stores one event with its own trace id. -/
theorem trace_isolation_in_turns :
    let schedule := [0, 0, 1, 0, 1, 0, 1].map (·, twoCreated.db)
    let after := requestAfter .plain twoCreated updateOfTwo schedule
    (after 0).Traces (some "first") ∧ (after 0).stored.length = 1 ∧
      (after 1).Traces (some "second") ∧ (after 1).stored.length = 1 := by
  intro schedule after
  refine ⟨?_, by decide +kernel, ?_, by decide +kernel⟩
  · exact trace_isolation .plain twoCreated updateOfTwo schedule 0 (by decide +kernel)
  · exact trace_isolation .plain twoCreated updateOfTwo schedule 1 (by decide +kernel)

end DddService
