import DddService.Causality
import DddService.Outbox

/- Whole calls, and runs of calls. A call starts where nothing of an earlier one is left
   but what its use cases may still hold, which `set_tracing` overwrites; it ends with its
   rows in the table or without them (`Ended`), and if it returns, with all of them, one
   root for each request (`Returned`).

   `causal_forest` is what this comes to over a run: the parents of stored events are
   stored events of the same call. -/
namespace DddService
open Hoare Coroutine Lineage

/-- The trace id that `set_tracing` gives a call. -/
def ControllerBase.traceFor (env : Env) (traceId : Option String) (w : World) : String :=
  if traceId.getD "" = "" then env.uuid4 .trace (w.drawn .trace) else traceId.getD ""

/-- How many requests a call makes of the use case's commands. -/
def Call.requests : Call → Nat
  | .create rs => rs.length
  | .update rs => rs.length
  | .void rs => rs.length
  | .delete rs => rs.length
  | .get _ | .newContext _ => 0

namespace Causality

/-- Where a call with the trace id and so many requests starts from. -/
def Opening.of (env : Env) (traceId : Option String) (requests : Nat) (w : World) : Opening where
  db := w.db
  sent := w.sent
  start := w.drawn .span
  trace := ControllerBase.traceFor env traceId w
  requests := requests
  clean := w.messages = .empty
  trace_ne := by
    unfold ControllerBase.traceFor
    by_cases h : traceId.getD "" = ""
    · rw [if_pos h]
      exact env.uuid4_ne _ _
    · rw [if_neg h]
      exact h

/-- The request has not begun. -/
def Starts (w : World) (s : Site) : Prop :=
  s.world = w ∧ s.2.stored = [] ∧ s.2.handling = none

/-- The call is over: its rows are all in the table, or none is. -/
structure Ended (env : Env) (o : Opening) (s : Site) : Prop where
  events : s.world.db.domainEvent = o.db.domainEvent ∨
    s.world.db.domainEvent = o.db.domainEvent ++ s.2.stored.map (·.row)
  count : s.world.provider.sessionCount = 0
  start : o.start ≤ s.world.drawn .span
  spans : SpansDrawn env o.start s.world (s.2.stored.map (·.row))
  grown : Grown (Placed o.trace) s.2.stored
  budget : s.2.stored.countP Stored.isRoot ≤ o.requests
  unmixed : Unmixed s

/-- The call returned: its rows are in the table, with a root for each request. -/
structure Returned (env : Env) (o : Opening) (s : Site) : Prop extends Ended env o s where
  committed : s.world.db.domainEvent = o.db.domainEvent ++ s.2.stored.map (·.row)
  roots : s.2.stored.countP Stored.isRoot = o.requests

/-! ## The controller's scope -/

section
variable {env : Env} {o : Opening} {s : Site} {me : Nat} {given : Option String} {w : World}

theorem setTracing_eq (env : Env) (given : Option String) (w : World) :
    ∃ drawn : UuidKind → Nat, drawn .span = w.drawn .span ∧
      ControllerBase.setTracing env given w = .ok () ({ w with drawn := drawn }.setUseCase
        .controller ⟨none, some (ControllerBase.traceFor env given w)⟩) := by
  unfold ControllerBase.setTracing ControllerBase.traceFor
  dsimp only
  by_cases h : given.getD "" = ""
  · rw [if_pos h, if_pos h]
    exact ⟨Function.update w.drawn .trace (w.drawn .trace + 1), rfl, rfl⟩
  · rw [if_neg h, if_neg h]
    exact ⟨w.drawn, rfl, rfl⟩

theorem meets_controllerTracing (hu : ∀ owner, (w.useCase owner).Single) {k : Nat}
    {E : Exc → Site → Prop} :
    Meets alone (Starts w.entered) (Concurrent.ControllerBase.setTracing env me given)
      (fun _ => Rest env (Opening.of env given k w) 1 none 0) E := by
  intro s hs
  obtain ⟨hworld, hstored, hhandling⟩ := hs
  obtain ⟨drawn, hdrawn, hrun⟩ := setTracing_eq env given w.entered
  let s₁ := Site.openWindow me .controller s
  let u : UseCaseBase := ⟨none, some (ControllerBase.traceFor env given w)⟩
  let w₁ : World := { w.entered with drawn := drawn }.setUseCase .controller u
  have hs₁ : s₁.world = w.entered := hworld
  have hall : Concurrent.ControllerBase.setTracing env me given s =
      .ok () (Site.noteTrace (s₁.setWorld w₁)) := by
    show (onWorld (ControllerBase.setTracing env given) >>= fun _ => record Site.noteTrace) s₁ = _
    have hrun₁ : ControllerBase.setTracing env given s₁.world = .ok () w₁ := by
      rw [hs₁]
      exact hrun
    exact onWorld_bind hrun₁
  have hself : w₁.useCase .controller = u := by
    show Function.update w.useCase .controller u .controller = u
    rw [Function.update_self]
  have hnil : s₁.2.stored = [] := hstored
  rw [hall]
  -- nothing is stored yet
  refine ⟨trivial, ⟨rfl, rfl, rfl, Nat.le_of_eq hdrawn.symm, ?_, ?_, ?_, ?_⟩, ?_, hhandling, ?_,
    ?_, ?_⟩
  · intro row hrow
    have hrow' : row ∈ s₁.2.stored.map (·.row) := hrow
    rw [hnil] at hrow'
    cases hrow'
  · show Grown _ s₁.2.stored
    rw [hnil]
    exact Grown.nil
  · show s₁.2.stored.countP _ ≤ k
    rw [hnil]
    exact Nat.zero_le k
  · intro owner
    show (Function.update w.useCase .controller u owner).Single
    by_cases ho : owner = .controller
    · rw [ho, Function.update_self]
      exact Or.inl rfl
    · rw [Function.update_of_ne ho]
      exact hu owner
  · refine ⟨w.opened, rfl, rfl, ?_⟩
    show w.db.domainEvent = w.db.domainEvent ++ s₁.2.stored.map (·.row)
    rw [hnil]
    exact (List.append_nil _).symm
  · show s₁.2.stored.countP _ = 0
    rw [hnil]
    rfl
  · show w₁.useCase .controller = ⟨none, waiting _ s₁.2.stored⟩
    rw [hnil]
    exact hself
  · intro hclean
    refine ⟨[], ?_, .nothing rfl hclean⟩
    show s₁.2.stored.filterMap _ = _
    rw [hnil]
    rfl

/-- The body of a controller method that makes so many requests. -/
def BodyStands {α : Type} (env : Env) (func : Task α) (requests : Nat) : Prop :=
  ∀ o : Opening, o.requests = requests →
    Meets alone (Rest env o 1 none 0) func (fun _ => Rest env o 1 none requests)
      (fun _ => Broken env o 1)

variable {α : Type} {func : Task α} {k : Nat}

/-- Whatever the body does, the scope is left standing or broken. -/
theorem guarded_stands (hfunc : BodyStands env func k) (hu : ∀ owner, (w.useCase owner).Single) :
    Meets alone (Starts w.entered) (Concurrent.ControllerBase.guarded env me given func)
      (fun _ => Rest env (Opening.of env given k w) 1 none k)
      (fun _ => Broken env (Opening.of env given k w) 1) := by
  apply Meets.tryCatch (E := fun _ => Broken env (Opening.of env given k w) 1)
  · apply (meets_controllerTracing hu).bind
    intro _
    apply (hfunc _ rfl).bind
    intro _
    exact rest_flush.bind fun _ => Meets.pure fun _ hs => hs
  · intro e
    apply Meets.ite
    · intro _
      have hclean : Meets alone (Broken env (Opening.of env given k w) 1)
          (onWorld RabbitMqPublisher.cleanMessages)
          (fun _ => Broken env (Opening.of env given k w) 1)
          (fun _ => Broken env (Opening.of env given k w) 1) := by
        apply Meets.lift
        intro s hs
        exact ⟨trivial, hs.kept.of_world rfl rfl rfl hs.kept.count (Nat.le_refl _) hs.kept.unmixed,
          hs.session⟩
      exact broken_rollback.bind fun _ => hclean.bind fun _ => Meets.throw fun _ hs => hs
    · exact fun _ => Meets.throw fun _ hs => hs

/-- The outermost exit puts the session's events in the table, or leaves the table. -/
theorem Kept.exit (hk : Kept env o 1 s) {x : AsyncSession}
    (hx : s.world.provider.session = some x) (he : x.events = o.db.domainEvent ∨
      x.events = o.db.domainEvent ++ s.2.stored.map (·.row)) :
    match SessionProvider.aexit s.world with
      | .ok _ w => Ended env o (s.setWorld w) ∧ w.db.domainEvent = x.events
      | .error _ w => Ended env o (s.setWorld w) := by
  have huse := LeavesTracing.aexit s.world
  by_cases hg : s.world.CommitGoesThrough
  · rw [aexit_commits hk.count hx hg]
    exact ⟨⟨he, rfl, hk.start, hk.spans, hk.grown, hk.budget, hk.unmixed⟩, rfl⟩
  · obtain ⟨e, w', hrun, ha⟩ := aexit_fails hk.count hx hg
    rw [hrun] at huse ⊢
    have hspan : w'.drawn .span = s.world.drawn .span := congrFun ha.drawn .span
    have hevents : w'.db.domainEvent = o.db.domainEvent := by rw [ha.db, hk.db]
    refine ⟨Or.inl hevents, ha.count, ?_, ?_, hk.grown, hk.budget, fun owner => ?_⟩
    · show o.start ≤ w'.drawn .span
      rw [hspan]
      exact hk.start
    · exact hk.spans.mono (Nat.le_of_eq hspan.symm)
    · show (w'.useCase owner).Single
      rw [show w'.useCase = s.world.useCase from huse]
      exact hk.unmixed owner

theorem rest_exit : Meets alone (Rest env o 1 none o.requests) (awaiting SessionProvider.aexit)
    (fun _ => Returned env o) (fun _ => Ended env o) := by
  apply meets_awaiting fun s hs => hs.kept.unmixed
  apply Meets.lift
  intro s hs
  obtain ⟨x, hx, _, he⟩ := hs.session
  have hend := hs.kept.exit hx (Or.inr he)
  cases hr : SessionProvider.aexit s.world with
  | ok u w =>
    rw [hr] at hend
    exact ⟨trivial, hend.1, hend.2.trans he, hs.roots⟩
  | error e w =>
    rw [hr] at hend
    exact ⟨trivial, hend⟩

theorem broken_exit : Meets alone (Broken env o 1) (awaiting SessionProvider.aexit)
    (fun _ => Ended env o) (fun _ => Ended env o) := by
  apply meets_awaiting fun s hs => hs.kept.unmixed
  apply Meets.lift
  intro s hs
  obtain ⟨x, hx, he⟩ := hs.session
  have hend := hs.kept.exit hx he
  cases hr : SessionProvider.aexit s.world with
  | ok u w =>
    rw [hr] at hend
    exact ⟨trivial, hend.1⟩
  | error e w =>
    rw [hr] at hend
    exact ⟨trivial, hend⟩

theorem Ended.publish (hend : Ended env o s) (hp : RabbitMqPublisher.Published s.world w)
    (huse : w.useCase = s.world.useCase) : Ended env o (s.setWorld w) where
  events := by
    show w.db.domainEvent = _ ∨ w.db.domainEvent = _
    rw [hp.db]
    exact hend.events
  count := (congrArg SessionProvider.sessionCount hp.provider).trans hend.count
  start := by
    show o.start ≤ w.drawn .span
    rw [hp.drawn]
    exact hend.start
  spans := hend.spans.mono (Nat.le_of_eq (congrFun hp.drawn .span).symm)
  grown := hend.grown
  budget := hend.budget
  unmixed := by
    intro owner
    show (w.useCase owner).Single
    rw [huse]
    exact hend.unmixed owner

theorem meets_publishMessages : Meets alone (Returned env o)
    (onWorld RabbitMqPublisher.publishMessages) (fun _ => Returned env o) (fun _ => Ended env o) := by
  apply Meets.lift
  intro s hs
  have hp := RabbitMqPublisher.publishMessages_published s.world s.world rfl
  have huse := LeavesTracing.publishMessages s.world
  cases hr : RabbitMqPublisher.publishMessages s.world with
  | ok u w =>
    rw [hr] at hp huse
    refine ⟨trivial, hs.toEnded.publish hp huse, ?_, hs.roots⟩
    show w.db.domainEvent = _
    rw [hp.db]
    exact hs.committed
  | error e w =>
    rw [hr] at hp huse
    exact ⟨trivial, hs.toEnded.publish hp.2 huse⟩

theorem connectDbSession_ends (hfunc : BodyStands env func k) (h0 : w.provider.sessionCount = 0)
    (hu : ∀ owner, (w.useCase owner).Single) :
    Meets alone (Starts w) (Concurrent.ControllerBase.connectDbSession env me given func)
      (fun _ => Returned env (Opening.of env given k w))
      (fun _ => Ended env (Opening.of env given k w)) := by
  let o := Opening.of env given k w
  have hscope : Meets alone (Starts w) (Coro.scope (onWorld SessionProvider.aenter)
      (awaiting SessionProvider.aexit) (Concurrent.ControllerBase.guarded env me given func))
      (fun _ => Returned env o) (fun _ => Ended env o) := by
    apply Meets.scope (Starts w.entered) (fun _ => Rest env o 1 none k) (fun _ => Broken env o 1)
    · apply Meets.lift
      intro s hs
      obtain ⟨hworld, hstored, hhandling⟩ := hs
      rw [hworld, aenter_outer h0]
      exact ⟨trivial, rfl, hstored, hhandling⟩
    · exact guarded_stands hfunc hu
    · exact fun _ => rest_exit
    · exact fun _ => broken_exit
  apply hscope.bind
  intro result
  have hget : Meets alone (Returned env o) (onWorld get : Task World) (fun _ => Returned env o)
      (fun _ => Ended env o) := by
    apply Meets.lift
    intro s hs
    exact ⟨trivial, ⟨hs.events, hs.count, hs.start, hs.spans, hs.grown, hs.budget, hs.unmixed⟩,
      hs.committed, hs.roots⟩
  apply hget.bind
  intro w'
  apply Meets.ite
  · exact fun _ => Meets.pure fun _ hs => hs
  · exact fun _ => meets_publishMessages.bind fun _ => Meets.pure fun _ hs => hs

/-! ## The calls -/

theorem command_stands {α : Type} {env : Env} {o : Opening} {x : Task α} {k : Nat}
    (hx : Meets alone (MaySave env o 1 none k) x (fun _ => Rest env o 1 none (k + newRoot none))
      (fun _ => Broken env o 1)) (hk : k < o.requests) :
    Meets alone (Rest env o 1 none k) x (fun _ => Rest env o 1 none (k + 1))
      (fun _ => Broken env o 1) :=
  hx.conseq (fun _ hs => ⟨hs, fun _ he => (nomatch he), hk⟩) (fun _ _ hs => hs) fun _ _ hs => hs

theorem answered_stands {env : Env} {o : Opening} {x : Task Unit} {k : Nat} {id : String}
    (hx : Meets alone (MaySave env o 1 none k) x (fun _ => Rest env o 1 none (k + newRoot none))
      (fun _ => Broken env o 1)) (hk : k < o.requests) :
    Meets alone (Rest env o 1 none k) (do x; pure id) (fun _ => Rest env o 1 none (k + 1))
      (fun _ => Broken env o 1) :=
  (command_stands hx hk).bind fun _ => Meets.pure fun _ hs => hs

theorem batch_stands {ρ : Type} {one : ρ → Task String}
    (hone : ∀ (o : Opening) (k : Nat) (r : ρ), k < o.requests →
      Meets alone (Rest env o 1 none k) (one r) (fun _ => Rest env o 1 none (k + 1))
        (fun _ => Broken env o 1)) (rs : List ρ) :
    BodyStands env (Concurrent.YourAggregateController.batch one rs) rs.length := by
  intro o ho
  have hloop : Meets alone (Rest env o 1 none 0) (rs.mapM one)
      (fun _ => Rest env o 1 none (0 + rs.length)) (fun _ => Broken env o 1) :=
    Meets.mapM_count (fun k r hk => hone o k r hk) rs 0 (by omega)
  rw [Nat.zero_add] at hloop
  apply hloop.bind
  intro resp
  have hrespond := meets_steady (P := Rest env o 1 none rs.length) (E := fun _ => Broken env o 1)
    (Steady.ofExcept (YourAggregateController.respond resp)) (G := fun _ => True)
    (fun s w hs hw => hs.steady rfl rfl hw) (fun _ s hs => hs.broken) fun _ _ _ _ _ => trivial
  exact hrespond.conseq (fun _ hs => hs) (fun _ _ hs => hs.1) fun _ _ hs => hs

theorem eventBus_stands (me : Nat) : BusStands env (Concurrent.eventBus env me) :=
  publish_stands recursionLimit

theorem createOne_stands (me : Nat) (o : Opening) (k : Nat) (r : CreateYourAggregateRequest)
    (hk : k < o.requests) :
    Meets alone (Rest env o 1 none k) (Concurrent.YourAggregateController.createOne env me r)
      (fun _ => Rest env o 1 none (k + 1)) (fun _ => Broken env o 1) :=
  command_stands (meets_createYourAggregate (eventBus_stands me) (Int.le_refl 1) _ _) hk

theorem updateOne_stands (me : Nat) (o : Opening) (k : Nat) (r : UpdateYourAggregateRequest)
    (hk : k < o.requests) :
    Meets alone (Rest env o 1 none k) (Concurrent.YourAggregateController.updateOne env me r)
      (fun _ => Rest env o 1 none (k + 1)) (fun _ => Broken env o 1) :=
  answered_stands (meets_updateYourAggregate (eventBus_stands me) (Int.le_refl 1) _ _ _) hk

theorem voidOne_stands (me : Nat) (o : Opening) (k : Nat) (r : IdRequest) (hk : k < o.requests) :
    Meets alone (Rest env o 1 none k) (Concurrent.YourAggregateController.voidOne env me r)
      (fun _ => Rest env o 1 none (k + 1)) (fun _ => Broken env o 1) :=
  answered_stands (meets_voidYourAggregate (eventBus_stands me) (Int.le_refl 1) _ _) hk

theorem deleteOne_stands (me : Nat) (o : Opening) (k : Nat) (r : IdRequest) (hk : k < o.requests) :
    Meets alone (Rest env o 1 none k) (Concurrent.YourAggregateController.deleteOne env me r)
      (fun _ => Rest env o 1 none (k + 1)) (fun _ => Broken env o 1) :=
  answered_stands (meets_deleteYourAggregate (eventBus_stands me) (Int.le_refl 1) _ _) hk

theorem load_stands (id : String) :
    BodyStands env (Concurrent.YourAggregateRepository.loadYourAggregate env id false) 0 := by
  intro o ho
  apply meets_awaiting fun s hs => hs.kept.unmixed
  have hload := meets_steady (P := Rest env o 1 none 0) (E := fun _ => Broken env o 1)
    (Steady.loadYourAggregate env id false) (G := fun _ => True)
    (fun s w hs hw => hs.steady rfl rfl hw) (fun _ s hs => hs.broken) fun _ _ _ _ _ => trivial
  exact hload.conseq (fun _ hs => hs) (fun _ _ hs => hs.1) fun _ _ hs => hs

theorem newContext_ends (traceId : Option String) (hu : ∀ owner, (w.useCase owner).Single) :
    Meets alone (Starts w) (onWorld (Call.enterContext env traceId))
      (fun _ => Returned env (Opening.of env none 0 w))
      (fun _ => Ended env (Opening.of env none 0 w)) := by
  apply Meets.lift
  intro s hs
  obtain ⟨hworld, hstored, _⟩ := hs
  have hrun : ∃ t drawn, drawn UuidKind.span = w.drawn .span ∧ Call.enterContext env traceId w =
      .ok () { w with provider := ⟨none, 0⟩, messages := .empty, traceId := t, drawn := drawn } := by
    unfold Call.enterContext
    by_cases ht : traceId.getD "" = ""
    · exact ⟨_, Function.update w.drawn .trace (w.drawn .trace + 1), rfl,
        bind_ok (modify_run w _) (run_ite_pos ht rfl)⟩
    · exact ⟨_, w.drawn, rfl, bind_ok (modify_run w _) (run_ite_neg ht rfl)⟩
  obtain ⟨t, drawn, hdrawn, hrun⟩ := hrun
  rw [hworld, hrun]
  have hevents : w.db.domainEvent = w.db.domainEvent ++ s.2.stored.map (·.row) := by
    rw [hstored]
    exact (List.append_nil _).symm
  have hroots : s.2.stored.countP Stored.isRoot = 0 := by
    rw [hstored]
    rfl
  refine ⟨trivial, ⟨Or.inr hevents, rfl, Nat.le_of_eq hdrawn.symm, ?_, ?_, Nat.le_of_eq hroots, hu⟩,
    hevents, hroots⟩
  · show SpansDrawn _ _ _ (s.2.stored.map (·.row))
    rw [hstored]
    exact fun _ hrow => (nomatch hrow)
  · show Grown _ s.2.stored
    rw [hstored]
    exact Grown.nil

/-- Where a call starts from. -/
def Opening.ofCall (env : Env) (c : Call) (w : World) : Opening :=
  Opening.of env c.traceId c.requests w

theorem serve_ends (env : Env) (me : Nat) (c : Call) (h0 : w.provider.sessionCount = 0)
    (hu : ∀ owner, (w.useCase owner).Single) :
    Meets alone (Starts w) (Concurrent.serve env me c)
      (fun _ => Returned env (Opening.ofCall env c w))
      (fun _ => Ended env (Opening.ofCall env c w)) := by
  cases c with
  | create rs =>
    exact (connectDbSession_ends (batch_stands (createOne_stands me) rs) h0 hu).bind fun _ =>
      Meets.pure fun _ hs => hs
  | update rs =>
    exact (connectDbSession_ends (batch_stands (updateOne_stands me) rs) h0 hu).bind fun _ =>
      Meets.pure fun _ hs => hs
  | void rs =>
    exact (connectDbSession_ends (batch_stands (voidOne_stands me) rs) h0 hu).bind fun _ =>
      Meets.pure fun _ hs => hs
  | delete rs =>
    exact (connectDbSession_ends (batch_stands (deleteOne_stands me) rs) h0 hu).bind fun _ =>
      Meets.pure fun _ hs => hs
  | get r =>
    exact (connectDbSession_ends (load_stands r.id) h0 hu).bind fun _ => Meets.pure fun _ hs => hs
  | newContext traceId => exact newContext_ends traceId hu

end

end Causality

open Causality

/-! ## What a call stores, and commits -/

/-- A request in the process and the context of `w`. -/
def Site.start (w : World) : Site := (⟨w, fun _ => none⟩, ⟨Context.of w, none, none, [], true⟩)

/-- The rows that the call stored, in order. -/
def Call.stored (env : Env) (c : Call) (w : World) : List Stored :=
  (stateOf ((Concurrent.serve env 0 c (Site.start w)).alone)).2.stored

/-- Those that reached the table. -/
def Call.committed (env : Env) (c : Call) (w : World) : List Stored :=
  if (stateOf (c.run env w)).db.domainEvent = w.db.domainEvent then [] else c.stored env w

/-- What each call of a run commits. -/
def commits (env : Env) : World → List Call → List (List Stored)
  | _, [] => []
  | w, c :: calls => c.committed env w :: commits env (stateOf (c.run env w)) calls

/-- The states in which others could see the call, and the one it ends in. -/
def Call.seen (env : Env) (c : Call) (w : World) : List Site :=
  (Concurrent.serve env 0 c (Site.start w)).seen

/-- What every call finds: no scope is open, and no use case mixes its tracing. -/
structure Quiescent (w : World) : Prop where
  count : w.provider.sessionCount = 0
  unmixed : ∀ owner, (w.useCase owner).Single

theorem Quiescent.start (db : Database) (faults : List (Option Exc)) : Quiescent (World.start db faults) :=
  ⟨rfl, fun _ => Or.inl rfl⟩

section
variable {env : Env} {w : World}

theorem Call.ends (env : Env) (c : Call) (h : Quiescent w) :
    ∃ s, s.world = stateOf (c.run env w) ∧ s.2.stored = c.stored env w ∧
      Ended env (Opening.ofCall env c w) s ∧
      (∀ w', c.run env w = .ok () w' → Returned env (Opening.ofCall env c w) s) ∧
      ∀ s ∈ c.seen env w, Unmixed s := by
  have hstart : Starts w (Site.start w) := ⟨rfl, rfl, rfl⟩
  obtain ⟨hend, hseen⟩ := (serve_ends env 0 c h.count h.unmixed).alone
    (fun _ _ hs => hs.unmixed) (fun _ _ hs => hs.unmixed) hstart
  have hrun : mapState Site.world ((Concurrent.serve env 0 c (Site.start w)).alone) = c.run env w :=
    Concurrent.serve_alone env 0 c (Site.start w)
  refine ⟨stateOf ((Concurrent.serve env 0 c (Site.start w)).alone), ?_, rfl, ?_, ?_, hseen⟩
  · rw [← hrun]
    cases (Concurrent.serve env 0 c (Site.start w)).alone <;> rfl
  · cases hr : (Concurrent.serve env 0 c (Site.start w)).alone with
    | ok u s =>
      rw [hr] at hend
      exact hend.toEnded
    | error e s =>
      rw [hr] at hend
      exact hend
  · intro w' hok
    rw [← hrun] at hok
    cases hr : (Concurrent.serve env 0 c (Site.start w)).alone with
    | ok u s =>
      rw [hr] at hend
      exact hend
    | error e s =>
      rw [hr] at hok
      cases hok

theorem Call.table (c : Call) (h : Quiescent w) :
    (stateOf (c.run env w)).db.domainEvent =
      w.db.domainEvent ++ (c.committed env w).map (·.row) := by
  obtain ⟨s, hworld, hstored, hend, _⟩ := Call.ends env c h
  have hevents := hend.events
  rw [hworld, hstored] at hevents
  unfold Call.committed
  by_cases hsame : (stateOf (c.run env w)).db.domainEvent = w.db.domainEvent
  · rw [if_pos hsame, hsame]
    exact (List.append_nil _).symm
  · rw [if_neg hsame]
    exact hevents.resolve_left hsame

/-- What is committed was stored, or it is nothing. -/
theorem Call.committed_cases (env : Env) (w : World) (c : Call) : c.committed env w = [] ∨
    c.committed env w = c.stored env w := by
  unfold Call.committed
  split
  · exact Or.inl rfl
  · exact Or.inr rfl

/-- Every row that is committed has its place among those before it. -/
theorem Call.committed_grown (env : Env) (c : Call) (h : Quiescent w) :
    Grown (Placed (Opening.ofCall env c w).trace) (c.committed env w) := by
  obtain ⟨s, _, hstored, hend, _⟩ := Call.ends env c h
  rcases Call.committed_cases env w c with hc | hc
  · rw [hc]
    exact Grown.nil
  · rw [hc, ← hstored]
    exact hend.grown

theorem Quiescent.call (h : Quiescent w) (c : Call) : Quiescent (stateOf (c.run env w)) := by
  obtain ⟨s, hworld, _, hend, _⟩ := Call.ends env c h
  exact ⟨hworld ▸ hend.count, fun owner => hworld ▸ hend.unmixed owner⟩

theorem Quiescent.run (h : Quiescent w) (calls : List Call) : Quiescent (runCalls env w calls) :=
  runCalls_induction h calls fun _ c _ hp => hp.call c

end

/-! ## The forest -/

theorem Placed.born {trace : String} {pre : List Stored} {x : Stored} (h : Placed trace pre x) :
    Born (·.row.spanId) (·.row.parentSpanId) pre x where
  fresh := h.fresh
  parent := by
    intro p hp
    cases hh : x.handled with
    | none =>
      rw [(h.root hh).1] at hp
      cases hp
    | some e =>
      obtain ⟨y, hy, hparent, _⟩ := h.child e hh
      rw [hparent] at hp
      exact List.mem_map.mpr ⟨y, hy, Option.some.inj hp⟩

/-- The rows form a forest. A row's parent comes before it and has the same trace id; the
    roots are the rows of the controller's use case, and every row descends from one. -/
structure CausalForest (rows : List Stored) : Prop where
  parent : ∀ pre x post, rows = pre ++ x :: post → ∀ p, x.row.parentSpanId = some p →
    ∃ y ∈ pre, y.row.spanId = p ∧ y.row.traceId = x.row.traceId
  root : ∀ x ∈ rows, x.row.parentSpanId = none ↔ x.handled = none
  descends : ∀ x ∈ rows,
    Descends (fun y : Stored => y.row.spanId) (fun y : Stored => y.row.parentSpanId) rows x

theorem CausalForest.of_grown {trace : String} {rows : List Stored}
    (h : Grown (Placed trace) rows) : CausalForest rows where
  parent := by
    intro pre x post heq p hp
    have hx := h pre x post heq
    cases hh : x.handled with
    | none =>
      rw [(hx.root hh).1] at hp
      cases hp
    | some e =>
      obtain ⟨y, hy, hparent, htrace⟩ := hx.child e hh
      rw [hparent] at hp
      exact ⟨y, hy, Option.some.inj hp, htrace.symm⟩
  root := by
    intro x hx
    obtain ⟨pre, post, heq⟩ := List.append_of_mem hx
    have hplaced := h pre x post heq
    refine ⟨fun hnone => ?_, fun hh => (hplaced.root hh).1⟩
    cases hh : x.handled with
    | none => rfl
    | some e =>
      obtain ⟨y, _, hparent, _⟩ := hplaced.child e hh
      rw [hparent] at hnone
      cases hnone
  descends := (h.mono fun _ _ hx => hx.born).descends

/-- Between two calls the span ids in the table are all different, and were drawn. -/
structure Orderly (env : Env) (w : World) : Prop extends Quiescent w where
  spans : SpansDrawn env 0 w w.db.domainEvent
  nodup : (w.db.domainEvent.map (·.spanId)).Nodup

section
variable {env : Env} {w : World}

theorem Orderly.init (faults : List (Option Exc)) : Orderly env (World.init faults) :=
  ⟨Quiescent.start _ faults, fun _ hrow => (nomatch hrow), List.nodup_nil⟩

theorem Orderly.call (h : Orderly env w) (c : Call) : Orderly env (stateOf (c.run env w)) := by
  obtain ⟨s, hworld, hstored, hend, _⟩ := Call.ends env c h.toQuiescent
  have hstart : w.drawn .span ≤ (stateOf (c.run env w)).drawn .span := by
    rw [← hworld]
    exact hend.start
  -- what a call commits, if anything, it has drawn the ids for
  have hnew : SpansDrawn env (w.drawn .span) (stateOf (c.run env w))
      ((c.committed env w).map (·.row)) := by
    have hspans := hend.spans
    rw [hstored] at hspans
    rw [← hworld]
    rcases Call.committed_cases env w c with hc | hc
    · rw [hc]
      exact fun _ hrow => (nomatch hrow)
    · rw [hc]
      exact hspans
  refine ⟨h.toQuiescent.call c, ?_, ?_⟩
  · rw [Call.table c h.toQuiescent]
    intro row hrow
    rcases List.mem_append.mp hrow with hold | hrow
    · exact h.spans.mono hstart row hold
    · obtain ⟨k, _, hk, hspan⟩ := hnew row hrow
      exact ⟨k, Nat.zero_le k, hk, hspan⟩
  · rw [Call.table c h.toQuiescent, List.map_append]
    refine List.Nodup.append h.nodup ?_ ?_
    · rw [List.map_map]
      exact ((Call.committed_grown env c h.toQuiescent).mono fun _ _ hx => hx.born).nodup
    · -- the ids of the old rows were drawn before the call
      intro id hold hid
      obtain ⟨row, hrow, rfl⟩ := List.mem_map.mp hold
      obtain ⟨row', hrow', hsame⟩ := List.mem_map.mp hid
      obtain ⟨k, _, hk, hspan⟩ := h.spans row hrow
      obtain ⟨k', hk', _, hspan'⟩ := hnew row' hrow'
      have heq : env.uuid4 .span k' = env.uuid4 .span k :=
        hspan'.symm.trans (hsame.trans hspan)
      have hnumber := (env.uuid4_inj heq).2
      omega

theorem Orderly.run (h : Orderly env w) (calls : List Call) : Orderly env (runCalls env w calls) :=
  runCalls_induction h calls fun _ c _ hp => hp.call c

/-- What the calls of a run committed, one after another, is the table. -/
theorem Orderly.commits : ∀ (calls : List Call) {w : World}, Orderly env w →
    (runCalls env w calls).db.domainEvent =
      w.db.domainEvent ++ (commits env w calls).flatten.map (·.row) ∧
    ∀ rows ∈ commits env w calls, CausalForest rows
  | [], w, _ => ⟨(List.append_nil _).symm, fun _ hrows => (nomatch hrows)⟩
  | c :: calls, w, h => by
    obtain ⟨htable, hforest⟩ := Orderly.commits calls (h.call c)
    refine ⟨?_, fun rows hrows => ?_⟩
    · show (runCalls env (stateOf (c.run env w)) calls).db.domainEvent = _
      rw [htable, Call.table c h.toQuiescent, List.append_assoc, ← List.map_append]
      rfl
    · rcases List.mem_cons.mp hrows with rfl | hrows
      · exact CausalForest.of_grown (Call.committed_grown env c h.toQuiescent)
      · exact hforest rows hrows

end

/-- How often the session committed between `w` and `w'`. -/
def World.commitsSince (w w' : World) : Nat :=
  (w.since w').countP fun a => a.2 = .committed

theorem countP_committed_zero {js : List (Nat × SessionAction)}
    (h : ∀ a ∈ js, a.2 ≠ .committed) : (js.countP fun a => a.2 = .committed) = 0 :=
  List.countP_eq_zero.mpr fun a ha hc => h a ha (of_decide_eq_true hc)

section
variable {env : Env} {w w₁ : World}

theorem Logged.commitsSince_afterCommit (h : Logged w w₁) (s : AsyncSession) :
    w.commitsSince (w₁.afterCommit s) = 1 := by
  have hnone : ∀ a ∈ w.since w₁, a.2 ≠ .committed := by
    intro a ha hc
    obtain ⟨tx, action⟩ := a
    change action = .committed at hc
    rw [hc] at ha
    exact h.not_committed tx ha
  unfold World.commitsSince
  rw [h.since_commit, List.countP_append, countP_committed_zero hnone]
  rfl

theorem World.commitsSince_congr {w' w'' : World} (h : w''.journal = w'.journal) :
    w.commitsSince w'' = w.commitsSince w' := by
  unfold World.commitsSince World.since
  rw [h]

theorem Method.commits_once {m : Method} {c : Call} (hm : c.method env = some m)
    (h0 : w.provider.sessionCount = 0) : w.commitsSince (stateOf (m.run env w)) ≤ 1 := by
  have hb := Body.method env hm
  have hlog := guarded_logged env m.traceId hb w
  rcases connectDbSession_cases env m.traceId hb h0 with
    ⟨a, w₁, s, hg, _, _, hrun⟩ | ⟨e, w₁, s, hg, _, _, hrun⟩ | ⟨_, e, w', hrun, ha⟩
  · -- publishing writes nothing to the journal, whichever way it ends
    rw [hg] at hlog
    have hjournal : (stateOf (m.run env w)).journal = (w₁.afterCommit s).journal := by
      unfold Method.run
      cases hr : ControllerBase.connectDbSession env m.traceId m.func w with
      | ok a' w' =>
        rw [hr] at hrun
        exact hrun.2.journal
      | error e w' =>
        rw [hr] at hrun
        exact hrun.2.journal
    rw [World.commitsSince_congr hjournal]
    exact Nat.le_of_eq (Logged.commitsSince_afterCommit hlog s)
  · rw [hg] at hlog
    rw [show m.run env w = .error e (w₁.afterCommit s) from hrun]
    exact Nat.le_of_eq (Logged.commitsSince_afterCommit hlog s)
  · rw [show m.run env w = .error e w' from hrun]
    have hnone : w.commitsSince w' = 0 := by
      apply countP_committed_zero
      intro a hmem hc
      obtain ⟨tx, action⟩ := a
      change action = .committed at hc
      rw [hc] at hmem
      exact Logged.not_committed_abandoned hlog ha tx hmem
    exact Nat.le_trans (Nat.le_of_eq hnone) (Nat.zero_le 1)

/-- A call commits in one transaction, if it commits. -/
theorem Call.commits_once (c : Call) (h0 : w.provider.sessionCount = 0) :
    w.commitsSince (stateOf (c.run env w)) ≤ 1 := by
  cases hm : c.method env with
  | some m =>
    rw [Call.run_method hm]
    exact Method.commits_once hm h0
  | none =>
    cases c with
    | newContext traceId =>
      obtain ⟨t, drawn, _, hrun⟩ := Call.newContext_run env traceId w
      have hjournal : w.since (stateOf ((Call.newContext traceId).run env w)) = [] := by
        rw [hrun]
        exact List.drop_length
      unfold World.commitsSince
      rw [hjournal]
      exact Nat.zero_le 1
    | _ => cases hm

end

/-- In every state that controller calls lead to, the table holds what the calls have
    committed, each in one transaction; no span id is there twice; the rows of each call
    form a forest; and all the way no use case holds a parent event and a trace id. -/
theorem causal_forest (env : Env) (faults : List (Option Exc)) (calls : List Call) :
    let w := World.init faults
    (runCalls env w calls).db.domainEvent = (commits env w calls).flatten.map (·.row) ∧
    ((runCalls env w calls).db.domainEvent.map (·.spanId)).Nodup ∧
    (∀ rows ∈ commits env w calls, CausalForest rows) ∧
    ∀ p c, p ++ [c] <+: calls →
      (runCalls env w p).commitsSince (runCalls env w (p ++ [c])) ≤ 1 ∧
      ∀ s ∈ c.seen env (runCalls env w p), Unmixed s := by
  have hinit : Orderly env (World.init faults) := Orderly.init faults
  obtain ⟨htable, hforest⟩ := Orderly.commits calls hinit
  refine ⟨htable, (hinit.run calls).nodup, hforest, fun p c _ => ⟨?_, ?_⟩⟩
  · rw [runCalls_append]
    exact Call.commits_once c (hinit.run p).count
  · obtain ⟨_, _, _, _, _, hseen⟩ := Call.ends env c (hinit.run p).toQuiescent
    exact hseen

end DddService
