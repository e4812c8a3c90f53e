import DddService.Calls

/- Whole calls and runs of calls against the ledger. Between calls the database
   itself represents a store (`Idle`). Every call, however it ends, leads from one
   idle world to another, whose store the first one's leads to
   (`Call.idle`); so every run of calls does (`runCalls_idle`). A call that returns
   has made exactly its changes, and in a calm world it makes them whenever the
   ledger takes them (`Method.outcome`). -/
namespace DddService
open Hoare EventLog

variable {env : Env}

/-- Between calls: the database represents `L`, and knows no id that was not drawn. -/
structure Idle (env : Env) (L : Store) (w : World) : Prop where
  count : w.provider.sessionCount = 0
  represents : Represents env.mixin w.db L
  fresh : Drawn env (w.drawn .aggregate) L

/-- From one idle world to a later one: the log has grown, and what was voided has
    not changed. -/
structure Grew (L : Store) (w : World) (L' : Store) (w' : World) : Prop where
  leads : EventLog.Store.Leads machine L L'
  frozen : Frozen w.db w'.db

section
variable {L : Store} {w : World}

theorem Grew.refl (L : Store) (w : World) : Grew L w L w :=
  ⟨EventLog.Store.Leads.refl L, Frozen.refl w.db⟩

theorem Grew.trans {L' L'' : Store} {w' w'' : World} (hi : Idle env L w) (hi' : Idle env L' w')
    (hi'' : Idle env L'' w'') (h : Grew L w L' w') (h' : Grew L' w' L'' w'') : Grew L w L'' w'' := by
  refine ⟨h.leads.trans h'.leads, ?_⟩
  intro id m hrow hm
  rcases h.frozen id m hrow hm with hrow' | hrow'
  · exact h'.frozen id m hrow' hm
  · -- the row was deleted, and a deleted id gets no row again
    refine Or.inr ?_
    obtain ⟨g, _, hst⟩ := hi.represents.voided h.leads hrow hm
    have hr := hi'.represents.rows id
    rw [hrow'] at hr
    rcases hst with hst | hst <;> rw [hst] at hr
    · obtain ⟨m', hm', _⟩ := hr
      cases hm'
    · obtain ⟨es, hes⟩ := h'.leads.run id
      rw [hst] at hes
      have hr'' := hi''.represents.rows id
      rw [Ledger.deleted_run hes] at hr''
      exact hr''

def Idle.origin (h : Idle env L w) : Origin env := ⟨w.db, L, h.represents⟩

theorem Idle.entered {calm : Prop} (h : Idle env L w) (hc : calm → Calm w) :
    At h.origin calm 1 (w.drawn .aggregate) L w.entered :=
  ⟨w.db, ⟨h.represents, EventLog.Store.Leads.refl L, Frozen.refl _, h.fresh, h.fresh⟩,
    rfl, rfl, rfl, ⟨w.opened, rfl, rfl, rfl, rfl⟩, fun hcalm => ⟨(hc hcalm).faults, (hc hcalm).messages⟩⟩

theorem setTracing_harmless (env : Env) (traceId : Option String) :
    Harmless (ControllerBase.setTracing env traceId) fun _ => True := by
  have hmod : ∀ t, Harmless (modify fun w => w.setUseCase .controller
      ((w.useCase .controller).setTraceId t) : M PUnit) fun _ => True :=
    fun t => Harmless.modify fun _ => ⟨rfl, rfl, rfl, rfl, rfl⟩
  unfold ControllerBase.setTracing
  dsimp only
  split
  · exact (Harmless.uuid4 (by decide)).bind fun t _ => hmod t
  · exact Harmless.bind (R := fun _ => True) (Harmless.pure trivial) fun t _ => hmod t

/-- The body's changes, with the tracing and the flush around it. -/
theorem traced_makes {α : Type} {func : M α} {es : Nat → List (String × Change)} {draws : Nat}
    {blocked : Nat → Store → Prop} (h : Makes env func es draws blocked) (traceId : Option String) :
    Makes env (ControllerBase.traced env traceId func) es draws blocked := by
  intro o calm k L
  refine ((setTracing_harmless env traceId).triple.conseq (fun _ h => h) (fun _ _ h => h.1)
    fun _ _ h => h).bind fun _ => (h o calm k L).bind fun _ => Triple.intro fun w₁ h₁ => ?_
  obtain ⟨L', hL', hat⟩ := h₁
  refine (Triple.start flush_at hat).bind fun _ => Triple.pure fun w hw => ?_
  exact ⟨L', hL', hw⟩

/-- The `except` clauses roll back and empty the buffer, which leaves the raise lost. -/
theorem guarded_makes {α : Type} {func : M α} {es : Nat → List (String × Change)} {draws : Nat}
    {blocked : Nat → Store → Prop} (h : Makes env func es draws blocked) (traceId : Option String) :
    Makes env (ControllerBase.guarded env traceId func) es draws blocked := by
  intro o calm k L
  refine (traced_makes h traceId o calm k L).tryCatch fun e => ?_
  intro w hw
  cases he : e.isException with
  | true =>
    obtain ⟨s, _, h1, _⟩ := hw.1.session
    rw [run_ite_pos rfl (bind_ok (rollback_run h1) (bind_ok (modify_run _ _) rfl))]
    exact ⟨⟨hw.1.rolledBack.db, hw.1.rolledBack.count, hw.1.rolledBack.session⟩, hw.2⟩
  | false => exact hw

theorem At.commit {o : Origin env} {calm : Prop} {k : Nat} {L : Store}
    (h : At o calm 1 k L w) {s : AsyncSession} (hs : w.provider.session = some s) :
    Idle env L (w.afterCommit s) ∧ EventLog.Store.Leads machine o.ledger L ∧
      Frozen o.db (w.afterCommit s).db ∧ (w.afterCommit s).drawn .aggregate = k ∧
      (calm → Calm (w.afterCommit s)) := by
  obtain ⟨view, hsound, hi⟩ := h
  obtain ⟨s', h1, _, h3, h4⟩ := hi.session
  have hss : s' = s := Option.some.inj (h1.symm.trans hs)
  subst hss
  have hdb : (w.afterCommit s').db = view := by
    change s'.view.writeAll s'.now s'.pending = view
    rw [h4, h3]
    rfl
  refine ⟨⟨rfl, hdb ▸ hsound.represents, ?_⟩, hsound.leads, hdb ▸ hsound.frozen, hi.drawn,
    fun hc => ⟨?_, (hi.calm hc).messages⟩⟩
  · change Drawn env (w.drawn .aggregate) L
    rw [hi.drawn]
    exact hsound.fresh
  · change (if s'.pending = [] then w.faults.tail else w.faults.tail.tail) = []
    rw [(hi.calm hc).faults]
    split <;> rfl

theorem Lost.commit {o : Origin env} (h : Lost o 1 w) {s : AsyncSession}
    (hs : w.provider.session = some s) :
    ∃ L, Idle env L (w.afterCommit s) ∧ EventLog.Store.Leads machine o.ledger L ∧
      Frozen o.db (w.afterCommit s).db := by
  obtain ⟨s', L, h1, h2, hsound⟩ := h.session
  have hss : s' = s := Option.some.inj (h1.symm.trans hs)
  subst hss
  have hdb : (w.afterCommit s').db = s'.view := by
    change s'.view.writeAll s'.now s'.pending = s'.view
    rw [h2]
    rfl
  exact ⟨L, ⟨rfl, hdb ▸ hsound.represents, hsound.fresh⟩, hsound.leads, hdb ▸ hsound.frozen⟩

theorem Lost.abandon {o : Origin env} (h : Lost o 1 w) {w' : World} (ha : Abandoned w w') :
    Idle env o.ledger w' := by
  obtain ⟨_, _, _, _, hsound⟩ := h.session
  refine ⟨ha.count, ?_, ?_⟩
  · rw [ha.db, h.db]
    exact o.represents
  · rw [ha.drawn]
    exact hsound.origin

theorem Idle.publish {w' : World} (h : Idle env L w) (hp : RabbitMqPublisher.Published w w') :
    Idle env L w' := by
  refine ⟨?_, ?_, ?_⟩
  · rw [hp.provider]; exact h.count
  · rw [hp.db]; exact h.represents
  · rw [hp.drawn]; exact h.fresh

theorem Calm.publish {w' : World} (h : Calm w) (hp : RabbitMqPublisher.Published w w') : Calm w' :=
  ⟨hp.faults h.faults, fun rk k m hm => h.messages rk k m (hp.kept rk k m hm)⟩

theorem At.lost {o : Origin env} {calm : Prop} {n : Int} {k : Nat} (h : At o calm n k L w) :
    Lost o n w := by
  obtain ⟨view, hs, hi⟩ := h
  exact hs.lost hi

/-- In a calm world with nothing pending the commit goes through. -/
theorem At.goesThrough {o : Origin env} {calm : Prop} {n : Int} {k : Nat} (h : At o calm n k L w)
    (hc : calm) : w.CommitGoesThrough := by
  obtain ⟨view, _, hi⟩ := h
  obtain ⟨s, h1, h2, _, h4⟩ := hi.session
  refine ⟨s, h1, h2, ?_, fun hp => absurd h4 hp⟩
  rw [World.nextFault, (hi.calm hc).faults]
  rfl

/-- What a call comes to: its changes if it returns, and in a calm world whenever it
    is not blocked; some of the ledger's changes, or none, otherwise. -/
theorem Method.outcome {m : Method} {es : Nat → List (String × Change)} {draws : Nat}
    {blocked : Nat → Store → Prop} (hb : Body m.func) (hm : Makes env m.func es draws blocked)
    (h : Idle env L w) {calm : Prop} (hcalm : calm → Calm w) :
    ∃ L', Grew L w L' (stateOf (m.run env w)) ∧ Idle env L' (stateOf (m.run env w)) ∧
      ((∃ a w', m.run env w = .ok a w') ∨ (calm ∧ ¬blocked (w.drawn .aggregate) L) →
        L.appendAll machine (es (w.drawn .aggregate)) = some L' ∧
        (stateOf (m.run env w)).drawn .aggregate = w.drawn .aggregate + draws ∧
        (calm → Calm (stateOf (m.run env w)))) := by
  have hguarded := guarded_makes hm m.traceId h.origin calm (w.drawn .aggregate) L w.entered
    (h.entered hcalm)
  unfold Method.run
  rcases connectDbSession_cases env m.traceId hb h.count with
    ⟨a, w₁, s, hg, _, hs, hrun⟩ | ⟨e, w₁, s, hg, _, hs, hrun⟩ | ⟨hn, e, w', hrun, ha⟩
  · -- returned, committed and published
    rw [hg] at hguarded
    obtain ⟨L', hL', hat⟩ := hguarded
    obtain ⟨hidle, hleads, hfrozen, hdrawn, hcalm'⟩ := hat.commit hs
    have hpub : RabbitMqPublisher.Published (w₁.afterCommit s)
        (stateOf (ControllerBase.connectDbSession env m.traceId m.func w)) := by
      cases hr : ControllerBase.connectDbSession env m.traceId m.func w with
      | ok a' w' => rw [hr] at hrun; exact hrun.2
      | error e w' => rw [hr] at hrun; exact hrun.2
    refine ⟨L', ⟨hleads, ?_⟩, hidle.publish hpub, fun _ => ⟨hL', (congrFun hpub.drawn _).trans hdrawn,
      fun hc => (hcalm' hc).publish hpub⟩⟩
    rw [hpub.db]
    exact hfrozen
  · -- raised, and committed all the same
    rw [hg] at hguarded
    obtain ⟨hlost, hblocked⟩ := hguarded
    obtain ⟨L', hidle, hgrew⟩ := hlost.commit hs
    rw [hrun]
    refine ⟨L', ⟨hgrew.1, hgrew.2⟩, hidle, fun hok => ?_⟩
    rcases hok with ⟨a, w', hok⟩ | ⟨hc, hnb⟩
    · cases hok
    · exact absurd (hblocked hc) hnb
  · -- abandoned
    have hlost : Lost h.origin 1 (stateOf (ControllerBase.guarded env m.traceId m.func w.entered)) ∧
        (calm → blocked (w.drawn .aggregate) L) := by
      cases hg : ControllerBase.guarded env m.traceId m.func w.entered with
      | ok a w₁ =>
        rw [hg] at hguarded hn
        obtain ⟨L', _, hat⟩ := hguarded
        exact ⟨hat.lost, fun hc => absurd (hat.goesThrough hc) hn⟩
      | error e w₁ => rw [hg] at hguarded; exact hguarded
    rw [hrun]
    have hdb : w'.db = w.db := ha.db.trans hlost.1.db
    refine ⟨L, ⟨EventLog.Store.Leads.refl L, ?_⟩, hlost.1.abandon ha, fun hok => ?_⟩
    · change Frozen w.db w'.db
      rw [hdb]
      exact Frozen.refl w.db
    rcases hok with ⟨a, w', hok⟩ | ⟨hc, hnb⟩
    · cases hok
    · exact absurd (hlost.2 hc) hnb

/-! ## Runs -/

theorem Call.idle (c : Call) (h : Idle env L w) :
    ∃ L', Grew L w L' (stateOf (c.run env w)) ∧ Idle env L' (stateOf (c.run env w)) := by
  cases hm : c.method env with
  | some m =>
    have hcalm : False → Calm w := False.elim
    obtain ⟨L', hgrew, hidle, _⟩ := Method.outcome (Body.method env hm) (Call.makes hm) h hcalm
    rw [Call.run_method hm]
    exact ⟨L', hgrew, hidle⟩
  | none =>
    cases c with
    | newContext t =>
      obtain ⟨_, drawn, hdrawn, hrun⟩ := Call.newContext_run env t w
      rw [hrun]
      refine ⟨L, ⟨EventLog.Store.Leads.refl L, Frozen.refl w.db⟩, rfl, h.represents, ?_⟩
      change Drawn env (drawn .aggregate) L
      rw [hdrawn]
      exact h.fresh
    | _ => cases hm

theorem runCalls_idle (calls : List Call) (h : Idle env L w) :
    ∃ L', Grew L w L' (runCalls env w calls) ∧ Idle env L' (runCalls env w calls) := by
  refine runCalls_induction (I := fun t => ∃ L', Grew L w L' t ∧ Idle env L' t)
    ⟨L, Grew.refl L w, h⟩ calls ?_
  intro p c _ hi
  obtain ⟨L₁, hgrew, hidle⟩ := hi
  obtain ⟨L₂, hgrew', hidle'⟩ := Call.idle c hidle
  exact ⟨L₂, Grew.trans h hidle hidle' hgrew hgrew', hidle'⟩

theorem init_idle (env : Env) (faults : List (Option Exc)) :
    Idle env (EventLog.Store.init machine) (World.init faults) :=
  ⟨rfl, represents_empty env.mixin, fun _ hid => absurd rfl hid⟩

/-- After any run from the empty database the tables represent a store that grew
    from the empty one. -/
theorem runCalls_represents (env : Env) (faults : List (Option Exc)) (calls : List Call) :
    ∃ L, EventLog.Store.Leads machine (EventLog.Store.init machine) L ∧
      Idle env L (runCalls env (World.init faults) calls) := by
  obtain ⟨L, hgrew, hidle⟩ := runCalls_idle calls (init_idle env faults)
  exact ⟨L, hgrew.leads, hidle⟩

end

end DddService
