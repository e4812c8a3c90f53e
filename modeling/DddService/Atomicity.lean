import DddService.Bodies

/- What a controller method does to the database. The outermost scope of
   `connectDbSession` opens a transaction, runs the body, and leaves in one of two
   ways: it commits the session as the body left it, or it abandons it.

   A method that returns has committed, once, exactly what its body and the nested
   handlers wrote (`connectDbSession_ok`). A method that raises an `Exception` has
   changed nothing (`connectDbSession_exception`). Under an exception that is no
   `Exception` nothing is rolled back, and `__aexit__` commits what there is
   (`withSession_leaves_nothing_iff`). -/
namespace DddService
open Hoare Relation

/-! ## What steps preserve -/

theorem Work.db {w w' : World} (h : Work w w') : w'.db = w.db := by
  cases h with
  | quiet h => exact h.db
  | _ => rfl

theorem Undo.db {e : Exc} {w w' : World} (h : Undo e w w') : w'.db = w.db := by
  cases h with
  | quiet h => exact h.db
  | _ => rfl

theorem Undone.db {e : Exc} {w w' : World} (h : Undone e w w') : w'.db = w.db :=
  h.preserves (I := fun t => t.db = w.db) (fun _ _ hs hi => hs.db.trans hi)
    (fun _ _ hs hi => hs.db.trans hi) rfl

/-- `w'` is `w` after enqueueing `ps`, in the same transaction: what was enqueued
    is in the session, flushed or pending, and nothing else is. -/
structure Wrote (w : World) (s : AsyncSession) (ps : List Pending) (w' : World)
    (s' : AsyncSession) : Prop where
  session : w'.provider.session = some s'
  active : s'.active = s.active
  now : s'.now = s.now
  view : s'.flushed.view = s.view.writeAll s.now (s.pending ++ ps)
  tx : w'.tx = w.tx
  journal : w'.journal = w.journal ++ ps.map fun p => (w.tx, .write p)

theorem Database.writeAll_append (now : DateTime) (d : Database) (ps qs : List Pending) :
    d.writeAll now (ps ++ qs) = (d.writeAll now ps).writeAll now qs := by
  simp [Database.writeAll]

theorem Worked.wrote {w w' : World} (h : Worked w w') {s : AsyncSession}
    (hs : w.provider.session = some s) : ∃ s' ps, Wrote w s ps w' s' := by
  refine h.preserves (I := fun t => ∃ s' ps, Wrote w s ps t s') ?_
    ⟨s, [], hs, rfl, rfl, by simp [AsyncSession.flushed], rfl, by simp⟩
  intro t t' hstep hi
  obtain ⟨s', ps, ht⟩ := hi
  have hview : s'.view.writeAll s.now s'.pending = s.view.writeAll s.now (s.pending ++ ps) := by
    rw [← ht.view, ← ht.now]
    rfl
  cases hstep with
  | quiet hq =>
    exact ⟨s', ps, by rw [hq.provider]; exact ht.session, ht.active, ht.now, ht.view,
      hq.tx.trans ht.tx, hq.journal.trans ht.journal⟩
  | count n => exact ⟨s', ps, ht.session, ht.active, ht.now, ht.view, ht.tx, ht.journal⟩
  | enqueue hs' p =>
    rw [ht.session] at hs'
    cases hs'
    refine ⟨{ s' with pending := s'.pending ++ [p] }, ps ++ [p], rfl, ht.active, ht.now, ?_, ht.tx, ?_⟩
    · change s'.view.writeAll s'.now (s'.pending ++ [p]) = _
      rw [ht.now, Database.writeAll_append, hview, ← Database.writeAll_append, List.append_assoc]
    · change t.journal ++ [(t.tx, .write p)] = _
      rw [ht.journal, ht.tx]
      simp
  | flush hs' ha =>
    rw [ht.session] at hs'
    cases hs'
    exact ⟨s'.flushed, ps, rfl, ht.active, ht.now, ht.view, ht.tx, ht.journal⟩
  | push _ _ => exact ⟨s', ps, ht.session, ht.active, ht.now, ht.view, ht.tx, ht.journal⟩

/-! ## The outermost scope -/

/-- `w` inside a scope opened from outside any. -/
def World.entered (w : World) : World := (SessionProvider.openSession w).setCount 1

/-- The session of `w.entered`. -/
def World.opened (w : World) : AsyncSession :=
  { view := w.db, pending := [], active := true, now := w.clock }

/-- `w` after a rollback and `clean_messages`. -/
def World.cleaned (w : World) : World := { w.rolledBack with messages := .empty }

theorem World.entered_live (w : World) : Live 1 w.entered := ⟨rfl, w.opened, rfl⟩

theorem Body.traced {α : Type} (env : Env) (traceId : Option String) {func : M α}
    (h : Body func) : Body (ControllerBase.traced env traceId func) := by
  have hset : Body (ControllerBase.setTracing env traceId) := by
    unfold ControllerBase.setTracing
    dsimp only
    have hmod : ∀ t, Body (modify fun w => w.setUseCase .controller
        ((w.useCase .controller).setTraceId t) : M PUnit) := fun t =>
      quiet (Quiets.modify fun w => ⟨rfl, rfl, rfl, rfl, rfl, rfl, rfl⟩)
    split
    · exact (quiet (Quiets.uuid4 env .trace)).bind hmod
    · exact (Body.pure _).bind hmod
  exact hset.bind fun _ => h.bind fun _ => Body.flush.bind fun _ => Body.pure _

section
variable {α : Type} (env : Env) (traceId : Option String) {func : M α} {w : World}

/-- What the wrapper's `try` leaves: the body's own outcome, except that an
    `Exception` is rolled back, the buffer emptied, and the exception renamed. -/
theorem guarded_cases (h : Body func) (w : World) :
    (∃ a w₁, ControllerBase.traced env traceId func w.entered = .ok a w₁ ∧
      ControllerBase.guarded env traceId func w.entered = .ok a w₁ ∧
      Worked w.entered w₁ ∧ Live 1 w₁) ∨
    (∃ e w₁, ControllerBase.traced env traceId func w.entered = .error e w₁ ∧
      e.isException = true ∧ ControllerBase.guarded env traceId func w.entered =
        .error (ControllerBase.reraised e) w₁.cleaned ∧ Undone e w.entered w₁ ∧ Live 1 w₁) ∨
    (∃ e w₁, ControllerBase.traced env traceId func w.entered = .error e w₁ ∧
      e.isException = false ∧ ControllerBase.guarded env traceId func w.entered = .error e w₁ ∧
      Undone e w.entered w₁ ∧ Live 1 w₁) := by
  have hdoes := (h.traced env traceId).does 1 (by omega) w.entered w.entered_live w.entered rfl
  unfold ControllerBase.guarded
  cases ht : ControllerBase.traced env traceId func w.entered with
  | ok a w₁ =>
    rw [ht] at hdoes
    exact Or.inl ⟨a, w₁, rfl, tryCatch_ok ht, hdoes⟩
  | error e w₁ =>
    rw [ht] at hdoes
    cases he : e.isException with
    | true =>
      obtain ⟨s, hs⟩ := hdoes.2.2
      refine Or.inr (Or.inl ⟨e, w₁, rfl, he, tryCatch_error ht (run_ite_pos he ?_), hdoes⟩)
      exact bind_ok (rollback_run hs) (bind_ok (modify_run _ _) rfl)
    | false =>
      exact Or.inr (Or.inr ⟨e, w₁, rfl, he, tryCatch_error ht (run_ite_neg (by simp [he]) rfl), hdoes⟩)

theorem World.cleaned_live {w : World} (h : Live 1 w) : Live 1 w.cleaned := ⟨h.1, _, rfl⟩

theorem guarded_live (h : Body func) (w : World) :
    Live 1 (stateOf (ControllerBase.guarded env traceId func w.entered)) := by
  rcases guarded_cases env traceId h w with
    ⟨a, w₁, _, hg, _, hl⟩ | ⟨e, w₁, _, _, hg, _, hl⟩ | ⟨e, w₁, _, _, hg, _, hl⟩ <;> rw [hg]
  · exact hl
  · exact World.cleaned_live hl
  · exact hl

theorem guarded_db (h : Body func) (w : World) :
    (stateOf (ControllerBase.guarded env traceId func w.entered)).db = w.db := by
  rcases guarded_cases env traceId h w with
    ⟨a, w₁, _, hg, hw, _⟩ | ⟨e, w₁, _, _, hg, hu, _⟩ | ⟨e, w₁, _, _, hg, hu, _⟩ <;> rw [hg]
  · exact (Undone.of_worked (.exception "") hw).db
  · exact hu.db
  · exact hu.db

/-- The outermost scope commits what its body left, or fails without a commit. -/
theorem withSession_cases {body : M α} (h0 : w.provider.sessionCount = 0)
    (hl : Live 1 (stateOf (body w.entered))) :
    ((stateOf (body w.entered)).CommitGoesThrough ∧
      ∃ s, (stateOf (body w.entered)).provider.session = some s ∧
        SessionProvider.withSession body w = match body w.entered with
          | .ok a w₁ => .ok a (w₁.afterCommit s)
          | .error e w₁ => .error e (w₁.afterCommit s)) ∨
    (¬(stateOf (body w.entered)).CommitGoesThrough ∧
      ∃ e w', SessionProvider.withSession body w = .error e w' ∧
        Abandoned (stateOf (body w.entered)) w') := by
  obtain ⟨hc, s, hs⟩ := hl
  -- the exit action runs whichever way the body ends
  have hrun : ∀ r, (do
      let a ← tryCatch body (fun e => do SessionProvider.aexit; throw e)
      SessionProvider.aexit
      pure a : M α) w.entered = r → SessionProvider.withSession body w = r :=
    fun r hr => bind_ok (aenter_outer h0) hr
  by_cases hg : (stateOf (body w.entered)).CommitGoesThrough
  · refine Or.inl ⟨hg, s, hs, hrun _ ?_⟩
    cases hb : body w.entered with
    | ok a w₁ =>
      rw [hb] at hc hs hg
      exact bind_ok (tryCatch_ok hb) (bind_ok (aexit_commits hc hs hg) rfl)
    | error e w₁ =>
      rw [hb] at hc hs hg
      exact bind_error (tryCatch_error hb (bind_ok (aexit_commits hc hs hg) rfl))
  · refine Or.inr ⟨hg, ?_⟩
    cases hb : body w.entered with
    | ok a w₁ =>
      rw [hb] at hc hs hg
      obtain ⟨e, w', he, ha⟩ := aexit_fails hc hs hg
      exact ⟨e, w', hrun _ (bind_ok (tryCatch_ok hb) (bind_error he)), ha⟩
    | error e₀ w₁ =>
      rw [hb] at hc hs hg
      obtain ⟨e, w', he, ha⟩ := aexit_fails hc hs hg
      exact ⟨e, w', hrun _ (bind_error (tryCatch_error hb (bind_error he))), ha⟩

/-- The three ways out of a controller method, by what its scope's body left in
    `w₁`: committed and published, committed with the body's exception, abandoned. -/
theorem connectDbSession_cases (h : Body func) (h0 : w.provider.sessionCount = 0) :
    (∃ a w₁ s, ControllerBase.guarded env traceId func w.entered = .ok a w₁ ∧
      w₁.CommitGoesThrough ∧ w₁.provider.session = some s ∧
      match ControllerBase.connectDbSession env traceId func w with
      | .ok a' w' => a' = a ∧ RabbitMqPublisher.Published (w₁.afterCommit s) w'
      | .error e w' => e.isException = false ∧ RabbitMqPublisher.Published (w₁.afterCommit s) w') ∨
    (∃ e w₁ s, ControllerBase.guarded env traceId func w.entered = .error e w₁ ∧
      w₁.CommitGoesThrough ∧ w₁.provider.session = some s ∧
      ControllerBase.connectDbSession env traceId func w = .error e (w₁.afterCommit s)) ∨
    (¬(stateOf (ControllerBase.guarded env traceId func w.entered)).CommitGoesThrough ∧
      ∃ e w', ControllerBase.connectDbSession env traceId func w = .error e w' ∧
        Abandoned (stateOf (ControllerBase.guarded env traceId func w.entered)) w') := by
  have hl := guarded_live env traceId h w
  unfold ControllerBase.connectDbSession
  rcases withSession_cases h0 hl with ⟨hg, s, hs, hrun⟩ | ⟨hg, e, w', hrun, ha⟩
  · cases hb : ControllerBase.guarded env traceId func w.entered with
    | ok a w₁ =>
      rw [hb] at hg hs hrun
      refine Or.inl ⟨a, w₁, s, rfl, hg, hs, ?_⟩
      rw [bind_ok hrun rfl, bind_ok (get_run _) rfl]
      by_cases hm : (w₁.afterCommit s).messages.isEmpty
      · rw [run_ite_pos hm rfl]
        exact ⟨rfl, RabbitMqPublisher.Published.refl _⟩
      · -- the commit is done, and publishing can undo nothing of it
        have hpub := RabbitMqPublisher.publishMessages_published (w₁.afterCommit s) _ rfl
        rw [run_ite_neg hm rfl]
        cases hp : RabbitMqPublisher.publishMessages (w₁.afterCommit s) with
        | ok u w' =>
          rw [hp] at hpub
          rw [bind_ok hp rfl]
          exact ⟨rfl, hpub⟩
        | error e w' =>
          rw [hp] at hpub
          rw [bind_error hp]
          exact hpub
    | error e w₁ =>
      rw [hb] at hg hs hrun
      exact Or.inr (Or.inl ⟨e, w₁, s, rfl, hg, hs, bind_error hrun⟩)
  · exact Or.inr (Or.inr ⟨hg, e, w', bind_error hrun, ha⟩)

/-! ## Atomicity -/

theorem connectDbSession_exception (h : Body func) (h0 : w.provider.sessionCount = 0) {e : Exc}
    {w' : World} (hr : ControllerBase.connectDbSession env traceId func w = .error e w')
    (he : e.isException = true) : w'.db = w.db := by
  have hdb := guarded_db env traceId h w
  rcases connectDbSession_cases env traceId h h0 with
    ⟨a, w₁, s, hg, _, hs, hrun⟩ | ⟨e', w₁, s, hg, _, hs, hrun⟩ | ⟨_, e', w₂, hrun, ha⟩
  · -- publishing raises no `Exception`
    rw [hr] at hrun
    have hne := hrun.1
    rw [he] at hne
    cases hne
  · rw [hr] at hrun
    cases hrun
    rw [hg] at hdb
    change s.flushed.view = w.db
    rcases guarded_cases env traceId h w with
      ⟨a, w₂, _, hg', _⟩ | ⟨e₀, w₂, _, _, hg', _, _⟩ | ⟨e₀, w₂, _, he₀, hg', _, _⟩
    · rw [hg] at hg'; cases hg'
    · -- what is committed is what the rollback left: nothing
      rw [hg] at hg'
      cases hg'
      cases hs
      exact hdb
    · rw [hg] at hg'
      cases hg'
      rw [he] at he₀
      cases he₀
  · rw [hr] at hrun
    cases hrun
    exact ha.db.trans hdb

/-- A method that returns has committed once, at its outermost exit, all that was
    written since its start, in one transaction. -/
theorem connectDbSession_ok (h : Body func) (h0 : w.provider.sessionCount = 0) {a : α}
    {w' : World} (hr : ControllerBase.connectDbSession env traceId func w = .ok a w') :
    ∃ ps, w'.db = w.db.writeAll w.clock ps ∧
      w'.journal = w.journal ++ (w.tx + 1, .opened) :: ps.map (fun p => (w.tx + 1, .write p)) ++
        [(w.tx + 1, .commitCalled), (w.tx + 1, .committed), (w.tx + 1, .closed)] := by
  rcases connectDbSession_cases env traceId h h0 with
    ⟨a', w₁, s, hg, _, hs, hrun⟩ | ⟨e', w₁, s, hg, _, hs, hrun⟩ | ⟨_, e', w₂, hrun, ha⟩
  · rw [hr] at hrun
    rcases guarded_cases env traceId h w with
      ⟨a₂, w₂, _, hg', hw, _⟩ | ⟨e₀, w₂, _, _, hg', _, _⟩ | ⟨e₀, w₂, _, he₀, hg', _, _⟩
    · rw [hg] at hg'
      cases hg'
      obtain ⟨s', ps, hwrote⟩ := hw.wrote (s := w.opened) rfl
      have hs' : s = s' := Option.some.inj (hs.symm.trans hwrote.session)
      subst hs'
      refine ⟨ps, ?_, ?_⟩
      · rw [hrun.2.db]
        exact hwrote.view
      · rw [hrun.2.journal]
        change w₁.journal ++ _ = _
        rw [hwrote.journal, hwrote.tx]
        change w.journal ++ [(w.tx + 1, .opened)] ++ _ ++ _ = _
        simp
        rfl
    · rw [hg] at hg'; cases hg'
    · rw [hg] at hg'; cases hg'
  · rw [hr] at hrun; cases hrun
  · rw [hr] at hrun; cases hrun

/-! ## Abnormal exits -/

/-- What was asked of the session between `w` and `w'`. -/
def World.since (w w' : World) : List (Nat × SessionAction) :=
  w'.journal.drop w.journal.length

/-- Nothing written between `w` and `w'` is committed. -/
structure LeavesNothing (w w' : World) : Prop where
  db : w'.db = w.db
  uncommitted : ∀ tx p, (tx, SessionAction.write p) ∈ w.since w' →
    (tx, SessionAction.committed) ∉ w.since w'

/-- Since `w` no commit, and no entry ahead of the transaction under way. -/
def Logged (w t : World) : Prop :=
  ∃ js, t.journal = w.journal ++ js ∧ ∀ a ∈ js, a.1 ≤ t.tx ∧ a.2 ≠ .committed

theorem Logged.same {w t t' : World} (h : Logged w t) (hj : t'.journal = t.journal)
    (ht : t'.tx = t.tx) : Logged w t' := by
  obtain ⟨js, h1, h2⟩ := h
  exact ⟨js, hj.trans h1, by rw [ht]; exact h2⟩

theorem Logged.note {w t t' : World} (h : Logged w t) {a : SessionAction} (ha : a ≠ .committed)
    (hj : t'.journal = t.journal ++ [(t.tx, a)]) (ht : t.tx ≤ t'.tx) : Logged w t' := by
  obtain ⟨js, h1, h2⟩ := h
  refine ⟨js ++ [(t.tx, a)], by rw [hj, h1, List.append_assoc], ?_⟩
  intro b hb
  rcases List.mem_append.mp hb with hb | hb
  · have := h2 b hb
    exact ⟨by omega, this.2⟩
  · rw [List.mem_singleton.mp hb]
    exact ⟨ht, ha⟩

theorem Work.logged {w t t' : World} (h : Work t t') (hi : Logged w t) : Logged w t' := by
  cases h with
  | quiet h => exact hi.same h.journal h.tx
  | enqueue hs p => exact hi.note (by simp) rfl (Nat.le_refl t.tx)
  | _ => exact hi

theorem Undo.logged {e : Exc} {w t t' : World} (h : Undo e t t') (hi : Logged w t) :
    Logged w t' := by
  cases h with
  | quiet h => exact hi.same h.journal h.tx
  | rollback he hs => exact hi.note (by simp) rfl (Nat.le_succ t.tx)
  | _ => exact hi

theorem World.entered_logged (w : World) : Logged w w.entered :=
  ⟨[(w.tx + 1, .opened)], rfl, by simp [World.entered, World.setCount, SessionProvider.openSession,
    World.setSession, World.note]⟩

/-- What the body leaves to an exception nobody rolls back: all its writes in the
    session, or a session that is inactive. -/
theorem Undone.wrote {w w₁ : World} {e : Exc} (he : e.isException = false)
    (h : Undone e w.entered w₁) : ∃ s, w₁.provider.session = some s ∧
      (s.active = true → ∃ ps, Wrote w.entered w.opened ps w₁ s) := by
  obtain ⟨t, ht, hu⟩ := h
  induction hu with
  | refl =>
    obtain ⟨s, ps, hs⟩ := ht.wrote (s := w.opened) rfl
    exact ⟨s, hs.session, fun _ => ⟨ps, hs⟩⟩
  | tail _ hstep ih =>
    obtain ⟨s, hs, hwrote⟩ := ih
    cases hstep with
    | quiet hq =>
      refine ⟨s, by rw [hq.provider]; exact hs, fun ha => ?_⟩
      obtain ⟨ps, h⟩ := hwrote ha
      exact ⟨ps, by rw [hq.provider]; exact hs, h.active, h.now, h.view, hq.tx.trans h.tx,
        hq.journal.trans h.journal⟩
    | count n =>
      refine ⟨s, hs, fun ha => ?_⟩
      obtain ⟨ps, h⟩ := hwrote ha
      exact ⟨ps, hs, h.active, h.now, h.view, h.tx, h.journal⟩
    | deactivate _ => exact ⟨_, rfl, fun ha => (nomatch ha)⟩
    | rollback he' _ => rw [he] at he'; cases he'

theorem guarded_logged (h : Body func) (w : World) :
    Logged w (stateOf (ControllerBase.guarded env traceId func w.entered)) := by
  have hwork : ∀ t t', Work t t' → Logged w t → Logged w t' := fun _ _ hs => hs.logged
  have hundo : ∀ e t t', Undo e t t' → Logged w t → Logged w t' := fun _ _ _ hs => hs.logged
  rcases guarded_cases env traceId h w with
    ⟨a, w₁, _, hg, hw, _⟩ | ⟨e, w₁, _, _, hg, hu, _⟩ | ⟨e, w₁, _, _, hg, hu, _⟩ <;> rw [hg]
  · exact hw.preserves hwork w.entered_logged
  · have hl := hu.preserves hwork (hundo e) w.entered_logged
    exact (Logged.note hl (by simp) rfl (Nat.le_succ w₁.tx) : Logged w w₁.rolledBack).same rfl rfl
  · exact hu.preserves hwork (hundo e) w.entered_logged

theorem Logged.since {w₁ : World} (h : Logged w w₁) : w₁.journal = w.journal ++ w.since w₁ := by
  obtain ⟨js, hj, _⟩ := h
  rw [World.since, hj, List.drop_left]

theorem Logged.not_committed {w₁ : World} (h : Logged w w₁) (tx : Nat) :
    (tx, SessionAction.committed) ∉ w.since w₁ := by
  obtain ⟨js, hj, hjs⟩ := h
  rw [World.since, hj, List.drop_left]
  exact fun hm => (hjs _ hm).2 rfl

theorem Logged.not_committed_abandoned {w₁ w' : World} (h : Logged w w₁) (ha : Abandoned w₁ w')
    (tx : Nat) : (tx, SessionAction.committed) ∉ w.since w' := by
  obtain ⟨js, hj, hjs⟩ := ha.journal
  rw [World.since, hj, h.since, List.append_assoc, List.drop_left, List.mem_append]
  rintro (hc | hc)
  · exact h.not_committed tx hc
  · exact hjs _ hc rfl

theorem Logged.since_commit {w₁ : World} (h : Logged w w₁) (s : AsyncSession) :
    w.since (w₁.afterCommit s) = w.since w₁ ++
      [(w₁.tx, .commitCalled), (w₁.tx, .committed), (w₁.tx, .closed)] := by
  change List.drop w.journal.length (w₁.journal ++ _) = _
  rw [h.since, List.append_assoc, List.drop_left]

/-- A commit of a session that changes nothing, in a transaction that wrote nothing. -/
theorem Logged.leaves_nothing {w₁ : World} (h : Logged w w₁) {s : AsyncSession}
    (hs : s.flushed.view = w.db) (hno : ∀ p, (w₁.tx, SessionAction.write p) ∉ w.since w₁) :
    LeavesNothing w (w₁.afterCommit s) := by
  refine ⟨hs, fun tx p hp hc => ?_⟩
  rw [h.since_commit, List.mem_append] at hp hc
  have htx : tx = w₁.tx := by
    rcases hc with hc | hc
    · exact absurd hc (h.not_committed tx)
    · simpa using hc
  rcases hp with hp | hp
  · exact hno p (htx ▸ hp)
  · simp at hp

theorem Undone.leaves_nothing {w₁ : World} {e : Exc} (hu : Undone e w.entered w₁) :
    LeavesNothing w (w₁.cleaned.afterCommit w₁.opened) := by
  have hlog := hu.preserves (fun _ _ hs => hs.logged) (fun _ _ hs => hs.logged) w.entered_logged
  have hclean : Logged w w₁.cleaned :=
    (Logged.note hlog (by simp) rfl (Nat.le_succ w₁.tx) : Logged w w₁.rolledBack).same rfl rfl
  refine hclean.leaves_nothing hu.db fun p hp => ?_
  have hsince : w.since w₁.cleaned = w.since w₁ ++ [(w₁.tx, .rolledBack)] := by
    change List.drop w.journal.length (w₁.journal ++ [_]) = _
    rw [hlog.since, List.append_assoc, List.drop_left]
  rw [hsince, List.mem_append] at hp
  rcases hp with hp | hp
  · obtain ⟨js, hj, hjs⟩ := hlog
    rw [World.since, hj, List.drop_left] at hp
    have hle : w₁.tx + 1 ≤ w₁.tx := (hjs _ hp).1
    omega
  · simp at hp

/-- What an exception that is no `Exception` left is committed, if there is any. -/
theorem Undone.leaves_nothing_iff {w₁ : World} {e : Exc} (he : e.isException = false)
    (hu : Undone e w.entered w₁) {s : AsyncSession} (hs : w₁.provider.session = some s)
    (hg : w₁.CommitGoesThrough) : LeavesNothing w (w₁.afterCommit s) ↔
      ∀ p, (w₁.tx, SessionAction.write p) ∉ w.since w₁ := by
  have hlog := hu.preserves (fun _ _ hs => hs.logged) (fun _ _ hs => hs.logged) w.entered_logged
  constructor
  · intro hL p hp
    refine hL.uncommitted w₁.tx p ?_ ?_
    · rw [hlog.since_commit]
      exact List.mem_append_left _ hp
    · rw [hlog.since_commit]
      simp
  · intro hno
    obtain ⟨s', hs', hwrote⟩ := hu.wrote he
    obtain ⟨s'', hs'', ha, _⟩ := hg
    have h1 : s' = s := Option.some.inj (hs'.symm.trans hs)
    have h2 : s'' = s := Option.some.inj (hs''.symm.trans hs)
    rw [h2] at ha
    rw [h1] at hwrote
    obtain ⟨ps, hps⟩ := hwrote ha
    have hsince : w.since w₁ = (w.tx + 1, .opened) :: ps.map fun p => (w.tx + 1, .write p) := by
      rw [World.since, hps.journal]
      change List.drop w.journal.length (w.journal ++ [_] ++ _) = _
      rw [List.append_assoc, List.drop_left]
      rfl
    -- the writes are all in the transaction under way, so there are none
    have hnil : ps = [] := by
      cases ps with
      | nil => rfl
      | cons p ps =>
        refine absurd ?_ (hno p)
        rw [hsince, hps.tx]
        exact List.mem_cons_of_mem _ List.mem_cons_self
    refine hlog.leaves_nothing ?_ hno
    rw [hps.view, hnil]
    rfl

theorem Work.tx {w w' : World} (h : Work w w') : w'.tx = w.tx := by
  cases h with
  | quiet h => exact h.tx
  | _ => rfl

theorem Undo.tx {e : Exc} {w w' : World} (h : Undo e w w') : w.tx ≤ w'.tx := by
  cases h with
  | quiet h => exact Nat.le_of_eq h.tx.symm
  | rollback he hs => exact Nat.le_succ w.tx
  | _ => exact Nat.le_refl w.tx

/-- The transaction under way is the one opened, or one begun by a rollback. -/
theorem Undone.tx {e : Exc} {w w₁ : World} (h : Undone e w.entered w₁) : w.tx + 1 ≤ w₁.tx := by
  refine h.preserves (I := fun t => w.tx + 1 ≤ t.tx) (fun t t' hs hi => ?_) (fun t t' hs hi => ?_)
    (Nat.le_refl (w.tx + 1))
  · rw [hs.tx]
    exact hi
  · exact Nat.le_trans hi hs.tx

/-- A method that raises an `Exception` has not committed the transaction it opened. What it
    commits after a rollback is another one, and empty. -/
theorem connectDbSession_uncommitted (h : Body func) (h0 : w.provider.sessionCount = 0) {e : Exc}
    {w' : World} (hr : ControllerBase.connectDbSession env traceId func w = .error e w')
    (he : e.isException = true) : (w.tx + 1, SessionAction.committed) ∉ w.since w' := by
  have hlog := guarded_logged env traceId h w
  rcases connectDbSession_cases env traceId h h0 with
    ⟨a, w₁, s, hg, _, hs, hrun⟩ | ⟨e', w₁, s, hg, _, hs, hrun⟩ | ⟨_, e', w₂, hrun, ha⟩
  · rw [hr] at hrun
    have hne := hrun.1
    rw [he] at hne
    cases hne
  · rw [hr] at hrun
    cases hrun
    rcases guarded_cases env traceId h w with
      ⟨a, w₂, _, hg', _⟩ | ⟨e₀, w₂, _, _, hg', hu, _⟩ | ⟨e₀, w₂, _, he₀, hg', _, _⟩
    · rw [hg] at hg'
      cases hg'
    · -- the rollback began a transaction with a number of its own
      rw [hg] at hg'
      cases hg'
      rw [hg] at hlog
      have hlog : Logged w w₂.cleaned := hlog
      have htx : w.tx + 1 ≤ w₂.tx := hu.tx
      rw [hlog.since_commit, List.mem_append]
      rintro (hc | hc)
      · exact hlog.not_committed _ hc
      · have heq : w.tx + 1 = w₂.tx + 1 := by simpa [World.cleaned, World.rolledBack,
          World.setSession] using hc
        omega
    · rw [hg] at hg'
      cases hg'
      rw [he] at he₀
      cases he₀
  · rw [hr] at hrun
    cases hrun
    exact hlog.not_committed_abandoned ha _

theorem reraised_isException (e : Exc) :
    (ControllerBase.reraised e).isException = e.isException := by
  cases e <;> rfl

/-- An exception that escapes the outermost scope leaves nothing committed if and
    only if it is an `Exception`, or the commit does not go through, or the
    transaction has written nothing. -/
theorem withSession_leaves_nothing_iff (h : Body func) (h0 : w.provider.sessionCount = 0) {e : Exc}
    {w' : World}
    (hr : SessionProvider.withSession (ControllerBase.guarded env traceId func) w = .error e w') :
    LeavesNothing w w' ↔ e.isException = true ∨
      ¬(stateOf (ControllerBase.guarded env traceId func w.entered)).CommitGoesThrough ∨
      ∀ p, ((stateOf (ControllerBase.guarded env traceId func w.entered)).tx,
        SessionAction.write p) ∉
          w.since (stateOf (ControllerBase.guarded env traceId func w.entered)) := by
  rcases withSession_cases h0 (guarded_live env traceId h w) with
    ⟨hg, s, hs, hrun⟩ | ⟨hg, e', w'', hrun, ha⟩
  · rcases guarded_cases env traceId h w with
      ⟨a, w₁, _, hb, _⟩ | ⟨e₀, w₁, _, he, hb, hu, _⟩ | ⟨e₀, w₁, _, he, hb, hu, _⟩
    · rw [hb, hr] at hrun
      cases hrun
    · -- rolled back, so there is nothing to commit
      rw [hb, hr] at hrun
      rw [hb] at hs
      cases hrun
      cases hs
      exact iff_of_true hu.leaves_nothing (Or.inl ((reraised_isException e₀).trans he))
    · rw [hb, hr] at hrun
      rw [hb] at hg hs
      cases hrun
      -- no `Exception`, so nobody rolled back: what the body wrote is committed
      have hiff := hu.leaves_nothing_iff he hs hg
      rw [hb]
      constructor
      · exact fun hL => Or.inr (Or.inr (hiff.mp hL))
      · intro hc
        rcases hc with he' | hn | hno
        · rw [he] at he'; cases he'
        · exact absurd hg hn
        · exact hiff.mpr hno
  · rw [hr] at hrun
    cases hrun
    have hlog := guarded_logged env traceId h w
    exact iff_of_true ⟨ha.db.trans (guarded_db env traceId h w),
      fun tx p _ => hlog.not_committed_abandoned ha tx⟩ (Or.inr (Or.inl hg))

end

/-- A call that has created an aggregate when `e` is raised in it. -/
def interrupted (e : Exc) : M Response := do
  let _ ← YourAggregateController.batch (YourAggregateController.createOne .plain)
    [⟨⟨none, none, none, none, none⟩, none, ⟨"value", 1⟩⟩]
  throw e

theorem interrupted_body (e : Exc) : Body (interrupted e) :=
  (Body.method .plain (c := .create [⟨⟨none, none, none, none, none⟩, none, ⟨"value", 1⟩⟩]) rfl).bind
    fun _ => Body.throw e

/-- The row the interrupted call created is committed. -/
theorem interrupted_call_commits :
    ∃ w', SessionProvider.withSession (ControllerBase.guarded .plain none
        (interrupted (.baseException "KeyboardInterrupt"))) (World.init []) =
          .error (.baseException "KeyboardInterrupt") w' ∧ ¬LeavesNothing (World.init []) w' := by
  refine ⟨_, eq_error_of_raised (by decide +kernel), fun h => ?_⟩
  have hrow := congrArg (fun db => (db.yourAggregate "a").isSome) h.db
  exact absurd hrow (by decide +kernel)

/-- The same call, stopped by an `Exception`. -/
theorem stopped_call_leaves_nothing :
    ∃ w', SessionProvider.withSession (ControllerBase.guarded .plain none
        (interrupted (.runtimeError "stopped"))) (World.init []) =
          .error (.runtimeError "stopped") w' ∧ LeavesNothing (World.init []) w' := by
  have hrun := eq_error_of_raised (r := SessionProvider.withSession (ControllerBase.guarded .plain
    none (interrupted (.runtimeError "stopped"))) (World.init []))
    (e := .runtimeError "stopped") (by decide +kernel)
  exact ⟨_, hrun, (withSession_leaves_nothing_iff .plain none (interrupted_body _) rfl hrun).mpr
    (Or.inl rfl)⟩

end DddService
