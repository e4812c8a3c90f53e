import DddService.World
import Mathlib.Logic.Relation

/- What the session and its scope do to the world, one equation or one case
   analysis for each operation. Everything later is proved from these.

   `Quiet` steps touch neither the database nor what is waiting to reach it or
   the broker. The outermost `__aexit__` has two outcomes: `afterCommit`, when
   the session is active and the environment lets the flush and the commit
   through (`CommitGoesThrough`), and `Abandoned` otherwise. -/
namespace DddService
open Hoare

/-! ## Quiet steps -/

/-- The database, the session, the buffer and the broker are as they were. -/
structure Quiet (w w' : World) : Prop where
  db : w'.db = w.db
  provider : w'.provider = w.provider
  messages : w'.messages = w.messages
  sent : w'.sent = w.sent
  tx : w'.tx = w.tx
  journal : w'.journal = w.journal
  pushed : w'.pushed = w.pushed

theorem Quiet.refl (w : World) : Quiet w w := ⟨rfl, rfl, rfl, rfl, rfl, rfl, rfl⟩

theorem Quiet.trans {w w' w'' : World} (h : Quiet w w') (h' : Quiet w' w'') : Quiet w w'' :=
  ⟨h'.db.trans h.db, h'.provider.trans h.provider, h'.messages.trans h.messages,
    h'.sent.trans h.sent, h'.tx.trans h.tx, h'.journal.trans h.journal, h'.pushed.trans h.pushed⟩

theorem Quiet.advance (w : World) : Quiet w w.advance := ⟨rfl, rfl, rfl, rfl, rfl, rfl, rfl⟩

/-- A program all of whose exits are quiet. -/
def Quiets {α : Type} (x : M α) : Prop := ∀ w, Quiet w (stateOf (x w))

namespace Quiets
variable {α β : Type}

theorem pure (a : α) : Quiets (pure a : M α) := fun w => Quiet.refl w

theorem throw (e : Exc) : Quiets (throw e : M α) := fun w => Quiet.refl w

theorem get : Quiets (get : M World) := fun w => Quiet.refl w

theorem awaitPoint : Quiets awaitPoint := by
  intro w
  rw [awaitPoint_run]
  cases w.nextFault <;> exact Quiet.advance w

theorem datetimeNow : Quiets datetimeNow := fun _ => ⟨rfl, rfl, rfl, rfl, rfl, rfl, rfl⟩

theorem uuid4 (env : Env) (kind : UuidKind) : Quiets (uuid4 env kind) :=
  fun _ => ⟨rfl, rfl, rfl, rfl, rfl, rfl, rfl⟩

theorem modify {f : World → World} (h : ∀ w, Quiet w (f w)) : Quiets (modify f : M PUnit) := h

theorem bind {x : M α} {f : α → M β} (hx : Quiets x) (hf : ∀ a, Quiets (f a)) :
    Quiets (x >>= f) := by
  intro w
  have h1 := hx w
  rw [bind_run]
  cases h : x w with
  | ok a t =>
    rw [h] at h1
    exact h1.trans (hf a t)
  | error e t =>
    rw [h] at h1
    exact h1

theorem tryCatch {x : M α} {k : Exc → M α} (hx : Quiets x) (hk : ∀ e, Quiets (k e)) :
    Quiets (tryCatch x k) := by
  intro w
  have h1 := hx w
  rw [tryCatch_run]
  cases h : x w with
  | ok a t =>
    rw [h] at h1
    exact h1
  | error e t =>
    rw [h] at h1
    exact h1.trans (hk e t)

theorem currentSession : Quiets currentSession := by
  refine bind get fun w => ?_
  cases w.provider.session with
  | none => exact throw _
  | some s => exact pure s

theorem sessionGet (pkey : String) : Quiets (AsyncSession.get pkey) := by
  refine bind currentSession fun s => ?_
  split
  · exact throw _
  · exact bind awaitPoint fun _ => pure _

theorem getTraceId (env : Env) : Quiets (getTraceId env) := by
  refine bind get fun w => ?_
  dsimp only
  split
  · refine (uuid4 env .trace).bind fun t => bind ?_ fun _ => pure t
    exact modify fun w => ⟨rfl, rfl, rfl, rfl, rfl, rfl, rfl⟩
  · exact pure _

end Quiets

/-! ## The session's operations -/

theorem currentSession_run {w : World} {s : AsyncSession} (h : w.provider.session = some s) :
    currentSession w = .ok s w :=
  bind_ok (get_run w) (by rw [h]; rfl)

/-- The session after a flush. -/
def AsyncSession.flushed (s : AsyncSession) : AsyncSession :=
  { s with view := s.view.writeAll s.now s.pending, pending := [] }

/-- `w` after `session.add` or `session.delete`. -/
def World.enqueued (w : World) (s : AsyncSession) (p : Pending) : World :=
  (w.note (.write p)).setSession (some { s with pending := s.pending ++ [p] })

/-- `w` after a rollback. -/
def World.rolledBack (w : World) : World :=
  { w.note .rolledBack with tx := w.tx + 1 }.setSession
    (some { view := w.db, pending := [], active := true, now := w.clock })

section
variable {w : World} {s : AsyncSession}

theorem enqueue_run (h : w.provider.session = some s) (p : Pending) :
    AsyncSession.enqueue p w = .ok () (w.enqueued s p) :=
  bind_ok (currentSession_run h) rfl

theorem rollback_run (h : w.provider.session = some s) :
    AsyncSession.rollback w = .ok () w.rolledBack :=
  bind_ok (currentSession_run h) rfl

theorem close_run (h : w.provider.session = some s) :
    AsyncSession.close w = .ok () (w.note .closed) :=
  bind_ok (currentSession_run h) rfl

theorem sessionGet_ok (h : w.provider.session = some s) (ha : s.active = true)
    (hf : w.nextFault = none) (pkey : String) :
    AsyncSession.get pkey w = .ok (s.view.yourAggregate pkey) w.advance :=
  bind_ok (currentSession_run h) (run_ite_neg (by simp [ha]) (bind_ok (awaitPoint_ok hf) rfl))

theorem sessionGet_error (h : w.provider.session = some s) (ha : s.active = true) {e : Exc}
    (hf : w.nextFault = some e) (pkey : String) :
    AsyncSession.get pkey w = .error e w.advance :=
  bind_ok (currentSession_run h) (run_ite_neg (by simp [ha]) (bind_error (awaitPoint_error hf)))

theorem flush_nil (h : w.provider.session = some s) (hp : s.pending = []) :
    AsyncSession.flush w = .ok () w :=
  bind_ok (currentSession_run h) (run_ite_pos (by simp [hp]) rfl)

theorem flush_inactive (h : w.provider.session = some s) (hp : s.pending ≠ [])
    (ha : s.active = false) : AsyncSession.flush w =
      .error (.invalidRequestError "This Session's transaction has been rolled back") w :=
  bind_ok (currentSession_run h) (run_ite_neg (by simpa using hp) (run_ite_pos ha rfl))

theorem flush_ok (h : w.provider.session = some s) (hp : s.pending ≠ []) (ha : s.active = true)
    (hf : w.nextFault = none) :
    AsyncSession.flush w = .ok () (w.advance.setSession (some s.flushed)) := by
  refine bind_ok (currentSession_run h) (run_ite_neg (by simpa using hp) (run_ite_neg (by simp [ha]) ?_))
  exact bind_ok (tryCatch_ok (awaitPoint_ok hf)) rfl

theorem flush_error (h : w.provider.session = some s) (hp : s.pending ≠ []) (ha : s.active = true)
    {e : Exc} (hf : w.nextFault = some e) :
    AsyncSession.flush w = .error e (AsyncSession.deactivate s w.advance) := by
  refine bind_ok (currentSession_run h) (run_ite_neg (by simpa using hp) (run_ite_neg (by simp [ha]) ?_))
  exact bind_error (tryCatch_error (awaitPoint_error hf) rfl)

end

/-! ## The scope -/

/-- The session is active and the environment lets the flush, if there is
    anything to flush, and the commit through. -/
def World.CommitGoesThrough (w : World) : Prop :=
  ∃ s, w.provider.session = some s ∧ s.active = true ∧ w.nextFault = none ∧
    (s.pending ≠ [] → w.advance.nextFault = none)

/-- The world when the outermost scope has committed and closed its session. -/
def World.afterCommit (w : World) (s : AsyncSession) : World :=
  { w with
    db := s.flushed.view
    provider := ⟨none, 0⟩
    faults := if s.pending = [] then w.faults.tail else w.faults.tail.tail
    journal := w.journal ++ [(w.tx, .commitCalled), (w.tx, .committed), (w.tx, .closed)] }

/-- The outermost scope was left without a commit. -/
structure Abandoned (w w' : World) : Prop where
  db : w'.db = w.db
  count : w'.provider.sessionCount = 0
  messages : w'.messages = w.messages
  sent : w'.sent = w.sent
  pushed : w'.pushed = w.pushed
  drawn : w'.drawn = w.drawn
  tx : w.tx ≤ w'.tx
  journal : ∃ js, w'.journal = w.journal ++ js ∧ ∀ a ∈ js, a.2 ≠ .committed

theorem aenter_outer {w : World} (h : w.provider.sessionCount = 0) :
    SessionProvider.aenter w = .ok () ((SessionProvider.openSession w).setCount 1) := by
  have h1 : (SessionProvider.openSession w).provider.sessionCount + 1 = 1 := by
    change w.provider.sessionCount + 1 = 1
    omega
  refine bind_ok (get_run w) (run_ite_pos h (bind_ok (modify_run w _) ?_))
  exact congrArg (fun n => EStateM.Result.ok () ((SessionProvider.openSession w).setCount n)) h1

theorem aenter_inner {w : World} (h : w.provider.sessionCount ≠ 0) :
    SessionProvider.aenter w = .ok () (w.setCount (w.provider.sessionCount + 1)) :=
  bind_ok (get_run w) (run_ite_neg h rfl)

theorem aexit_inner {w : World} (h : 1 < w.provider.sessionCount) :
    SessionProvider.aexit w = .ok () (w.setCount (w.provider.sessionCount - 1)) := by
  refine bind_ok (modify_run w _) (bind_ok (get_run _) (run_ite_neg ?_ rfl))
  change ¬(w.provider.sessionCount - 1 ≤ 0)
  omega

section
variable {w : World} {s : AsyncSession}

/-- `commit` and `close`, as the outermost `__aexit__` runs them. -/
theorem commit_ok (h : w.provider.session = some s) (ha : s.active = true)
    (hf : w.nextFault = none) (hf' : s.pending ≠ [] → w.advance.nextFault = none) :
    ∃ w', AsyncSession.commit w = .ok () w' ∧ (∃ t, w'.provider.session = some t) ∧
      (w'.note .closed).setSession none =
        { w.afterCommit s with provider := ⟨none, w.provider.sessionCount⟩ } := by
  by_cases hp : s.pending = []
  · refine ⟨_, bind_ok (currentSession_run h) (bind_ok (modify_run w _) (run_ite_neg (by simp [ha])
      (bind_ok (flush_nil (s := s) h hp) (bind_ok (currentSession_run (s := s) h)
      (bind_ok (tryCatch_ok (awaitPoint_ok hf)) rfl))))), ⟨s, h⟩, ?_⟩
    simp [World.afterCommit, AsyncSession.flushed, Database.writeAll, hp, World.note,
      World.setSession, World.advance]
  · refine ⟨_, bind_ok (currentSession_run h) (bind_ok (modify_run w _) (run_ite_neg (by simp [ha])
      (bind_ok (flush_ok (s := s) h hp ha hf) (bind_ok (currentSession_run (s := s.flushed) rfl)
      (bind_ok (tryCatch_ok (awaitPoint_ok (hf' hp))) rfl))))), ⟨s.flushed, rfl⟩, ?_⟩
    simp [World.afterCommit, hp, World.note, World.setSession, World.advance]

/-- A commit that raises: the database, the buffer and the counters are as they
    were, and the session is still there. -/
theorem commit_error (h : w.provider.session = some s) (hn : ¬w.CommitGoesThrough) :
    ∃ e w', AsyncSession.commit w = .error e w' ∧ (∃ t, w'.provider.session = some t) ∧
      w'.db = w.db ∧ w'.provider.sessionCount = w.provider.sessionCount ∧
      w'.messages = w.messages ∧ w'.sent = w.sent ∧ w'.pushed = w.pushed ∧ w'.drawn = w.drawn ∧
      w'.tx = w.tx ∧ w'.journal = w.journal ++ [(w.tx, .commitCalled)] := by
  -- the part after the journal entry decides how it ends
  have start : ∀ {r}, (if s.active = false then throw (.invalidRequestError
        "This Session's transaction has been rolled back") else do
          AsyncSession.flush
          let s ← currentSession
          tryCatch awaitPoint (fun e => do modify (AsyncSession.deactivate s); throw e)
          modify fun w => { w.note .committed with db := s.view } : M Unit)
        (w.note .commitCalled) = r → AsyncSession.commit w = r :=
    fun hr => bind_ok (currentSession_run h) (bind_ok (modify_run w _) hr)
  cases ha : s.active with
  | false =>
    exact ⟨_, _, start (run_ite_pos ha rfl), ⟨s, h⟩, rfl, rfl, rfl, rfl, rfl, rfl, rfl, rfl⟩
  | true =>
    have hact : ¬s.active = false := by simp [ha]
    by_cases hp : s.pending = []
    · cases hf : w.nextFault with
      | none => exact absurd ⟨s, h, ha, hf, fun hp' => absurd hp hp'⟩ hn
      | some e =>
        have he : awaitPoint (w.note .commitCalled) = .error e (w.note .commitCalled).advance :=
          awaitPoint_error hf
        exact ⟨e, _, start (run_ite_neg hact (bind_ok (flush_nil (s := s) h hp)
          (bind_ok (currentSession_run (s := s) h) (bind_error (tryCatch_error he rfl))))),
          ⟨_, rfl⟩, rfl, rfl, rfl, rfl, rfl, rfl, rfl, rfl⟩
    · cases hf : w.nextFault with
      | some e =>
        have he : AsyncSession.flush (w.note .commitCalled) =
            .error e (AsyncSession.deactivate s (w.note .commitCalled).advance) :=
          flush_error (w := w.note .commitCalled) h hp ha hf
        exact ⟨e, _, start (run_ite_neg hact (bind_error he)),
          ⟨_, rfl⟩, rfl, rfl, rfl, rfl, rfl, rfl, rfl, rfl⟩
      | none =>
        cases hf' : w.advance.nextFault with
        | none => exact absurd ⟨s, h, ha, hf, fun _ => hf'⟩ hn
        | some e =>
          have he : awaitPoint ((w.note .commitCalled).advance.setSession (some s.flushed)) =
              .error e ((w.note .commitCalled).advance.setSession (some s.flushed)).advance :=
            awaitPoint_error hf'
          exact ⟨e, _, start (run_ite_neg hact (bind_ok (flush_ok (s := s) h hp ha hf)
            (bind_ok (currentSession_run (s := s.flushed) rfl)
            (bind_error (tryCatch_error he rfl))))),
            ⟨_, rfl⟩, rfl, rfl, rfl, rfl, rfl, rfl, rfl, rfl⟩

/-- What the outermost `__aexit__` does once the count is back at zero. -/
theorem aexit_outer {r : EStateM.Result Exc World Unit} (hc : w.provider.sessionCount = 1)
    (hr : (tryCatch
        (do AsyncSession.commit
            AsyncSession.close
            modify (World.setSession · none))
        (fun e => do
          if e.isException then do
            AsyncSession.rollback
            AsyncSession.close
            modify (World.setSession · none)
          throw e) : M Unit) (w.setCount 0) = r) : SessionProvider.aexit w = r := by
  refine bind_ok (modify_run w _) (bind_ok (get_run _) (run_ite_pos ?_ (bind_ok (modify_run _ _) hr)))
  change w.provider.sessionCount - 1 ≤ 0
  omega

theorem aexit_commits (hc : w.provider.sessionCount = 1) (h : w.provider.session = some s)
    (hg : w.CommitGoesThrough) : SessionProvider.aexit w = .ok () (w.afterCommit s) := by
  obtain ⟨s', h', ha, hf, hf'⟩ := hg
  rw [h] at h'
  cases h'
  obtain ⟨w', hw', ⟨t, ht⟩, heq⟩ := commit_ok (w := w.setCount 0) h ha hf hf'
  refine aexit_outer hc (tryCatch_ok (bind_ok hw' (bind_ok (close_run ht) ?_)))
  rw [modify_run, heq]
  rfl

theorem aexit_fails (hc : w.provider.sessionCount = 1) (h : w.provider.session = some s)
    (hg : ¬w.CommitGoesThrough) :
    ∃ e w', SessionProvider.aexit w = .error e w' ∧ Abandoned w w' := by
  obtain ⟨e, w', hw', ⟨t, ht⟩, hdb, hcount, hm, hs, hpu, hd, htx, hj⟩ :=
    commit_error (w := w.setCount 0) h hg
  have hcount' : w'.provider.sessionCount = 0 := hcount
  cases he : e.isException with
  | true =>
    -- the session is rolled back and closed, and the exception raised again
    refine ⟨e, (w'.rolledBack.note .closed).setSession none,
      aexit_outer hc (tryCatch_error (bind_error hw') (run_ite_pos he
        (bind_ok (rollback_run ht) (bind_ok (close_run rfl) (bind_ok (modify_run _ _) rfl))))), ?_⟩
    refine ⟨hdb, hcount', hm, hs, hpu, hd, Nat.le_succ_of_le (Nat.le_of_eq htx.symm), ?_⟩
    refine ⟨[(w.tx, .commitCalled), (w'.tx, .rolledBack), (w'.tx + 1, .closed)], ?_, by simp⟩
    change w'.journal ++ [(w'.tx, .rolledBack)] ++ [(w'.tx + 1, .closed)] = _
    rw [hj]
    simp
    rfl
  | false =>
    refine ⟨e, w', aexit_outer hc (tryCatch_error (bind_error hw')
      (run_ite_neg (by simp [he]) rfl)), ?_⟩
    exact ⟨hdb, hcount', hm, hs, hpu, hd, Nat.le_of_eq htx.symm,
      [(w.tx, .commitCalled)], hj, by simp⟩

end

end DddService
