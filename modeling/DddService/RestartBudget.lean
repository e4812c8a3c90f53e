import DddService.Supervisor

/- How many workers the supervisor starts. Every restart is counted, and a worker that ends
   with `AMQPConnectorException` is counted as `RESTART_MAX_NUM` of them and not started
   again. So the count, the submits that returned and the tasks that are left agree in every
   run (`Budget`), whatever the workers and the process pool do: a task is given up in the
   last pass only, and no more than `2 * n + RESTART_MAX_NUM - 1` workers are started for
   `n` exchanges (`restart_budget`). -/
namespace DddService
open Hoare

namespace Supervisor
variable {π : Type} {env : Executor} {n : Nat} {s t : Supervisor π} {x : Nat × π} {ps : List π}

/-- The submits that returned. -/
def started (env : Executor) (submits : Nat) : Nat :=
  (List.range submits).countP fun k => (env.submit k).isNone

/-- The account of a supervisor that was given the tasks `ps`: of its workers so many were
    restarted, and so many dropped. -/
structure Budget (env : Executor) (ps : List π) (restarts dropped : Nat) (s : Supervisor π) :
    Prop where
  count : s.restartCount = restarts + RESTART_MAX_NUM * dropped
  started : started env s.submits = ps.length + restarts
  left : s.fs.length + dropped = ps.length
  tasks : (s.fs.map Prod.snd).Sublist ps

/-! ## One worker -/

theorem started_succ (env : Executor) (k : Nat) : started env (k + 1) =
    started env k + if (env.submit k).isNone then 1 else 0 := by
  unfold started
  rw [List.range_succ, List.countP_append, List.countP_singleton]

/-- A restart that succeeds, at the first `submit` or at the one under `except`. -/
structure Restarted (env : Executor) (p : π) (s t : Supervisor π) : Prop where
  state : ∃ k, t = s.restarted k p
  started : started env t.submits = started env s.submits + 1

theorem resubmit_restarted {p : π} (h : resubmit env p s = .ok () t) : Restarted env p s t := by
  rw [resubmit_run] at h
  split at h
  · next hsubmit =>
    cases h
    refine ⟨⟨_, rfl⟩, ?_⟩
    show Supervisor.started env (s.submits + 1) = _
    rw [started_succ, hsubmit]
    rfl
  · cases h

/-- What an examination that returns does with a worker: it is kept, restarted, or dropped. -/
theorem examine_ok (h : examine env n x s = .ok () t) :
    t = { s with nextFs := s.nextFs ++ [x] } ∨ Restarted env x.2 s t ∨
      t = { s with restartCount := s.restartCount + RESTART_MAX_NUM } := by
  rw [examine, tryCatch_run, bind_run, result_run] at h
  cases he : env.ending x.1 n with
  | none =>
    rw [he] at h
    cases h
    exact Or.inl rfl
  | some ending =>
    rw [he] at h
    cases ending with
    | returned =>
      refine Or.inr (Or.inl ?_)
      dsimp only at h
      -- the result is logged and the task submitted; if that fails, `except` submits it again
      cases hsubmit : env.submit s.submits with
      | none =>
        have hrun := @resubmit_run π env x.2 s
        rw [hsubmit] at hrun
        rw [hrun] at h
        exact resubmit_restarted (hrun.trans h)
      | some name =>
        rw [resubmit_run, hsubmit] at h
        obtain ⟨⟨k, hk⟩, hstarted⟩ := resubmit_restarted h
        refine ⟨⟨k, hk⟩, hstarted.trans ?_⟩
        show Supervisor.started env (s.submits + 1) + 1 = _
        rw [started_succ, hsubmit]
        rfl
    | raised e =>
      cases e with
      | timeoutError =>
        cases h
        exact Or.inl rfl
      | amqpConnectorException =>
        cases h
        exact Or.inr (Or.inr rfl)
      | exception name => exact Or.inr (Or.inl (resubmit_restarted h))
      | baseException name => cases h

/-! ## One pass -/

theorem examine_loop_budget (xs : List (Nat × π)) (h : xs.forM (examine env n) s = .ok () t) :
    ∃ ys r d, t.nextFs = s.nextFs ++ ys ∧ ys.length + d = xs.length ∧ r ≤ ys.length ∧
      (ys.map Prod.snd).Sublist (xs.map Prod.snd) ∧
      t.restartCount = s.restartCount + r + RESTART_MAX_NUM * d ∧
      started env t.submits = started env s.submits + r := by
  induction xs generalizing s with
  | nil =>
    cases h
    exact ⟨[], 0, 0, (List.append_nil _).symm, rfl, Nat.le_refl 0, .slnil, rfl, rfl⟩
  | cons x xs ih =>
    obtain ⟨_, u, hx, hxs⟩ := bind_eq_ok h
    obtain ⟨ys, r, d, hnext, hlen, hle, hsub, hcount, hstarted⟩ := ih hxs
    rcases examine_ok hx with rfl | ⟨⟨k, rfl⟩, hone⟩ | rfl
    · refine ⟨x :: ys, r, d, ?_, ?_, Nat.le_succ_of_le hle, hsub.cons_cons _, hcount, hstarted⟩
      · rw [hnext]
        exact List.append_assoc _ _ _
      · rw [List.length_cons, List.length_cons, ← hlen, Nat.add_right_comm]
    · refine ⟨(k, x.2) :: ys, r + 1, d, ?_, ?_, Nat.succ_le_succ hle, hsub.cons_cons _, ?_, ?_⟩
      · rw [hnext]
        exact List.append_assoc _ _ _
      · rw [List.length_cons, List.length_cons, ← hlen, Nat.add_right_comm]
      · rw [hcount]
        show s.restartCount + 1 + r + _ = _
        omega
      · rw [hstarted, hone]
        omega
    · refine ⟨ys, r, d + 1, hnext, ?_, hle, hsub.cons _, ?_, hstarted⟩
      · rw [List.length_cons, ← hlen, Nat.add_assoc]
      · rw [hcount]
        show s.restartCount + RESTART_MAX_NUM + r + _ = _
        rw [Nat.mul_succ]
        omega

theorem Budget.pass {restarts dropped : Nat} (h : Budget env ps restarts dropped s)
    (hrun : pass env n s = .ok () t) :
    ∃ r d, r ≤ ps.length ∧ Budget env ps (restarts + r) (dropped + d) t := by
  obtain ⟨_, u, hclear, hrest⟩ := bind_eq_ok hrun
  cases hclear
  obtain ⟨_, u, hget, hrest⟩ := bind_eq_ok hrest
  cases hget
  obtain ⟨_, u, hloop, hset⟩ := bind_eq_ok hrest
  cases hset
  obtain ⟨ys, r, d, hnext, hlen, hle, hsub, hcount, hstarted⟩ := examine_loop_budget _ hloop
  have hys : u.nextFs = ys := hnext
  have hleft := h.left
  change ys.length + d = s.fs.length at hlen
  refine ⟨r, d, by omega, ?_, ?_, ?_, ?_⟩
  · show u.restartCount = _
    rw [hcount]
    show s.restartCount + r + _ = _
    rw [h.count, Nat.mul_add]
    omega
  · show Supervisor.started env u.submits = _
    rw [hstarted]
    show Supervisor.started env s.submits + r = _
    rw [h.started]
    omega
  · show u.nextFs.length + _ = _
    rw [hys]
    omega
  · show (u.nextFs.map Prod.snd).Sublist ps
    rw [hys]
    exact hsub.trans h.tasks

/-! ## A whole run -/

theorem launch_started (ps : List π) (h : launch env ps s = .ok () t) :
    started env t.submits = started env s.submits + ps.length ∧
      t.restartCount = s.restartCount := by
  induction ps generalizing s with
  | nil =>
    cases h
    exact ⟨rfl, rfl⟩
  | cons p ps ih =>
    obtain ⟨_, u, hp, hps⟩ := bind_eq_ok h
    obtain ⟨f, v, hsubmit, happend⟩ := bind_eq_ok hp
    cases happend
    obtain ⟨hrest, hcount⟩ := ih hps
    rw [submit_run] at hsubmit
    split at hsubmit
    · next hnone =>
      cases hsubmit
      refine ⟨?_, hcount⟩
      rw [hrest]
      show Supervisor.started env (s.submits + 1) + ps.length = _
      rw [started_succ, hnone, List.length_cons]
      show Supervisor.started env s.submits + 1 + ps.length = _
      omega
    · cases hsubmit

theorem launch_budget (h : launch env ps init = .ok () s) : Budget env ps 0 0 s := by
  have htasks : s.fs.map Prod.snd = ps := (launch_tasks ps h).trans (List.nil_append _)
  obtain ⟨hstarted, hcount⟩ := launch_started ps h
  refine ⟨hcount, hstarted.trans (Nat.zero_add _), ?_, htasks ▸ List.Sublist.refl _⟩
  rw [← htasks, List.length_map]
  rfl

theorem Budget.all_left {restarts dropped : Nat} (h : Budget env ps restarts dropped s)
    (hloop : s.restartCount < RESTART_MAX_NUM) : dropped = 0 ∧ s.fs.map Prod.snd = ps := by
  have hnone : dropped = 0 := by
    have hcount := h.count
    unfold RESTART_MAX_NUM at hcount hloop
    omega
  refine ⟨hnone, h.tasks.eq_of_length ?_⟩
  rw [List.length_map, ← h.left, hnone]
  rfl

/-- Wherever the loop gets to, with whatever workers and process pool: the count of restarts
    is right; as long as the loop goes on no task has been given up, and their order is kept;
    and the number of workers ever started is bounded. -/
theorem restart_budget (env : Executor) (ps : List π) (h : Reached env ps n s) :
    ∃ restarts dropped, Budget env ps restarts dropped s ∧
      (s.restartCount < RESTART_MAX_NUM → dropped = 0 ∧ s.fs.map Prod.snd = ps) ∧
      started env s.submits ≤ 2 * ps.length + (RESTART_MAX_NUM - 1) := by
  obtain ⟨s₀, hlaunch, hgoes⟩ := h
  have hrun : ∃ restarts dropped, Budget env ps restarts dropped s ∧
      restarts ≤ ps.length + (RESTART_MAX_NUM - 1) := by
    have hstart := launch_budget hlaunch
    clear hlaunch
    induction hgoes with
    | here n => exact ⟨0, 0, hstart, Nat.zero_le _⟩
    | pass before hloop hpass ih =>
      obtain ⟨restarts, dropped, hbudget, -⟩ := ih hstart
      obtain ⟨r, d, hr, hafter⟩ := hbudget.pass hpass
      -- the count was below its limit before this pass
      have hcount := hbudget.count
      exact ⟨restarts + r, dropped + d, hafter, by omega⟩
  obtain ⟨restarts, dropped, hbudget, hle⟩ := hrun
  refine ⟨restarts, dropped, hbudget, hbudget.all_left, ?_⟩
  rw [hbudget.started]
  omega

/-- Two exchanges, whose workers are restarted in two passes. -/
theorem restart_budget_restarting :
    let ps := ["your-exchange", "other-exchange"]
    let s : Supervisor String := ⟨[(2, "your-exchange"), (3, "other-exchange")],
      [(2, "your-exchange"), (3, "other-exchange")], 2, 4⟩
    ∃ restarts dropped, Budget restartingExecutor ps restarts dropped s ∧
      (s.restartCount < RESTART_MAX_NUM → dropped = 0 ∧ s.fs.map Prod.snd = ps) ∧
      started restartingExecutor s.submits ≤ 2 * ps.length + (RESTART_MAX_NUM - 1) := by
  intro ps s
  have hreached : Reached restartingExecutor ps 2 s :=
    ⟨_, rfl, .pass (.pass (.here 0 _) (by decide) rfl) (by decide) rfl⟩
  exact restart_budget restartingExecutor ps hreached

end Supervisor

end DddService
