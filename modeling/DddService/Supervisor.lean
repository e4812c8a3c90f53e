import DddService.Lib.Hoare
import Mathlib.Data.List.Forall2

/- The supervisor loop of `message_queue_consumer`. A pass asks each worker's future for its
   result, for a second, and takes a `TimeoutError` to mean that the worker still runs. A
   worker can also end with a `TimeoutError` of its own, which comes out of the future in the
   same way: it is kept, passed over by every later pass (`timed_out_abandoned`). All other
   ends are told apart, and their workers are started again (`pass_spec`). -/
namespace DddService
open Hoare

/-- What comes out of a future, by the class the `except` clauses tell apart. -/
inductive WorkerExc where
  | timeoutError
  | amqpConnectorException
  /-- Any other `Exception`. -/
  | exception (name : String)
  /-- A `BaseException` that is not an `Exception`, such as the `SystemExit` of `serve`. -/
  | baseException (name : String)
  deriving DecidableEq

inductive WorkerEnding where
  | returned
  | raised (e : WorkerExc)
  deriving DecidableEq

def RESTART_MAX_NUM : Nat := 10

/-- The process pool: whether the k-th `submit` raises, and how the future of the k-th
    `submit` has ended by the time the n-th pass has waited for it. An end is final. -/
structure Executor where
  submit : Nat → Option String
  ending : Nat → Nat → Option WorkerEnding
  final : ∀ k n e, ending k n = some e → ending k (n + 1) = some e

/-- The supervisor's variables, over the tasks `p`: futures are numbered by the calls of
    `submit`. -/
structure Supervisor (π : Type) where
  fs : List (Nat × π)
  nextFs : List (Nat × π)
  restartCount : Nat
  submits : Nat

namespace Supervisor
variable {π : Type} (env : Executor)

def init : Supervisor π := ⟨[], [], 0, 0⟩

abbrev SupervisorM (π : Type) := EStateM WorkerExc (Supervisor π)

/-- `exe.submit(*p)` -/
def submit : SupervisorM π Nat := do
  let s ← get
  modify fun s => { s with submits := s.submits + 1 }
  match env.submit s.submits with
  | none => pure s.submits
  | some name => throw (.exception name)

/-- `f.result(1)` -/
def result (n f : Nat) : SupervisorM π Unit :=
  match env.ending f n with
  | none => throw .timeoutError
  | some .returned => pure ()
  | some (.raised e) => throw e

/-- `next_fs.append(x)` -/
def append (x : Nat × π) : SupervisorM π Unit :=
  modify fun s => { s with nextFs := s.nextFs ++ [x] }

/-- `restart_count += k` -/
def countRestart (k : Nat) : SupervisorM π Unit :=
  modify fun s => { s with restartCount := s.restartCount + k }

/-- `next_fs.append((exe.submit(*p), p))` and `restart_count += 1`, which stand after the
    result and under `except Exception`. -/
def resubmit (p : π) : SupervisorM π Unit := do
  let f ← submit env
  append (f, p)
  countRestart 1

/-- The body of the `for`, in the n-th pass. -/
def examine (n : Nat) (x : Nat × π) : SupervisorM π Unit :=
  tryCatch (do result env n x.1; resubmit env x.2) fun e =>
    match e with
    | .timeoutError => append x
    | .amqpConnectorException => countRestart RESTART_MAX_NUM
    | .exception _ => resubmit env x.2
    | .baseException name => throw (.baseException name)

/-- The body of the `while`. -/
def pass (n : Nat) : SupervisorM π Unit := do
  modify fun s => { s with nextFs := [] }
  let s ← get
  s.fs.forM (examine env n)
  modify fun s => { s with fs := s.nextFs }

/-- The first workers. -/
def launch (ps : List π) : SupervisorM π Unit :=
  ps.forM fun p => do
    let f ← submit env
    modify fun s => { s with fs := s.fs ++ [(f, p)] }

/-- From the n-th pass the loop gets to the m-th. -/
inductive Goes : Nat → Supervisor π → Nat → Supervisor π → Prop
  | here (n : Nat) (s : Supervisor π) : Goes n s n s
  | pass {n m : Nat} {s t u : Supervisor π} (before : Goes n s m t)
      (loop : t.restartCount < RESTART_MAX_NUM) (run : pass env m t = .ok () u) : Goes n s (m + 1) u

/-- The state before the n-th pass. -/
def Reached (ps : List π) (n : Nat) (s : Supervisor π) : Prop :=
  ∃ s₀, launch env ps init = .ok () s₀ ∧ Goes env 0 s₀ n s

/-! ## What is asked of a pass -/

/-- The worker had terminated when the n-th pass examined it. -/
def terminated (n : Nat) (x : Nat × π) : Bool := (env.ending x.1 n).isSome

/-- It had ended with a `TimeoutError` of its own. -/
def timedOut (n : Nat) (x : Nat × π) : Bool := env.ending x.1 n = some (.raised .timeoutError)

/-- One future for each task; every terminated worker submitted again and counted. -/
structure Keeps (ps : List π) (n : Nat) (s t : Supervisor π) : Prop where
  each : t.fs.map Prod.snd = ps
  resubmitted : List.Forall₂ (fun x y => if terminated env n x then s.submits ≤ y.1 else y = x)
    s.fs t.fs
  counted : t.restartCount = s.restartCount + s.fs.countP (terminated env n)

/-- Every pass after which the loop continues. -/
def Supervised (ps : List π) : Prop :=
  ∀ n s t, Reached env ps n s → s.restartCount < RESTART_MAX_NUM → pass env n s = .ok () t →
    Keeps env ps n s t

/-! ## What a pass does -/

variable {env} {n m : Nat} {x : Nat × π} {s t : Supervisor π} {ps : List π}

/-- What a pass tells apart from running. -/
def restarts (env : Executor) (n : Nat) (x : Nat × π) : Bool :=
  terminated env n x && !timedOut env n x

/-- The k-th submit is of `p`, which is then counted. -/
def restarted (s : Supervisor π) (k : Nat) (p : π) : Supervisor π :=
  { s with
    nextFs := s.nextFs ++ [(k, p)]
    restartCount := s.restartCount + 1
    submits := k + 1 }

theorem submit_run (s : Supervisor π) : submit env s =
    match env.submit s.submits with
    | none => .ok s.submits { s with submits := s.submits + 1 }
    | some name => .error (.exception name) { s with submits := s.submits + 1 } := by
  refine bind_ok (get_run s) (bind_ok (modify_run s _) ?_)
  cases env.submit s.submits <;> rfl

theorem resubmit_run (p : π) (s : Supervisor π) : resubmit env p s =
    match env.submit s.submits with
    | none => .ok () (s.restarted s.submits p)
    | some name => .error (.exception name) { s with submits := s.submits + 1 } := by
  unfold resubmit
  rw [bind_run, submit_run]
  cases env.submit s.submits <;> rfl

theorem result_run (f : Nat) (s : Supervisor π) : result env n f s =
    match env.ending f n with
    | none => .error .timeoutError s
    | some .returned => .ok () s
    | some (.raised e) => .error e s := by
  unfold result
  cases env.ending f n with
  | none => rfl
  | some ending => cases ending <;> rfl

/-- A `submit` that returned, after `s` or after others that failed. -/
theorem resubmit_ok {r : Supervisor π} {p : π} (hle : s.submits ≤ r.submits)
    (hr : { r with submits := s.submits } = s) (h : resubmit env p r = .ok () t) :
    ∃ k, s.submits ≤ k ∧ t = s.restarted k p := by
  rw [resubmit_run] at h
  split at h
  · cases h
    refine ⟨r.submits, hle, ?_⟩
    rw [← hr]
    rfl
  · cases h

/-- What an examination makes of a worker: it stays as it is, or it is submitted again.
    The `submit` after the result may fail, and then the one under `except` follows. -/
theorem examine_cases (hconnector : env.ending x.1 n ≠ some (.raised .amqpConnectorException))
    (h : examine env n x s = .ok () t) :
    (restarts env n x = false ∧ t = { s with nextFs := s.nextFs ++ [x] }) ∨
      (restarts env n x = true ∧ ∃ k, s.submits ≤ k ∧ t = s.restarted k x.2) := by
  rw [examine, tryCatch_run, bind_run, result_run] at h
  cases he : env.ending x.1 n with
  | none =>
    rw [he] at h
    cases h
    exact Or.inl ⟨by simp [restarts, terminated, he], rfl⟩
  | some ending =>
    rw [he] at h
    cases ending with
    | returned =>
      refine Or.inr ⟨by simp [restarts, terminated, timedOut, he], ?_⟩
      dsimp only at h
      rw [resubmit_run] at h
      cases hsubmit : env.submit s.submits with
      | none =>
        rw [hsubmit] at h
        cases h
        exact ⟨s.submits, Nat.le_refl _, rfl⟩
      | some name =>
        rw [hsubmit] at h
        let r : Supervisor π := { s with submits := s.submits + 1 }
        exact resubmit_ok (r := r) (Nat.le_succ _) rfl h
    | raised e =>
      cases e with
      | timeoutError =>
        cases h
        exact Or.inl ⟨by simp [restarts, timedOut, he], rfl⟩
      | amqpConnectorException => exact absurd he hconnector
      | exception name =>
        refine Or.inr ⟨by simp [restarts, terminated, timedOut, he], ?_⟩
        exact resubmit_ok (Nat.le_refl _) rfl h
      | baseException name => cases h

/-- In the place of a worker that restarts there is a new future for its task. -/
def Replaced (env : Executor) (n submits : Nat) (x y : Nat × π) : Prop :=
  y.2 = x.2 ∧ if restarts env n x then submits ≤ y.1 else y = x

theorem Replaced.mono {k k' : Nat} {y : Nat × π} (h : Replaced env n k' x y) (hle : k ≤ k') :
    Replaced env n k x y := by
  obtain ⟨htask, hfuture⟩ := h
  refine ⟨htask, ?_⟩
  split
  · rename_i hr
    rw [if_pos hr] at hfuture
    exact Nat.le_trans hle hfuture
  · rename_i hr
    rw [if_neg hr] at hfuture
    exact hfuture

theorem examine_loop (xs : List (Nat × π))
    (hconnector : ∀ x ∈ xs, env.ending x.1 n ≠ some (.raised .amqpConnectorException))
    (h : xs.forM (examine env n) s = .ok () t) :
    ∃ ys, t.nextFs = s.nextFs ++ ys ∧ List.Forall₂ (Replaced env n s.submits) xs ys ∧
      t.restartCount = s.restartCount + xs.countP (restarts env n) := by
  induction xs generalizing s with
  | nil =>
    cases h
    exact ⟨[], (List.append_nil _).symm, .nil, rfl⟩
  | cons x xs ih =>
    obtain ⟨_, r, hx, hxs⟩ := bind_eq_ok h
    have hlater : ∀ x ∈ xs, env.ending x.1 n ≠ some (.raised .amqpConnectorException) :=
      fun y hy => hconnector y (List.mem_cons_of_mem _ hy)
    obtain ⟨ys, hnext, hreplaced, hcount⟩ := ih hlater hxs
    -- what is submitted later is also new since `s`
    have hmono : s.submits ≤ r.submits → List.Forall₂ (Replaced env n s.submits) xs ys :=
      fun hle => hreplaced.imp fun x y hxy => hxy.mono hle
    rcases examine_cases (hconnector x List.mem_cons_self) hx with
      ⟨hstays, rfl⟩ | ⟨hrestarts, k, hk, rfl⟩
    · refine ⟨x :: ys, ?_, .cons ⟨rfl, ?_⟩ (hmono (Nat.le_refl _)), ?_⟩
      · rw [hnext, List.append_assoc]
        rfl
      · rw [if_neg (by rw [hstays]; exact Bool.false_ne_true)]
      · rw [hcount, List.countP_cons_of_neg (by rw [hstays]; exact Bool.false_ne_true)]
    · refine ⟨(k, x.2) :: ys, ?_, .cons ⟨rfl, ?_⟩ (hmono (Nat.le_succ_of_le hk)), ?_⟩
      · rw [hnext]
        exact List.append_assoc _ _ _
      · rw [if_pos hrestarts]
        exact hk
      · rw [hcount, List.countP_cons_of_pos hrestarts]
        show s.restartCount + 1 + _ = _
        omega

theorem pass_spec
    (hconnector : ∀ x ∈ s.fs, env.ending x.1 n ≠ some (.raised .amqpConnectorException))
    (h : pass env n s = .ok () t) :
    List.Forall₂ (Replaced env n s.submits) s.fs t.fs ∧
      t.restartCount = s.restartCount + s.fs.countP (restarts env n) := by
  obtain ⟨_, r, hclear, h⟩ := bind_eq_ok h
  cases hclear
  obtain ⟨_, r, hget, h⟩ := bind_eq_ok h
  cases hget
  obtain ⟨_, r, hloop, h⟩ := bind_eq_ok h
  cases h
  obtain ⟨ys, hnext, hreplaced, hcount⟩ := examine_loop s.fs hconnector hloop
  refine ⟨?_, hcount⟩
  show List.Forall₂ _ s.fs r.nextFs
  rw [hnext, List.nil_append]
  exact hreplaced

theorem tasks_of_replaced {k : Nat} {xs ys : List (Nat × π)}
    (h : List.Forall₂ (Replaced env n k) xs ys) : ys.map Prod.snd = xs.map Prod.snd := by
  induction h with
  | nil => rfl
  | cons hxy _ ih => rw [List.map_cons, List.map_cons, hxy.1, ih]

theorem stays_of_replaced {k : Nat} {xs ys : List (Nat × π)}
    (h : List.Forall₂ (Replaced env n k) xs ys) (hx : x ∈ xs) (hstays : restarts env n x = false) :
    x ∈ ys := by
  induction h with
  | nil => exact hx
  | cons hxy _ ih =>
    rcases List.mem_cons.mp hx with rfl | hx
    · have hy := hxy.2
      rw [hstays, if_neg Bool.false_ne_true] at hy
      rw [hy]
      exact List.mem_cons_self
    · exact List.mem_cons_of_mem _ (ih hx)

/-! ## Over a run -/

theorem launch_tasks (ps : List π) (h : launch env ps s = .ok () t) :
    t.fs.map Prod.snd = s.fs.map Prod.snd ++ ps := by
  induction ps generalizing s with
  | nil =>
    cases h
    exact (List.append_nil _).symm
  | cons p ps ih =>
    obtain ⟨_, r, hp, hps⟩ := bind_eq_ok h
    obtain ⟨f, q, hsubmit, happend⟩ := bind_eq_ok hp
    cases happend
    have hq : q.fs = s.fs := by
      rw [submit_run] at hsubmit
      split at hsubmit <;> cases hsubmit
      rfl
    have hrest := ih hps
    rw [hrest, List.map_append, hq, List.append_assoc]
    rfl

/-- No worker ends with the exception that stops the supervisor. -/
def Connected (env : Executor) : Prop :=
  ∀ f n, env.ending f n ≠ some (.raised .amqpConnectorException)

theorem reached_tasks (hc : Connected env) (h : Reached env ps n s) : s.fs.map Prod.snd = ps := by
  obtain ⟨s₀, hlaunch, hgoes⟩ := h
  have hstart : s₀.fs.map Prod.snd = ps := (launch_tasks ps hlaunch).trans (List.nil_append _)
  clear hlaunch
  induction hgoes with
  | here n => exact hstart
  | pass before loop run ih =>
    exact (tasks_of_replaced (pass_spec (fun x _ => hc x.1 _) run).1).trans (ih hstart)

/-- If as many restart as have terminated, each that has terminated restarts. -/
theorem restarts_of_count {xs : List (Nat × π)}
    (h : xs.countP (restarts env n) = xs.countP (terminated env n)) (hx : x ∈ xs)
    (hterminated : terminated env n x = true) : restarts env n x = true := by
  -- those that restart have all terminated, so none of the others has
  have hall : (xs.filter (restarts env n)).countP (terminated env n) =
      xs.countP (restarts env n) := by
    rw [List.countP_eq_length_filter (p := restarts env n), List.countP_eq_length]
    intro y hy
    exact (Bool.and_eq_true_iff.mp (List.mem_filter.mp hy).2).1
  have hsplit := List.countP_eq_countP_filter_add xs (terminated env n) (restarts env n)
  have hnone : (xs.filter fun y => !restarts env n y).countP (terminated env n) = 0 := by omega
  by_contra hstays
  have hmem : x ∈ xs.filter fun y => !restarts env n y :=
    List.mem_filter.mpr ⟨hx, by simpa using hstays⟩
  exact List.countP_eq_zero.mp hnone x hmem hterminated

/-- A pass does what it should just when no worker it examines has timed out by itself. -/
theorem keeps_iff (hc : Connected env) (hps : s.fs.map Prod.snd = ps)
    (hrun : pass env n s = .ok () t) :
    Keeps env ps n s t ↔ ∀ x ∈ s.fs, timedOut env n x = false := by
  obtain ⟨hreplaced, hcount⟩ := pass_spec (fun x _ => hc x.1 n) hrun
  constructor
  · intro h
    have hequal : s.fs.countP (restarts env n) = s.fs.countP (terminated env n) :=
      Nat.add_left_cancel (hcount.symm.trans h.counted)
    intro x hx
    cases htimed : timedOut env n x with
    | false => rfl
    | true =>
      have hterminated : terminated env n x = true := by
        rw [terminated, of_decide_eq_true htimed]
        rfl
      have hrestarts := restarts_of_count hequal hx hterminated
      rw [restarts, htimed, hterminated] at hrestarts
      cases hrestarts
  · intro h
    have hsame : ∀ x ∈ s.fs, restarts env n x = terminated env n x := by
      intro x hx
      rw [restarts, h x hx, Bool.not_false, Bool.and_true]
    refine ⟨(tasks_of_replaced hreplaced).trans hps, ?_, ?_⟩
    · refine ((List.forall₂_and_left _ _).mpr ⟨hsame, hreplaced⟩).imp fun x y hxy => ?_
      rw [← hxy.1]
      exact hxy.2.2
    · rw [hcount]
      congr 1
      exact List.countP_congr fun x hx => by rw [hsame x hx]

/-- The supervisor keeps every worker alive, in every run, if and only if no pass finds a
    worker that ended with a `TimeoutError`. -/
theorem supervised_iff (env : Executor) (ps : List π) (hc : Connected env) :
    Supervised env ps ↔ ∀ n s t, Reached env ps n s → s.restartCount < RESTART_MAX_NUM →
      pass env n s = .ok () t → ∀ x ∈ s.fs, timedOut env n x = false := by
  constructor
  · intro h n s t hreached hloop hrun
    exact (keeps_iff hc (reached_tasks hc hreached) hrun).mp (h n s t hreached hloop hrun)
  · intro h n s t hreached hloop hrun
    exact (keeps_iff hc (reached_tasks hc hreached) hrun).mpr (h n s t hreached hloop hrun)

/-- A worker that has timed out is never submitted again, however long the loop goes on. -/
theorem timed_out_abandoned (hc : Connected env) (h : Goes env n s m t) (hx : x ∈ s.fs)
    (htimed : timedOut env n x = true) : x ∈ t.fs ∧ timedOut env m x = true := by
  induction h with
  | here n => exact ⟨hx, htimed⟩
  | pass before loop run ih =>
    obtain ⟨hmem, hstill⟩ := ih hx
    have hreplaced := (pass_spec (fun x _ => hc x.1 _) run).1
    refine ⟨stays_of_replaced hreplaced hmem (by rw [restarts, hstill]; simp), ?_⟩
    exact decide_eq_true (env.final _ _ _ (of_decide_eq_true hstill))

/-- The first worker returns at once, the second raises by the second pass, and the others
    run on. -/
def restartingExecutor : Executor where
  submit _ := none
  ending f n := if f = 0 then some .returned
    else if f = 1 ∧ 1 ≤ n then some (.raised (.exception "ValueError"))
    else none
  final f n e h := by
    by_cases hf : f = 0
    · simpa [hf] using h
    · by_cases hf' : f = 1
      · by_cases hn : 1 ≤ n <;> simp_all
      · simp [hf, hf'] at h

/-- Both are restarted, each in its pass, and counted. -/
theorem supervised_restarting :
    Supervised restartingExecutor ["your-exchange", "other-exchange"] ∧
      Reached restartingExecutor ["your-exchange", "other-exchange"] 2
        ⟨[(2, "your-exchange"), (3, "other-exchange")],
          [(2, "your-exchange"), (3, "other-exchange")], 2, 4⟩ := by
  have hends : ∀ f n e, restartingExecutor.ending f n = some (.raised e) →
      e = .exception "ValueError" := by
    intro f n e h
    simp only [restartingExecutor] at h
    split_ifs at h
    · cases h
    · cases h
      rfl
  refine ⟨(supervised_iff restartingExecutor _ fun f n h => ?_).mpr ?_, ?_⟩
  · cases hends f n _ h
  · intro n s t _ _ _ x _
    refine decide_eq_false fun h => ?_
    cases hends x.1 n _ h
  · exact ⟨_, rfl, .pass (.pass (.here 0 _) (by decide) rfl) (by decide) rfl⟩

/-- The first worker ends with a `TimeoutError` at once. -/
def timedOutExecutor : Executor where
  submit _ := none
  ending f _ := if f = 0 then some (.raised .timeoutError) else none
  final _ _ _ h := h

theorem timed_out_worker_kept : ¬Supervised timedOutExecutor ["your-exchange"] := by
  intro h
  have hkeeps := h 0 ⟨[(0, "your-exchange")], [], 0, 1⟩
    ⟨[(0, "your-exchange")], [(0, "your-exchange")], 0, 1⟩ ⟨_, rfl, .here 0 _⟩ (by decide) rfl
  exact absurd hkeeps.counted (by decide)

end Supervisor

end DddService
