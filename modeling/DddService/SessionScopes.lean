import Mathlib.Data.List.Induction
import DddService.Session

/- The scopes of `SessionProvider` over whole sequences of `async with`, with the sessions told
   apart by the order in which `DB_Session()` makes them. The provider has one counter and one
   field for the session; `run_eq_represent` says what these are after any well-nested sequence
   of scopes: what a list of finished outermost scopes and the current one make them.
   `session_nesting` reads the laws of the scopes off that. `aenter_simulates` and
   `aexit_simulates` connect the two functions with those of the world. -/
namespace DddService.SessionScopes
open Hoare

/-! ## The provider -/

/-- `log`: what each session was asked for. -/
structure ScopeState where
  session : Option Nat
  sessionCount : Int
  opened : Nat
  log : List (Nat × SessionAction)

abbrev ScopeM := EStateM Exc ScopeState

def ScopeState.init : ScopeState := ⟨none, 0, 0, []⟩

/-- `DB_Session()` -/
def openSession (s : ScopeState) : ScopeState :=
  { s with session := some s.opened, opened := s.opened + 1, log := s.log ++ [(s.opened, .opened)] }

/-- A method of `self.session`. -/
def callSession (a : SessionAction) : ScopeM Unit := do
  match (← get).session with
  | some k => modify fun s => { s with log := s.log ++ [(k, a)] }
  | none => throw (.attributeError "'NoneType' object has no attribute")

def setCount (n : Int) (s : ScopeState) : ScopeState := { s with sessionCount := n }

def setSession (session : Option Nat) (s : ScopeState) : ScopeState := { s with session }

/-- `self.session.commit()`, which ends as the environment has it. -/
def commit (outcome : Option Failure) : ScopeM Unit := do
  callSession .commitCalled
  match outcome with
  | none => callSession .committed
  | some e => throw e.1

/-- `self.session.__aexit__`, with whatever exception leaves the scope. -/
def close (_ : Option Exc) : ScopeM Unit := callSession .closed

def aenter : ScopeM Unit := do
  if (← get).sessionCount = 0 then modify openSession
  modify fun s => setCount (s.sessionCount + 1) s

def aexit (raised : Option Exc) (outcome : Option Failure) : ScopeM Unit := do
  modify fun s => setCount (s.sessionCount - 1) s
  if (← get).sessionCount ≤ 0 then do
    modify (setCount 0)
    tryCatch
      (do commit outcome
          close raised
          modify (setSession none))
      (fun e => do
        if e.isException then do
          callSession .rolledBack
          close raised
          modify (setSession none)
        throw e)

/-! ## Sequences of scopes -/

/-- What a body does with the session, handlers of exceptions included. -/
inductive Work where
  | write (p : Pending)
  | rollback

def Work.action : Work → SessionAction
  | .write p => .write p
  | .rollback => .rolledBack

/-- A scope is entered, or left, by an exception or not, with this outcome of a commit; or its
    body works with the session. -/
inductive Step where
  | enter
  | exit (raised : Option Exc) (outcome : Option Failure)
  | work (w : Work)

def Step.exec : Step → ScopeM Unit
  | .enter => aenter
  | .exit raised outcome => aexit raised outcome
  | .work w => callSession w.action

/-- The provider after the steps, whatever they raised. -/
def run (steps : List Step) : ScopeState :=
  steps.foldl (fun s step => stateOf (step.exec s)) .init

/-- How many scopes are open after a step, where `d` were open before. -/
def deepen (d : Nat) : Step → Nat
  | .enter => d + 1
  | .exit .. => d - 1
  | .work _ => d

/-- How many scopes are open. -/
def depth (steps : List Step) : Nat := steps.foldl deepen 0

/-- No scope is left that has not been entered. -/
def WellNested (steps : List Step) : Prop :=
  ∀ before raised outcome after, steps = before ++ .exit raised outcome :: after → 0 < depth before

/-! ## What is asked -/

/-- The laws of the scopes, at any point of a sequence of steps. -/
structure NestingLaws (steps : List Step) : Prop where
  /-- The count is the nesting depth. -/
  count : (run steps).sessionCount = depth steps
  /-- Outside all scopes there is no session. -/
  outside : depth steps = 0 → (run steps).session = none
  /-- Entering an outermost scope makes a session. -/
  opens : ∀ before after, steps = before ++ .enter :: after → depth before = 0 →
    (run (before ++ [.enter])).log = (run before).log ++ [((run before).opened, .opened)]
  /-- Inside, the session is the one that the enclosing outermost scope has made. -/
  inside : ∀ before inner, steps = before ++ .enter :: inner → depth before = 0 →
    (∀ p, p <+: inner → 0 < depth (before ++ .enter :: p)) →
    (run steps).session = some (run before).opened
  /-- A nested exit only counts down. -/
  nestedExit : ∀ before raised outcome after, steps = before ++ .exit raised outcome :: after →
    1 < depth before → aexit raised outcome (run before) =
      .ok () (setCount (depth before - 1) (run before))
  /-- An outermost exit commits and closes; where the commit raises, it rolls back, closes and
      raises that exception. -/
  outermostExit : ∀ before raised outcome after,
    steps = before ++ .exit raised outcome :: after → depth before = 1 →
    ∃ k, (run before).session = some k ∧ aexit raised outcome (run before) =
      match outcome with
      | none => .ok () { run before with
          session := none
          sessionCount := 0
          log := (run before).log ++ [(k, .commitCalled), (k, .committed), (k, .closed)] }
      | some e => .error e.1 { run before with
          session := none
          sessionCount := 0
          log := (run before).log ++ [(k, .commitCalled), (k, .rolledBack), (k, .closed)] }
  /-- No session is asked twice for a commit. -/
  commitOnce : ∀ k, (run steps).log.count (k, .commitCalled) ≤ 1
  /-- A later outermost scope has a later session. -/
  fresh : ∀ before between after, steps = before ++ .enter :: (between ++ .enter :: after) →
    depth before = 0 → depth (before ++ .enter :: between) = 0 →
    (run before).opened < (run (before ++ .enter :: between)).opened

/-! ## Scopes by themselves -/

/-- A scope that has been left: what its bodies did, and how the commit ended. -/
structure Finished where
  works : List Work
  outcome : Option Failure

/-- An open outermost scope: how many scopes are open in it, and what has been done. -/
structure Current where
  nested : Nat
  works : List Work

structure Scopes where
  finished : List Finished
  current : Option Current

def Scopes.init : Scopes := ⟨[], none⟩

def Scopes.step (scopes : Scopes) : Step → Scopes
  | .enter => { scopes with current := match scopes.current with
    | none => some ⟨0, []⟩
    | some c => some { c with nested := c.nested + 1 } }
  | .work w => { scopes with current := scopes.current.map fun c =>
      { c with works := c.works ++ [w] } }
  | .exit _ outcome =>
    match scopes.current with
    | none => scopes
    | some ⟨0, works⟩ => ⟨scopes.finished ++ [⟨works, outcome⟩], none⟩
    | some ⟨n + 1, works⟩ => { scopes with current := some ⟨n, works⟩ }

def Scopes.after (steps : List Step) : Scopes := steps.foldl Scopes.step .init

def Scopes.depth (scopes : Scopes) : Nat := scopes.current.elim 0 fun c => c.nested + 1

/-- What the session of a scope has been asked for so far. -/
def workLog (works : List Work) : List SessionAction := .opened :: works.map Work.action

/-- What it is asked for at the end of the scope. -/
def exitLog : Option Failure → List SessionAction
  | none => [.commitCalled, .committed, .closed]
  | some _ => [.commitCalled, .rolledBack, .closed]

def Finished.log (f : Finished) : List SessionAction := workLog f.works ++ exitLog f.outcome

/-- What has been asked of session `k`. -/
def ofSession (k : Nat) (log : List SessionAction) : List (Nat × SessionAction) :=
  log.map fun a => (k, a)

/-- The scopes have sessions in their order. -/
def finishedLog (finished : List Finished) : List (Nat × SessionAction) :=
  finished.zipIdx.flatMap fun f => ofSession f.2 f.1.log

/-- The provider that these scopes make. -/
def represent (scopes : Scopes) : ScopeState where
  session := scopes.current.map fun _ => scopes.finished.length
  sessionCount := scopes.depth
  opened := scopes.finished.length + scopes.current.elim 0 fun _ => 1
  log := finishedLog scopes.finished ++
    scopes.current.elim [] fun c => ofSession scopes.finished.length (workLog c.works)

/-! ## The functions on a state -/

def ScopeState.noted (s : ScopeState) (k : Nat) (a : SessionAction) : ScopeState :=
  { s with log := s.log ++ [(k, a)] }

section
variable {s : ScopeState}

theorem callSession_some {k : Nat} (h : s.session = some k) (a : SessionAction) :
    callSession a s = .ok () (s.noted k a) := by
  refine bind_ok (get_run s) ?_
  rw [h]
  rfl

theorem callSession_none (h : s.session = none) (a : SessionAction) :
    callSession a s = .error (.attributeError "'NoneType' object has no attribute") s := by
  refine bind_ok (get_run s) ?_
  rw [h]
  rfl

theorem commit_none {k : Nat} (h : s.session = some k) :
    commit none s = .ok () ((s.noted k .commitCalled).noted k .committed) :=
  bind_ok (callSession_some h _) (callSession_some (s := s.noted k .commitCalled) h _)

theorem commit_some {k : Nat} (h : s.session = some k) (e : Failure) :
    commit (some e) s = .error e.1 (s.noted k .commitCalled) :=
  bind_ok (callSession_some h _) rfl

theorem aenter_outermost (h : s.sessionCount = 0) :
    aenter s = .ok () (setCount 1 (openSession s)) := by
  refine bind_ok (get_run s) (run_ite_pos h (bind_ok (modify_run s _) ?_))
  have hcount : (openSession s).sessionCount + 1 = 1 := by
    change s.sessionCount + 1 = 1
    omega
  exact congrArg (fun n => EStateM.Result.ok () (setCount n (openSession s))) hcount

theorem aenter_nested (h : s.sessionCount ≠ 0) :
    aenter s = .ok () (setCount (s.sessionCount + 1) s) :=
  bind_ok (get_run s) (run_ite_neg h rfl)

theorem aexit_nested (h : 1 < s.sessionCount) (raised : Option Exc) (outcome : Option Failure) :
    aexit raised outcome s = .ok () (setCount (s.sessionCount - 1) s) := by
  refine bind_ok (modify_run s _) (bind_ok (get_run _) (run_ite_neg ?_ rfl))
  change ¬ s.sessionCount - 1 ≤ 0
  omega

/-- The state after an outermost exit. -/
def exited (s : ScopeState) (k : Nat) (outcome : Option Failure) : ScopeState :=
  { s with session := none, sessionCount := 0, log := s.log ++ ofSession k (exitLog outcome) }

theorem aexit_outermost {k : Nat} (hc : s.sessionCount = 1) (h : s.session = some k)
    (raised : Option Exc) (outcome : Option Failure) :
    aexit raised outcome s = match outcome with
      | none => .ok () (exited s k outcome)
      | some e => .error e.1 (exited s k outcome) := by
  have hle : (setCount (s.sessionCount - 1) s).sessionCount ≤ 0 := by
    change s.sessionCount - 1 ≤ 0
    omega
  refine bind_ok (modify_run s _) (bind_ok (get_run _) (run_ite_pos hle (bind_ok (modify_run _ _) ?_)))
  generalize ht : setCount 0 (setCount (s.sessionCount - 1) s) = t
  have hsession : t.session = some k := ht ▸ h
  have hexited : exited s k outcome = exited t k outcome := by
    rw [← ht]
    rfl
  rw [hexited]
  have hclose : ∀ u : ScopeState, u.session = some k → close raised u = .ok () (u.noted k .closed) :=
    fun u hu => callSession_some hu _
  cases outcome with
  | none =>
    refine tryCatch_ok (bind_ok (commit_none hsession) (bind_ok (hclose _ hsession) ?_))
    rw [modify_run]
    simp [exited, exitLog, ofSession, setSession, ScopeState.noted, ← ht, setCount]
  | some e =>
    refine tryCatch_error (bind_error (commit_some hsession e)) (run_ite_pos e.2
      (bind_ok (callSession_some (s := t.noted k .commitCalled) hsession _)
      (bind_ok (hclose _ hsession) (bind_ok (modify_run _ _) ?_))))
    simp [exited, exitLog, ofSession, setSession, ScopeState.noted, ← ht, setCount]

end

/-! ## One step -/

theorem finishedLog_snoc (finished : List Finished) (f : Finished) :
    finishedLog (finished ++ [f]) = finishedLog finished ++ ofSession finished.length f.log := by
  simp [finishedLog, List.zipIdx_append]

theorem represent_none (finished : List Finished) :
    represent ⟨finished, none⟩ = ⟨none, 0, finished.length, finishedLog finished⟩ := by
  simp [represent, Scopes.depth]

theorem represent_some (finished : List Finished) (nested : Nat) (works : List Work) :
    represent ⟨finished, some ⟨nested, works⟩⟩ =
      ⟨some finished.length, nested + 1, finished.length + 1,
        finishedLog finished ++ ofSession finished.length (workLog works)⟩ := by
  simp [represent, Scopes.depth]

theorem enter_represent (scopes : Scopes) :
    aenter (represent scopes) = .ok () (represent (scopes.step .enter)) := by
  obtain ⟨finished, current⟩ := scopes
  cases current with
  | none =>
    rw [represent_none, aenter_outermost rfl]
    simp [Scopes.step, represent_some, openSession, setCount, workLog, ofSession]
  | some c =>
    have hcount : (c.nested : Int) + 1 ≠ 0 := by omega
    rw [represent_some, aenter_nested hcount]
    simp [Scopes.step, represent_some, setCount]

theorem work_represent (scopes : Scopes) (w : Work) :
    stateOf (callSession w.action (represent scopes)) = represent (scopes.step (.work w)) := by
  obtain ⟨finished, current⟩ := scopes
  cases current with
  | none =>
    rw [callSession_none (by rw [represent_none])]
    rfl
  | some c =>
    obtain ⟨nested, works⟩ := c
    rw [callSession_some (k := finished.length) (by rw [represent_some])]
    simp [stateOf, Scopes.step, represent_some, ScopeState.noted, workLog, ofSession]

theorem exit_represent {scopes : Scopes} (h : 0 < scopes.depth) (raised : Option Exc)
    (outcome : Option Failure) :
    stateOf (aexit raised outcome (represent scopes)) =
      represent (scopes.step (.exit raised outcome)) := by
  obtain ⟨finished, current⟩ := scopes
  cases current with
  | none => cases h
  | some c =>
    obtain ⟨nested, works⟩ := c
    cases nested with
    | zero =>
      rw [aexit_outermost (k := finished.length) (by rw [represent_some]; rfl)
        (by rw [represent_some])]
      have hexited : exited (represent ⟨finished, some ⟨0, works⟩⟩) finished.length outcome =
          represent ⟨finished ++ [⟨works, outcome⟩], none⟩ := by
        rw [represent_some, represent_none]
        simp [exited, finishedLog_snoc, Finished.log, ofSession]
      cases outcome <;> exact hexited
    | succ n =>
      have hcount : (1 : Int) < ((n + 1 : Nat) : Int) + 1 := by omega
      rw [represent_some, aexit_nested hcount]
      simp [stateOf, setCount, Scopes.step, represent_some]

/-! ## Whole sequences -/

theorem run_snoc (steps : List Step) (step : Step) :
    run (steps ++ [step]) = stateOf (step.exec (run steps)) := by
  rw [run, List.foldl_append]
  rfl

theorem after_snoc (steps : List Step) (step : Step) :
    Scopes.after (steps ++ [step]) = (Scopes.after steps).step step := by
  rw [Scopes.after, List.foldl_append]
  rfl

theorem WellNested.prefix {before after : List Step} (h : WellNested (before ++ after)) :
    WellNested before := by
  intro xs raised outcome ys hsplit
  exact h xs raised outcome (ys ++ after) (by rw [hsplit]; simp)

theorem depth_snoc (steps : List Step) (step : Step) :
    depth (steps ++ [step]) = deepen (depth steps) step := by
  rw [depth, List.foldl_append]
  rfl

theorem depth_step (scopes : Scopes) (step : Step) :
    (scopes.step step).depth = deepen scopes.depth step := by
  obtain ⟨finished, current⟩ := scopes
  cases step with
  | enter => cases current <;> rfl
  | work w => cases current <;> rfl
  | exit raised outcome =>
    cases current with
    | none => rfl
    | some c => obtain ⟨_ | n, works⟩ := c <;> rfl

theorem depth_after (steps : List Step) : (Scopes.after steps).depth = depth steps := by
  induction steps using List.reverseRecOn with
  | nil => rfl
  | append_singleton steps step ih => rw [after_snoc, depth_step, ih, depth_snoc]

/-- What the provider is after any well-nested steps. -/
theorem run_eq_represent {steps : List Step} (h : WellNested steps) :
    run steps = represent (Scopes.after steps) := by
  induction steps using List.reverseRecOn with
  | nil => rfl
  | append_singleton steps step ih =>
    rw [run_snoc, after_snoc, ih h.prefix]
    cases step with
    | enter =>
      change stateOf (aenter _) = _
      rw [enter_represent]
      rfl
    | work w => exact work_represent _ w
    | exit raised outcome =>
      have hdepth := h steps raised outcome [] rfl
      rw [← depth_after] at hdepth
      exact exit_represent hdepth raised outcome

/-! ## The laws -/

theorem count_ofSession (k n : Nat) (log : List SessionAction) :
    (ofSession n log).count (k, .commitCalled) = if k = n then log.count .commitCalled else 0 := by
  induction log with
  | nil => simp [ofSession]
  | cons a log ih =>
    rw [ofSession, List.map_cons, List.count_cons, ← ofSession, ih, List.count_cons]
    by_cases hk : k = n
    · simp [hk]
    · simp [hk, Ne.symm hk]

theorem count_workLog (works : List Work) : (workLog works).count .commitCalled = 0 := by
  rw [List.count_eq_zero, workLog]
  intro hmem
  obtain hmem | hmem := List.mem_cons.mp hmem
  · cases hmem
  · obtain ⟨w, -, hw⟩ := List.mem_map.mp hmem
    cases w <;> cases hw

theorem count_finished (f : Finished) : f.log.count .commitCalled = 1 := by
  rw [Finished.log, List.count_append, count_workLog]
  cases f.outcome <;> rfl

theorem count_finishedLog (finished : List Finished) (k : Nat) :
    (finishedLog finished).count (k, .commitCalled) = if k < finished.length then 1 else 0 := by
  induction finished using List.reverseRecOn with
  | nil => rfl
  | append_singleton finished f ih =>
    rw [finishedLog_snoc, List.count_append, ih, count_ofSession, count_finished,
      List.length_append, List.length_singleton]
    split <;> split <;> split <;> omega

theorem commit_once (scopes : Scopes) (k : Nat) :
    (represent scopes).log.count (k, .commitCalled) ≤ 1 := by
  obtain ⟨finished, current⟩ := scopes
  cases current with
  | none =>
    rw [represent_none, count_finishedLog]
    split <;> omega
  | some c =>
    rw [represent_some, List.count_append, count_finishedLog, count_ofSession, count_workLog]
    split <;> split <;> omega

/-- Sessions are only added. -/
theorem opened_step (scopes : Scopes) (step : Step) :
    (represent scopes).opened ≤ (represent (scopes.step step)).opened := by
  obtain ⟨finished, current⟩ := scopes
  cases current with
  | none => cases step <;> simp [represent, Scopes.step]
  | some c =>
    obtain ⟨_ | n, works⟩ := c <;> cases step <;> simp [represent, Scopes.step]

theorem opened_le (before after : List Step) :
    (represent (Scopes.after before)).opened ≤ (represent (Scopes.after (before ++ after))).opened := by
  induction after using List.reverseRecOn with
  | nil => exact Nat.le_of_eq (by rw [List.append_nil])
  | append_singleton after step ih =>
    rw [← List.append_assoc, after_snoc]
    exact Nat.le_trans ih (opened_step _ step)

/-- At depth zero there is no current scope. -/
theorem current_of_depth {scopes : Scopes} (h : scopes.depth = 0) : scopes.current = none := by
  obtain ⟨finished, current⟩ := scopes
  cases current with
  | none => rfl
  | some c => cases h

/-- While an outermost scope is open, the finished scopes stay the same. -/
theorem finished_inside {before inner : List Step} (h : depth before = 0)
    (hinside : ∀ p, p <+: inner → 0 < depth (before ++ .enter :: p)) :
    ∃ c, Scopes.after (before ++ .enter :: inner) = ⟨(Scopes.after before).finished, some c⟩ := by
  induction inner using List.reverseRecOn with
  | nil =>
    have hnone := current_of_depth ((depth_after before).trans h)
    rw [after_snoc]
    exact ⟨⟨0, []⟩, by simp only [Scopes.step, hnone]⟩
  | append_singleton inner step ih =>
    obtain ⟨c, hc⟩ := ih fun p hp => hinside p (hp.trans (List.prefix_append _ _))
    have hpos := hinside (inner ++ [step]) (List.prefix_refl _)
    have htext : before ++ .enter :: (inner ++ [step]) = before ++ .enter :: inner ++ [step] := by
      simp
    rw [htext, ← depth_after, after_snoc, hc] at hpos
    rw [htext, after_snoc, hc]
    cases step with
    | enter => exact ⟨_, rfl⟩
    | work w => exact ⟨_, rfl⟩
    | exit raised outcome =>
      obtain ⟨_ | n, works⟩ := c
      · cases hpos
      · exact ⟨_, rfl⟩

theorem sessionCount_run {steps : List Step} (h : WellNested steps) :
    (run steps).sessionCount = depth steps := by
  rw [run_eq_represent h, ← depth_after]
  rfl

theorem exit_at {steps before after : List Step} {raised : Option Exc} {outcome : Option Failure}
    (h : WellNested steps) (hsteps : steps = before ++ .exit raised outcome :: after) :
    WellNested before := by
  subst hsteps
  exact h.prefix

theorem session_run {steps : List Step} (h : WellNested steps) (hd : 0 < depth steps) :
    (run steps).session = some (Scopes.after steps).finished.length := by
  rw [run_eq_represent h]
  rw [← depth_after] at hd
  generalize Scopes.after steps = scopes at hd ⊢
  obtain ⟨finished, current⟩ := scopes
  cases current with
  | none => cases hd
  | some c => rw [represent_some]

/-- The laws hold at every point of every well-nested sequence of scopes, whatever leaves them
    and however the commits end. -/
theorem session_nesting (steps : List Step) (h : WellNested steps) : NestingLaws steps where
  count := sessionCount_run h
  outside := by
    intro hd
    have hnone := current_of_depth ((depth_after steps).trans hd)
    rw [run_eq_represent h, represent, hnone]
    rfl
  opens := by
    rintro before after rfl hd
    have hcount := sessionCount_run h.prefix
    rw [hd] at hcount
    rw [run_snoc]
    change (stateOf (aenter (run before))).log = _
    rw [aenter_outermost hcount]
    rfl
  inside := by
    rintro before inner rfl hd hinside
    obtain ⟨c, hc⟩ := finished_inside hd hinside
    have hnone := current_of_depth ((depth_after before).trans hd)
    rw [session_run h (hinside inner (List.prefix_refl _)), hc, run_eq_represent h.prefix, represent,
      hnone]
    rfl
  nestedExit := by
    intro before raised outcome after hsteps hd
    have hcount := sessionCount_run (exit_at h hsteps)
    rw [aexit_nested (by omega), hcount]
  outermostExit := by
    intro before raised outcome after hsteps hd
    have hbefore := exit_at h hsteps
    have hcount := sessionCount_run hbefore
    have hsession := session_run hbefore (by omega)
    rw [hd] at hcount
    refine ⟨_, hsession, ?_⟩
    rw [aexit_outermost hcount hsession]
    cases outcome <;> rfl
  commitOnce := by
    intro k
    rw [run_eq_represent h]
    exact commit_once _ k
  fresh := by
    rintro before between after rfl hd -
    have hfirst : WellNested before := h.prefix
    have hsecond : WellNested (before ++ .enter :: between) := by
      have hsplit : before ++ .enter :: (between ++ .enter :: after) =
          before ++ .enter :: between ++ .enter :: after := by simp
      rw [hsplit] at h
      exact h.prefix
    have hnone := current_of_depth ((depth_after before).trans hd)
    have hopened := opened_le (before ++ [.enter]) between
    rw [List.append_assoc, List.singleton_append, after_snoc] at hopened
    rw [run_eq_represent hfirst, run_eq_represent hsecond]
    refine Nat.lt_of_lt_of_le ?_ hopened
    simp [represent, Scopes.step, hnone]

/-- A scope in a scope, the inner one left by an exception and the outer one with a commit that
    fails; then another scope. -/
def twoScopes (e : Failure) : List Step :=
  [.enter, .enter, .exit (some e.1) none, .exit (some e.1) (some e), .enter]

theorem twoScopes_wellNested (e : Failure) : WellNested (twoScopes e) := by
  intro before raised outcome after hsplit
  unfold twoScopes at hsplit
  rcases before with _ | ⟨b, _ | ⟨c, _ | ⟨d, _ | ⟨f, _ | ⟨g, before⟩⟩⟩⟩⟩ <;> simp at hsplit
  · obtain ⟨rfl, rfl, -⟩ := hsplit
    decide
  · obtain ⟨rfl, rfl, rfl, -⟩ := hsplit
    exact Nat.zero_lt_one

theorem twoScopes_nesting :
    NestingLaws (twoScopes ⟨.integrityError "duplicate key", rfl⟩) :=
  session_nesting _ (twoScopes_wellNested _)

/-! ## The scopes of the world -/

/-- A world and a provider of this module: the same count, a session in both or in neither, and
    the same calls of sessions. -/
structure Simulates (w : World) (s : ScopeState) : Prop where
  count : w.provider.sessionCount = s.sessionCount
  session : w.provider.session.isSome = s.session.isSome
  journal : w.journal.map Prod.snd = s.log.map Prod.snd

theorem aenter_simulates {w : World} {s : ScopeState} (h : Simulates w s) :
    ∃ w' s', SessionProvider.aenter w = .ok () w' ∧ aenter s = .ok () s' ∧ Simulates w' s' := by
  by_cases hcount : w.provider.sessionCount = 0
  · refine ⟨_, _, DddService.aenter_outer hcount, aenter_outermost (h.count.symm.trans hcount), ?_⟩
    refine ⟨rfl, rfl, ?_⟩
    simpa [SessionProvider.openSession, World.note, World.setSession, World.setCount, openSession,
      setCount] using h.journal
  · refine ⟨_, _, DddService.aenter_inner hcount, aenter_nested (h.count ▸ hcount), ?_⟩
    exact ⟨congrArg (· + 1) h.count, h.session, h.journal⟩

/-- What a commit of the world that raises an `Exception` leaves behind. -/
theorem aexit_rolls_back {w : World} {t : AsyncSession} (hc : w.provider.sessionCount = 1)
    (hs : w.provider.session = some t) (hg : ¬ w.CommitGoesThrough)
    (hexc : ∀ e w', SessionProvider.aexit w = .error e w' → e.isException = true) :
    ∃ (e : Failure) (w' : World), SessionProvider.aexit w = .error e.1 w' ∧
      w'.provider = ⟨none, 0⟩ ∧ w'.journal.map Prod.snd =
        w.journal.map Prod.snd ++ [.commitCalled, .rolledBack, .closed] := by
  obtain ⟨e, w', hw', ⟨u, hu⟩, -, hcount, -, -, -, -, -, hjournal⟩ :=
    commit_error (w := w.setCount 0) hs hg
  cases he : e.isException with
  | true =>
    refine ⟨⟨e, he⟩, (w'.rolledBack.note .closed).setSession none,
      aexit_outer hc (tryCatch_error (bind_error hw') (run_ite_pos he
        (bind_ok (rollback_run hu) (bind_ok (close_run rfl) (bind_ok (modify_run _ _) rfl))))),
      ?_, ?_⟩
    · exact congrArg (SessionProvider.mk none) hcount
    · change ((w'.journal ++ [(w'.tx, SessionAction.rolledBack)]) ++
        [(w'.tx + 1, SessionAction.closed)]).map Prod.snd = _
      rw [hjournal]
      simp [World.setCount]
  | false =>
    have hraise := aexit_outer hc (tryCatch_error (bind_error hw')
      (run_ite_neg (by simp [he]) rfl))
    rw [hexc e w' hraise] at he
    cases he

/-- Where the world's `__aexit__` raises no `BaseException`, it is the one of this module with
    some outcome of the commit. -/
theorem aexit_simulates {w : World} {s : ScopeState} (h : Simulates w s)
    (hcount : 0 < w.provider.sessionCount) (hsession : w.provider.session.isSome = true)
    (hexc : ∀ e w', SessionProvider.aexit w = .error e w' → e.isException = true)
    (raised : Option Exc) :
    ∃ outcome w' s', Simulates w' s' ∧ ((SessionProvider.aexit w = .ok () w' ∧
        aexit raised outcome s = .ok () s') ∨
      ∃ e, SessionProvider.aexit w = .error e w' ∧ aexit raised outcome s = .error e s') := by
  obtain ⟨t, ht⟩ := Option.isSome_iff_exists.mp hsession
  obtain ⟨k, hk⟩ := Option.isSome_iff_exists.mp (h.session.symm.trans hsession)
  rcases Int.lt_or_le 1 w.provider.sessionCount with hnested | houter
  · refine ⟨none, _, _, ?_, .inl ⟨DddService.aexit_inner hnested,
      aexit_nested (h.count ▸ hnested) raised none⟩⟩
    exact ⟨congrArg (· - 1) h.count, h.session, h.journal⟩
  · have hone : w.provider.sessionCount = 1 := by omega
    have hone' : s.sessionCount = 1 := h.count.symm.trans hone
    by_cases hg : w.CommitGoesThrough
    · refine ⟨none, _, _, ?_, .inl ⟨aexit_commits hone ht hg,
        aexit_outermost hone' hk raised none⟩⟩
      refine ⟨rfl, rfl, ?_⟩
      simpa [World.afterCommit, exited, exitLog, ofSession] using h.journal
    · obtain ⟨e, w', hw', hprovider, hjournal⟩ := aexit_rolls_back hone ht hg hexc
      refine ⟨some e, w', _, ?_, .inr ⟨e.1, hw', aexit_outermost hone' hk raised (some e)⟩⟩
      refine ⟨by rw [hprovider]; rfl, by rw [hprovider]; rfl, ?_⟩
      rw [hjournal, h.journal]
      simp [exited, exitLog, ofSession]

end DddService.SessionScopes
