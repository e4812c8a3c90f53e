import DddService.Runs

/- Atomicity of whole calls. A method whose body saves and publishes as it likes,
   with handlers nested to any depth, either has committed all of it with one
   commit, or, when it raises an `Exception`, has changed nothing.

   For the controller's batches this can be said without the session: a batch of
   `n` requests that returns has the effect of the `n` calls of one request each
   (`Call.singles`), made one after another where nothing fails. Two databases
   have the same effect if they hold the same ledger, which leaves their times,
   their archive ids and their trace fields open. -/
namespace DddService
open Hoare EventLog

variable {env : Env}

/-- The tables hold the same aggregates, events and archives, up to generated ids,
    times and trace fields. -/
def SameEffect (mixin : DataclassMixin) (db db' : Database) : Prop :=
  ∃ L, Represents mixin db L ∧ Represents mixin db' L

/-- All that was written since `w` was committed by one commit, the last thing
    asked of the session before it was closed. -/
def CommittedOnce (w w' : World) : Prop :=
  ∃ ps, w'.db = w.db.writeAll w.clock ps ∧
    w'.journal = w.journal ++ (w.tx + 1, .opened) :: ps.map (fun p => (w.tx + 1, .write p)) ++
      [(w.tx + 1, .commitCalled), (w.tx + 1, .committed), (w.tx + 1, .closed)]

/-- A batch as calls of one request each. -/
def Call.singles : Call → Option (List Call)
  | .create rs => some (rs.map fun r => .create [r])
  | .update rs => some (rs.map fun r => .update [r])
  | .void rs => some (rs.map fun r => .void [r])
  | .delete rs => some (rs.map fun r => .delete [r])
  | .get _ | .newContext _ => none

/-- `w` where nothing fails from now on, with an empty buffer. -/
def World.calmed (w : World) : World := { w with faults := [], messages := .empty }

theorem World.calmed_calm (w : World) : Calm w.calmed :=
  ⟨rfl, fun rk k m hm => by cases hm⟩

theorem Idle.calmed {L : Store} {w : World} (h : Idle env L w) : Idle env L w.calmed :=
  ⟨h.count, h.represents, h.fresh⟩

/-! ## One request at a time -/

section
variable {L L' : Store} {w : World}

/-- In a calm world a call that the ledger takes makes its changes. -/
theorem Call.takes {c : Call} {m : Method} (hm : c.method env = some m) (h : Idle env L w)
    (hcalm : Calm w) (hb : ¬c.blocked env (w.drawn .aggregate) L) :
    ∃ L₁, L.appendAll machine (c.changes env (w.drawn .aggregate)) = some L₁ ∧
      Idle env L₁ (stateOf (c.run env w)) ∧ Calm (stateOf (c.run env w)) ∧
      (stateOf (c.run env w)).drawn .aggregate = w.drawn .aggregate + c.draws := by
  have htrue : True → Calm w := fun _ => hcalm
  obtain ⟨L₁, _, hidle, hout⟩ := Method.outcome (Body.method env hm) (Call.makes hm) h htrue
  obtain ⟨happ, hdrawn, hcalm'⟩ := hout (Or.inr ⟨trivial, hb⟩)
  rw [Call.run_method hm]
  exact ⟨L₁, happ, hidle, hcalm' trivial, hdrawn⟩

/-- `mk r` is the call of the one request `r`, which asks for `one k r` and draws
    `draws` ids. -/
structure OneRequest (env : Env) {ρ : Type} (mk : ρ → Call) (one : Nat → ρ → String × Change)
    (draws : Nat) : Prop where
  method : ∀ r, ∃ m, (mk r).method env = some m
  changes : ∀ k r, (mk r).changes env k = changed (one k r)
  blocked : ∀ k L r, (mk r).blocked env k L →
    (mk r).changes env k = [] ∨ L.appendAll machine ((mk r).changes env k) = none
  draws : ∀ r, (mk r).draws = draws

theorem create_oneRequest : OneRequest env (fun r => .create [r])
    (CreateYourAggregateRequest.change env) 1 :=
  ⟨fun _ => ⟨_, rfl⟩, fun _ _ => List.append_nil _, fun _ _ _ h => h, fun _ => rfl⟩

theorem update_oneRequest : OneRequest env (fun r => .update [r])
    UpdateYourAggregateRequest.change 0 :=
  ⟨fun _ => ⟨_, rfl⟩, fun _ _ => List.append_nil _, fun _ _ _ h => h, fun _ => rfl⟩

theorem void_oneRequest : OneRequest env (fun r => .void [r]) IdRequest.voiding 0 :=
  ⟨fun _ => ⟨_, rfl⟩, fun _ _ => List.append_nil _, fun _ _ _ h => h, fun _ => rfl⟩

theorem delete_oneRequest : OneRequest env (fun r => .delete [r]) IdRequest.deleting 0 :=
  ⟨fun _ => ⟨_, rfl⟩, fun _ _ => List.append_nil _, fun _ _ _ h => h, fun _ => rfl⟩

/-- The requests of a batch, as calls of their own, make the batch's changes. -/
theorem OneRequest.idle {ρ : Type} {mk : ρ → Call} {one : Nat → ρ → String × Change} {draws : Nat}
    (hone : OneRequest env mk one draws) :
    ∀ (rs : List ρ) (w : World) (L : Store), Idle env L w → Calm w →
      L.appendAll machine (batchChanges one draws (w.drawn .aggregate) rs) = some L' →
      Idle env L' (runCalls env w (rs.map mk))
  | [], w, L, h, _, happ => by
    have hL : L = L' := Option.some.inj happ
    rw [← hL]
    exact h
  | r :: rs, w, L, h, hcalm, happ => by
    obtain ⟨m, hm⟩ := hone.method r
    -- the ledger takes the first request's changes, or it would not take them all
    have hb : ¬(mk r).blocked env (w.drawn .aggregate) L := by
      intro hb
      apply (hone.blocked _ _ _ hb).elim
      · rw [hone.changes]
        exact List.cons_ne_nil _ _
      · intro hnone
        rw [hone.changes] at hnone
        rw [batchChanges, EventLog.Store.appendAll_append, hnone] at happ
        cases happ
    obtain ⟨L₁, h₁, hidle, hcalm', hdrawn⟩ := Call.takes hm h hcalm hb
    apply OneRequest.idle hone rs _ L₁ hidle hcalm'
    rw [hone.changes] at h₁
    rw [batchChanges, EventLog.Store.appendAll_append, h₁] at happ
    rw [hdrawn, hone.draws]
    exact happ

theorem Call.singles_idle {c : Call} {cs : List Call} (hcs : c.singles = some cs)
    (h : Idle env L w) (hcalm : Calm w)
    (happ : L.appendAll machine (c.changes env (w.drawn .aggregate)) = some L') :
    Idle env L' (runCalls env w cs) := by
  cases c with
  | create rs => cases hcs; exact OneRequest.idle create_oneRequest rs w L h hcalm happ
  | update rs => cases hcs; exact OneRequest.idle update_oneRequest rs w L h hcalm happ
  | void rs => cases hcs; exact OneRequest.idle void_oneRequest rs w L h hcalm happ
  | delete rs => cases hcs; exact OneRequest.idle delete_oneRequest rs w L h hcalm happ
  | get r => cases hcs
  | newContext t => cases hcs

theorem Call.singles_method {c : Call} {cs : List Call} (hcs : c.singles = some cs) :
    ∃ m, c.method env = some m := by
  cases c with
  | get r => cases hcs
  | newContext t => cases hcs
  | _ => exact ⟨_, rfl⟩

/-- A batch that returns has the effect of its requests made one by one. -/
theorem Call.batch_effect {c : Call} {cs : List Call} (hcs : c.singles = some cs)
    (h : Idle env L w) {w' : World} (hr : c.run env w = .ok () w') :
    SameEffect env.mixin w'.db (runCalls env w.calmed cs).db := by
  obtain ⟨m, hm⟩ := Call.singles_method hcs
  obtain ⟨a, hok⟩ := Call.run_ok hm hr
  have hcalm : False → Calm w := False.elim
  obtain ⟨L', _, hidle, hout⟩ := Method.outcome (Body.method env hm) (Call.makes hm) h hcalm
  obtain ⟨happ, _⟩ := hout (Or.inl ⟨a, w', hok⟩)
  rw [hok] at hidle
  exact ⟨L', hidle.represents,
    (Call.singles_idle hcs h.calmed w.calmed_calm happ).represents⟩

end

/-! ## Atomicity -/

/-- A method that raises an `Exception` has changed nothing, one that returns has
    committed once; and a batch, after any run, has the effect of its requests made
    one by one, or none. -/
theorem command_atomic (env : Env) :
    (∀ (α : Type) (traceId : Option String) (func : M α) (w : World), Body func →
      w.provider.sessionCount = 0 →
        (∀ e w', ControllerBase.connectDbSession env traceId func w = .error e w' →
          e.isException = true → w'.db = w.db) ∧
        (∀ a w', ControllerBase.connectDbSession env traceId func w = .ok a w' →
          CommittedOnce w w')) ∧
    (∀ (faults : List (Option Exc)) (calls : List Call) (c : Call) (cs : List Call),
      c.singles = some cs →
        (∀ e w', c.run env (runCalls env (World.init faults) calls) = .error e w' →
          e.isException = true → w'.db = (runCalls env (World.init faults) calls).db) ∧
        (∀ w', c.run env (runCalls env (World.init faults) calls) = .ok () w' →
          SameEffect env.mixin w'.db
            (runCalls env (runCalls env (World.init faults) calls).calmed cs).db)) := by
  refine ⟨fun α traceId func w hb h0 => ⟨?_, ?_⟩, fun faults calls c cs hcs => ⟨?_, ?_⟩⟩
  · intro e w' hr he
    exact connectDbSession_exception env traceId hb h0 hr he
  · intro a w' hr
    exact connectDbSession_ok env traceId hb h0 hr
  · intro e w' hr he
    obtain ⟨m, hm⟩ := Call.singles_method hcs
    obtain ⟨L, _, hidle⟩ := runCalls_represents env faults calls
    exact connectDbSession_exception env m.traceId (Body.method env hm) hidle.count
      (Call.run_error hm hr) he
  · intro w' hr
    obtain ⟨L, _, hidle⟩ := runCalls_represents env faults calls
    exact Call.batch_effect hcs hidle hr

/-- Two creations in one call, and in two calls. -/
theorem command_atomic_two_creations :
    let r : CreateYourAggregateRequest := ⟨⟨none, none, none, none, none⟩, none, ⟨"value", 1⟩⟩
    SameEffect DataclassMixin.asdict
      (stateOf ((Call.create [r, r]).run .plain (World.init []))).db
      (runCalls .plain (World.init []).calmed [.create [r], .create [r]]).db := by
  intro r
  obtain ⟨u, hrun⟩ := eq_ok_of_raised (r := (Call.create [r, r]).run .plain (World.init []))
    (by decide +kernel)
  exact ((command_atomic .plain).2 [] [] (.create [r, r]) _ rfl).2 _ hrun

end DddService
