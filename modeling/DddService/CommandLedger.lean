import DddService.Command
import DddService.Runs

/- The command endpoint as a client of the ledger. An item asks for one change, if its
   payload can be read (`Command.change?`). The endpoint reports it as a success, with the
   id the change is about, and then the ledger has taken the change with what the handlers
   make of it; or as a failure, and then the ledger is as it was. Where nothing raises by
   itself, an item fails only if it cannot be read or the ledger refuses it
   (`command_follows_ledger`). -/
namespace DddService
open Hoare EventLog

/-! ## What the items ask for -/

section
variable (env : Env) (json : CamelCaseJson) (tokenInfo : TokenInfo) (traceId : Option String)

/-- The change a payload asks for, when the next id to draw is the `k`-th. -/
def Command.change? (k : Nat) : Command → Json → Option (String × Change)
  | .create, p => (json.create p).toOption.map fun d =>
      (env.uuid4 .aggregate k, .created d.yourValueObject (createUser tokenInfo))
  | .update, p => (json.update p).toOption.map fun d =>
      (d.id, .updated d.yourValueObject (createUser tokenInfo))
  | .delete, p => (json.delete p).toOption.map fun d => (d.id, .deleted (createUser tokenInfo))
  | .void, p => (json.void p).toOption.map fun d => (d.id, .voided (createUser tokenInfo))

variable (cmd : Command)

/-- These answers to these items take the ledger from `L` to `L'`. -/
inductive Command.Follows : List Item → List Answer → Store → Store → Prop
  | nil (L : Store) : Follows [] [] L L
  | success {p : Item} {items : List Item} {answers : List Answer} {L L₁ L' : Store}
      {x : String × Change}
      (asked : cmd.change? env json tokenInfo (p.drawn .aggregate) p.payload = some x)
      (taken : L.appendAll machine (changed x) = some L₁) (rest : Follows items answers L₁ L') :
      Follows (p :: items) (.success (.one x.1) :: answers) L L'
  | failure {p : Item} {items : List Item} {answers : List Answer} {L L' : Store} (s : String)
      (refused : p.faults = [] → ∀ x,
        cmd.change? env json tokenInfo (p.drawn .aggregate) p.payload = some x →
          L.appendAll machine (changed x) = none)
      (rest : Follows items answers L L') : Follows (p :: items) (.failure s :: answers) L L'

/-- No uuid is drawn twice: every item comes after the uuids drawn before it. -/
def Command.InOrder : List Item → World → Prop
  | [], _ => True
  | p :: items, w => w.drawn .aggregate ≤ p.drawn .aggregate ∧
      InOrder items (cmd.next env json tokenInfo traceId p w)

end

section
variable {env : Env} {json : CamelCaseJson} {tokenInfo : TokenInfo} {traceId : Option String}
  {cmd : Command} {t : String} {w w' : World} {L : Store}

/-! ## What a call answers with -/

theorem setTracing_drawn (traceId : Option String) (k : Nat) :
    Triple (fun u => u.drawn .aggregate = k) (ControllerBase.setTracing env traceId)
      (fun _ u => u.drawn .aggregate = k) fun _ _ => True := by
  intro u hu
  obtain ⟨a, u', hrun, hframed, -⟩ := setTracing_harmless env traceId u
  rw [hrun]
  exact hframed.drawn.trans hu

theorem Method.returns {m : Method} (hb : Body m.func) {R : m.Result → Prop}
    (hfunc : Triple (fun u => u.drawn .aggregate = w.drawn .aggregate) m.func (fun a _ => R a)
      fun _ _ => True)
    (h0 : w.provider.sessionCount = 0) {a : m.Result} (hr : m.run env w = .ok a w') : R a := by
  have hguarded : Triple (fun u => u.drawn .aggregate = w.drawn .aggregate)
      (ControllerBase.guarded env m.traceId m.func) (fun a _ => R a) fun _ _ => True := by
    refine Triple.tryCatch (R := fun _ _ => True)
      ((setTracing_drawn m.traceId _).bind fun _ => hfunc.bind fun a => ?_) fun e => ?_
    · exact (Triple.still _ fun _ h => h).bind fun _ => Triple.pure fun _ h => h
    · -- the handler raises
      refine Triple.ite (fun _ => ?_) fun _ => Triple.throw fun _ _ => trivial
      exact (Triple.still _ fun _ _ => trivial).bind fun _ =>
        (Triple.still _ fun _ h => h).bind fun _ => Triple.throw fun _ h => h
  unfold Method.run at hr
  rcases connectDbSession_cases env m.traceId hb h0 with
    ⟨a₁, w₁, s, hg, -, -, hrun⟩ | ⟨e, w₁, s, -, -, -, hrun⟩ | ⟨-, e, w₁, hrun, -⟩
  · rw [hr] at hrun
    have h := hguarded w.entered rfl
    rw [hg] at h
    rw [hrun.1]
    exact h
  · rw [hr] at hrun
    cases hrun
  · rw [hr] at hrun
    cases hrun

theorem batch_returns {ρ : Type} {one : ρ → M String} {r : ρ} {k : Nat} {id : String}
    (h : Triple (fun u => u.drawn .aggregate = k) (one r) (fun a _ => a = id) fun _ _ => True) :
    Triple (fun u => u.drawn .aggregate = k) (YourAggregateController.batch one [r])
      (fun resp _ => resp = .one id) fun _ _ => True := by
  have hmap : Triple (fun u => u.drawn .aggregate = k) ([r].mapM one)
      (fun ids _ => ids = [id]) fun _ _ => True := by
    rw [List.mapM_cons]
    refine h.bind fun a => ?_
    rw [List.mapM_nil]
    exact Triple.bind (R := fun as _ => a = id ∧ as = []) (Triple.pure fun _ ha => ⟨ha, rfl⟩)
      fun as => Triple.pure fun _ ha => by rw [ha.1, ha.2]
  refine hmap.bind fun ids u hu => ?_
  rw [hu]
  rfl

theorem createOne_returns (r : CreateYourAggregateRequest) (k : Nat) :
    Triple (fun u => u.drawn .aggregate = k) (YourAggregateController.createOne env r)
      (fun id _ => id = env.uuid4 .aggregate k) fun _ _ => True := by
  have hdraw : Triple (fun u => u.drawn .aggregate = k) (uuid4 env .aggregate)
      (fun id _ => id = env.uuid4 .aggregate k) fun _ _ => True :=
    fun u hu => congrArg (env.uuid4 .aggregate) hu
  refine hdraw.bind fun id => (Triple.still _ fun _ h => h).bind fun now => ?_
  obtain ⟨a, ha, hid⟩ : ∃ a, YourAggregate.createYourAggregate now id r.yourValueObject r.doer =
      .ok a ∧ a.id = id := by
    obtain ⟨a, ha, hready⟩ := @createYourAggregate_ready env.mixin now id r.yourValueObject r.doer
    exact ⟨a, ha, hready.key⟩
  rw [ha]
  refine Triple.bind (R := fun b _ => b.id = env.uuid4 .aggregate k)
    (Triple.pure fun _ h => hid.trans h) fun b => ?_
  exact (Triple.still _ fun _ h => h).bind fun _ => Triple.pure fun _ h => h

/-- What `perform` makes of a payload that asks for `x`: a call that makes the change, and
    answers with its id. -/
structure Command.Asks (env : Env) (k : Nat) (x : String × Change) (perform : M Response) :
    Prop where
  call : ∃ c traceId func, Call.method env c = some ⟨Response, traceId, func⟩ ∧
    c.changes env k = changed x ∧ perform = Method.run env ⟨Response, traceId, func⟩ ∧
    Triple (fun u => u.drawn .aggregate = k) func (fun r _ => r = .one x.1) fun _ _ => True

theorem createFromBody_asks {ρ : Type} (read : Json → Except Failure ρ)
    (set : ρ → User → Option String → ρ) (p : Json) (f : ρ → M Response)
    (ask : ρ → String × Change) {k : Nat}
    (h : ∀ d, Command.Asks env k (ask d) (f (set d (createUser tokenInfo) traceId))) :
    ((read p).toOption.map ask = none ∧ ∃ e : Failure,
        M.ofExcept (createFromBody read set p tokenInfo traceId) >>= f = throw e.val) ∨
      ∃ x, (read p).toOption.map ask = some x ∧
        Command.Asks env k x (M.ofExcept (createFromBody read set p tokenInfo traceId) >>= f) := by
  cases hp : read p with
  | error e =>
    left
    refine ⟨rfl, e, ?_⟩
    unfold createFromBody
    rw [hp]
    rfl
  | ok d =>
    right
    refine ⟨ask d, rfl, ?_⟩
    rw [createFromBody_run hp]
    exact h d

/-- A payload asks for no change and is refused, or the change it asks for is made. -/
theorem Command.perform_asks (env : Env) (json : CamelCaseJson) (tokenInfo : TokenInfo)
    (traceId : Option String) (cmd : Command) (p : Json) (k : Nat) :
    (cmd.change? env json tokenInfo k p = none ∧
      ∃ e : Failure, cmd.perform env json tokenInfo traceId p = throw e.val) ∨
    ∃ x, cmd.change? env json tokenInfo k p = some x ∧
      Command.Asks env k x (cmd.perform env json tokenInfo traceId p) := by
  have hbatch : ∀ {ρ : Type} (one : Nat → ρ → String × Change) (draws : Nat) (r : ρ),
      batchChanges one draws k [r] = changed (one k r) := fun one draws r => List.append_nil _
  -- a use case call, and the id the controller answers with
  have hid : ∀ (x : M Unit) (id : String), Triple (fun u => u.drawn .aggregate = k)
      (do x; pure id) (fun a _ => a = id) fun _ _ => True := fun x id =>
    (Triple.still x fun _ _ => trivial).bind fun _ => Triple.pure fun _ _ => rfl
  cases cmd with
  | create => exact createFromBody_asks _ _ _ _ _ fun d =>
      ⟨.create [{ d with doer := createUser tokenInfo, traceId }], _, _, rfl, hbatch .., rfl,
        batch_returns (createOne_returns _ k)⟩
  | update => exact createFromBody_asks _ _ _ _ _ fun d =>
      ⟨.update [{ d with doer := createUser tokenInfo, traceId }], _, _, rfl, hbatch .., rfl,
        batch_returns (hid _ d.id)⟩
  | delete => exact createFromBody_asks _ _ _ _ _ fun d =>
      ⟨.delete [{ d with doer := createUser tokenInfo, traceId }], _, _, rfl, hbatch .., rfl,
        batch_returns (hid _ d.id)⟩
  | void => exact createFromBody_asks _ _ _ _ _ fun d =>
      ⟨.void [{ d with doer := createUser tokenInfo, traceId }], _, _, rfl, hbatch .., rfl,
        batch_returns (hid _ d.id)⟩

/-! ## One item -/

theorem Idle.arrive (h : Idle env L w) {p : Item} (hp : w.drawn .aggregate ≤ p.drawn .aggregate) :
    Idle env L (p.arrive w) :=
  ⟨h.count, h.represents, h.fresh.mono hp⟩

theorem Drawn.of_leads {k : Nat} {L' : Store} (h : Drawn env k L')
    (hleads : EventLog.Store.Leads machine L L') : Drawn env k L := by
  intro id hid
  refine h id fun habsent => hid ?_
  obtain ⟨es, hes⟩ := hleads.run id
  rw [habsent] at hes
  exact Ledger.absent_run hes

theorem Idle.failed (hmixin : env.mixin.RaisesExceptions) (ha : Alike t w w) (h : Idle env L w)
    {p : Item} (hp : w.drawn .aggregate ≤ p.drawn .aggregate) {s : String}
    (hs : cmd.answer env json tokenInfo traceId p w = .failure s) :
    Idle env L (cmd.next env json tokenInfo traceId p w) := by
  have hsame := ha.failed hmixin hs
  have harrived := h.arrive hp
  refine ⟨hsame.counts.2, hsame.db.symm ▸ h.represents, ?_⟩
  unfold Command.next
  rcases Command.perform_cases env json tokenInfo traceId cmd p.payload with
    ⟨e, hrun⟩ | ⟨c, traceId', func, hm, hrun⟩
  · rw [hrun]
    exact harrived.fresh
  · rw [hrun]
    have hcalm : False → Calm (p.arrive w) := False.elim
    obtain ⟨L', hgrew, hidle, -⟩ :=
      Method.outcome (Body.method env hm) (Call.makes hm) harrived hcalm
    exact hidle.fresh.of_leads hgrew.leads

theorem Idle.succeeded (h : Idle env L w) {p : Item}
    (hp : w.drawn .aggregate ≤ p.drawn .aggregate) {r : Response}
    (hr : cmd.answer env json tokenInfo traceId p w = .success r) :
    ∃ x L', cmd.change? env json tokenInfo (p.drawn .aggregate) p.payload = some x ∧
      r = .one x.1 ∧ L.appendAll machine (changed x) = some L' ∧
      Idle env L' (cmd.next env json tokenInfo traceId p w) := by
  have harrived := h.arrive hp
  unfold Command.answer at hr
  unfold Command.next
  cases hperform : cmd.perform env json tokenInfo traceId p.payload (p.arrive w) with
  | error e w' => rw [hperform] at hr; cases hr
  | ok r' w' =>
    rw [hperform] at hr
    cases hr
    rcases Command.perform_asks env json tokenInfo traceId cmd p.payload (p.drawn .aggregate) with
      ⟨-, e, hrun⟩ | ⟨x, hx, c, traceId', func, hm, hchanges, hrun, hreturns⟩
    · rw [hrun] at hperform
      cases hperform
    · rw [hrun] at hperform
      have hcalm : False → Calm (p.arrive w) := False.elim
      obtain ⟨L', -, hidle, htaken⟩ :=
        Method.outcome (Body.method env hm) (Call.makes hm) harrived hcalm
      rw [hperform] at hidle
      obtain ⟨htaken, -, -⟩ := htaken (Or.inl ⟨_, _, hperform⟩)
      refine ⟨x, L', hx, ?_, hchanges ▸ htaken, hidle⟩
      exact Method.returns (Body.method env hm) (R := fun r => r = .one x.1) hreturns harrived.count
        hperform

/-- What blocks a call with these changes is that the ledger refuses them. -/
theorem Call.refused_of_blocked {c : Call} {k : Nat} {x : String × Change}
    (hc : c.changes env k = changed x) (hb : c.blocked env k L) :
    L.appendAll machine (changed x) = none := by
  rw [← hc]
  have hsome : c.changes env k ≠ [] := by
    rw [hc]
    exact List.cons_ne_nil _ _
  cases c with
  | get r => exact absurd rfl hsome
  | newContext t => exact absurd rfl hsome
  | _ => exact hb.resolve_left hsome

theorem Idle.refused (hmixin : env.mixin.RaisesExceptions) (ha : Alike t w w) (h : Idle env L w)
    {p : Item} (hp : w.drawn .aggregate ≤ p.drawn .aggregate) {s : String}
    (hs : cmd.answer env json tokenInfo traceId p w = .failure s) (hfaults : p.faults = [])
    {x : String × Change}
    (hx : cmd.change? env json tokenInfo (p.drawn .aggregate) p.payload = some x) :
    L.appendAll machine (changed x) = none := by
  rcases Command.perform_asks env json tokenInfo traceId cmd p.payload (p.drawn .aggregate) with
    ⟨hnone, -⟩ | ⟨x', hx', c, traceId', func, hm, hchanges, hrun, -⟩
  · rw [hnone] at hx
    cases hx
  rw [hx] at hx'
  cases hx'
  by_contra hne
  have hcalm : True → Calm (p.arrive w) := by
    intro _
    refine ⟨?_, ha.left⟩
    show p.faults.map _ = []
    rw [hfaults]
    rfl
  -- the change would be made, but the database is as it was
  obtain ⟨L', -, hidle, htaken⟩ :=
    Method.outcome (Body.method env hm) (Call.makes hm) (h.arrive hp) hcalm
  have hblocked : ¬c.blocked env (p.drawn .aggregate) L := fun hb =>
    hne (Call.refused_of_blocked hchanges hb)
  obtain ⟨htaken, -, -⟩ := htaken (Or.inr ⟨trivial, hblocked⟩)
  have hdb := (ha.failed hmixin hs).db
  unfold Command.next at hdb
  rw [hrun] at hdb
  change L.appendAll machine (c.changes env (p.drawn .aggregate)) = some L' at htaken
  have hbefore := h.represents.archives.length_eq
  have hafter := hidle.represents.archives.length_eq
  rw [hdb, hbefore, EventLog.Store.appendAll_length htaken, hchanges] at hafter
  have hlen : (changed x).length = (reaction x.1 x.2).length + 1 := rfl
  omega

/-! ## All the items -/

theorem Idle.follows (hmixin : env.mixin.RaisesExceptions) :
    ∀ (items : List Item) (w : World) (L : Store), Alike t w w → Idle env L w →
      cmd.InOrder env json tokenInfo traceId items w →
      ∃ L', cmd.Follows env json tokenInfo items
          (cmd.answers env json tokenInfo traceId items w) L L' ∧
        Idle env L' (cmd.last env json tokenInfo traceId items w)
  | [], _, L, _, h, _ => ⟨L, .nil L, h⟩
  | p :: items, w, L, ha, h, ⟨hp, hitems⟩ => by
    cases hanswer : cmd.answer env json tokenInfo traceId p w with
    | success r =>
      obtain ⟨x, L₁, hx, rfl, htaken, hidle⟩ := h.succeeded hp hanswer
      obtain ⟨L', hfollows, hlast⟩ :=
        Idle.follows hmixin items _ L₁ (ha.refl_next hmixin p) hidle hitems
      refine ⟨L', ?_, hlast⟩
      rw [Command.answers, hanswer]
      exact .success hx htaken hfollows
    | failure s =>
      obtain ⟨L', hfollows, hlast⟩ := Idle.follows hmixin items _ L (ha.refl_next hmixin p)
        (h.failed hmixin ha hp hanswer) hitems
      refine ⟨L', ?_, hlast⟩
      rw [Command.answers, hanswer]
      exact .failure s (fun hf x hx => h.refused hmixin ha hp hanswer hf hx) hfollows

end

/-! ## Requests -/

/-- A request to the endpoint, with a supported `cmd`. -/
structure CommandRequest where
  traceId : Option String
  tokenInfo : TokenInfo
  cmd : Command
  items : List Item

section
variable (env : Env) (json : CamelCaseJson)

namespace CommandRequest
variable (r : CommandRequest)

/-- Its context, with a session provider and a publisher of its own. -/
def enter (w : World) : World := stateOf (Call.enterContext env r.traceId w)

def call (w : World) : EStateM.Result Exc World DefaultResponse :=
  r.cmd.call env json r.tokenInfo r.items (r.enter env w)

/-- What the request did to the database is what its answers say of the ledger. -/
structure Keeps (answers : List Answer) (w : World) (L L' : Store) (w' : World) : Prop where
  before : Represents env.mixin w.db L
  response : r.call env json w = .ok (CommandResponse.of (r.items.zip answers)).respond w'
  follows : r.cmd.Follows env json r.tokenInfo r.items answers L L'
  after : Represents env.mixin w'.db L'

end CommandRequest

/-- The requests, one after the other, take the ledger from `L` to `L'`. -/
inductive Serves : List CommandRequest → World → Store → Store → Prop
  | nil (w : World) (L : Store) : Serves [] w L L
  | cons {r : CommandRequest} {rs : List CommandRequest} {answers : List Answer} {w w' : World}
      {L L₁ L' : Store} (first : r.Keeps env json answers w L L₁ w') (rest : Serves rs w' L₁ L') :
      Serves (r :: rs) w L L'

/-- No uuid is drawn twice in all the requests. -/
def InOrder : List CommandRequest → World → Prop
  | [], _ => True
  | r :: rs, w =>
    r.cmd.InOrder env json r.tokenInfo (r.enter env w).traceId r.items (r.enter env w) ∧
      InOrder rs (stateOf (r.call env json w))

end

section
variable {env : Env} {json : CamelCaseJson} {w : World} {L : Store}

theorem Idle.enter (h : Idle env L w) (r : CommandRequest) : Idle env L (r.enter env w) := by
  obtain ⟨_, drawn, hdrawn, hrun⟩ := Call.newContext_run env r.traceId w
  change stateOf (Call.enterContext env r.traceId w) = _ at hrun
  unfold CommandRequest.enter
  rw [hrun]
  refine ⟨rfl, h.represents, ?_⟩
  show Drawn env (drawn .aggregate) L
  rw [hdrawn]
  exact h.fresh

theorem CommandRequest.keeps (hmixin : env.mixin.RaisesExceptions) (h : Idle env L w)
    (r : CommandRequest)
    (hitems : r.cmd.InOrder env json r.tokenInfo (r.enter env w).traceId r.items (r.enter env w)) :
    ∃ answers L', r.Keeps env json answers w L L' (stateOf (r.call env json w)) ∧
      Idle env L' (stateOf (r.call env json w)) := by
  obtain ⟨t, ht⟩ := Alike.enterContext env r.traceId w
  change Alike t (r.enter env w) (r.enter env w) at ht
  rw [ht.traceIds.1] at hitems
  obtain ⟨L', hfollows, hlast⟩ := Idle.follows hmixin r.items _ L ht (h.enter r) hitems
  have hcall : r.call env json w = _ := Command.call_run hmixin ht r.items
  rw [hcall]
  exact ⟨_, L', ⟨h.represents, hcall, hfollows, hlast.represents⟩, hlast⟩

/-- Over every run of requests to the endpoint, with `Exception`s raised anywhere and no
    cancellation: the responses account for all that was done to the database. -/
theorem command_follows_ledger (env : Env) (hmixin : env.mixin.RaisesExceptions)
    (json : CamelCaseJson) (faults : List (Option Exc)) (calls : List Call)
    (requests : List CommandRequest)
    (hitems : InOrder env json requests (runCalls env (World.init faults) calls)) :
    ∃ L L', EventLog.Store.Leads machine (EventLog.Store.init machine) L ∧
      Serves env json requests (runCalls env (World.init faults) calls) L L' := by
  obtain ⟨L, hleads, hidle⟩ := runCalls_represents env faults calls
  suffices h : ∀ (rs : List CommandRequest) (w : World) (L : Store), Idle env L w →
      InOrder env json rs w → ∃ L', Serves env json rs w L L' by
    obtain ⟨L', hserves⟩ := h requests _ L hidle hitems
    exact ⟨L, L', hleads, hserves⟩
  intro rs
  induction rs with
  | nil => exact fun w L _ _ => ⟨L, .nil w L⟩
  | cons r rs ih =>
    intro w L h ⟨hr, hrs⟩
    obtain ⟨answers, L₁, hkeeps, hidle⟩ := r.keeps hmixin h hr
    obtain ⟨L', hserves⟩ := ih _ L₁ hidle hrs
    exact ⟨L', .cons hkeeps hserves⟩

/-- An aggregate is created, then voided twice, which the ledger refuses. -/
theorem command_follows_ledger_voids :
    let token : TokenInfo := ⟨⟨"user", none, none, none⟩, ⟨"organization"⟩⟩
    let void : Item := ⟨.obj [("id", .str "a")], 0, fun _ => 9, []⟩
    ∃ L L', EventLog.Store.Leads machine (EventLog.Store.init machine) L ∧
      Serves .plain .plain [⟨none, token, .create, [Item.creating 1 0 []]⟩,
        ⟨none, token, .void, [void, void]⟩] (World.init []) L L' := by
  refine command_follows_ledger .plain DataclassMixin.asdict_raisesExceptions .plain [] [] _ ?_
  exact ⟨⟨Nat.le_refl _, trivial⟩, ⟨by decide +kernel, by decide +kernel, trivial⟩, trivial⟩

end

end DddService
