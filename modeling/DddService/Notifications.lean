import DddService.Forest

/- Void notifications against void events. A handler that finds its aggregate voided pushes
   a notification, pushes of one call are merged into one message, a call that fails cleans
   the buffer, and one that commits publishes it. Over any run in which commits and the
   broker do not fail, what was told is what was voided (`notifications_match`). -/
namespace DddService
open Hoare Coroutine Lineage Causality

/-- From here on the environment lets everything go on. -/
def World.Calm (w : World) : Prop := ∀ f ∈ w.faults, f = none

instance : DecidablePred World.Calm := fun w =>
  decidable_of_iff (w.faults.all Option.isNone = true) (by
    simp only [World.Calm, List.all_eq_true, Option.isNone_iff_eq_none])

/-- The messages of a buffer, in the order in which they are published. -/
def Messages.pendingList {δ : Type} (ms : Messages δ) : List (String × QueueMessage δ) :=
  ms.entries.flatMap fun e => e.2.entries.map fun f => (e.1, f.2)

/-- The aggregates that messages tell were voided. -/
def notified (sent : List (String × QueueMessage Pushed)) : List String :=
  (sent.filter fun p => p.1 = YourAggregateEventHandler.yourAggregateService ∧
    p.2.functionName = YourAggregateEventHandler.yourAggregateVoidedFunction).flatMap
    fun p => p.2.data.items.map (·.payload.yourAggregateId)

/-- The aggregates that the table of events says were voided. -/
def Database.voidedIds (d : Database) : List String := d.domainEvent.filterMap (·.voidedId?)

theorem notified_append (l l' : List (String × QueueMessage Pushed)) :
    notified (l ++ l') = notified l ++ notified l' := by
  unfold notified
  rw [List.filter_append, List.flatMap_append]

/-! ## Publishing without failures -/

theorem World.Calm.next {w : World} (h : w.Calm) : w.nextFault = none := by
  unfold World.nextFault
  cases hf : w.faults with
  | nil => rfl
  | cons f fs =>
    have hnone : f = none := h f (by rw [hf]; exact List.mem_cons_self)
    rw [hnone]
    rfl

theorem World.Calm.advance {w : World} (h : w.Calm) : w.advance.Calm :=
  fun f hf => h f (List.mem_of_mem_tail hf)

namespace RabbitMqPublisher

/-- In a calm world, with `l` sent so far. -/
def CalmSent (l : List (String × QueueMessage Pushed)) (w : World) : Prop := w.Calm ∧ w.sent = l

section
variable {l : List (String × QueueMessage Pushed)} {E : Exc → World → Prop}

theorem awaitPoint_calm : Triple (CalmSent l) awaitPoint (fun _ => CalmSent l) E := by
  intro w hw
  rw [awaitPoint_ok hw.1.next]
  exact ⟨hw.1.advance, hw.2⟩

theorem publishOne_calm (rk k : String) (m : QueueMessage Pushed) :
    Triple (CalmSent l) (publishOne rk k m) (fun _ => CalmSent (l ++ [(rk, m)])) E := by
  apply awaitPoint_calm.bind
  intro _
  have hbasic : Triple (CalmSent l) (basicPublish rk m) (fun _ => CalmSent (l ++ [(rk, m)])) E := by
    apply awaitPoint_calm.bind
    intro _
    apply Triple.modify
    intro w hw
    exact ⟨hw.1, congrArg (· ++ [(rk, m)]) hw.2⟩
  apply hbasic.bind
  intro _
  apply Triple.modify
  exact fun w hw => hw

theorem publishCopy_calm (copy : Messages Pushed) :
    Triple (CalmSent l) (publishCopy copy) (fun _ => CalmSent (l ++ copy.pendingList)) E := by
  let sentOf : List (String × Dict String (QueueMessage Pushed)) →
      List (String × QueueMessage Pushed) :=
    fun d => d.flatMap fun e => e.2.entries.map fun f => (e.1, f.2)
  have houter := Triple.forM (E := E)
    (f := fun e : String × Dict String (QueueMessage Pushed) =>
      e.2.entries.forM fun f => publishOne e.1 f.1 f.2)
    (fun d => CalmSent (l ++ sentOf d)) copy.entries [] ?_
  · refine houter.conseq (fun w hw => ?_) (fun _ _ hw => hw) fun _ _ hw => hw
    rw [show sentOf [] = [] from rfl, List.append_nil]
    exact hw
  · intro d e _
    have hinner := Triple.forM (E := E)
      (f := fun f : String × QueueMessage Pushed => publishOne e.1 f.1 f.2)
      (fun d' => CalmSent (l ++ sentOf d ++ d'.map fun f => (e.1, f.2))) e.2.entries [] ?_
    · refine hinner.conseq (fun w hw => ?_) (fun _ w hw => ?_) fun _ _ hw => hw
      · rw [List.map_nil, List.append_nil]
        exact hw
      · have hsent : sentOf (d ++ [e]) = sentOf d ++ e.2.entries.map fun f => (e.1, f.2) := by
          simp [sentOf]
        rw [hsent, ← List.append_assoc]
        exact hw
    · intro d' f _
      rw [List.map_append, ← List.append_assoc]
      exact publishOne_calm e.1 f.1 f.2

theorem publishMessages_calm {w₀ : World} (h : w₀.Calm) :
    Triple (fun w => w = w₀) publishMessages
      (fun _ w => w.sent = w₀.sent ++ w₀.messages.pendingList ∧ w.messages = .empty)
      (fun _ _ => False) := by
  let sent := w₀.sent ++ w₀.messages.pendingList
  apply Triple.tryCatch (R := fun _ _ => False)
  · apply Triple.scope (fun w => w = w₀.advance)
      (fun _ w => CalmSent sent w ∧ w.messages = .empty) (fun _ _ => False)
    · rintro w rfl
      have hopen : openConnection w = .ok () w.advance := tryCatch_ok (awaitPoint_ok h.next)
      rw [hopen]
    · apply Triple.bind (R := fun a w => a = w₀.advance ∧ CalmSent w₀.sent w)
      · apply Triple.get
        rintro w rfl
        exact ⟨rfl, h.advance, rfl⟩
      · intro a
        apply Triple.intro
        rintro w₁ ⟨rfl, hw₁⟩
        refine Triple.bind ((publishCopy_calm w₀.messages).start hw₁) fun _ => Triple.modify ?_
        exact fun w hw => ⟨hw, rfl⟩
    · intro _ w hw
      have hclose : closeConnection w = .ok () w.advance := awaitPoint_ok hw.1.1.next
      rw [hclose]
      exact ⟨hw.1.2, hw.2⟩
    · exact fun _ w hw => hw.elim
  · exact fun _ w hw => hw.elim

end

end RabbitMqPublisher

theorem Told.notified {ids : List String} {w : World} (h : Told ids w) :
    notified w.messages.pendingList = ids := by
  cases h with
  | nothing hids h =>
    rw [h, hids]
    rfl
  | voided t items _ _ hids _ h =>
    have hlist : w.messages.pendingList =
        [(YourAggregateEventHandler.yourAggregateService, notification t items)] := by
      rw [h]
      rfl
    rw [hlist, ← hids]
    simp [DddService.notified, notification, QueueMessage.new, MessageData.items]

/-! ## One call -/

namespace Causality

/-- The method of a call, as a coroutine: it stands, and alone it is the method's body. -/
theorem body_stands {env : Env} {c : Call} {m : Method} (hm : c.method env = some m) :
    ∃ func : Task m.Result, BodyStands env func c.requests ∧ AloneIs Site.world func m.func := by
  cases c with
  | create rs =>
    cases hm
    exact ⟨_, batch_stands (createOne_stands 0) rs,
      Concurrent.batch_alone (Concurrent.createOne_alone env 0) rs⟩
  | update rs =>
    cases hm
    exact ⟨_, batch_stands (updateOne_stands 0) rs,
      Concurrent.batch_alone (Concurrent.updateOne_alone env 0) rs⟩
  | void rs =>
    cases hm
    exact ⟨_, batch_stands (voidOne_stands 0) rs,
      Concurrent.batch_alone (Concurrent.voidOne_alone env 0) rs⟩
  | delete rs =>
    cases hm
    exact ⟨_, batch_stands (deleteOne_stands 0) rs,
      Concurrent.batch_alone (Concurrent.deleteOne_alone env 0) rs⟩
  | get r =>
    cases hm
    exact ⟨_, load_stands r.id, Concurrent.awaiting_alone _⟩
  | newContext traceId => cases hm

end Causality

section
variable {env : Env} {w : World} {c : Call} {m : Method}

/-- Where the outermost exit starts nothing was sent yet. If the body returned, the session
    holds the new rows, and the buffer tells of what they say was voided. -/
theorem Method.exit_told (hm : c.method env = some m) (h : Quiescent w)
    (hclean : w.messages = .empty) :
    (m.exit env w).sent = w.sent ∧
    ∀ a w₁, ControllerBase.guarded env m.traceId m.func w.entered = .ok a w₁ →
      ∃ x rows, w₁.provider.session = some x ∧ x.active = true ∧
        x.events = w.db.domainEvent ++ rows ∧ Told (rows.filterMap (·.voidedId?)) w₁ := by
  -- the method's body run as a coroutine by itself: the site says what was stored and told
  obtain ⟨func, hbody, halone⟩ := body_stands hm
  let o := Opening.of env m.traceId c.requests w
  let s₀ := Site.start w.entered
  have hstart : Starts w.entered s₀ := ⟨rfl, rfl, rfl⟩
  have hmeets : Meets alone (Starts w.entered)
      (Concurrent.ControllerBase.guarded env 0 m.traceId func)
      (fun _ => Rest env o 1 none c.requests) (fun _ => Broken env o 1) :=
    guarded_stands hbody h.unmixed
  obtain ⟨hend, _⟩ := hmeets.alone (fun _ _ hs => hs.kept.unmixed)
    (fun _ _ hs => hs.kept.unmixed) hstart
  have hrun : mapState Site.world (Concurrent.ControllerBase.guarded env 0 m.traceId func s₀).alone =
      ControllerBase.guarded env m.traceId m.func w.entered :=
    Concurrent.guarded_alone env 0 m.traceId halone s₀
  unfold Method.exit
  rw [← hrun]
  cases hsite : (Concurrent.ControllerBase.guarded env 0 m.traceId func s₀).alone with
  | error e s =>
    rw [hsite] at hend
    exact ⟨hend.kept.sent, fun a w₁ hok => nomatch hok⟩
  | ok a s =>
    rw [hsite] at hend
    refine ⟨hend.kept.sent, fun a' w₁ hok => ?_⟩
    cases hok
    obtain ⟨x, hx, ha, he⟩ := hend.session
    obtain ⟨ids, hids, ht⟩ := hend.told hclean
    let rows := s.2.stored.map (·.row)
    -- what is to be told is what the stored rows say was voided, in their order
    have hsame : rows.filterMap (·.voidedId?) = ids := by
      rw [List.append_nil] at hids
      rw [List.filterMap_map]
      exact hids
    refine ⟨x, rows, hx, ha, he, ?_⟩
    rw [hsame]
    exact ht

end

/-! ## Runs -/

/-- A call, and what the environment decides while it runs. -/
structure Attempt where
  call : Call
  faults : List (Option Exc)

/-- The world in which the attempt starts. -/
def Attempt.begin (a : Attempt) (w : World) : World := { w with faults := a.faults }

def Attempt.run (env : Env) (a : Attempt) (w : World) : World :=
  stateOf (a.call.run env (a.begin w))

/-- The call may fail, with an `Exception`, before its outermost exit; from there on nothing
    fails: the commit goes through, and the broker takes what is published. -/
structure Attempt.FailsEarly (env : Env) (a : Attempt) (w : World) : Prop where
  exception : ∀ m, a.call.method env = some m → ∀ e w₁,
    ControllerBase.traced env m.traceId m.func (a.begin w).entered = .error e w₁ →
    e.isException = true
  calm : ∀ m, a.call.method env = some m → (m.exit env (a.begin w)).Calm

/-- The exceptions that the body of a method raises. -/
def Method.failure (env : Env) (m : Method) (w : World) : Option Exc :=
  raised (ControllerBase.traced env m.traceId m.func w.entered)

theorem Attempt.failsEarly_of {env : Env} {a : Attempt} {w : World}
    (h : ∀ m, a.call.method env = some m → (m.failure env (a.begin w)).all Exc.isException = true ∧
      (m.exit env (a.begin w)).Calm) : a.FailsEarly env w := by
  refine ⟨fun m hm e w₁ hr => ?_, fun m hm => (h m hm).2⟩
  have hall := (h m hm).1
  unfold Method.failure at hall
  rw [hr] at hall
  exact hall

/-- The world after the attempts. -/
def runAttempts (env : Env) (w : World) (attempts : List Attempt) : World :=
  attempts.foldl (fun w a => a.run env w) w

/-- Between two calls nothing is pending, and what was told is what was voided. -/
structure Matched (w : World) : Prop extends Quiescent w where
  clean : w.messages = .empty
  told : notified w.sent = w.db.voidedIds

section
variable {env : Env} {w w₁ : World}

theorem World.Calm.afterCommit (h : w.Calm) (s : AsyncSession) : (w.afterCommit s).Calm := by
  intro f hf
  change f ∈ (if s.pending = [] then w.faults.tail else w.faults.tail.tail) at hf
  by_cases hp : s.pending = []
  · rw [if_pos hp] at hf
    exact h f (List.mem_of_mem_tail hf)
  · rw [if_neg hp] at hf
    exact h f (List.mem_of_mem_tail (List.mem_of_mem_tail hf))

theorem eq_empty_of_isEmpty {ms : Messages Pushed} (h : ms.isEmpty = true) : ms = .empty := by
  obtain ⟨entries, hnodup⟩ := ms
  have hnil : entries = [] := List.isEmpty_iff.mp h
  subst hnil
  rfl

theorem published_calm {α : Type} {a : α} (h : w.Calm) :
    ∃ w', (do if (← get).messages.isEmpty then pure a
              else do
                RabbitMqPublisher.publishMessages
                pure a : M α) w = .ok a w' ∧ w'.db = w.db ∧
      w'.sent = w.sent ++ w.messages.pendingList ∧ w'.messages = .empty := by
  by_cases hm : w.messages.isEmpty
  · have hempty := eq_empty_of_isEmpty hm
    refine ⟨w, bind_ok (get_run w) (run_ite_pos hm rfl), rfl, ?_, hempty⟩
    rw [hempty]
    exact (List.append_nil _).symm
  · have hcalm := RabbitMqPublisher.publishMessages_calm h w rfl
    have hpublished := RabbitMqPublisher.publishMessages_published w w rfl
    cases hr : RabbitMqPublisher.publishMessages w with
    | error e w' =>
      rw [hr] at hcalm
      exact hcalm.elim
    | ok u w' =>
      rw [hr] at hcalm hpublished
      refine ⟨w', bind_ok (get_run w) (run_ite_neg hm (bind_ok hr rfl)), hpublished.db, ?_⟩
      exact hcalm

theorem Matched.returned {m : Method} {c : Call} (hm : c.method env = some m) (h : Matched w)
    {a : m.Result} (hg : ControllerBase.guarded env m.traceId m.func w.entered = .ok a w₁)
    (hcalm : w₁.Calm) :
    (stateOf (m.run env w)).messages = .empty ∧
      notified (stateOf (m.run env w)).sent = (stateOf (m.run env w)).db.voidedIds := by
  obtain ⟨hsent, htold⟩ := Method.exit_told hm h.toQuiescent h.clean
  obtain ⟨x, rows, hx, ha, hevents, ht⟩ := htold a w₁ hg
  unfold Method.exit at hsent
  rw [hg] at hsent
  have hsent : w₁.sent = w.sent := hsent
  have hgoes : w₁.CommitGoesThrough := ⟨x, hx, ha, hcalm.next, fun _ => hcalm.advance.next⟩
  rcases withSession_cases h.count (guarded_live env m.traceId (Body.method env hm) w) with
    ⟨_, s, hs, hrun⟩ | ⟨hnot, _⟩
  · rw [hg] at hs hrun
    have hsame : s = x := Option.some.inj (hs.symm.trans hx)
    rw [hsame] at hrun
    obtain ⟨w', hpub, hdb, hsent', hempty⟩ := published_calm (a := a) (hcalm.afterCommit x)
    have hall : m.run env w = .ok a w' := bind_ok hrun hpub
    rw [hall]
    refine ⟨hempty, ?_⟩
    -- the table has the call's rows, and the broker the one message about them
    have hvoided : w'.db.voidedIds = w.db.voidedIds ++ rows.filterMap (·.voidedId?) := by
      unfold Database.voidedIds
      rw [hdb, ← List.filterMap_append, ← hevents]
      rfl
    show notified w'.sent = w'.db.voidedIds
    rw [hsent', notified_append, hvoided]
    refine congr_arg₂ (· ++ ·) ?_ ?_
    · show notified w₁.sent = _
      rw [hsent]
      exact h.told
    · show notified w₁.messages.pendingList = _
      exact ht.notified
  · rw [hg] at hnot
    exact absurd hgoes hnot

theorem Matched.raised {m : Method} {c : Call} (hm : c.method env = some m) (h : Matched w) {e : Exc}
    (hg : ControllerBase.guarded env m.traceId m.func w.entered =
      .error (ControllerBase.reraised e) w₁.cleaned) (hundone : Undone e w.entered w₁) :
    (stateOf (m.run env w)).messages = .empty ∧
      notified (stateOf (m.run env w)).sent = (stateOf (m.run env w)).db.voidedIds := by
  have hsent := (Method.exit_told hm h.toQuiescent h.clean).1
  have hdb : w₁.db = w.db := hundone.db
  unfold Method.exit at hsent
  rw [hg] at hsent
  have hsent : w₁.sent = w.sent := hsent
  rcases withSession_cases h.count (guarded_live env m.traceId (Body.method env hm) w) with
    ⟨_, s, hs, hrun⟩ | ⟨_, e', w', hrun, ha⟩
  · -- what is committed is what the rollback left: nothing
    rw [hg] at hs hrun
    have hall : m.run env w = .error (ControllerBase.reraised e) (w₁.cleaned.afterCommit s) :=
      bind_error hrun
    have hview : s.flushed.view = w.db := by
      cases hs
      exact hdb
    rw [hall]
    refine ⟨rfl, ?_⟩
    show notified w₁.sent = s.flushed.view.voidedIds
    rw [hview, hsent]
    exact h.told
  · -- abandoned: nothing is committed either, and nothing is published
    rw [hg] at ha
    have hall : m.run env w = .error e' w' := bind_error hrun
    rw [hall]
    refine ⟨ha.messages, ?_⟩
    show notified w'.sent = w'.db.voidedIds
    rw [ha.sent, ha.db]
    show notified w₁.sent = w₁.db.voidedIds
    rw [hsent, hdb]
    exact h.told

/-- What a method sends is what its rows say was voided. -/
theorem Matched.method {m : Method} {c : Call} (hm : c.method env = some m) (h : Matched w)
    (hexc : ∀ e w₁, ControllerBase.traced env m.traceId m.func w.entered = .error e w₁ →
      e.isException = true) (hcalm : (m.exit env w).Calm) :
    (stateOf (m.run env w)).messages = .empty ∧
      notified (stateOf (m.run env w)).sent = (stateOf (m.run env w)).db.voidedIds := by
  rcases guarded_cases env m.traceId (Body.method env hm) w with
    ⟨a, w₁, _, hg, _⟩ | ⟨e, w₁, _, _, hg, hundone, _⟩ | ⟨e, w₁, ht, he, _⟩
  · unfold Method.exit at hcalm
    rw [hg] at hcalm
    exact h.returned hm hg hcalm
  · exact h.raised hm hg hundone
  · -- nothing but an `Exception` is raised
    have hyes := hexc e w₁ ht
    rw [he] at hyes
    cases hyes

theorem Matched.attempt (h : Matched w) {a : Attempt} (ha : a.FailsEarly env w) :
    Matched (a.run env w) := by
  have hbegin : Matched (a.begin w) := ⟨⟨h.count, h.unmixed⟩, h.clean, h.told⟩
  have hquiescent : Quiescent (a.run env w) := hbegin.toQuiescent.call a.call
  unfold Attempt.run at hquiescent ⊢
  cases hm : a.call.method env with
  | some m =>
    obtain ⟨hclean, htold⟩ := hbegin.method hm (ha.exception m hm) (ha.calm m hm)
    refine ⟨hquiescent, ?_, ?_⟩
    · rw [Call.run_method hm]
      exact hclean
    · rw [Call.run_method hm]
      exact htold
  | none =>
    cases hcall : a.call with
    | newContext traceId =>
      obtain ⟨t, drawn, _, hrun⟩ := Call.newContext_run env traceId (a.begin w)
      rw [hcall] at hquiescent
      refine ⟨hquiescent, ?_, ?_⟩
      · rw [hrun]
      · rw [hrun]
        exact h.told
    | _ => rw [hcall] at hm; cases hm

end

/-- Over any run of calls in a context, which may fail but not in a commit or at the broker,
    the messages sent tell of the aggregates that the stored events say were voided: of all
    of them, in their order, and of each as often. -/
theorem notifications_match (env : Env) (traceId : Option String) (attempts : List Attempt)
    (h : ∀ p a, p ++ [a] <+: attempts → a.FailsEarly env
      (runAttempts env (stateOf (Call.enterContext env traceId (World.init []))) p)) :
    let w := runAttempts env (stateOf (Call.enterContext env traceId (World.init []))) attempts
    notified w.sent = w.db.voidedIds := by
  have hinit : Matched (stateOf (Call.enterContext env traceId (World.init []))) := by
    have hstart : Matched (World.init []) := ⟨⟨rfl, fun _ => Or.inl rfl⟩, rfl, rfl⟩
    have hnone : Attempt.FailsEarly env ⟨.newContext traceId, []⟩ (World.init []) :=
      ⟨fun _ hm => (nomatch hm), fun _ hm => (nomatch hm)⟩
    exact hstart.attempt hnone
  have hall : Matched (runAttempts env
      (stateOf (Call.enterContext env traceId (World.init []))) attempts) :=
    foldl_induction hinit attempts fun p a hp hi => hi.attempt (h p a hp)
  exact hall.told

/-- An aggregate is created and then voided, of which one message tells. -/
theorem notifications_match_voided :
    let attempts : List Attempt := [⟨.createOne, []⟩, ⟨.voidOne "a", []⟩]
    let w := runAttempts .plain (stateOf (Call.enterContext .plain none (World.init []))) attempts
    notified w.sent = w.db.voidedIds ∧ notified w.sent = ["a"] := by
  constructor
  · apply notifications_match .plain none
    intro p a hp
    apply Attempt.failsEarly_of
    revert p a
    apply forall_steps
    decide +kernel
  · decide +kernel

end DddService
