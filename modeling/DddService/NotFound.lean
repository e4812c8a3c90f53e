import DddService.Command
import DddService.ArchiveSnapshots
import DddService.Runs

/- Not found. `_load` takes every `Exception` of its read for a missing row, unlike the
   other reads of the repository: a read that fails while the row is there reports that the
   aggregate does not exist, and the controller and the endpoints hand this on.

   `not_found_iff` says for which outcomes of the read not-found means absent, for the load
   itself, for the endpoint that gets an aggregate, and for the commands. -/
namespace DddService
open Hoare

/-! ## The endpoint -/

/-- Whether `except NoResultFound` catches it. -/
def Exc.isNoResultFound : Exc → Bool
  | .noResultFound _ => true
  | _ => false

/-- The `data` of an answer. The response object is a copy of the entity's fields; the entity
    stands for it. -/
inductive AggregateData where
  | text (s : String)
  | aggregate (a : YourAggregate)

structure AggregateResponse where
  code : String
  data : AggregateData
  statusCode : Nat

namespace ApiResponse

def aggregate (detail : YourAggregate) : AggregateResponse := ⟨"OK", .aggregate detail, 200⟩

def notFound (detail : String) : AggregateResponse := ⟨"Not Found", .text detail, 404⟩

def error (detail : String) : AggregateResponse := ⟨"Internal Server Error", .text detail, 500⟩

end ApiResponse

/-- What the dataclass package raises on fields it does not accept: an `Exception`, and not
    the one of SQLAlchemy. -/
abbrev Rejection := { e : Exc // e.isException = true ∧ e.isNoResultFound = false }

/-- `get_your_aggregate`. `create_strictly` builds the request of its fields, or raises. -/
def getYourAggregate (env : Env) (createStrictly : IdRequest → Option Rejection)
    (yourAggregateId : String) (tokenInfo : TokenInfo) : M AggregateResponse :=
  tryCatch
    (do let traceId ← getTraceId env
        let getRequest : IdRequest :=
          { id := yourAggregateId, doer := createUser tokenInfo, traceId := some traceId }
        match createStrictly getRequest with
        | some e => throw e.val
        | none => do
          let yourAggregate ← YourAggregateController.getYourAggregate env getRequest
          pure (ApiResponse.aggregate yourAggregate))
    (fun e => match e with
      | .noResultFound msg => pure (ApiResponse.notFound msg)
      | e => if e.isException then pure (ApiResponse.error e.str) else throw e)

/-- What the environment may raise in the rest of a command's run: no `NoResultFound`, and no
    `Exception` where a handler reads the aggregate again, as that of a voiding does. -/
def Command.MayRaise : Command → Exc → Prop
  | .void, e => e.isException = false
  | _, e => e.isNoResultFound = false

/-- The aggregate a payload is about, if it can be read and names one. -/
def Command.target? (json : CamelCaseJson) : Command → Json → Option String
  | .create, _ => none
  | .update, p => (json.update p).toOption.map (·.id)
  | .delete, p => (json.delete p).toOption.map (·.id)
  | .void, p => (json.void p).toOption.map (·.id)

/-! ## What is asked -/

/-- A program that raises `NoResultFound`. -/
def ReportsNotFound {α : Type} (x : M α) (w : World) : Prop :=
  ∃ msg, raised (x w) = some (.noResultFound msg)

/-- Not-found means absent, where the database has `row` under `id` and reading it comes out
    as `outcome`: with no failure, or with one. -/
structure NotFoundMeansAbsent (env : Env) (createStrictly : IdRequest → Option Rejection)
    (json : CamelCaseJson) (id : String) (row : Option YourAggregateModel)
    (outcome : Option Exc) : Prop where
  load : ∀ w s lock, w.provider.session = some s → s.view.yourAggregate id = row →
    raised (AsyncSession.get id w) = outcome →
    (ReportsNotFound (YourAggregateRepository.loadYourAggregate env id lock) w ↔ row = none)
  surfaces : ∀ w s lock, w.provider.session = some s → s.view.yourAggregate id = row →
    raised (AsyncSession.get id w) = outcome → row ≠ none → ∀ e, outcome = some e →
    raised (YourAggregateRepository.loadYourAggregate env id lock w) = some e
  get : ∀ w tokenInfo, w.provider.sessionCount = 0 → w.db.yourAggregate id = row →
    w.nextFault = outcome → (∀ e, some e ∈ w.faults.tail → e.isNoResultFound = false) →
    ∀ resp w', getYourAggregate env createStrictly id tokenInfo w = .ok resp w' →
      resp.statusCode = 404 → row = none
  command : ∀ w tokenInfo traceId (cmd : Command) payload, w.provider.sessionCount = 0 →
    w.db.yourAggregate id = row → w.nextFault = outcome →
    (∀ e, some e ∈ w.faults.tail → cmd.MayRaise e) → cmd.target? json payload = some id →
    ReportsNotFound (cmd.perform env json tokenInfo traceId payload) w → row = none
  create : ∀ w tokenInfo traceId payload, w.provider.sessionCount = 0 →
    (∀ e, some e ∈ w.faults → e.isException = false) → (json.create payload).toOption.isSome →
    ¬ReportsNotFound (Command.create.perform env json tokenInfo traceId payload) w

/-- The read fails, if it does, with an `Exception` just when there is no row. -/
def FailsOnAbsence (row : Option YourAggregateModel) (outcome : Option Exc) : Prop :=
  ∀ e, outcome = some e → (e.isException = true ↔ row = none)

/-- The dataclass package raises no `NoResultFound` when it reads a row's columns. -/
structure DataclassMixin.NeverNotFound (mixin : DataclassMixin) : Prop where
  valueObject : ∀ j e, mixin.createValueObject j = .error e → e.isNoResultFound = false
  user : ∀ j e, mixin.createUser j = .error e → e.isNoResultFound = false
  history : ∀ j e, mixin.createHistory j = .error e → e.isNoResultFound = false

/-! ## The load -/

section
variable {env : Env} {w w' : World} {s : AsyncSession} {id : String} {lock : Bool}

theorem not_found_of_not_exception {e : Exc} (h : e.isException = false) :
    e.isNoResultFound = false := by
  cases e with
  | noResultFound msg => cases h
  | _ => rfl

theorem modelToEntity_found (hmixin : env.mixin.NeverNotFound) {model : YourAggregateModel}
    {e : Exc} (h : YourAggregateRepository.modelToEntity env model = .error e) :
    e.isNoResultFound = false :=
  modelToEntity_raises (Q := fun e => e.isNoResultFound = false) hmixin.valueObject hmixin.user
    hmixin.history (fun _ => rfl) (fun _ => rfl) h

theorem loadYourAggregate_run (env : Env) (id : String) (lock : Bool) (w : World) :
    YourAggregateRepository.loadYourAggregate env id lock w =
      match AsyncSession.get id w with
      | .ok (some model) w' => M.ofExcept (YourAggregateRepository.modelToEntity env model) w'
      | .ok none w' => .error (.noResultFound
          (YourAggregateRepository.entityName ++ " " ++ id ++ " not found")) w'
      | .error e w' => if e.isException then .error (.noResultFound
          (YourAggregateRepository.entityName ++ " " ++ id ++ " not found")) w' else .error e w' := by
  unfold YourAggregateRepository.loadYourAggregate
  rw [bind_run, tryCatch_run]
  cases AsyncSession.get id w with
  | ok found w' => cases found <;> rfl
  | error e w' =>
    dsimp only
    cases e.isException <;> rfl

theorem load_read (hmixin : env.mixin.NeverNotFound) (hs : w.provider.session = some s)
    (hread : raised (AsyncSession.get id w) = none) :
    ReportsNotFound (YourAggregateRepository.loadYourAggregate env id lock) w ↔
      s.view.yourAggregate id = none := by
  obtain ⟨found, hget⟩ := eq_ok_of_raised hread
  obtain ⟨s', hs', _, hfound⟩ := sessionGet_returns hget
  rw [hs] at hs'
  cases hs'
  unfold ReportsNotFound
  rw [loadYourAggregate_run, hget, ← hfound]
  cases found with
  | none => exact ⟨fun _ => rfl, fun _ => ⟨_, rfl⟩⟩
  | some model =>
    refine ⟨fun h => ?_, fun h => nomatch h⟩
    obtain ⟨msg, hmsg⟩ := h
    dsimp only at hmsg
    cases hm : YourAggregateRepository.modelToEntity env model with
    | ok a =>
      rw [hm] at hmsg
      cases hmsg
    | error e =>
      rw [hm] at hmsg
      cases hmsg
      cases modelToEntity_found hmixin hm

theorem merge_error {old : Option (QueueMessage Pushed)} {m : QueueMessage Pushed} {e : Exc}
    (h : QueueMessage.merge old m = .error e) : e.isNoResultFound = false := by
  cases old with
  | none => cases h
  | some m' =>
    have h : m'.iadd m = .error e := h
    unfold QueueMessage.iadd at h
    cases hc : m'.check m with
    | error e' =>
      rw [hc] at h
      cases h
      unfold QueueMessage.check at hc
      split at hc
      · cases hc
        rfl
      · split at hc
        · cases hc
          rfl
        · split at hc <;> cases hc
          rfl
    | ok u =>
      rw [hc] at h
      cases hm' : m'.data with
      | list xs => cases hm : m.data <;> rw [hm', hm] at h <;> cases h
      | dict d =>
        rw [hm'] at h
        cases h
        rfl

theorem load_failed {e : Exc} (hread : raised (AsyncSession.get id w) = some e) :
    raised (YourAggregateRepository.loadYourAggregate env id lock w) =
      if e.isException then some (.noResultFound
        (YourAggregateRepository.entityName ++ " " ++ id ++ " not found")) else some e := by
  rw [loadYourAggregate_run, eq_error_of_raised hread]
  dsimp only
  cases e.isException <;> rfl

theorem load_failed_reports {e : Exc} (hread : raised (AsyncSession.get id w) = some e) :
    ReportsNotFound (YourAggregateRepository.loadYourAggregate env id lock) w ↔
      e.isException = true := by
  unfold ReportsNotFound
  rw [load_failed hread]
  cases he : e.isException with
  | true => exact ⟨fun _ => rfl, fun _ => ⟨_, rfl⟩⟩
  | false =>
    refine ⟨fun h => ?_, fun h => nomatch h⟩
    obtain ⟨msg, hmsg⟩ := h
    cases hmsg
    cases he

end

/-! ## Inside a call -/

/-- Inside `n` scopes, where the environment raises only what `A` allows. -/
structure InCall (A : Exc → Prop) (n : Int) (w : World) : Prop where
  faults : ∀ e, some e ∈ w.faults → A e
  live : Live n w

/-- The session is active, and sees a row of `id`. -/
def Seen (id : String) (w : World) : Prop :=
  ∃ s, w.provider.session = some s ∧ s.active = true ∧ (s.view.yourAggregate id).isSome = true

/-- The session sees a row of `id` once it has flushed what is pending. -/
def Coming (id : String) (w : World) : Prop :=
  ∃ s, w.provider.session = some s ∧ s.pending ≠ [] ∧
    (s.flushed.view.yourAggregate id).isSome = true

/-- Keeps `I`, and does not raise `NoResultFound`. -/
abbrev NoNotFound {α : Type} (I : World → Prop) (x : M α) : Prop :=
  RaisesOnly (fun e => e.isNoResultFound = false) I x

/-- What a program leaves that raises something else: it is inside the scopes still. -/
abbrev OtherFailure (A : Exc → Prop) (n : Int) (e : Exc) (w : World) : Prop :=
  InCall A n w ∧ e.isNoResultFound = false

/-- What a save leaves alone before it flushes. -/
structure Robust (I : World → Prop) : Prop where
  framed : ∀ w w', Framed w w' → I w → I w'
  session : ∀ w, I w → ∃ s, w.provider.session = some s
  enqueued : ∀ w s p, w.provider.session = some s → (∀ id, p ≠ .delete id) → I w →
    I (w.enqueued s p)

section
variable {env : Env} {A : Exc → Prop} {n : Int} {id : String} {I : World → Prop} {w w' : World}

theorem InCall.framed (hf : Framed w w') (h : InCall A n w) : InCall A n w' where
  faults := by
    rw [hf.faults]
    exact h.faults
  live := by
    rw [Live, hf.provider]
    exact h.live

theorem InCall.advance (h : InCall A n w) : InCall A n w.advance where
  faults e he := h.faults e (List.mem_of_mem_tail he)
  live := h.live

theorem InCall.setSession (h : InCall A n w) (s : AsyncSession) :
    InCall A n (w.setSession (some s)) := ⟨h.faults, h.live.1, s, rfl⟩

theorem InCall.note (h : InCall A n w) (a : SessionAction) : InCall A n (w.note a) :=
  ⟨h.faults, h.live⟩

theorem InCall.next (h : InCall A n w) {e : Exc} (hf : w.nextFault = some e) : A e := by
  refine h.faults e (List.mem_of_mem_head? ?_)
  obtain ⟨o, ho, he⟩ := Option.bind_eq_some_iff.mp hf
  rw [ho]
  exact congrArg some he

theorem InCall.robust : Robust (InCall A n) where
  framed _ _ hf h := h.framed hf
  session _ h := h.live.2
  enqueued _ _ _ _ _ h := (h.note _).setSession _

theorem Database.write_add_isSome (d : Database) (now : DateTime) (model : YourAggregateModel) :
    ((d.write now (.add model)).yourAggregate model.id).isSome = true := by
  unfold Database.write
  dsimp only
  rw [Function.update_self]
  rfl

theorem Database.write_isSome {d : Database} {p : Pending} (now : DateTime)
    (hp : ∀ id, p ≠ .delete id) (h : (d.yourAggregate id).isSome = true) :
    ((d.write now p).yourAggregate id).isSome = true := by
  cases p with
  | add model =>
    by_cases hid : id = model.id
    · show (Function.update d.yourAggregate model.id _ id).isSome = true
      rw [hid, Function.update_self]
      rfl
    · show (Function.update d.yourAggregate model.id _ id).isSome = true
      rw [Function.update_of_ne hid]
      exact h
  | delete id' => exact absurd rfl (hp id')
  | addArchive model => exact h
  | addEvent model => exact h

theorem Coming.robust : Robust fun w => InCall A n w ∧ Coming id w where
  framed _ _ hf h := by
    refine ⟨h.1.framed hf, ?_⟩
    unfold Coming
    rw [hf.provider]
    exact h.2
  session _ h := h.1.live.2
  enqueued w s p hs hp h := by
    refine ⟨(h.1.note _).setSession _, _, rfl, List.append_ne_nil_of_right_ne_nil _ (by simp), ?_⟩
    obtain ⟨s', hs', _, hcoming⟩ := h.2
    rw [hs] at hs'
    cases hs'
    show ((s.view.writeAll s.now (s.pending ++ [p])).yourAggregate id).isSome = true
    rw [Database.writeAll_append]
    exact Database.write_isSome s.now hp hcoming

namespace NoNotFound
variable {α : Type}

theorem of_harmless {x : M α} {R : α → Prop} (hI : Robust I) (hx : Harmless x R) :
    NoNotFound I x := by
  intro w hw
  obtain ⟨a, w', hrun, hf, _⟩ := hx w
  rw [hrun]
  exact hI.framed w w' hf hw

theorem ofExcept {r : Except Exc α} (h : ∀ e, r = .error e → e.isNoResultFound = false) :
    NoNotFound I (M.ofExcept r) := by
  cases r with
  | ok a => exact RaisesOnly.pure a
  | error e => exact RaisesOnly.throw (h e rfl)

theorem currentSession (hI : Robust I) : NoNotFound I currentSession := by
  intro w hw
  obtain ⟨s, hs⟩ := hI.session w hw
  rw [currentSession_run hs]
  exact hw

theorem enqueue (hI : Robust I) {p : Pending} (hp : ∀ id, p ≠ .delete id) :
    NoNotFound I (AsyncSession.enqueue p) := by
  intro w hw
  obtain ⟨s, hs⟩ := hI.session w hw
  rw [enqueue_run hs]
  exact hI.enqueued w s p hs hp hw

variable (hA : ∀ e, A e → e.isNoResultFound = false)
include hA

theorem awaitPoint : NoNotFound (InCall A n) awaitPoint := by
  intro w hw
  rw [awaitPoint_run]
  cases hf : w.nextFault with
  | none => exact hw.advance
  | some e => exact ⟨hw.advance, hA e (hw.next hf)⟩

theorem sessionGet (pkey : String) : NoNotFound (InCall A n) (AsyncSession.get pkey) :=
  (currentSession InCall.robust).bind fun _ => RaisesOnly.ite (fun _ => RaisesOnly.throw rfl)
    fun _ => (awaitPoint hA).bind fun _ => RaisesOnly.pure _

theorem flush : NoNotFound (InCall A n) AsyncSession.flush := by
  refine (currentSession InCall.robust).bind fun s => ?_
  refine RaisesOnly.ite (fun _ => RaisesOnly.pure _) fun _ =>
    RaisesOnly.ite (fun _ => RaisesOnly.throw rfl) fun _ => RaisesOnly.bind ?_ fun _ => ?_
  · refine (awaitPoint hA).tryCatch fun e he => ?_
    exact (RaisesOnly.modify fun w hw => hw.setSession _).bind fun _ => RaisesOnly.throw he
  · exact RaisesOnly.modify fun w hw => hw.setSession _

end NoNotFound

theorem rollback_no_not_found : NoNotFound (InCall A n) AsyncSession.rollback :=
  (NoNotFound.currentSession InCall.robust).bind fun _ => RaisesOnly.modify fun _ hw =>
    ⟨hw.faults, hw.live.1, _, rfl⟩

theorem close_no_not_found : NoNotFound (InCall A n) AsyncSession.close :=
  (NoNotFound.currentSession InCall.robust).bind fun _ => RaisesOnly.modify fun _ hw => hw.note _

end

/-! ## A save -/

section
variable {env : Env} {A : Exc → Prop} {n : Int} {id : String} {I : World → Prop}

theorem archiveIfRaised_no_not_found (hI : Robust I) (a : YourAggregate)
    (model : YourAggregateModel) :
    NoNotFound I (YourAggregateRepository.archiveIfRaised env a model) := by
  unfold YourAggregateRepository.archiveIfRaised YourAggregateRepository.archive
  refine RaisesOnly.ite (fun _ => ?_) fun _ => RaisesOnly.pure _
  refine (NoNotFound.of_harmless hI (Harmless.uuid4 (by decide))).bind fun _ => ?_
  cases a.allEvents.getLast? with
  | none => exact (NoNotFound.enqueue hI (by simp)).bind fun _ => RaisesOnly.pure _
  | some e => exact (NoNotFound.of_harmless hI (getTracer_harmless e)).bind fun _ =>
      (NoNotFound.enqueue hI (by simp)).bind fun _ => RaisesOnly.pure _

theorem addEvents_no_not_found (hI : Robust I) : ∀ events : List DomainEvent,
    NoNotFound I (YourAggregateRepository.addEvents env events)
  | [] => RaisesOnly.pure _
  | e :: events =>
    RaisesOnly.bind ((NoNotFound.of_harmless hI (getTracer_harmless e)).bind fun _ =>
      RaisesOnly.pure _) fun _ => (NoNotFound.enqueue hI (by simp)).bind fun _ =>
        (addEvents_no_not_found hI events).bind fun _ => RaisesOnly.pure _

/-- A row that is written is coming. -/
theorem enqueue_coming (model : YourAggregateModel) :
    Triple (InCall A n) (AsyncSession.enqueue (.add model))
      (fun _ w => InCall A n w ∧ Coming model.id w)
      (OtherFailure A n) := by
  intro w hw
  obtain ⟨s, hs⟩ := hw.live.2
  rw [enqueue_run hs]
  refine ⟨(hw.note _).setSession _, _, rfl, List.append_ne_nil_of_right_ne_nil _ (by simp), ?_⟩
  show ((s.view.writeAll s.now (s.pending ++ [.add model])).yourAggregate model.id).isSome = true
  rw [Database.writeAll_append]
  exact Database.write_add_isSome _ s.now model

variable (hA : ∀ e, A e → e.isNoResultFound = false)
include hA

theorem flush_seen :
    Triple (fun w => InCall A n w ∧ Coming id w) AsyncSession.flush
      (fun _ w => InCall A n w ∧ Seen id w)
      (OtherFailure A n) := by
  intro w hw
  obtain ⟨hw, s, hs, hp, hcoming⟩ := hw
  cases ha : s.active with
  | false =>
    rw [flush_inactive hs hp ha]
    exact ⟨hw, rfl⟩
  | true =>
    cases hf : w.nextFault with
    | none =>
      rw [flush_ok hs hp ha hf]
      exact ⟨hw.advance.setSession _, s.flushed, rfl, ha, hcoming⟩
    | some e =>
      rw [flush_error hs hp ha hf]
      exact ⟨hw.advance.setSession _, hA e (hw.next hf)⟩

theorem save_seen (a : YourAggregate) (model : YourAggregateModel) (persistent : Bool) :
    Triple (InCall A n) (YourAggregateRepository.save env a model persistent)
      (fun _ w => InCall A n w ∧ (a.isDelete = false → Seen model.id w))
      (OtherFailure A n) := by
  unfold YourAggregateRepository.save YourAggregateRepository.persist
  cases hd : a.isDelete with
  | true =>
    have hpersist : NoNotFound (InCall A n) (if true = true then
        if persistent = true then AsyncSession.enqueue (.delete model.id)
        else throw (.invalidRequestError "Instance is not persisted")
        else AsyncSession.enqueue (.add model)) := by
      refine RaisesOnly.ite (fun _ => RaisesOnly.ite (fun _ => ?_) fun _ => RaisesOnly.throw rfl)
        fun h => absurd rfl h
      intro w hw
      obtain ⟨s, hs⟩ := hw.live.2
      rw [enqueue_run hs]
      exact (hw.note _).setSession _
    refine Triple.bind hpersist fun _ => ?_
    refine Triple.bind (archiveIfRaised_no_not_found InCall.robust a model) fun a₁ => ?_
    refine Triple.bind (addEvents_no_not_found InCall.robust _) fun events => ?_
    exact Triple.bind (NoNotFound.flush hA) fun _ => Triple.pure fun w hw => ⟨hw, fun h => nomatch h⟩
  | false =>
    refine Triple.bind (enqueue_coming model) fun _ => ?_
    have hdone : ∀ (e : Exc) (w : World),
        (InCall A n w ∧ Coming model.id w) ∧ e.isNoResultFound = false → OtherFailure A n e w :=
      fun e w h => ⟨h.1.1, h.2⟩
    refine Triple.bind (Triple.raises (archiveIfRaised_no_not_found Coming.robust a model) hdone)
      fun a₁ => ?_
    refine Triple.bind (Triple.raises (addEvents_no_not_found Coming.robust _) hdone)
      fun events => ?_
    exact (flush_seen hA).bind fun _ => Triple.pure fun w hw => ⟨hw.1, fun _ => hw.2⟩

theorem saveYourAggregate_seen (a : YourAggregate) :
    Triple (InCall A n) (YourAggregateRepository.saveYourAggregate env a)
      (fun a' w => InCall A n w ∧ (a.isDelete = false → Seen a.id w) ∧ SameEvents a a')
      (OtherFailure A n) := by
  have hsave : Triple (InCall A n) (YourAggregateRepository.saveYourAggregate env a)
      (fun _ w => InCall A n w ∧ (a.isDelete = false → Seen a.id w))
      (OtherFailure A n) :=
    Triple.bind (NoNotFound.sessionGet hA a.id) fun found => save_seen hA a _ _
  intro w hw
  have hrun := hsave w hw
  cases h : YourAggregateRepository.saveYourAggregate env a w with
  | error e w' =>
    rw [h] at hrun
    exact hrun
  | ok a' w' =>
    rw [h] at hrun
    obtain ⟨_, _, hsame, _⟩ := saveYourAggregate_asks a w a' w' h
    exact ⟨hrun.1, hrun.2, hsame⟩

end

/-! ## Use cases -/

/-- The session sees the aggregate of an event that a handler of it loads. -/
def Noticed (b : EventBody) (w : World) : Prop :=
  match b with
  | .yourAggregateCreated id _ _ | .yourAggregateVoided id _ => Seen id w
  | .yourAggregateDeleted .. | .yourAggregateUpdated .. => True

/-- Publishing a `b` whose aggregate is there raises no `NoResultFound`. -/
def Hears (A : Exc → Prop) (n : Int) (bus : Bus) (b : EventBody) : Prop :=
  ∀ t, Triple (fun w => InCall A n w ∧ Noticed b w) (bus ⟨b, t⟩) (fun _ => InCall A n)
    (OtherFailure A n)

section
variable {env : Env} {A : Exc → Prop} {n : Int} {id : String} {bus : Bus} {owner : Owner}
  {b : EventBody}

theorem Harmless.inCall {α : Type} {x : M α} {R : α → Prop} (hx : Harmless x R)
    {E : Exc → World → Prop} : Triple (InCall A n) x (fun a w => R a ∧ InCall A n w) E := by
  intro w hw
  obtain ⟨a, w', hrun, hf, ha⟩ := hx w
  rw [hrun]
  exact ⟨ha, hw.framed hf⟩

theorem load_found (hmixin : env.mixin.NeverNotFound) (lock : Bool) :
    Triple (fun w => InCall A n w ∧ Seen id w ∧ ∀ e, w.nextFault = some e → e.isException = false)
      (YourAggregateRepository.loadYourAggregate env id lock)
      (fun a w => (a.domainEvents = [] ∧ a.isDelete = false) ∧ InCall A n w)
      (OtherFailure A n) := by
  intro w hw
  obtain ⟨hw, ⟨s, hs, hactive, hrow⟩, hnext⟩ := hw
  obtain ⟨model, hmodel⟩ := Option.isSome_iff_exists.mp hrow
  rw [loadYourAggregate_run]
  cases hf : w.nextFault with
  | none =>
    rw [sessionGet_ok hs hactive hf, hmodel]
    dsimp only
    cases hm : YourAggregateRepository.modelToEntity env model with
    | ok a =>
      obtain ⟨v, st, hs', c, t, _, _, rfl⟩ := modelToEntity_cases hm
      exact ⟨⟨rfl, rfl⟩, hw.advance⟩
    | error e => exact ⟨hw.advance, modelToEntity_found hmixin hm⟩
  | some e =>
    rw [sessionGet_error hs hactive hf]
    dsimp only
    rw [if_neg (by simp [hnext e hf])]
    exact ⟨hw.advance, not_found_of_not_exception (hnext e hf)⟩

theorem call_error {a : YourAggregate} {mixin : DataclassMixin} {op : YourAggregateM}
    (h : YourAggregate.Operation mixin op) {e : Exc} (hr : op.call a = .error e) :
    e = a.statusError := by
  unfold YourAggregateM.call at hr
  cases h with
  | delete doer => cases hr
  | void now doer =>
    rw [YourAggregate.voidYourAggregate_run] at hr
    by_cases hv : a.status = .voided
    · rw [if_pos hv] at hr
      exact (Except.error.inj hr).symm
    · rw [if_neg hv] at hr
      cases hr
  | update now v doer =>
    rw [YourAggregate.updateYourAggregate_run] at hr
    by_cases hv : a.status = .voided
    · rw [if_pos hv] at hr
      exact (Except.error.inj hr).symm
    · rw [if_neg hv] at hr
      cases hr

/-- Where a use case starts: the row is there, and its read does not fail with an
    `Exception`. -/
def Readable (A : Exc → Prop) (n : Int) (id : String) (w : World) : Prop :=
  InCall A n w ∧ Seen id w ∧ ∀ e, w.nextFault = some e → e.isException = false

variable (hA : ∀ e, A e → e.isNoResultFound = false)
include hA

/-- A save of an aggregate whose one event is `b`. -/
theorem useCaseSave_no_not_found (hbus : Hears A n bus b) {a : YourAggregate}
    (ha : a.domainEvents.map DomainEvent.body = [b])
    (hb : ∀ w, (a.isDelete = false → Seen a.id w) → Noticed b w) :
    NoNotFound (InCall A n) (YourAggregateUseCase.save env bus owner a) := by
  refine Triple.bind (Harmless.inCall (saveTracing_harmless owner a)) fun a₁ =>
    Triple.intro fun w₁ h₁ => ?_
  obtain ⟨⟨events, rfl, hevents⟩, hw₁⟩ := h₁
  refine ((saveYourAggregate_seen hA _).start hw₁).bind fun a₂ => Triple.intro fun w₂ h₂ => ?_
  obtain ⟨hw₂, hseen, hsame⟩ := h₂
  have hone : a₂.domainEvents.map DomainEvent.body = [b] := hsame.bodies.trans (hevents.trans ha)
  obtain ⟨e, he, rfl⟩ := List.map_eq_singleton_iff.mp hone
  rw [publishAll, YourAggregate.allEvents, he]
  exact ((hbus e.tracer).start ⟨hw₂, hb w₂ hseen⟩).bind fun _ => Triple.pure fun _ hw => hw

/-- What a use case does with the aggregate it has loaded: `op`, and a save. -/
theorem operated_no_not_found {a : YourAggregate} {op : YourAggregateM}
    (hop : YourAggregate.Operation env.mixin op)
    (hraises : ∀ a', op.call a = .ok a' → ∃ b, Hears A n bus b ∧ Raises a' b ∧
      ∀ w, (a'.isDelete = false → Seen a'.id w) → Noticed b w) :
    NoNotFound (InCall A n) (do
      let a ← M.ofExcept (op.call a)
      YourAggregateUseCase.save env bus owner a) := by
  cases hr : op.call a with
  | error e =>
    rw [call_error hop hr]
    exact RaisesOnly.throw rfl
  | ok a' =>
    obtain ⟨b, hbus, hb, hnoticed⟩ := hraises a' hr
    exact useCaseSave_no_not_found hA hbus (by rw [hb.events]; rfl) hnoticed

theorem updateYourAggregate_no_not_found (hmixin : env.mixin.NeverNotFound)
    (v : YourValueObject) (doer : User)
    (hbus : ∀ id, Hears A n bus (.yourAggregateUpdated id v doer)) :
    Triple (Readable A n id) (YourAggregateUseCase.updateYourAggregate env bus owner id v doer)
      (fun _ => InCall A n) (OtherFailure A n) := by
  refine Triple.bind (load_found hmixin true) fun a => Triple.intro fun w hw => ?_
  obtain ⟨⟨hevents, _⟩, hw⟩ := hw
  refine ((Harmless.inCall Harmless.datetimeNow).start hw).bind fun now =>
    Triple.intro fun w' hw' => ?_
  refine Triple.start (operated_no_not_found hA (.update now v doer) fun a' hr => ?_) hw'.2
  exact ⟨_, hbus a.id, Raises.update hevents hr, fun _ _ => trivial⟩

theorem deleteYourAggregate_no_not_found (hmixin : env.mixin.NeverNotFound) (doer : User)
    (hbus : ∀ id, Hears A n bus (.yourAggregateDeleted id doer)) :
    Triple (Readable A n id) (YourAggregateUseCase.deleteYourAggregate env bus owner id doer)
      (fun _ => InCall A n) (OtherFailure A n) := by
  refine Triple.bind (load_found hmixin true) fun a => Triple.intro fun w hw => ?_
  obtain ⟨⟨hevents, _⟩, hw⟩ := hw
  refine Triple.start (operated_no_not_found hA (.delete doer) fun a' hr => ?_) hw
  exact ⟨_, hbus a.id, Raises.delete hevents hr, fun _ _ => trivial⟩

theorem voidYourAggregate_no_not_found (hmixin : env.mixin.NeverNotFound) (doer : User)
    (hbus : ∀ id, Hears A n bus (.yourAggregateVoided id doer)) :
    Triple (Readable A n id) (YourAggregateUseCase.voidYourAggregate env bus owner id doer)
      (fun _ => InCall A n) (OtherFailure A n) := by
  refine Triple.bind (load_found hmixin true) fun a => Triple.intro fun w hw => ?_
  obtain ⟨⟨hevents, hdelete⟩, hw⟩ := hw
  refine ((Harmless.inCall Harmless.datetimeNow).start hw).bind fun now =>
    Triple.intro fun w' hw' => ?_
  refine Triple.start (operated_no_not_found hA (.void now doer) fun a' hr => ?_) hw'.2
  have hraises := Raises.void hevents hdelete hr
  obtain ⟨hid, hd, _⟩ := hraises.voided a.id rfl
  refine ⟨_, hbus a.id, hraises, fun w hseen => ?_⟩
  -- the row that was saved is the one the handler loads
  rw [← hid]
  exact hseen hd

end

/-! ## Handlers -/

section
variable {env : Env} {A : Exc → Prop} {n : Int} {id : String} {b : EventBody}

theorem publish_unheard (hb : ∀ bus' t, YourAggregateEventHandler.handlers env bus' ⟨b, t⟩ = [])
    (depth : Nat) : Hears A n (publish env depth) b := by
  intro t
  cases depth with
  | zero => exact Triple.throw fun w hw => ⟨hw.1, rfl⟩
  | succ depth =>
    rw [publish, hb]
    exact Triple.pure fun w hw => hw.1

/-- A handler runs in a scope of its own, inside the call's. -/
theorem handler_no_not_found (hA : ∀ e, A e → e.isNoResultFound = false) (hn : 1 ≤ n)
    {func : DomainEvent → M Unit} {event : DomainEvent}
    (hfunc : Triple (fun w => InCall A (n + 1) w ∧ Seen id w) (func event)
      (fun _ => InCall A (n + 1)) (OtherFailure A (n + 1))) :
    Triple (fun w => InCall A n w ∧ Seen id w) (EventHandlerHelper.connectDbSession func event)
      (fun _ => InCall A n) (OtherFailure A n) := by
  refine Triple.scope (fun w => InCall A (n + 1) w ∧ Seen id w) (fun _ => InCall A (n + 1))
    (OtherFailure A (n + 1)) ?_ ?_ ?_ ?_
  · intro w hw
    rw [aenter_inner (by rw [hw.1.live.1]; omega), hw.1.live.1]
    exact ⟨⟨hw.1.faults, hw.1.live.setCount⟩, hw.2⟩
  · refine Triple.tryCatch (R := OtherFailure A (n + 1)) ?_
      fun e => Triple.intro fun w hw => ?_
    · refine Triple.bind (R := fun _ w => InCall A (n + 1) w ∧ Seen id w)
        (Triple.modify fun w hw => ⟨⟨hw.1.faults, hw.1.live⟩, hw.2⟩) fun _ => ?_
      exact hfunc.bind fun _ => NoNotFound.flush hA
    · refine Triple.start (RaisesOnly.ite (fun _ => ?_) fun _ => ?_) hw.1
      · exact rollback_no_not_found.bind fun _ => RaisesOnly.throw hw.2
      · exact RaisesOnly.throw hw.2
  · intro _ w hw
    rw [aexit_inner (by rw [hw.live.1]; omega), hw.live.1]
    exact ⟨hw.faults, by show n + 1 - 1 = n; omega, hw.live.2⟩
  · intro e w hw
    rw [aexit_inner (by rw [hw.1.live.1]; omega), hw.1.live.1]
    exact ⟨⟨hw.1.faults, by show n + 1 - 1 = n; omega, hw.1.live.2⟩, hw.2⟩

theorem Readable.of_seen (hexc : ∀ e, A e → e.isException = false) {w : World}
    (hw : InCall A n w) (hseen : Seen id w) : Readable A n id w :=
  ⟨hw, hseen, fun e hf => hexc e (hw.next hf)⟩

theorem pushMessage_no_not_found (rk : String) (m : QueueMessage Pushed) :
    NoNotFound (InCall A n) (RabbitMqPublisher.pushMessage rk m) := by
  intro w hw
  unfold RabbitMqPublisher.pushMessage
  rw [Messages.pushMessage_run]
  cases hm : QueueMessage.merge (Buffer.pendingAt w.messages rk (Messages.mKey m)) m with
  | ok m' => exact ⟨hw.faults, hw.live⟩
  | error e => exact ⟨⟨hw.faults, hw.live⟩, merge_error hm⟩

theorem voided_heard (hexc : ∀ e, A e → e.isException = false) (hmixin : env.mixin.NeverNotFound)
    (hn : 1 ≤ n) (depth : Nat) (doer : User) :
    Hears A n (publish env depth) (.yourAggregateVoided id doer) := by
  have hA : ∀ e, A e → e.isNoResultFound = false := fun e he => not_found_of_not_exception (hexc e he)
  intro t
  cases depth with
  | zero => exact Triple.throw fun w hw => ⟨hw.1, rfl⟩
  | succ depth =>
    refine Triple.bind (handler_no_not_found hA hn ?_) fun _ => Triple.pure fun _ hw => hw
    refine Triple.bind ((load_found (A := A) hmixin false).conseq
      (fun w hw => Readable.of_seen hexc hw.1 hw.2) (fun _ _ h => h) fun _ _ h => h) fun a => ?_
    refine Triple.intro fun w hw => Triple.start (RaisesOnly.ite (fun _ => ?_) fun _ =>
      RaisesOnly.pure _) hw.2
    refine (NoNotFound.of_harmless InCall.robust Harmless.getTraceId).bind fun _ => ?_
    exact RaisesOnly.get.bind fun _ => pushMessage_no_not_found _ _

theorem created_heard (hexc : ∀ e, A e → e.isException = false) (hmixin : env.mixin.NeverNotFound)
    (hn : 1 ≤ n) (depth : Nat) (v : YourValueObject) (doer : User) :
    Hears A n (publish env depth) (.yourAggregateCreated id v doer) := by
  have hA : ∀ e, A e → e.isNoResultFound = false := fun e he => not_found_of_not_exception (hexc e he)
  intro t
  cases depth with
  | zero => exact Triple.throw fun w hw => ⟨hw.1, rfl⟩
  | succ depth =>
    refine Triple.bind (handler_no_not_found hA hn ?_) fun _ => Triple.pure fun _ hw => hw
    exact (updateYourAggregate_no_not_found hA hmixin _ doer fun _ =>
      publish_unheard (fun _ _ => rfl) depth).conseq
        (fun w hw => Readable.of_seen hexc hw.1 hw.2) (fun _ _ h => h) fun _ _ h => h

end

/-! ## The controller -/

section
variable {env : Env} {A : Exc → Prop} {id : String}

theorem commit_no_not_found {n : Int} (hA : ∀ e, A e → e.isNoResultFound = false) :
    NoNotFound (InCall A n) AsyncSession.commit := by
  refine (NoNotFound.currentSession InCall.robust).bind fun s => RaisesOnly.bind
    (RaisesOnly.modify fun w hw => hw.note _) fun _ => RaisesOnly.ite (fun _ => RaisesOnly.throw rfl)
      fun _ => (NoNotFound.flush hA).bind fun _ => ?_
  refine (NoNotFound.currentSession InCall.robust).bind fun s => RaisesOnly.bind ?_ fun _ =>
    RaisesOnly.modify fun w hw => ⟨hw.faults, hw.live⟩
  refine (NoNotFound.awaitPoint hA).tryCatch fun e he => ?_
  exact (RaisesOnly.modify fun w hw => hw.setSession _).bind fun _ => RaisesOnly.throw he

theorem aexit_no_not_found (hA : ∀ e, A e → e.isNoResultFound = false) :
    Triple (InCall A 1) SessionProvider.aexit (fun _ _ => True)
      fun e _ => e.isNoResultFound = false := by
  have hforget : Triple (InCall A 0) (do
      AsyncSession.close
      modify (World.setSession · none) : M PUnit) (fun _ _ => True)
        (OtherFailure A 0) :=
    Triple.bind close_no_not_found fun _ => Triple.modify fun _ _ => trivial
  refine Triple.bind (R := fun _ => InCall A 0) (Triple.modify fun w hw => ?_) fun _ => ?_
  · exact ⟨hw.faults, by show w.provider.sessionCount - 1 = 0; rw [hw.live.1]; rfl, hw.live.2⟩
  refine Triple.bind (R := fun _ => InCall A 0) (Triple.get fun _ hw => hw) fun _ => ?_
  refine Triple.ite (fun _ => ?_) fun _ => Triple.pure fun _ _ => trivial
  refine Triple.bind (R := fun _ => InCall A 0)
    (Triple.modify fun w hw => ⟨hw.faults, hw.live.setCount⟩) fun _ => ?_
  refine Triple.tryCatch (Triple.bind (commit_no_not_found hA) fun _ => hforget) fun e =>
    Triple.intro fun w hw => ?_
  refine Triple.ite (fun _ => ?_) fun _ => Triple.throw fun _ _ => hw.2
  have hdone : ∀ (e : Exc) (w : World), InCall A 0 w ∧ e.isNoResultFound = false →
      e.isNoResultFound = false := fun _ _ h => h.2
  refine Triple.start (Triple.bind (Triple.raises rollback_no_not_found hdone) fun _ => ?_) hw.1
  refine Triple.bind (Triple.raises close_no_not_found hdone) fun _ => ?_
  exact Triple.bind (R := fun _ _ => True) (Triple.modify fun _ _ => trivial) fun _ =>
    Triple.throw fun _ _ => hw.2

theorem reraised_isNoResultFound (e : Exc) :
    (ControllerBase.reraised e).isNoResultFound = e.isNoResultFound := by
  cases e <;> rfl

theorem connectDbSession_no_not_found {α : Type} (hA : ∀ e, A e → e.isNoResultFound = false)
    {P : World → Prop} (hP : ∀ w w', Framed w w' → P w → P w') (traceId : Option String)
    {func : M α} (hfunc : Triple P func (fun _ => InCall A 1)
      (OtherFailure A 1)) :
    Triple (fun w => w.provider.sessionCount = 0 ∧ P w.entered)
      (ControllerBase.connectDbSession env traceId func) (fun _ _ => True)
      fun e _ => e.isNoResultFound = false := by
  have hguarded : Triple P (ControllerBase.guarded env traceId func) (fun _ => InCall A 1)
      (OtherFailure A 1) := by
    refine Triple.tryCatch (R := OtherFailure A 1) ?_
      fun e => Triple.intro fun w hw => ?_
    · refine Triple.bind (R := fun _ => P) (fun w hw => ?_) fun _ => hfunc.bind fun _ =>
        Triple.bind (NoNotFound.flush hA) fun _ => Triple.pure fun _ h => h
      obtain ⟨_, w', hrun, hf, _⟩ := setTracing_harmless env traceId w
      rw [hrun]
      exact hP w w' hf hw
    · -- the `except` clause renames the exception, which stays what it was in this respect
      have hraise : NoNotFound (InCall A 1) (do
          AsyncSession.rollback
          RabbitMqPublisher.cleanMessages
          throw (ControllerBase.reraised e) : M α) := by
        refine rollback_no_not_found.bind fun _ => RaisesOnly.bind
          (RaisesOnly.modify fun w hw => ⟨hw.faults, hw.live⟩) fun _ => RaisesOnly.throw ?_
        rw [reraised_isNoResultFound]
        exact hw.2
      refine Triple.ite (fun _ => hraise.start hw.1) fun _ => Triple.throw fun w' hw' => ?_
      rw [hw']
      exact hw
  unfold ControllerBase.connectDbSession
  refine Triple.bind (R := fun _ _ => True) ?_ fun a => ?_
  · refine Triple.scope P (fun _ => InCall A 1)
      (OtherFailure A 1) (fun w hw => ?_) hguarded
      (fun _ => aexit_no_not_found hA) fun e => Triple.intro fun w hw => ?_
    · rw [aenter_outer hw.1]
      exact hw.2
    · exact ((aexit_no_not_found hA).start hw.1).conseq (fun _ h => h) (fun _ _ _ => hw.2)
        fun _ _ h => h
  · -- publishing raises no `Exception`
    refine Triple.bind (R := fun _ _ => True) (Triple.get fun _ _ => trivial) fun w => ?_
    refine Triple.ite (fun _ => Triple.pure fun _ _ => trivial) fun _ => Triple.bind
      (R := fun _ _ => True) ?_ fun _ => Triple.pure fun _ _ => trivial
    refine Triple.tryCatch (R := fun _ _ => True) (fun w _ => ?_) fun e => Triple.ite
      (fun _ => Triple.pure fun _ _ => trivial) fun he => Triple.throw fun _ _ =>
        not_found_of_not_exception (by simpa using he)
    split <;> trivial

/-! ## The endpoints -/

/-- Outside any scope, where the database has a row of `id` and the next read does not fail
    with an `Exception`. -/
structure Arrives (A : Exc → Prop) (id : String) (w : World) : Prop where
  count : w.provider.sessionCount = 0
  faults : ∀ e, some e ∈ w.faults → A e
  row : (w.db.yourAggregate id).isSome = true
  next : ∀ e, w.nextFault = some e → e.isException = false

theorem Arrives.framed {w w' : World} (hf : Framed w w') (h : Arrives A id w) : Arrives A id w' where
  count := by
    rw [hf.provider]
    exact h.count
  faults := by
    rw [hf.faults]
    exact h.faults
  row := by
    rw [hf.db]
    exact h.row
  next := by
    rw [World.nextFault, hf.faults]
    exact h.next

theorem Arrives.entered {w : World} (h : Arrives A id w) :
    w.provider.sessionCount = 0 ∧ Readable A 1 id w.entered :=
  ⟨h.count, ⟨h.faults, w.entered_live⟩, ⟨w.opened, rfl, rfl, h.row⟩, h.next⟩

theorem Readable.framed {n : Int} {w w' : World} (hf : Framed w w') (h : Readable A n id w) :
    Readable A n id w' := by
  obtain ⟨hw, hseen, hnext⟩ := h
  refine ⟨hw.framed hf, ?_, ?_⟩
  · rw [Seen, hf.provider]
    exact hseen
  · rw [World.nextFault, hf.faults]
    exact hnext

theorem method_no_not_found {α : Type} (hA : ∀ e, A e → e.isNoResultFound = false)
    (traceId : Option String) {func : M α} (hfunc : Triple (Readable A 1 id) func
      (fun _ => InCall A 1) (OtherFailure A 1)) :
    Triple (Arrives A id) (ControllerBase.connectDbSession env traceId func) (fun _ _ => True)
      fun e _ => e.isNoResultFound = false :=
  (connectDbSession_no_not_found hA (fun _ _ hf h => Readable.framed hf h) traceId hfunc).conseq
    (fun _ hw => hw.entered) (fun _ _ h => h) fun _ _ h => h

theorem batch_no_not_found {ρ : Type} {P : World → Prop} {one : ρ → M String} {r : ρ}
    (hone : Triple P (one r) (fun _ => InCall A 1)
      (OtherFailure A 1)) :
    Triple P (YourAggregateController.batch one [r]) (fun _ => InCall A 1)
      (OtherFailure A 1) := by
  unfold YourAggregateController.batch
  refine Triple.bind (R := fun _ => InCall A 1) ?_ fun resp => NoNotFound.ofExcept fun e he => ?_
  · rw [List.mapM_cons, List.mapM_nil]
    exact hone.bind fun _ => Triple.bind (R := fun _ => InCall A 1) (Triple.pure fun _ h => h)
      fun _ => Triple.pure fun _ h => h
  · unfold YourAggregateController.respond at he
    split at he <;> cases he
    rfl

/-- The endpoint does not answer 404 on an aggregate that is there. -/
theorem get_found (hA : ∀ e, A e → e.isNoResultFound = false) (hmixin : env.mixin.NeverNotFound)
    (createStrictly : IdRequest → Option Rejection) (tokenInfo : TokenInfo) :
    Triple (Arrives A id) (getYourAggregate env createStrictly id tokenInfo)
      (fun resp _ => resp.statusCode ≠ 404) fun _ _ => True := by
  refine Triple.tryCatch (R := fun e _ => e.isNoResultFound = false) ?_ fun e =>
    Triple.intro fun w hw => ?_
  · refine Triple.bind (R := fun _ => Arrives A id) (fun w hw => ?_) fun traceId => ?_
    · have htrace : Harmless (getTraceId env) fun _ => True := Harmless.getTraceId
      obtain ⟨t, w', hrun, hf, _⟩ := htrace w
      rw [hrun]
      exact hw.framed hf
    · dsimp only
      split
      · rename_i e _
        exact Triple.throw fun _ _ => e.property.2
      · exact (method_no_not_found hA _ (load_found hmixin false |>.conseq (fun _ h => h)
          (fun _ _ h => h.2) fun _ _ h => h)).bind fun _ => Triple.pure fun _ _ =>
          show 200 ≠ 404 by decide
  · cases e with
    | noResultFound msg => cases hw
    | _ => exact Triple.ite (fun _ => Triple.pure fun _ _ => show 500 ≠ 404 by decide) fun _ =>
        Triple.throw fun _ _ => trivial

theorem Command.MayRaise.other {cmd : Command} {e : Exc} (h : cmd.MayRaise e) :
    e.isNoResultFound = false := by
  cases cmd with
  | void => exact not_found_of_not_exception h
  | _ => exact h

theorem target_read {ρ : Type} {r : Except Failure ρ} {f : ρ → String}
    (h : r.toOption.map f = some id) : ∃ d, r = .ok d ∧ f d = id := by
  cases r with
  | error e => cases h
  | ok d => exact ⟨d, rfl, Option.some.inj h⟩

/-- Nor does a command report that it does not exist. -/
theorem command_found (hmixin : env.mixin.NeverNotFound) (json : CamelCaseJson)
    (tokenInfo : TokenInfo) (traceId : Option String) (cmd : Command) (payload : Json)
    (htarget : cmd.target? json payload = some id) :
    Triple (Arrives cmd.MayRaise id) (cmd.perform env json tokenInfo traceId payload)
      (fun _ _ => True) fun e _ => e.isNoResultFound = false := by
  have hA : ∀ e, cmd.MayRaise e → e.isNoResultFound = false := fun e he => he.other
  -- a creation names no aggregate; of the others only the voiding has a handler that is heard
  cases cmd with
  | create => cases htarget
  | update =>
    obtain ⟨d, hd, rfl⟩ := target_read htarget
    have hrun : Command.update.perform env json tokenInfo traceId payload = _ :=
      createFromBody_run hd (fun d doer traceId => { d with doer, traceId }) tokenInfo traceId
        fun data => YourAggregateController.updateYourAggregate env [data]
    rw [hrun]
    refine method_no_not_found hA _ (batch_no_not_found ?_)
    exact (updateYourAggregate_no_not_found hA hmixin _ _ fun _ =>
      publish_unheard (fun _ _ => rfl) _).bind fun _ => Triple.pure fun _ h => h
  | delete =>
    obtain ⟨d, hd, rfl⟩ := target_read htarget
    have hrun : Command.delete.perform env json tokenInfo traceId payload = _ :=
      createFromBody_run hd (fun d doer traceId => { d with doer, traceId }) tokenInfo traceId
        fun data => YourAggregateController.deleteYourAggregate env [data]
    rw [hrun]
    refine method_no_not_found hA _ (batch_no_not_found ?_)
    exact (deleteYourAggregate_no_not_found hA hmixin _ fun _ =>
      publish_unheard (fun _ _ => rfl) _).bind fun _ => Triple.pure fun _ h => h
  | void =>
    obtain ⟨d, hd, rfl⟩ := target_read htarget
    have hrun : Command.void.perform env json tokenInfo traceId payload = _ :=
      createFromBody_run hd (fun d doer traceId => { d with doer, traceId }) tokenInfo traceId
        fun data => YourAggregateController.voidYourAggregate env [data]
    rw [hrun]
    refine method_no_not_found hA _ (batch_no_not_found ?_)
    exact (voidYourAggregate_no_not_found hA hmixin _ fun _ =>
      voided_heard (fun _ he => he) hmixin (by omega) _ _).bind fun _ => Triple.pure fun _ h => h

/-- A creation loads only what it has saved. -/
theorem create_found (hmixin : env.mixin.NeverNotFound) (json : CamelCaseJson)
    (tokenInfo : TokenInfo) (traceId : Option String) {payload : Json}
    (hread : (json.create payload).toOption.isSome = true) :
    Triple (fun w => w.provider.sessionCount = 0 ∧ ∀ e, some e ∈ w.faults → e.isException = false)
      (Command.create.perform env json tokenInfo traceId payload) (fun _ _ => True)
      fun e _ => e.isNoResultFound = false := by
  have hexc : ∀ e : Exc, e.isException = false → e.isException = false := fun _ h => h
  have hA : ∀ e : Exc, e.isException = false → e.isNoResultFound = false :=
    fun _ h => not_found_of_not_exception h
  cases hd : json.create payload with
  | error e =>
    rw [hd] at hread
    cases hread
  | ok d =>
    have hrun : Command.create.perform env json tokenInfo traceId payload = _ :=
      createFromBody_run hd (fun d doer traceId => { d with doer, traceId }) tokenInfo traceId
        fun data => YourAggregateController.createYourAggregate env [data]
    rw [hrun]
    refine (connectDbSession_no_not_found (P := InCall (fun e => e.isException = false) 1) hA
      (fun _ _ hf h => h.framed hf) _ (batch_no_not_found ?_)).conseq
        (fun w hw => ⟨hw.1, hw.2, w.entered_live⟩) (fun _ _ h => h) fun _ _ h => h
    refine RaisesOnly.bind (fun w hw => ⟨hw.faults, hw.live⟩) fun id => ?_
    refine (NoNotFound.of_harmless InCall.robust Harmless.datetimeNow).bind fun now => ?_
    rw [YourAggregate.createYourAggregate_eq]
    exact (useCaseSave_no_not_found hA (created_heard hexc hmixin (by omega) _ _ _) rfl
      fun w hseen => hseen rfl).bind fun _ => RaisesOnly.pure _

/-- Where the row is there and its read does not fail with an `Exception`. -/
theorem arrives {w : World} {row : Option YourAggregateModel} {outcome : Option Exc}
    (hA : ∀ e : Exc, e.isException = false → A e) (hcount : w.provider.sessionCount = 0)
    (hrow : w.db.yourAggregate id = row) (hnext : w.nextFault = outcome)
    (htail : ∀ e, some e ∈ w.faults.tail → A e) (h : FailsOnAbsence row outcome)
    (hthere : row ≠ none) : Arrives A id w := by
  have hread : ∀ e, w.nextFault = some e → e.isException = false := by
    intro e he
    rw [hnext] at he
    rw [Bool.eq_false_iff]
    exact fun hexc => hthere ((h e he).mp hexc)
  refine ⟨hcount, fun e he => ?_, ?_, hread⟩
  · cases hf : w.faults with
    | nil =>
      rw [hf] at he
      cases he
    | cons x xs =>
      rw [hf] at he
      rcases List.mem_cons.mp he with rfl | he
      · exact hA e (hread e (by rw [World.nextFault, hf]; rfl))
      · exact htail e (by rw [hf]; exact he)
  · rw [hrow]
    exact Option.isSome_iff_ne_none.mpr hthere

end

/-! ## When not-found means absent -/

section
variable {env : Env}

/-- What a triple says of a program that reports that something was not found. -/
theorem not_reported {α : Type} {P : World → Prop} {x : M α} {Q : α → World → Prop}
    (h : Triple P x Q fun e _ => e.isNoResultFound = false) {w : World} (hw : P w) :
    ¬ReportsNotFound x w := by
  rintro ⟨msg, hmsg⟩
  have hrun := h w hw
  rw [eq_error_of_raised hmsg] at hrun
  cases hrun

/-- For every id, row and outcome of the read: not-found means absent if and only if the read
    fails with an `Exception` just when there is no row. -/
theorem not_found_iff (hmixin : env.mixin.NeverNotFound)
    (createStrictly : IdRequest → Option Rejection) (json : CamelCaseJson) (id : String)
    (row : Option YourAggregateModel) (outcome : Option Exc) :
    NotFoundMeansAbsent env createStrictly json id row outcome ↔ FailsOnAbsence row outcome := by
  constructor
  · intro h e he
    -- a session that sees the row, and whose next read fails
    let s : AsyncSession := ⟨{ Database.empty with
      yourAggregate := Function.update Database.empty.yourAggregate id row }, [], true, 0⟩
    let w : World := (World.init [some e]).setSession (some s)
    have hrow : s.view.yourAggregate id = row := Function.update_self _ _ _
    have hread : raised (AsyncSession.get id w) = some e := by
      rw [sessionGet_error (s := s) rfl rfl rfl]
      rfl
    have hload := h.load w s true rfl hrow (hread.trans he.symm)
    exact (load_failed_reports hread).symm.trans hload
  · intro h
    refine ⟨fun w s lock hs hrow hread => ?_, fun w s lock hs hrow hread hthere e he => ?_,
      fun w tokenInfo hcount hrow hnext htail resp w' hrun h404 => ?_,
      fun w tokenInfo traceId cmd payload hcount hrow hnext htail htarget hreports => ?_,
      fun w tokenInfo traceId payload hcount hfaults hcreate => ?_⟩
    · rw [← hrow]
      cases outcome with
      | none => exact load_read hmixin hs hread
      | some e =>
        rw [hrow]
        exact (load_failed_reports hread).trans (h e rfl)
    · rw [he] at hread
      rw [load_failed hread, if_neg fun hexc => hthere ((h e he).mp hexc)]
    · by_contra hthere
      have harrives : Arrives (fun e => e.isNoResultFound = false) id w :=
        arrives (fun _ he => not_found_of_not_exception he) hcount hrow hnext htail h hthere
      have hget := get_found (fun _ he => he) hmixin createStrictly tokenInfo w harrives
      rw [hrun] at hget
      exact hget h404
    · by_contra hthere
      refine not_reported (command_found hmixin json tokenInfo traceId cmd payload htarget)
        (arrives (fun e he => ?_) hcount hrow hnext htail h hthere) hreports
      cases cmd with
      | void => exact he
      | _ => exact not_found_of_not_exception he
    · exact not_reported (create_found hmixin json tokenInfo traceId hcreate) ⟨hcount, hfaults⟩

end

theorem asdict_neverNotFound : DataclassMixin.asdict.NeverNotFound := by
  have hraises : ∀ {α : Type} (o : Option α) (e : Exc), orTypeError o = .error e →
      e.isNoResultFound = false := by
    intro α o e h
    obtain ⟨msg, rfl⟩ := orTypeError_raises h
    rfl
  exact ⟨fun j e => hraises _ e, fun j e => hraises _ e, fun j e => hraises _ e⟩

/-- An id that PostgreSQL takes for no uuid counts as absent. -/
theorem malformed_id_absent :
    NotFoundMeansAbsent .plain (fun _ => none) .plain "a" none (some (.exception "DBAPIError")) :=
  (not_found_iff asdict_neverNotFound _ _ _ _ _).mpr fun e he => by
    cases he
    exact ⟨fun _ => rfl, fun _ => rfl⟩

/-- The row of the new aggregate. -/
def storedRow : YourAggregateModel :=
  { YourAggregateRepository.modelOf .plain newObject.object none with createdAt := some 0 }

/-- It is in the database, whose connection is about to be lost. -/
def losingWorld : World :=
  { World.init [some (.exception "OperationalError")] with
    db := { Database.empty with
      yourAggregate := Function.update Database.empty.yourAggregate "a" (some storedRow) } }

def someToken : TokenInfo := ⟨⟨"u", none, none, none⟩, ⟨"o"⟩⟩

/-- The endpoint answers 404 on an aggregate that is there. -/
theorem lost_read_not_found : ¬NotFoundMeansAbsent .plain (fun _ => none) .plain "a"
    (some storedRow) (some (.exception "OperationalError")) := by
  intro h
  have hanswers : (match getYourAggregate .plain (fun _ => none) "a" someToken losingWorld with
      | .ok resp _ => some resp.statusCode
      | .error _ _ => none) = some 404 := by decide +kernel
  cases hrun : getYourAggregate .plain (fun _ => none) "a" someToken losingWorld with
  | error e w' =>
    rw [hrun] at hanswers
    cases hanswers
  | ok resp w' =>
    rw [hrun] at hanswers
    have habsent := h.get losingWorld someToken rfl rfl rfl (fun _ he => nomatch he) resp w' hrun
      (Option.some.inj hanswers)
    cases habsent

end DddService
