import DddService.InStep

/- The command endpoint: one controller call for each payload, each in a `try` of its own,
   all on one session provider, publisher and pair of use cases. A payload comes with what
   its environment gives it (`Item`), so that it can meet the same environment in two runs.

   A failing item leaves a world in which every later item runs as if it had never been
   sent (`Answer`s agree and so does the database), and an item is reported as a success
   exactly if the transaction it opened was committed. -/
namespace DddService
open Hoare

/-! ## Requests -/

structure TokenUser where
  id : String
  email : Option String
  name : Option String
  mobile : Option String

structure TokenOrganization where
  id : String

/-- The fields of `TokenInfo` that `create_user` reads. -/
structure TokenInfo where
  user : TokenUser
  organization : TokenOrganization

def createUser (tokenInfo : TokenInfo) : User where
  id := some tokenInfo.user.id
  organizationId := some tokenInfo.organization.id
  name := tokenInfo.user.name
  email := tokenInfo.user.email
  mobile := tokenInfo.user.mobile

/-- `create_from_camel_case_json` of the four request classes: the dataclass package reads
    the body, or raises an `Exception`. -/
structure CamelCaseJson where
  create : Json → Except Failure CreateYourAggregateRequest
  update : Json → Except Failure UpdateYourAggregateRequest
  delete : Json → Except Failure IdRequest
  void : Json → Except Failure IdRequest

/-- `RequestBase.create_from_body`: reads the body, and sets `doer` and `trace_id`. -/
def createFromBody {ρ : Type} (createFromCamelCaseJson : Json → Except Failure ρ)
    (set : ρ → User → Option String → ρ) (body : Json) (tokenInfo : TokenInfo)
    (traceId : Option String) : Except Exc ρ :=
  match createFromCamelCaseJson body with
  | .ok d => .ok (set d (createUser tokenInfo) traceId)
  | .error e => .error e.val

def CreateYourAggregateRequest.createFromBody (json : CamelCaseJson) :
    Json → TokenInfo → Option String → Except Exc CreateYourAggregateRequest :=
  DddService.createFromBody json.create fun d doer traceId => { d with doer, traceId }

def UpdateYourAggregateRequest.createFromBody (json : CamelCaseJson) :
    Json → TokenInfo → Option String → Except Exc UpdateYourAggregateRequest :=
  DddService.createFromBody json.update fun d doer traceId => { d with doer, traceId }

namespace IdRequest

def createDeleteFromBody (json : CamelCaseJson) :
    Json → TokenInfo → Option String → Except Exc IdRequest :=
  createFromBody json.delete fun d doer traceId => { d with doer, traceId }

def createVoidFromBody (json : CamelCaseJson) :
    Json → TokenInfo → Option String → Except Exc IdRequest :=
  createFromBody json.void fun d doer traceId => { d with doer, traceId }

end IdRequest

/-! ## Responses -/

/-- `str(e)` -/
def Exc.str : Exc → String
  | .noResultFound msg | .integrityError msg | .sqlAlchemyError msg | .invalidRequestError msg
  | .yourAggregateStatusNotMatched msg | .valueError msg | .typeError msg
  | .notImplementedError msg | .attributeError msg | .indexError msg | .runtimeError msg => msg
  | .recursionError => "maximum recursion depth exceeded"
  | .exception name | .baseException name => name

/-- `{"payload": p, "detail": r}` and `{"payload": p, "detail": str(e)}` -/
structure Report (δ : Type) where
  payload : Json
  detail : δ
  deriving DecidableEq

/-- `resp` -/
structure CommandResponse where
  success : List (Report Response)
  failure : List (Report String)
  deriving DecidableEq

/-- The `data` of a response. -/
inductive ResponseData where
  | text (s : String)
  | reports (resp : CommandResponse)
  deriving DecidableEq

structure DefaultResponse where
  code : String
  data : ResponseData
  statusCode : Nat
  deriving DecidableEq

namespace ApiResponse

def failed (detail : ResponseData) : DefaultResponse := ⟨"Bad Request", detail, 400⟩

def success (detail : ResponseData) : DefaultResponse := ⟨"OK", detail, 200⟩

end ApiResponse

/-! ## The endpoint -/

inductive Command where
  | create | update | delete | void
  deriving DecidableEq, Repr

def Command.value : Command → String
  | .create => "CREATE"
  | .update => "UPDATE"
  | .delete => "DELETE"
  | .void => "VOID"

/-- The `case` that `cmd` matches. -/
def Command.ofValue? (cmd : String) : Option Command :=
  if cmd = "CREATE" then some .create
  else if cmd = "UPDATE" then some .update
  else if cmd = "DELETE" then some .delete
  else if cmd = "VOID" then some .void
  else none

theorem Command.ofValue_value (cmd : Command) : Command.ofValue? cmd.value = some cmd := by
  cases cmd <;> decide

/-- A payload, and its environment: the time, the uuids drawn by then, and where an
    `Exception` is raised. -/
structure Item where
  payload : Json
  clock : DateTime
  drawn : UuidKind → Nat
  faults : List (Option Failure)

/-- The world as the item meets it. -/
def Item.arrive (p : Item) (w : World) : World :=
  { w with clock := p.clock, drawn := p.drawn, faults := p.faults.map (·.map Subtype.val) }

section
variable (env : Env) (json : CamelCaseJson) (tokenInfo : TokenInfo) (traceId : Option String)

/-- The request of a payload, sent to the controller. -/
def Command.perform : Command → Json → M Response
  | .create, p => do
    let data ← M.ofExcept (CreateYourAggregateRequest.createFromBody json p tokenInfo traceId)
    YourAggregateController.createYourAggregate env [data]
  | .update, p => do
    let data ← M.ofExcept (UpdateYourAggregateRequest.createFromBody json p tokenInfo traceId)
    YourAggregateController.updateYourAggregate env [data]
  | .delete, p => do
    let data ← M.ofExcept (IdRequest.createDeleteFromBody json p tokenInfo traceId)
    YourAggregateController.deleteYourAggregate env [data]
  | .void, p => do
    let data ← M.ofExcept (IdRequest.createVoidFromBody json p tokenInfo traceId)
    YourAggregateController.voidYourAggregate env [data]

/-- The loop's body. -/
def Command.round (cmd : Command) (resp : CommandResponse) (p : Item) : M CommandResponse := do
  modify p.arrive
  tryCatch
    (do let r ← cmd.perform env json tokenInfo traceId p.payload
        pure { resp with success := resp.success ++ [⟨p.payload, r⟩] })
    (fun e =>
      if e.isException then pure { resp with failure := resp.failure ++ [⟨p.payload, e.str⟩] }
      else throw e)

end

/-- The two keys of the request's body. -/
structure CommandBody where
  cmd : Option String
  payload : Option (List Item)

/-- What the endpoint returns after its loop. -/
def CommandResponse.respond (resp : CommandResponse) : DefaultResponse :=
  if resp.failure.isEmpty then ApiResponse.success (.reports resp)
  else ApiResponse.failed (.reports resp)

def command (env : Env) (json : CamelCaseJson) (body : CommandBody) (tokenInfo : TokenInfo) :
    M DefaultResponse := do
  let traceId ← getTraceId env
  let cmd := body.cmd.getD ""
  let payload := body.payload.getD []
  match Command.ofValue? cmd with
  | some c => do
    let resp ← payload.foldlM (c.round env json tokenInfo (some traceId)) ⟨[], []⟩
    pure resp.respond
  | none => pure (ApiResponse.failed (.text ("cmd:<" ++ cmd ++ "> is not supported")))

/-! ## Outcomes -/

/-- How an item came out. -/
inductive Answer where
  | success (detail : Response)
  | failure (detail : String)
  deriving DecidableEq

def Answer.isSuccess : Answer → Bool
  | .success _ => true
  | .failure _ => false

def Answer.success? : Item × Answer → Option (Report Response)
  | (p, .success r) => some ⟨p.payload, r⟩
  | (_, .failure _) => none

def Answer.failure? : Item × Answer → Option (Report String)
  | (_, .success _) => none
  | (p, .failure s) => some ⟨p.payload, s⟩

/-- The reports on items, in their order, by how they came out. -/
def CommandResponse.of (outcomes : List (Item × Answer)) : CommandResponse :=
  ⟨outcomes.filterMap Answer.success?, outcomes.filterMap Answer.failure?⟩

/-- The outcomes without some of the failures. -/
inductive Thinned : List (Item × Answer) → List (Item × Answer) → Prop
  | nil : Thinned [] []
  | keep {kept outcomes} (o : Item × Answer) (h : Thinned kept outcomes) :
      Thinned (o :: kept) (o :: outcomes)
  | drop {kept outcomes} (p : Item) (s : String) (h : Thinned kept outcomes) :
      Thinned kept ((p, .failure s) :: outcomes)

theorem Thinned.successes :
    ∀ outcomes, Thinned (outcomes.filter (·.2.isSuccess)) outcomes
  | [] => .nil
  | (p, .success r) :: outcomes => .keep (p, .success r) (Thinned.successes outcomes)
  | (p, .failure s) :: outcomes => .drop p s (Thinned.successes outcomes)

/-- The two lists of a response partition the payloads. -/
theorem CommandResponse.of_payloads (outcomes : List (Item × Answer)) :
    (CommandResponse.of outcomes).success.map (·.payload) =
        (outcomes.filter (·.2.isSuccess)).map (·.1.payload) ∧
      (CommandResponse.of outcomes).failure.map (·.payload) =
        (outcomes.filter (!·.2.isSuccess)).map (·.1.payload) := by
  induction outcomes with
  | nil => exact ⟨rfl, rfl⟩
  | cons o outcomes ih =>
    obtain ⟨hs, hf⟩ := ih
    obtain ⟨p, r | s⟩ := o
    · exact ⟨congrArg (p.payload :: ·) hs, hf⟩
    · exact ⟨hs, congrArg (p.payload :: ·) hf⟩

section
variable (env : Env) (json : CamelCaseJson) (tokenInfo : TokenInfo) (traceId : Option String)
  (cmd : Command)

/-- How an item comes out in `w`, and the world after it. -/
def Command.answer (p : Item) (w : World) : Answer :=
  match cmd.perform env json tokenInfo traceId p.payload (p.arrive w) with
  | .ok r _ => .success r
  | .error e _ => .failure e.str

def Command.next (p : Item) (w : World) : World :=
  stateOf (cmd.perform env json tokenInfo traceId p.payload (p.arrive w))

/-- How the items come out, one after the other, and the world after them. -/
def Command.answers : List Item → World → List Answer
  | [], _ => []
  | p :: ps, w => cmd.answer env json tokenInfo traceId p w ::
      Command.answers ps (cmd.next env json tokenInfo traceId p w)

def Command.last (items : List Item) (w : World) : World :=
  items.foldl (fun w p => cmd.next env json tokenInfo traceId p w) w

end

/-! ## One item -/

section
variable {env : Env} {json : CamelCaseJson} {tokenInfo : TokenInfo} {traceId : Option String}
  {cmd : Command} {t : String} {w v : World}

theorem Item.arrive_tame (p : Item) (w : World) : (p.arrive w).Tame := by
  intro e he
  obtain ⟨f, _, hf⟩ := List.mem_map.mp he
  obtain ⟨x, _, rfl⟩ := Option.map_eq_some_iff.mp hf
  exact x.property

theorem createFromBody_run {ρ α : Type} {createFromCamelCaseJson : Json → Except Failure ρ}
    {body : Json} {d : ρ} (hd : createFromCamelCaseJson body = .ok d)
    (set : ρ → User → Option String → ρ) (tokenInfo : TokenInfo) (traceId : Option String)
    (f : ρ → M α) :
    M.ofExcept (createFromBody createFromCamelCaseJson set body tokenInfo traceId) >>= f =
      f (set d (createUser tokenInfo) traceId) := by
  unfold createFromBody
  rw [hd]
  rfl

theorem createFromBody_cases {ρ α : Type} (tokenInfo : TokenInfo) (traceId : Option String)
    (createFromCamelCaseJson : Json → Except Failure ρ) (set : ρ → User → Option String → ρ)
    (body : Json) (f : ρ → M α) :
    (∃ e : Failure, M.ofExcept (createFromBody createFromCamelCaseJson set body tokenInfo traceId)
        >>= f = throw e.val) ∨
      ∃ d, M.ofExcept (createFromBody createFromCamelCaseJson set body tokenInfo traceId)
        >>= f = f (set d (createUser tokenInfo) traceId) := by
  cases hbody : createFromCamelCaseJson body with
  | error e =>
    unfold createFromBody
    rw [hbody]
    exact Or.inl ⟨e, rfl⟩
  | ok d => exact Or.inr ⟨d, createFromBody_run hbody set tokenInfo traceId f⟩

theorem Command.perform_cases (env : Env) (json : CamelCaseJson) (tokenInfo : TokenInfo)
    (traceId : Option String) (cmd : Command) (payload : Json) :
    (∃ e : Failure, cmd.perform env json tokenInfo traceId payload = throw e.val) ∨
      ∃ c traceId' func, Call.method env c = some ⟨Response, traceId', func⟩ ∧
        cmd.perform env json tokenInfo traceId payload =
          Method.run env ⟨Response, traceId', func⟩ := by
  cases cmd with
  | create =>
    rcases createFromBody_cases tokenInfo traceId json.create
      (fun d doer traceId => { d with doer, traceId }) payload
      (fun data => YourAggregateController.createYourAggregate env [data]) with ⟨e, he⟩ | ⟨d, hd⟩
    · exact Or.inl ⟨e, he⟩
    · exact Or.inr ⟨.create [{ d with doer := createUser tokenInfo, traceId }], _, _, rfl, hd⟩
  | update =>
    rcases createFromBody_cases tokenInfo traceId json.update
      (fun d doer traceId => { d with doer, traceId }) payload
      (fun data => YourAggregateController.updateYourAggregate env [data]) with ⟨e, he⟩ | ⟨d, hd⟩
    · exact Or.inl ⟨e, he⟩
    · exact Or.inr ⟨.update [{ d with doer := createUser tokenInfo, traceId }], _, _, rfl, hd⟩
  | delete =>
    rcases createFromBody_cases tokenInfo traceId json.delete
      (fun d doer traceId => { d with doer, traceId }) payload
      (fun data => YourAggregateController.deleteYourAggregate env [data]) with ⟨e, he⟩ | ⟨d, hd⟩
    · exact Or.inl ⟨e, he⟩
    · exact Or.inr ⟨.delete [{ d with doer := createUser tokenInfo, traceId }], _, _, rfl, hd⟩
  | void =>
    rcases createFromBody_cases tokenInfo traceId json.void
      (fun d doer traceId => { d with doer, traceId }) payload
      (fun data => YourAggregateController.voidYourAggregate env [data]) with ⟨e, he⟩ | ⟨d, hd⟩
    · exact Or.inl ⟨e, he⟩
    · exact Or.inr ⟨.void [{ d with doer := createUser tokenInfo, traceId }], _, _, rfl, hd⟩

/-- A session left over from before is replaced by the scope's own. -/
theorem Method.run_fresh (m : Method) (h0 : w.provider.sessionCount = 0) :
    m.run env w = m.run env (w.setSession none) := by
  have hscope : ∀ body : M m.Result,
      SessionProvider.withSession body w = SessionProvider.withSession body (w.setSession none) := by
    intro body
    let rest : M m.Result := do
      let a ← tryCatch body (fun e => do SessionProvider.aexit; throw e)
      SessionProvider.aexit
      pure a
    have hleft : SessionProvider.withSession body w = rest w.entered :=
      bind_ok (aenter_outer h0) rfl
    have hright : SessionProvider.withSession body (w.setSession none) = rest w.entered :=
      bind_ok (aenter_outer (w := w.setSession none) h0) rfl
    rw [hleft, hright]
  unfold Method.run ControllerBase.connectDbSession
  rw [bind_run, bind_run, hscope]

theorem Alike.arrive (h : Alike t w v) (p : Item) : Alike t (p.arrive w) (p.arrive v) :=
  { h with }

/-- Alike worlds in which the item arrives are side by side, but for a stale session. -/
theorem Alike.twin (h : Alike t w v) (p : Item) :
    Twin t (fun _ => False) ((p.arrive w).setSession none) ((p.arrive v).setSession none) where
  db := h.db
  provider := by
    show SessionProvider.mk none v.provider.sessionCount = ⟨none, w.provider.sessionCount⟩
    rw [h.counts.1, h.counts.2]
  useCase := fun _ ho => ho.elim
  drawn := rfl
  clock := rfl
  faults := rfl
  tame := p.arrive_tame w
  traceIds := h.traceIds
  named := h.named
  left := h.left
  right := h.right

/-- In two worlds that are alike an item comes out the same, and leaves them alike. -/
theorem Command.perform_alike (hmixin : env.mixin.RaisesExceptions) (h : Alike t w v) (p : Item) :
    SameExit (fun _ => Alike t) (fun e w v => e.isException = true ∧ Alike t w v)
      (cmd.perform env json tokenInfo traceId p.payload (p.arrive w))
      (cmd.perform env json tokenInfo traceId p.payload (p.arrive v)) := by
  have h' := h.arrive p
  rcases Command.perform_cases env json tokenInfo traceId cmd p.payload with ⟨e, hrun⟩ | ⟨c, traceId', func, hm, hrun⟩
  · rw [hrun]
    exact .error ⟨e.property, h'⟩
  · rw [hrun, Method.run_fresh _ h'.counts.1, Method.run_fresh _ h'.counts.2]
    exact Method.run_alike hmixin hm (h.twin p) h'.counts.1

theorem Command.perform_failed (hmixin : env.mixin.RaisesExceptions) (h : Alike t w w) {p : Item}
    {e : Exc} {w' : World}
    (hr : cmd.perform env json tokenInfo traceId p.payload (p.arrive w) = .error e w') :
    e.isException = true ∧ Alike t w w' := by
  have hexit : SameExit (fun _ => Alike t) (fun e w v => e.isException = true ∧ Alike t w v)
      (cmd.perform env json tokenInfo traceId p.payload (p.arrive w)) _ :=
    Command.perform_alike hmixin h p
  rw [hr] at hexit
  cases hexit with
  | error hq =>
    obtain ⟨he, hq⟩ := hq
    have hdb : w'.db = w.db := by
      rcases Command.perform_cases env json tokenInfo traceId cmd p.payload with
        ⟨e', hrun⟩ | ⟨c, traceId', func, hm, hrun⟩
      · rw [hrun] at hr
        cases hr
        rfl
      · rw [hrun] at hr
        exact connectDbSession_exception (w := p.arrive w) env traceId' (Body.method env hm)
          h.counts.1 hr he
    exact ⟨he, hdb, ⟨h.counts.1, hq.counts.1⟩, ⟨h.traceIds.1, hq.traceIds.1⟩, h.named, h.left,
      hq.left⟩

theorem Alike.item (hmixin : env.mixin.RaisesExceptions) (h : Alike t w v) (p : Item) :
    cmd.answer env json tokenInfo traceId p v = cmd.answer env json tokenInfo traceId p w ∧
      Alike t (cmd.next env json tokenInfo traceId p w) (cmd.next env json tokenInfo traceId p v) := by
  have hexit : SameExit (fun _ => Alike t) (fun e w v => e.isException = true ∧ Alike t w v)
      (cmd.perform env json tokenInfo traceId p.payload (p.arrive w))
      (cmd.perform env json tokenInfo traceId p.payload (p.arrive v)) :=
    Command.perform_alike hmixin h p
  unfold Command.answer Command.next
  revert hexit
  generalize cmd.perform env json tokenInfo traceId p.payload (p.arrive w) = r,
    cmd.perform env json tokenInfo traceId p.payload (p.arrive v) = r'
  intro hexit
  cases hexit with
  | ok hq => exact ⟨rfl, hq⟩
  | error hq => exact ⟨rfl, hq.2⟩

theorem Alike.failed (hmixin : env.mixin.RaisesExceptions) (h : Alike t w w) {p : Item} {s : String}
    (ha : cmd.answer env json tokenInfo traceId p w = .failure s) :
    Alike t w (cmd.next env json tokenInfo traceId p w) := by
  unfold Command.answer at ha
  unfold Command.next
  cases hr : cmd.perform env json tokenInfo traceId p.payload (p.arrive w) with
  | ok r w' => rw [hr] at ha; cases ha
  | error e w' => exact (Command.perform_failed hmixin h hr).2

theorem Alike.commits (hmixin : env.mixin.RaisesExceptions) (h : Alike t w w) (p : Item) :
    (w.tx + 1, SessionAction.committed) ∈ w.since (cmd.next env json tokenInfo traceId p w) ↔
      (cmd.answer env json tokenInfo traceId p w).isSuccess = true := by
  unfold Command.answer Command.next
  cases hr : cmd.perform env json tokenInfo traceId p.payload (p.arrive w) with
  | ok r w' =>
    -- the method returned, so its scope committed before publishing
    refine iff_of_true ?_ rfl
    rcases Command.perform_cases env json tokenInfo traceId cmd p.payload with
      ⟨e, hrun⟩ | ⟨c, traceId', func, hm, hrun⟩
    · rw [hrun] at hr
      cases hr
    · rw [hrun] at hr
      obtain ⟨ps, _, hj⟩ :=
        connectDbSession_ok (w := p.arrive w) env traceId' (Body.method env hm) h.counts.1 hr
      show _ ∈ List.drop w.journal.length w'.journal
      rw [hj]
      show _ ∈ List.drop w.journal.length (w.journal ++ _ ++ _)
      rw [List.append_assoc, List.drop_left]
      apply List.mem_append_right
      exact List.mem_cons_of_mem _ List.mem_cons_self
  | error e w' =>
    refine iff_of_false ?_ Bool.false_ne_true
    have he := (Command.perform_failed hmixin h hr).1
    rcases Command.perform_cases env json tokenInfo traceId cmd p.payload with
      ⟨e', hrun⟩ | ⟨c, traceId', func, hm, hrun⟩
    · -- the payload was refused before a session was opened
      rw [hrun] at hr
      cases hr
      show _ ∉ List.drop w.journal.length w.journal
      rw [List.drop_length]
      exact List.not_mem_nil
    · rw [hrun] at hr
      exact connectDbSession_uncommitted (w := p.arrive w) env traceId' (Body.method env hm)
        h.counts.1 hr he

theorem Command.round_run (hmixin : env.mixin.RaisesExceptions) (h : Alike t w w) (p : Item)
    (resp : CommandResponse) :
    cmd.round env json tokenInfo traceId resp p w =
      .ok ⟨resp.success ++ (Answer.success? (p, cmd.answer env json tokenInfo traceId p w)).toList,
          resp.failure ++ (Answer.failure? (p, cmd.answer env json tokenInfo traceId p w)).toList⟩
        (cmd.next env json tokenInfo traceId p w) := by
  unfold Command.answer Command.next
  apply bind_ok (modify_run w _)
  cases hr : cmd.perform env json tokenInfo traceId p.payload (p.arrive w) with
  | ok r w' =>
    apply tryCatch_ok
    rw [bind_ok hr rfl]
    simp [Answer.success?, Answer.failure?, stateOf]
  | error e w' =>
    have he := (Command.perform_failed hmixin h hr).1
    apply tryCatch_error (bind_error hr)
    rw [run_ite_pos he rfl]
    simp [Answer.success?, Answer.failure?, stateOf]

/-! ## All the items -/

theorem Alike.refl_next (hmixin : env.mixin.RaisesExceptions) (h : Alike t w w) (p : Item) :
    Alike t (cmd.next env json tokenInfo traceId p w) (cmd.next env json tokenInfo traceId p w) :=
  (h.item hmixin p).2

theorem Command.loop_run (hmixin : env.mixin.RaisesExceptions) :
    ∀ (items : List Item) (w : World) (resp : CommandResponse), Alike t w w →
      items.foldlM (cmd.round env json tokenInfo traceId) resp w =
        .ok ⟨resp.success ++ (CommandResponse.of
              (items.zip (cmd.answers env json tokenInfo traceId items w))).success,
            resp.failure ++ (CommandResponse.of
              (items.zip (cmd.answers env json tokenInfo traceId items w))).failure⟩
          (cmd.last env json tokenInfo traceId items w)
  | [], w, resp, _ => by
    show EStateM.Result.ok resp w = .ok ⟨resp.success ++ [], resp.failure ++ []⟩ w
    rw [List.append_nil, List.append_nil]
  | p :: items, w, resp, h => by
    rw [List.foldlM_cons]
    apply bind_ok (Command.round_run hmixin h p resp)
    rw [Command.loop_run hmixin items _ _ (h.refl_next hmixin p)]
    rw [Command.answers, List.zip_cons_cons]
    unfold CommandResponse.of
    rw [List.filterMap_cons, List.filterMap_cons]
    cases cmd.answer env json tokenInfo traceId p w with
    | success r => simp [Answer.success?, Answer.failure?]; rfl
    | failure s => simp [Answer.success?, Answer.failure?]; rfl

theorem Alike.thinned (hmixin : env.mixin.RaisesExceptions) :
    ∀ (items : List Item) (w v : World) (kept : List (Item × Answer)), Alike t w v →
      Thinned kept (items.zip (cmd.answers env json tokenInfo traceId items w)) →
      (kept.map Prod.fst).zip (cmd.answers env json tokenInfo traceId (kept.map Prod.fst) v) = kept ∧
        Alike t (cmd.last env json tokenInfo traceId items w)
          (cmd.last env json tokenInfo traceId (kept.map Prod.fst) v)
  | [], w, v, kept, h, hk => by
    cases hk
    exact ⟨rfl, h⟩
  | p :: items, w, v, kept, h, hk => by
    have hself : Alike t w w := h.trans h.symm
    obtain ⟨hanswer, hnext⟩ := h.item hmixin p
    rw [Command.answers, List.zip_cons_cons] at hk
    generalize ho : (p, cmd.answer env json tokenInfo traceId p w) = o at hk
    cases hk with
    | @keep kept' _ o hk =>
      obtain ⟨hsame, hlast⟩ := Alike.thinned hmixin items _ _ kept' hnext hk
      subst ho
      refine ⟨?_, hlast⟩
      rw [List.map_cons, Command.answers, List.zip_cons_cons, hanswer, hsame]
    | drop p' s hk =>
      -- the item failed, so the world after it is like the one before
      obtain ⟨_, hs⟩ := Prod.mk.inj ho
      have hfailed := hself.failed hmixin hs
      exact Alike.thinned hmixin items _ _ kept (hfailed.symm.trans h) hk

end

/-! ## The endpoint's promise -/

section
variable (env : Env) (json : CamelCaseJson) (tokenInfo : TokenInfo) (cmd : Command)
  (items : List Item) (w : World)

/-- The world before the `n`-th item. -/
def Command.worldAt (n : Nat) : World :=
  stateOf ((items.take n).foldlM (cmd.round env json tokenInfo w.traceId) ⟨[], []⟩ w)

/-- The transaction that the `n`-th item opens is committed. -/
def Command.Commits (n : Nat) : Prop :=
  let before := cmd.worldAt env json tokenInfo items w n
  (before.tx + 1, SessionAction.committed) ∈
    before.since (cmd.worldAt env json tokenInfo items w (n + 1))

/-- The endpoint, called with the items. -/
def Command.call : EStateM.Result Exc World DefaultResponse :=
  command env json ⟨some cmd.value, some items⟩ tokenInfo w

/-- Each item comes out by itself. The successes and the failures partition the payloads;
    an item succeeds exactly if its transaction commits; one that fails changes nothing; and
    without some of the failures, or without all of them, the others come out the same and
    leave the same database. -/
structure Itemwise (answers : List Answer) : Prop where
  length : answers.length = items.length
  response : ∃ w', cmd.call env json tokenInfo items w =
    .ok (CommandResponse.of (items.zip answers)).respond w'
  partition : (CommandResponse.of (items.zip answers)).success.map (·.payload) =
      ((items.zip answers).filter (·.2.isSuccess)).map (·.1.payload) ∧
    (CommandResponse.of (items.zip answers)).failure.map (·.payload) =
      ((items.zip answers).filter (!·.2.isSuccess)).map (·.1.payload)
  commits : ∀ n (h : n < answers.length),
    answers[n].isSuccess = true ↔ cmd.Commits env json tokenInfo items w n
  unchanged : ∀ n (h : n < answers.length), answers[n].isSuccess = false →
    (cmd.worldAt env json tokenInfo items w (n + 1)).db =
      (cmd.worldAt env json tokenInfo items w n).db
  thinned : ∀ kept, Thinned kept (items.zip answers) →
    ∃ w', cmd.call env json tokenInfo (kept.map Prod.fst) w =
        .ok (CommandResponse.of kept).respond w' ∧
      w'.db = (stateOf (cmd.call env json tokenInfo items w)).db
  successes :
    let kept := (items.zip answers).filter (·.2.isSuccess)
    ∃ w', cmd.call env json tokenInfo (kept.map Prod.fst) w =
        .ok (CommandResponse.of kept).respond w' ∧
      w'.db = (stateOf (cmd.call env json tokenInfo items w)).db

end

section
variable {env : Env} {json : CamelCaseJson} {tokenInfo : TokenInfo} {traceId : Option String}
  {cmd : Command} {t : String} {w : World}

theorem Command.answers_length :
    ∀ (items : List Item) (w : World),
      (cmd.answers env json tokenInfo traceId items w).length = items.length
  | [], _ => rfl
  | _ :: items, _ => congrArg Nat.succ (Command.answers_length items _)

theorem Command.last_succ (items : List Item) (w : World) {n : Nat} (h : n < items.length) :
    cmd.last env json tokenInfo traceId (items.take (n + 1)) w =
      cmd.next env json tokenInfo traceId items[n]
        (cmd.last env json tokenInfo traceId (items.take n) w) := by
  unfold Command.last
  rw [List.take_succ_eq_append_getElem h, List.foldl_append]
  rfl

/-- The `n`-th item comes out as it does in the world before it. -/
theorem Command.answers_getElem :
    ∀ (items : List Item) (w : World) (n : Nat) (h : n < items.length)
      (h' : n < (cmd.answers env json tokenInfo traceId items w).length),
      (cmd.answers env json tokenInfo traceId items w)[n] =
        cmd.answer env json tokenInfo traceId items[n]
          (cmd.last env json tokenInfo traceId (items.take n) w)
  | _ :: _, _, 0, _, _ => rfl
  | _ :: items, _, n + 1, h, h' =>
    Command.answers_getElem items _ n (Nat.lt_of_succ_lt_succ h) (Nat.lt_of_succ_lt_succ h')

theorem Alike.last (hmixin : env.mixin.RaisesExceptions) :
    ∀ (items : List Item) (w : World), Alike t w w →
      Alike t (cmd.last env json tokenInfo traceId items w)
        (cmd.last env json tokenInfo traceId items w)
  | [], _, h => h
  | p :: items, _, h => Alike.last hmixin items _ (h.refl_next hmixin p)

theorem Command.call_run (hmixin : env.mixin.RaisesExceptions) (h : Alike t w w)
    (items : List Item) :
    cmd.call env json tokenInfo items w =
      .ok (CommandResponse.of
          (items.zip (cmd.answers env json tokenInfo (some t) items w))).respond
        (cmd.last env json tokenInfo (some t) items w) := by
  apply bind_ok (getTraceId_named env h.traceIds.1 h.named)
  show (match Command.ofValue? cmd.value with
    | some c => do
      let resp ← items.foldlM (c.round env json tokenInfo (some t)) ⟨[], []⟩
      pure resp.respond
    | none => _ : M DefaultResponse) w = _
  rw [Command.ofValue_value]
  exact bind_ok (Command.loop_run hmixin items w ⟨[], []⟩ h) rfl

theorem Command.worldAt_eq (hmixin : env.mixin.RaisesExceptions) (h : Alike t w w)
    (items : List Item) (n : Nat) :
    cmd.worldAt env json tokenInfo items w n =
      cmd.last env json tokenInfo (some t) (items.take n) w := by
  unfold Command.worldAt
  rw [h.traceIds.1, Command.loop_run hmixin (items.take n) w ⟨[], []⟩ h]
  rfl

/-- A request begins with a session provider, a buffer and a trace id of its own. -/
theorem Alike.enterContext (env : Env) (traceId : Option String) (w₀ : World) :
    ∃ t, Alike t (stateOf (Call.enterContext env traceId w₀))
      (stateOf (Call.enterContext env traceId w₀)) := by
  unfold Call.enterContext
  dsimp only
  split
  · exact ⟨env.uuid4 .trace (w₀.drawn .trace), rfl, ⟨rfl, rfl⟩, ⟨rfl, rfl⟩, env.uuid4_ne _ _,
      Buffered.empty, Buffered.empty⟩
  · rename_i hne
    exact ⟨traceId.getD "", rfl, ⟨rfl, rfl⟩, ⟨rfl, rfl⟩, hne, Buffered.empty, Buffered.empty⟩

theorem Alike.itemwise (hmixin : env.mixin.RaisesExceptions) (h : Alike t w w)
    (items : List Item) : Itemwise env json tokenInfo cmd items w
      (cmd.answers env json tokenInfo (some t) items w) := by
  have hthinned : ∀ kept,
      Thinned kept (items.zip (cmd.answers env json tokenInfo (some t) items w)) →
      ∃ w', cmd.call env json tokenInfo (kept.map Prod.fst) w =
          .ok (CommandResponse.of kept).respond w' ∧
        w'.db = (stateOf (cmd.call env json tokenInfo items w)).db := by
    intro kept hk
    obtain ⟨hsame, hlast⟩ := Alike.thinned hmixin items w w kept h hk
    refine ⟨cmd.last env json tokenInfo (some t) (kept.map Prod.fst) w, ?_, ?_⟩
    · rw [Command.call_run hmixin h, hsame]
    · rw [Command.call_run hmixin h]
      exact hlast.db
  -- the world before the `n`-th item, and how that item comes out in it
  have hat : ∀ n (hn : n < (cmd.answers env json tokenInfo (some t) items w).length),
      ∃ p u, Alike t u u ∧ cmd.worldAt env json tokenInfo items w n = u ∧
        cmd.worldAt env json tokenInfo items w (n + 1) = cmd.next env json tokenInfo (some t) p u ∧
        (cmd.answers env json tokenInfo (some t) items w)[n] =
          cmd.answer env json tokenInfo (some t) p u := by
    intro n hn
    have hn' : n < items.length := by rwa [Command.answers_length] at hn
    refine ⟨items[n], cmd.last env json tokenInfo (some t) (items.take n) w, ?_, ?_, ?_, ?_⟩
    · exact Alike.last hmixin (items.take n) w h
    · exact Command.worldAt_eq hmixin h items n
    · rw [Command.worldAt_eq hmixin h, Command.last_succ items w hn']
    · exact Command.answers_getElem items w n hn' hn
  refine ⟨Command.answers_length items w, ⟨_, Command.call_run hmixin h items⟩,
    CommandResponse.of_payloads _, fun n hn => ?_, fun n hn hfail => ?_, hthinned,
    hthinned _ (Thinned.successes _)⟩
  · obtain ⟨p, u, hu, hbefore, hafter, hanswer⟩ := hat n hn
    unfold Command.Commits
    rw [hbefore, hafter, hanswer]
    exact (hu.commits hmixin p).symm
  · obtain ⟨p, u, hu, hbefore, hafter, hanswer⟩ := hat n hn
    rw [hbefore, hafter]
    rw [hanswer] at hfail
    cases ha : cmd.answer env json tokenInfo (some t) p u with
    | success r => rw [ha] at hfail; cases hfail
    | failure s => exact (hu.failed hmixin ha).db

end

/-- In every request, for every supported `cmd` and every list of items, failing with
    `Exception`s wherever they may, each item comes out by itself. -/
theorem command_isolated (env : Env) (hmixin : env.mixin.RaisesExceptions) (json : CamelCaseJson)
    (tokenInfo : TokenInfo) (cmd : Command) (items : List Item) (traceId : Option String)
    (w₀ : World) : ∃ answers, Itemwise env json tokenInfo cmd items
      (stateOf (Call.enterContext env traceId w₀)) answers := by
  obtain ⟨t, ht⟩ := Alike.enterContext env traceId w₀
  exact ⟨_, ht.itemwise hmixin items⟩

/-- A decoder's `None` is a `TypeError` of the constructor. -/
def orFailure {α : Type} : Option α → Except Failure α
  | some a => .ok a
  | none => .error ⟨.typeError "missing required positional argument", rfl⟩

def YourValueObject.ofCamelCase? (j : Json) : Option YourValueObject := do
  let propertyA ← (← j.get? "propertyA").asStr?
  let propertyB ← (← j.get? "propertyB").asNum?
  pure ⟨propertyA, propertyB⟩

/-- Reads `id`; `doer` and `trace_id` are not in the body. -/
def IdRequest.ofCamelCase? (j : Json) : Option IdRequest := do
  let id ← (← j.get? "id").asStr?
  pure ⟨⟨none, none, none, none, none⟩, none, id⟩

/-- The dataclass package, on bodies with the requests' own keys. -/
def CamelCaseJson.plain : CamelCaseJson where
  create j := orFailure do
    let v ← YourValueObject.ofCamelCase? (← j.get? "yourValueObject")
    pure ⟨⟨none, none, none, none, none⟩, none, v⟩
  update j := orFailure do
    let r ← IdRequest.ofCamelCase? j
    let v ← YourValueObject.ofCamelCase? (← j.get? "yourValueObject")
    pure ⟨r.doer, none, r.id, v⟩
  delete j := orFailure (IdRequest.ofCamelCase? j)
  void j := orFailure (IdRequest.ofCamelCase? j)

theorem orTypeError_raises {α : Type} {o : Option α} {e : Exc} (h : orTypeError o = .error e) :
    ∃ msg, e = .typeError msg := by
  cases o <;> cases h
  exact ⟨_, rfl⟩

theorem DataclassMixin.asdict_raisesExceptions : DataclassMixin.asdict.RaisesExceptions := by
  have hraises : ∀ {α : Type} (o : Option α) (e : Exc), orTypeError o = .error e →
      e.isException = true := by
    intro α o e h
    obtain ⟨msg, rfl⟩ := orTypeError_raises h
    rfl
  exact ⟨fun j e => hraises _ e, fun j e => hraises _ e, fun j e => hraises _ e⟩

/-- A payload that creates an aggregate with `n`, in an environment with `k` ids drawn. -/
def Item.creating (n : Int) (k : Nat) (faults : List (Option Failure)) : Item where
  payload := .obj [("yourValueObject", .obj [("propertyA", .str "value"), ("propertyB", .num n)])]
  clock := 0
  drawn := fun _ => k
  faults := faults

/-- Two aggregates are created; between them one payload fails at its first statement, and
    another cannot be read. -/
theorem command_isolated_creations :
    let token : TokenInfo := ⟨⟨"user", none, none, none⟩, ⟨"organization"⟩⟩
    let items := [Item.creating 1 0 [], Item.creating 2 1 [some ⟨.runtimeError "stopped", rfl⟩],
      { Item.creating 3 1 [] with payload := .null }, Item.creating 4 1 []]
    let w := stateOf (Call.enterContext .plain none (World.init []))
    (∃ answers, Itemwise .plain .plain token .create items w answers) ∧
      Command.answers .plain .plain token w.traceId .create items w =
        [.success (.one "a"), .failure "stopped",
          .failure "missing required positional argument", .success (.one "ax")] := by
  refine ⟨command_isolated .plain DataclassMixin.asdict_raisesExceptions _ _ _ _ none _, ?_⟩
  decide +kernel

end DddService
