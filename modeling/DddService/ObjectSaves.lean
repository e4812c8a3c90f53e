import DddService.Simulation

/- One aggregate object over several saves. `add_event` appends to the object's list of
   events, and nobody calls `clear_events`, so every save stores and publishes all events
   that were ever raised on the object, and archives it when there are any
   (`saveReported_spec`). The saves of an object report each of its events once only if
   there are no events at any save before the last (`saved_once_iff`). -/
namespace DddService
open Hoare

/-! ## What a save reports -/

/-- The rows among what was asked of the session. -/
def storedIn (out : List (Nat × SessionAction)) : List DomainEventModel :=
  out.filterMap fun x => match x.2 with
    | .write (.addEvent row) => some row
    | _ => none

def archivedIn (out : List (Nat × SessionAction)) : List YourAggregateArchiveModel :=
  out.filterMap fun x => match x.2 with
    | .write (.addArchive row) => some row
    | _ => none

/-- What one `_save` asked the session to store, and what it published. -/
structure SaveReport where
  stored : List DomainEventModel
  archived : List YourAggregateArchiveModel
  published : List DomainEvent

namespace YourAggregateUseCase
variable (env : Env) (bus : Bus) (owner : Owner)

/-- `_save`, which also says how it leaves the object, and what it did. -/
def saveReported (a : YourAggregate) : M (YourAggregate × SaveReport) := do
  let a ← UseCaseBase.saveTracing env owner a
  let before ← get
  let a ← YourAggregateRepository.saveYourAggregate env a
  let after ← get
  publishAll bus a.allEvents
  let out := after.journal.drop before.journal.length
  pure (a, ⟨storedIn out, archivedIn out, a.allEvents⟩)

/-- It is `_save`. -/
theorem save_eq (a : YourAggregate) :
    save env bus owner a = (do let _ ← saveReported env bus owner a; pure ()) := by
  funext w
  unfold save saveReported
  simp only [bind_run, get_run]
  cases UseCaseBase.saveTracing env owner a w with
  | error e w' => rfl
  | ok a w' =>
    dsimp only
    cases YourAggregateRepository.saveYourAggregate env a w' with
    | error e w'' => rfl
    | ok a w'' =>
      dsimp only
      cases publishAll bus a.allEvents w'' <;> rfl

end YourAggregateUseCase

/-! ## What a save asks of the session -/

/-- The two columns that say what happened. -/
def EventBody.content (b : EventBody) : String × Json := (b.name, b.asdict)

def DomainEventModel.content (row : DomainEventModel) : String × Json := (row.name, row.body)

section
variable {env : Env} {a : YourAggregate}

/-- The journal as the log of what a program asks for. -/
abbrev Asks {α : Type} (x : M α) (R : α → List (Nat × SessionAction) → Prop) : Prop :=
  Emits World.journal x R

theorem Asks.nothing {α : Type} {x : M α} {R : α → Prop} (hq : Quiets x) (hx : Harmless x R) :
    Asks x fun a out => out = [] ∧ R a := by
  refine Emits.of_frames (fun w => (hq w).journal) fun w a w' hr => ⟨rfl, ?_⟩
  obtain ⟨b, w'', hok, _, hb⟩ := hx w
  rw [hr] at hok
  cases hok
  exact hb

theorem getTracer_quiets (e : DomainEvent) : Quiets (e.getTracer env) := by
  unfold DomainEvent.getTracer
  cases e.tracer with
  | some t => exact Quiets.pure _
  | none => exact Quiets.datetimeNow.bind fun _ => (Quiets.uuid4 env .span).bind fun _ =>
      Quiets.pure _

theorem enqueue_asks (p : Pending) : Asks (AsyncSession.enqueue p) fun _ out =>
    out.map Prod.snd = [.write p] := by
  intro w u w' hr
  obtain ⟨s, w₁, hsession, hr⟩ := bind_eq_ok hr
  have hjournal := (Quiets.currentSession w).journal
  rw [hsession] at hjournal
  cases hr
  refine ⟨[(w₁.tx, .write p)], ?_, rfl⟩
  show w₁.journal ++ [_] = _
  rw [show w₁.journal = w.journal from hjournal]

theorem flush_asks : Asks AsyncSession.flush fun _ out => out = [] := by
  refine Emits.of_frames ?_ fun _ _ _ _ => rfl
  refine Frames.bind (fun w => (Quiets.currentSession w).journal) fun s => ?_
  refine Frames.ite (Frames.pure _) (Frames.ite (Frames.throw _) (Frames.bind ?_ fun _ => ?_))
  · refine Frames.tryCatch (fun w => (Quiets.awaitPoint w).journal) fun e => ?_
    exact Frames.bind (Frames.modify fun w => rfl) fun _ => Frames.throw _
  · exact Frames.modify fun w => rfl

/-- Two aggregates with the same events, up to their tracers. -/
structure SameEvents (a a' : YourAggregate) : Prop where
  bodies : a'.domainEvents.map DomainEvent.body = a.domainEvents.map DomainEvent.body
  isArchive : a'.isArchive = a.isArchive

theorem Retraced.sameEvents {a' : YourAggregate} (h : Retraced a a') : SameEvents a a' := by
  obtain ⟨events, rfl, hbodies⟩ := h
  exact ⟨hbodies, rfl⟩

theorem SameEvents.trans {a' a'' : YourAggregate} (h : SameEvents a a') (h' : SameEvents a' a'') :
    SameEvents a a'' :=
  ⟨h'.bodies.trans h.bodies, h'.isArchive.trans h.isArchive⟩

theorem SameEvents.contents {a' : YourAggregate} (h : SameEvents a a') :
    (a'.domainEvents.map fun e => e.body.content) =
      a.domainEvents.map fun e => e.body.content := by
  have hmap := congrArg (List.map EventBody.content) h.bodies
  rw [List.map_map, List.map_map] at hmap
  exact hmap

theorem SameEvents.isEmpty {a' : YourAggregate} (h : SameEvents a a') :
    a'.domainEvents.isEmpty = a.domainEvents.isEmpty := by
  have hempty := congrArg List.isEmpty h.bodies
  rw [List.isEmpty_map, List.isEmpty_map] at hempty
  exact hempty

/-- The rows and archive rows asked for so far. -/
structure Asked (rows : List (String × Json)) (archived : Nat)
    (out : List (Nat × SessionAction)) : Prop where
  rows : (storedIn out).map DomainEventModel.content = rows
  archived : (archivedIn out).length = archived

theorem Asked.append {rows rows' : List (String × Json)} {n n' : Nat}
    {l r : List (Nat × SessionAction)} (hl : Asked rows n l) (hr : Asked rows' n' r) :
    Asked (rows ++ rows') (n + n') (l ++ r) := by
  constructor
  · rw [storedIn, List.filterMap_append, List.map_append]
    exact congrArg₂ _ hl.rows hr.rows
  · rw [archivedIn, List.filterMap_append, List.length_append]
    exact congrArg₂ _ hl.archived hr.archived

theorem Asked.nil : Asked [] 0 [] := ⟨rfl, rfl⟩

def Pending.eventContents : Pending → List (String × Json)
  | .addEvent row => [row.content]
  | _ => []

def Pending.archiveCount : Pending → Nat
  | .addArchive _ => 1
  | _ => 0

theorem asked_write {p : Pending} {out : List (Nat × SessionAction)}
    (h : out.map Prod.snd = [.write p]) : Asked p.eventContents p.archiveCount out := by
  rcases out with _ | ⟨⟨n, b⟩, _ | ⟨y, out⟩⟩
  · cases h
  · rw [List.map_cons, List.map_nil, List.cons.injEq] at h
    have hb : b = .write p := h.1
    subst hb
    cases p <;> exact ⟨rfl, rfl⟩
  · simp at h

/-- The statement for the row itself. -/
theorem persist_asks (model : YourAggregateModel) (persistent : Bool) :
    Asks (YourAggregateRepository.persist a model persistent) fun _ out => Asked [] 0 out := by
  unfold YourAggregateRepository.persist
  split
  · split
    · exact (enqueue_asks _).imp fun _ _ h => asked_write h
    · exact Emits.throw _
  · exact (enqueue_asks _).imp fun _ _ h => asked_write h

theorem archiveIfRaised_asks (model : YourAggregateModel) :
    Asks (YourAggregateRepository.archiveIfRaised env a model) fun a' out =>
      SameEvents a a' ∧ Asked [] (if a.isArchive then 1 else 0) out := by
  unfold YourAggregateRepository.archiveIfRaised
  by_cases harchive : a.isArchive = true
  · rw [if_pos harchive, if_pos harchive]
    unfold YourAggregateRepository.archive
    refine Emits.bind (Asks.nothing (Quiets.uuid4 env .archive)
      (Harmless.uuid4 (show UuidKind.archive ≠ .aggregate by decide))) fun archiveId l hl => ?_
    rw [hl.1]
    cases hlast : a.allEvents.getLast? with
    | none =>
      refine (enqueue_asks _).bind fun _ l hl => Emits.pure ⟨(Retraced.refl a).sameEvents, ?_⟩
      rw [List.append_nil]
      exact asked_write hl
    | some event =>
      refine Emits.bind (Asks.nothing (getTracer_quiets event) (getTracer_harmless event))
        fun r l hr => ?_
      rw [hr.1]
      refine (enqueue_asks _).bind fun _ l hl => Emits.pure ⟨⟨?_, rfl⟩, ?_⟩
      · have hevents : a.domainEvents = a.domainEvents.dropLast ++ [event] :=
          (List.dropLast_append_getLast? event hlast).symm
        show (a.domainEvents.dropLast ++ [r.1]).map DomainEvent.body = _
        rw [hr.2, List.map_append]
        nth_rewrite 2 [hevents]
        rw [List.map_append]
        rfl
      · rw [List.append_nil]
        exact asked_write hl
  · rw [if_neg harchive, if_neg harchive]
    exact Emits.pure ⟨(Retraced.refl a).sameEvents, Asked.nil⟩

theorem addEvents_asks : ∀ events : List DomainEvent,
    Asks (YourAggregateRepository.addEvents env events) fun events' out =>
      events'.map DomainEvent.body = events.map DomainEvent.body ∧
        Asked (events.map fun e => e.body.content) 0 out
  | [] => Emits.pure ⟨rfl, Asked.nil⟩
  | e :: events => by
    refine Emits.bind (R := fun r out => out = [] ∧ r.1.body = e.body ∧
      r.2.content = e.body.content) ?_ fun r l hr => ?_
    · unfold DomainEvent.serialize
      refine Emits.bind (Asks.nothing (getTracer_quiets e) (getTracer_harmless e)) fun r l hr => ?_
      refine Emits.pure ⟨by rw [hr.1]; rfl, by rw [hr.2], ?_⟩
      show (r.1.body.name, r.1.body.asdict) = _
      rw [hr.2]
      rfl
    · rw [hr.1]
      refine (enqueue_asks _).bind fun _ l hl => (addEvents_asks events).bind fun events' k hk =>
        Emits.pure ⟨?_, ?_⟩
      · rw [List.map_cons, List.map_cons, hr.2.1, hk.1]
      · rw [List.append_nil]
        have hadd := (asked_write hl).append hk.2
        rw [Pending.eventContents, hr.2.2] at hadd
        exact hadd

/-- A save asks for a row for every event of the object, and for an archive row if the
    object is to be archived. The object keeps its events. -/
theorem saveYourAggregate_asks (a : YourAggregate) :
    Asks (YourAggregateRepository.saveYourAggregate env a) fun a' out =>
      SameEvents a a' ∧
        Asked (a.domainEvents.map fun e => e.body.content) (if a.isArchive then 1 else 0) out := by
  have hfound : Asks (YourAggregateRepository.getModel a.id) fun _ out => out = [] :=
    Emits.of_frames (fun w => (Quiets.sessionGet a.id w).journal) fun _ _ _ _ => rfl
  refine hfound.bind fun found l hl => ?_
  rw [hl]
  unfold YourAggregateRepository.save
  refine (persist_asks _ _).bind fun _ l hl => (archiveIfRaised_asks _).bind fun a₁ l₁ h₁ =>
    (addEvents_asks _).bind fun events l₂ h₂ => flush_asks.bind fun _ l₃ h₃ => Emits.pure ⟨⟨?_, ?_⟩, ?_⟩
  · exact h₂.1.trans h₁.1.bodies
  · exact h₁.1.isArchive
  · have hall := (hl.append h₁.2).append h₂.2
    rw [YourAggregate.allEvents, h₁.1.contents, List.nil_append, List.nil_append, Nat.zero_add,
      Nat.add_zero] at hall
    rw [h₃, List.append_nil, List.append_nil, List.nil_append, ← List.append_assoc]
    exact hall

/-- What a save that returns reports, and how it leaves the object. -/
theorem saveReported_spec {bus : Bus} {owner : Owner} {w w' : World} {a' : YourAggregate}
    {report : SaveReport}
    (h : YourAggregateUseCase.saveReported env bus owner a w = .ok (a', report) w') :
    SameEvents a a' ∧
      report.stored.map DomainEventModel.content = a.domainEvents.map (fun e => e.body.content) ∧
      report.archived.length = (if a.isArchive then 1 else 0) ∧
      report.published.map DomainEvent.body = a.domainEvents.map DomainEvent.body := by
  obtain ⟨a₁, w₁, htracing, h⟩ := bind_eq_ok h
  obtain ⟨before, _, hbefore, h⟩ := bind_eq_ok h
  cases hbefore
  obtain ⟨a₂, w₂, hsave, h⟩ := bind_eq_ok h
  obtain ⟨after, _, hafter, h⟩ := bind_eq_ok h
  cases hafter
  obtain ⟨_, w₃, hpublish, h⟩ := bind_eq_ok h
  cases h
  have htraced : SameEvents a a₁ := by
    have htracing' : Harmless (UseCaseBase.saveTracing env owner a) (Retraced a) :=
      saveTracing_harmless owner a
    obtain ⟨b, w₁', hb, _, hretraced⟩ := htracing' w
    rw [htracing] at hb
    cases hb
    exact hretraced.sameEvents
  obtain ⟨out, hjournal, hsame, hasked⟩ := saveYourAggregate_asks a₁ w₁ _ w₂ hsave
  have hdrop : w₂.journal.drop w₁.journal.length = out := by
    rw [hjournal, List.drop_left]
  refine ⟨htraced.trans hsame, ?_, ?_, hsame.bodies.trans htraced.bodies⟩
  · show (storedIn (w₂.journal.drop w₁.journal.length)).map _ = _
    rw [hdrop, hasked.rows, htraced.contents]
  · show (archivedIn (w₂.journal.drop w₁.journal.length)).length = _
    rw [hdrop, hasked.archived, htraced.isArchive]

end

/-! ## One object over many saves -/

/-- An object as its class keeps it: it is to be archived when it has events. -/
structure LiveAggregate where
  object : YourAggregate
  archives : object.isArchive = !object.domainEvents.isEmpty

/-- What the owner of an object does with it: an operation, or a save, in whatever world the
    save finds. -/
inductive ObjectStep (mixin : DataclassMixin) where
  | operation (op : YourAggregateM) (h : YourAggregate.Operation mixin op)
  | save (w : World)

/-- A save of a run: what was raised on the object by then, whether no step was made since
    the save before, and what the save did. -/
structure ObjectSave extends SaveReport where
  raised : List EventBody
  idle : Bool

/-- The object, what was raised on it, whether the last step was a save, and the saves. -/
structure ObjectRun where
  object : YourAggregate
  raised : List EventBody
  idle : Bool
  saves : List ObjectSave

namespace ObjectRun
variable (env : Env) (bus : Bus) (owner : Owner)

def start (a : LiveAggregate) : ObjectRun :=
  ⟨a.object, a.object.domainEvents.map DomainEvent.body, false, []⟩

/-- An operation that raises has changed what it changed. A save that raises ends the run. -/
def step (s : ObjectRun) : ObjectStep env.mixin → Option ObjectRun
  | .operation op _ =>
    let a := stateOf (op s.object)
    some { s with
      object := a
      raised := s.raised ++
        (a.domainEvents.drop s.object.domainEvents.length).map DomainEvent.body
      idle := false }
  | .save w => match YourAggregateUseCase.saveReported env bus owner s.object w with
    | .ok (a, report) _ => some { s with
        object := a
        idle := true
        saves := s.saves ++ [{ report with raised := s.raised, idle := s.idle }] }
    | .error _ _ => none

/-- A sequence of steps whose saves all return. -/
def run (s : ObjectRun) (steps : List (ObjectStep env.mixin)) : Option ObjectRun :=
  steps.foldlM (step env bus owner) s

end ObjectRun

/-! ## What is asked of the saves -/

/-- After each save every event raised so far was stored once and published once, and a save
    with no step since the one before has stored and archived nothing. -/
structure SavedOnce (saves : List ObjectSave) : Prop where
  stored : ∀ l x r, saves = l ++ x :: r →
    (((l ++ [x]).flatMap (·.stored)).map DomainEventModel.content).Perm
      (x.raised.map EventBody.content)
  published : ∀ l x r, saves = l ++ x :: r →
    (((l ++ [x]).flatMap (·.published)).map DomainEvent.body).Perm x.raised
  idle : ∀ x ∈ saves, x.idle = true → x.stored = [] ∧ x.archived = []

/-- No save is made of an object whose events an earlier save has found. -/
def FoundOnce (saves : List ObjectSave) : Prop :=
  saves.Pairwise fun earlier _ => earlier.raised = []

instance (saves : List ObjectSave) : Decidable (FoundOnce saves) :=
  inferInstanceAs (Decidable (saves.Pairwise fun earlier _ => earlier.raised = []))

/-! ## What the saves report -/

/-- A save stores and publishes all that was raised on the object. -/
structure Reported (x : ObjectSave) : Prop where
  stored : x.stored.map DomainEventModel.content = x.raised.map EventBody.content
  published : x.published.map DomainEvent.body = x.raised
  archived : x.archived.length = if x.raised.isEmpty then 0 else 1

/-- The object still has every event that was raised on it, and what the saves reported. -/
structure Follows (s : ObjectRun) : Prop where
  raised : s.raised = s.object.domainEvents.map DomainEvent.body
  archives : s.object.isArchive = !s.object.domainEvents.isEmpty
  reported : ∀ x ∈ s.saves, Reported x
  idle : s.idle = true → ∃ l y, s.saves = l ++ [y] ∧ y.raised = s.raised
  linked : ∀ l x r, s.saves = l ++ x :: r → x.idle = true →
    ∃ l' y, l = l' ++ [y] ∧ y.raised = x.raised

section
variable {env : Env} {bus : Bus} {owner : Owner} {s t : ObjectRun}

theorem Follows.start (a : LiveAggregate) : Follows (ObjectRun.start a) where
  raised := rfl
  archives := a.archives
  reported _ h := nomatch h
  idle h := nomatch h
  linked l _ _ h := by cases l <;> cases h

/-- An operation that returns adds its one event, and one that raises adds none. -/
theorem operation_events {mixin : DataclassMixin} {op : YourAggregateM}
    (h : YourAggregate.Operation mixin op) (a : YourAggregate) :
    stateOf (op a) = a ∨ ∃ b, (stateOf (op a)).domainEvents = a.domainEvents ++ [⟨b, none⟩] ∧
      (stateOf (op a)).isArchive = true := by
  cases h with
  | delete doer => exact Or.inr ⟨_, rfl, rfl⟩
  | void now doer =>
    rw [YourAggregate.voidYourAggregate_run]
    split
    · exact Or.inl rfl
    · exact Or.inr ⟨_, rfl, rfl⟩
  | update now v doer =>
    rw [YourAggregate.updateYourAggregate_run]
    split
    · exact Or.inl rfl
    · exact Or.inr ⟨_, rfl, rfl⟩

theorem Follows.operation (h : Follows s) {op : YourAggregateM}
    (hop : YourAggregate.Operation env.mixin op)
    (ht : ObjectRun.step env bus owner s (.operation op hop) = some t) : Follows t := by
  cases ht
  refine ⟨?_, ?_, h.reported, (fun hi => nomatch hi), h.linked⟩
  · show s.raised ++ ((stateOf (op s.object)).domainEvents.drop _).map _ = _
    rcases operation_events hop s.object with hsame | ⟨b, hevents, _⟩
    · rw [hsame, List.drop_length, h.raised]
      exact List.append_nil _
    · rw [hevents, List.drop_left, h.raised]
      exact List.map_append.symm
  · show (stateOf (op s.object)).isArchive = !(stateOf (op s.object)).domainEvents.isEmpty
    rcases operation_events hop s.object with hsame | ⟨b, hevents, harchive⟩
    · rw [hsame]
      exact h.archives
    · rw [hevents, harchive]
      simp

theorem Follows.save (h : Follows s) {w : World}
    (ht : ObjectRun.step env bus owner s (.save w) = some t) : Follows t := by
  unfold ObjectRun.step at ht
  dsimp only at ht
  cases hrun : YourAggregateUseCase.saveReported env bus owner s.object w with
  | error e w' => rw [hrun] at ht; cases ht
  | ok ar w' =>
    obtain ⟨a, report⟩ := ar
    rw [hrun] at ht
    cases ht
    obtain ⟨hsame, hstored, harchived, hpublished⟩ := saveReported_spec hrun
    let x : ObjectSave := { report with raised := s.raised, idle := s.idle }
    -- the object keeps its events, so the save reports all that were ever raised
    have hreported : Reported x := by
      refine ⟨?_, hpublished.trans h.raised.symm, ?_⟩
      · show report.stored.map _ = s.raised.map _
        rw [hstored, h.raised, List.map_map]
        rfl
      · show report.archived.length = if s.raised.isEmpty then 0 else 1
        rw [harchived, h.archives, h.raised, List.isEmpty_map]
        cases s.object.domainEvents.isEmpty <;> rfl
    refine ⟨h.raised.trans hsame.bodies.symm, ?_, ?_, fun _ => ⟨s.saves, x, rfl, rfl⟩, ?_⟩
    · show a.isArchive = !a.domainEvents.isEmpty
      rw [hsame.isArchive, hsame.isEmpty]
      exact h.archives
    · intro y hy
      rcases List.mem_append.mp hy with hy | hy
      · exact h.reported y hy
      · rw [List.mem_singleton.mp hy]
        exact hreported
    · intro l y r hsaves hidle
      rcases List.eq_nil_or_concat r with rfl | ⟨r, z, rfl⟩
      · -- the save itself: if it is idle the run stands at the save before it
        obtain ⟨rfl, hy⟩ := List.append_inj' hsaves rfl
        cases hy
        exact h.idle hidle
      · rw [List.concat_eq_append, ← List.cons_append, ← List.append_assoc] at hsaves
        exact h.linked l y r (List.append_inj' hsaves rfl).1 hidle

/-- Along a run the saves report all that was raised. -/
theorem Follows.run (steps : List (ObjectStep env.mixin)) (h : Follows s)
    (ht : ObjectRun.run env bus owner s steps = some t) : Follows t := by
  induction steps generalizing s with
  | nil =>
    cases ht
    exact h
  | cons step steps ih =>
    obtain ⟨u, hu, hrest⟩ := Option.bind_eq_some_iff.mp ht
    cases step with
    | operation op hop => exact ih (h.operation hop hu) hrest
    | save w => exact ih (h.save hu) hrest

/-! ## When each event is saved once -/

theorem reported_stored (xs : List ObjectSave) (h : ∀ x ∈ xs, Reported x) :
    (xs.flatMap (·.stored)).map DomainEventModel.content =
      (xs.flatMap (·.raised)).map EventBody.content := by
  rw [List.map_flatMap, List.map_flatMap]
  exact List.flatMap_congr fun x hx => (h x hx).stored

theorem reported_published (xs : List ObjectSave) (h : ∀ x ∈ xs, Reported x) :
    (xs.flatMap (·.published)).map DomainEvent.body = xs.flatMap (·.raised) := by
  rw [List.map_flatMap]
  exact List.flatMap_congr fun x hx => (h x hx).published

theorem FoundOnce.before {saves l r : List ObjectSave} {x y : ObjectSave} (h : FoundOnce saves)
    (hsaves : saves = l ++ x :: r) (hy : y ∈ l) : y.raised = [] := by
  unfold FoundOnce at h
  rw [hsaves] at h
  exact (List.pairwise_append.mp h).2.2 y hy x List.mem_cons_self

/-- Saves that report everything report it once just when they have found it once. -/
theorem Follows.saved_once (h : Follows s) : SavedOnce s.saves ↔ FoundOnce s.saves := by
  have hupto : ∀ {l x r}, s.saves = l ++ x :: r → ∀ y ∈ l ++ [x], Reported y := by
    intro l x r hsaves y hy
    refine h.reported y ?_
    rw [hsaves, List.append_cons]
    exact List.mem_append_left r hy
  have hsum : ∀ (l : List ObjectSave) (x : ObjectSave),
      (l ++ [x]).flatMap (·.raised) = l.flatMap (·.raised) ++ x.raised := by
    intro l x
    rw [List.flatMap_append, List.flatMap_singleton]
  constructor
  · -- what is stored by then is all that was raised by then, so nothing was raised before
    intro hsaved
    refine Lists.pairwise_of_before fun l x r hsaves y hy => ?_
    have hlength := (hsaved.stored l x r hsaves).length_eq
    rw [reported_stored _ (hupto hsaves), hsum, List.length_map, List.length_map,
      List.length_append] at hlength
    have hnone : l.flatMap (·.raised) = [] := List.eq_nil_of_length_eq_zero (by omega)
    exact List.flatMap_eq_nil_iff.mp hnone y hy
  · intro hfound
    have hbefore : ∀ {l x r}, s.saves = l ++ x :: r →
        (l ++ [x]).flatMap (·.raised) = x.raised := by
      intro l x r hsaves
      rw [hsum, List.flatMap_eq_nil_iff.mpr fun y hy => hfound.before hsaves hy, List.nil_append]
    refine ⟨fun l x r hsaves => ?_, fun l x r hsaves => ?_, fun x hx hidle => ?_⟩
    · rw [reported_stored _ (hupto hsaves), hbefore hsaves]
    · rw [reported_published _ (hupto hsaves), hbefore hsaves]
    · -- an idle save finds what the save before it found, which is nothing
      obtain ⟨l, r, hsaves⟩ := List.append_of_mem hx
      obtain ⟨l', y, rfl, hy⟩ := h.linked l x r hsaves hidle
      have hraised : x.raised = [] :=
        hy.symm.trans (hfound.before hsaves (List.mem_append_right l' List.mem_cons_self))
      have hx := h.reported x hx
      have hstored : x.stored.map DomainEventModel.content = [] := by
        rw [hx.stored, hraised]
        rfl
      have harchived : x.archived.length = 0 := by
        rw [hx.archived, hraised]
        rfl
      exact ⟨List.map_eq_nil_iff.mp hstored, List.eq_nil_of_length_eq_zero harchived⟩

end

/-- In any run of operations and saves on one object every event is stored and published
    once, and an idle save does nothing, if and only if no save but the last finds events. -/
theorem saves_once_iff {env : Env} {bus : Bus} {owner : Owner} (a : LiveAggregate)
    (steps : List (ObjectStep env.mixin)) {s : ObjectRun}
    (h : ObjectRun.run env bus owner (ObjectRun.start a) steps = some s) :
    SavedOnce s.saves ↔ FoundOnce s.saves :=
  ((Follows.start a).run steps h).saved_once

/-- New aggregates and loaded ones are such objects. -/
theorem created_live {now : DateTime} {id : String} {v : YourValueObject} {doer : User}
    {a : YourAggregate} (h : YourAggregate.createYourAggregate now id v doer = .ok a) :
    a.isArchive = !a.domainEvents.isEmpty := by
  rw [YourAggregate.createYourAggregate_eq] at h
  cases h
  rfl

theorem loaded_live {env : Env} {model : YourAggregateModel} {a : YourAggregate}
    (h : YourAggregateRepository.modelToEntity env model = .ok a) :
    a.isArchive = !a.domainEvents.isEmpty := by
  obtain ⟨v, s, hs, c, t, _, _, rfl⟩ := modelToEntity_cases h
  rfl

/-- A new aggregate. -/
def newObject : LiveAggregate :=
  ⟨_, created_live (YourAggregate.createYourAggregate_eq 0 ⟨some "u", none, none, none, none⟩ "a"
    ⟨"p", 1⟩)⟩

/-- A world in a fresh session, and the one after a save of the new aggregate. -/
def freshSession : World := SessionProvider.openSession (World.init [])

def onceSaved : World :=
  stateOf (YourAggregateUseCase.saveReported .plain (fun _ => pure ()) .controller
    newObject.object freshSession)

/-- The saves of one new aggregate, where no handler is registered. -/
def savesOfNew (worlds : List World) : Option ObjectRun :=
  ObjectRun.run .plain (fun _ => pure ()) .controller (ObjectRun.start newObject)
    (worlds.map .save)

/-- The row of an aggregate, and a session that sees it. -/
def storedModel : YourAggregateModel :=
  { YourAggregateRepository.modelOf .plain newObject.object none with createdAt := some 0 }

def rowSession : World := SessionProvider.openSession
  { World.init [] with
    db := ⟨fun id => if id = "a" then some storedModel else none, [], []⟩ }

def loadedObject : LiveAggregate :=
  ⟨_, loaded_live (show YourAggregateRepository.modelToEntity .plain storedModel = .ok _ from rfl)⟩

/-- A loaded aggregate is saved twice, updated, and saved again. -/
def loadedRun : Option ObjectRun :=
  ObjectRun.run .plain (fun _ => pure ()) .controller (ObjectRun.start loadedObject)
    [.save rowSession, .save rowSession,
      .operation _ (.update 1 ⟨"q", 2⟩ ⟨some "u", none, none, none, none⟩), .save rowSession]

/-- The first two saves find no events, and the second of them is idle. -/
theorem saves_once_loaded : ∃ s, loadedRun = some s ∧
    s.saves.map (fun x => (x.idle, x.stored.length)) = [(false, 0), (true, 0), (false, 1)] ∧
    SavedOnce s.saves := by
  have hrun : loadedRun.map (fun s => (s.saves.map (fun x => (x.idle, x.stored.length)),
      decide (FoundOnce s.saves))) = some ([(false, 0), (true, 0), (false, 1)], true) := by
    decide +kernel
  obtain ⟨s, hs, hsaves⟩ := Option.map_eq_some_iff.mp hrun
  obtain ⟨hsaves, hfound⟩ := Prod.mk.inj hsaves
  exact ⟨s, hs, hsaves, (saves_once_iff loadedObject _ hs).mpr (of_decide_eq_true hfound)⟩

theorem second_save_repeats :
    ∃ s, savesOfNew [freshSession, onceSaved] = some s ∧ ¬SavedOnce s.saves := by
  have hrun : (savesOfNew [freshSession, onceSaved]).map
      (fun s => s.saves.map fun x => (x.idle, x.stored.length)) =
        some [(false, 1), (true, 1)] := by decide +kernel
  obtain ⟨s, hs, hsaves⟩ := Option.map_eq_some_iff.mp hrun
  refine ⟨s, hs, fun h => ?_⟩
  have hmem : (true, 1) ∈ s.saves.map fun x => (x.idle, x.stored.length) := by
    rw [hsaves]
    decide
  obtain ⟨x, hx, hidle⟩ := List.mem_map.mp hmem
  obtain ⟨hi, hl⟩ := Prod.mk.inj hidle
  rw [(h.idle x hx hi).1] at hl
  cases hl

end DddService
