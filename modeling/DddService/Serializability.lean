import DddService.Lib.Locking
import DddService.Transactions
import DddService.History

/- Concurrent updates, voidings and deletions. Under strict row locking, whatever
   the schedule, the committed database is what the committed transactions make of
   the first one after another (`Locking.Serial`), and each of them appends its
   changes to the ledger. So histories only grow and deleted rows stay deleted
   (`no_lost_update`). -/
namespace DddService
open EventLog Locking

/-! ## The tables as a locked store -/

/-- A database whose rows are under their own ids. -/
structure KeyedDatabase where
  db : Database
  keyed : ∀ id m, db.yourAggregate id = some m → m.id = id

theorem Database.write_keyed {d : Database} (h : ∀ id m, d.yourAggregate id = some m → m.id = id)
    (now : DateTime) (p : Pending) :
    ∀ id m, (d.write now p).yourAggregate id = some m → m.id = id := by
  intro id m hm
  cases p with
  | add model =>
    by_cases hid : id = model.id
    · rw [hid] at hm ⊢
      change Function.update d.yourAggregate model.id _ model.id = some m at hm
      rw [Function.update_self] at hm
      cases hm
      cases d.yourAggregate model.id with
      | none => rfl
      | some old =>
        obtain ⟨updatedAt, hupdate⟩ := model.updateRow_cases old now
        exact congrArg (·.id) hupdate
    · change Function.update d.yourAggregate model.id _ id = some m at hm
      rw [Function.update_of_ne hid] at hm
      exact h id m hm
  | delete id' =>
    by_cases hid : id = id'
    · change Function.update d.yourAggregate id' none id = some m at hm
      rw [hid, Function.update_self] at hm
      cases hm
    · change Function.update d.yourAggregate id' none id = some m at hm
      rw [Function.update_of_ne hid] at hm
      exact h id m hm
  | addArchive model => exact h id m hm
  | addEvent model => exact h id m hm

theorem Database.writeAll_keyed (now : DateTime) (ps : List Pending) {d : Database}
    (h : ∀ id m, d.yourAggregate id = some m → m.id = id) :
    ∀ id m, (d.writeAll now ps).yourAggregate id = some m → m.id = id := by
  induction ps generalizing d with
  | nil => exact h
  | cons p ps ih => exact ih (Database.write_keyed h now p)

def KeyedDatabase.writeAll (d : KeyedDatabase) (w : DateTime × List Pending) : KeyedDatabase :=
  ⟨d.db.writeAll w.1 w.2, Database.writeAll_keyed w.1 w.2 d.keyed⟩

/-! ## What a save does to the tables -/

/-- The row a save of `a` leaves, where the table has the row `old`. -/
def savedRow (env : Env) (now : DateTime) (a : YourAggregate) (found old : Option YourAggregateModel) :
    Option YourAggregateModel :=
  let model := YourAggregateRepository.modelOf env a found
  if a.isDelete then none
  else match old with
    | none => some { model with createdAt := some (model.createdAt.getD now) }
    | some old => some (model.updateRow old now)

section
variable (env : Env) (now : DateTime) (archiveId : String) (t : Tracer) (b : EventBody)
  (a : YourAggregate) (found : Option YourAggregateModel) (d : Database)

theorem saveWrites_row : (d.writeAll now (saveWrites env archiveId t b a found)).yourAggregate =
    Function.update d.yourAggregate a.id (savedRow env now a found (d.yourAggregate a.id)) := by
  unfold saveWrites savedRow
  cases a.isDelete with
  | true => rfl
  | false =>
    show Function.update d.yourAggregate a.id (some (match d.yourAggregate a.id with
      | none => _ | some old => _)) = _
    cases d.yourAggregate a.id <;> rfl

theorem saveWrites_events : (d.writeAll now (saveWrites env archiveId t b a found)).domainEvent =
    d.domainEvent ++ [eventRow t b] := by
  unfold saveWrites
  cases a.isDelete <;> rfl

end

/-! ## Requests as transactions -/

section
variable {env : Env} {st : Stamp} {m : Modification} {d₀ : KeyedDatabase}
  {w : DateTime × List Pending}

/-- An executed request writes its own row, and what it leaves there depends on what
    was there only. -/
theorem KeyedDatabase.execute_row
    (h : m.execute env st (d₀.db.yourAggregate m.id) (d₀.db.yourAggregate m.id) = some w) :
    ∃ p : Option YourAggregateModel → Option YourAggregateModel, ∀ d : KeyedDatabase,
      (d.writeAll w).db.yourAggregate =
        Function.update d.db.yourAggregate m.id (p (d.db.yourAggregate m.id)) := by
  obtain ⟨model, a, a', hrow, hload, hcall, rfl⟩ := Modification.execute_some h
  have hid : a'.id = m.id := by
    rw [(Modification.call_ok hcall).1, (modelToEntity_ok hload).1]
    exact d₀.keyed m.id model hrow
  refine ⟨savedRow env st.dbNow a' (d₀.db.yourAggregate m.id), fun d => ?_⟩
  rw [← hid]
  exact saveWrites_row ..

end

/-- Updates, voidings and deletions, as transactions that lock the rows they load. -/
def transactions (env : Env) : System String (Option YourAggregateModel) KeyedDatabase Stamp
    Modification (DateTime × List Pending) where
  read d id := d.db.yourAggregate id
  apply := KeyedDatabase.writeAll
  key := Modification.id
  found := Option.isSome
  exec st m row found := m.execute env st row found
  apply_key := by
    intro st m w d₀ d d' h hsame
    obtain ⟨p, hp⟩ := KeyedDatabase.execute_row h
    rw [hp d, hp d', Function.update_self, Function.update_self, hsame]
  apply_other := by
    intro st m w d₀ d id h hne
    obtain ⟨p, hp⟩ := KeyedDatabase.execute_row h
    rw [hp d, Function.update_of_ne hne]

/-! ## What a request does to the ledger -/

/-- The operation is the machine's step. -/
theorem Modification.ready {env : Env} {m : Modification} {now : DateTime} {a a' : YourAggregate}
    {g : Aggregate} (hload : Loaded env.mixin m.id a g)
    (hcall : (m.operation env now).call a = .ok a') :
    ∃ s' g', Ready env.mixin m.id (.live g) m.change a' s' g' := by
  cases m with
  | update r =>
    rcases updateYourAggregate_ready hload now r.yourValueObject r.doer with
      ⟨a₁, hok, hready⟩ | ⟨e, herr, _⟩
    · cases hok.symm.trans hcall
      exact ⟨_, _, hready⟩
    · cases herr.symm.trans hcall
  | void r =>
    rcases voidYourAggregate_ready hload now r.doer with ⟨a₁, hok, hready⟩ | ⟨e, herr, _⟩
    · cases hok.symm.trans hcall
      exact ⟨_, _, hready⟩
    · cases herr.symm.trans hcall
  | delete r =>
    obtain ⟨a₁, hok, hready⟩ := deleteYourAggregate_ready hload r.doer
    cases hok.symm.trans hcall
    exact ⟨_, _, hready⟩

/-- From `d` to `d'` by the changes `cs`: rows that are gone stay gone, histories
    grow, and the new events are the changes'. -/
structure Advances (d : Database) (cs : List (String × Change)) (d' : Database) : Prop where
  gone : ∀ id, d.yourAggregate id = none → d'.yourAggregate id = none
  histories : ∀ id m m', d.yourAggregate id = some m → d'.yourAggregate id = some m' →
    m.operationHistories <+: m'.operationHistories
  events : ∃ rows, d'.domainEvent = d.domainEvent ++ rows ∧
    rows.map (fun r => (r.name, r.body)) =
      cs.map fun (id, c) => ((bodyOf id c).name, (bodyOf id c).asdict)

theorem Advances.refl (d : Database) : Advances d [] d where
  gone _ h := h
  histories id m m' h h' := by
    rw [h] at h'
    cases h'
    exact List.prefix_rfl
  events := ⟨[], (List.append_nil _).symm, rfl⟩

theorem Advances.trans {d d' d'' : Database} {cs cs' : List (String × Change)}
    (h : Advances d cs d') (h' : Advances d' cs' d'') : Advances d (cs ++ cs') d'' where
  gone id hid := h'.gone id (h.gone id hid)
  histories id m m'' hm hm'' := by
    cases hmid : d'.yourAggregate id with
    | none =>
      rw [h'.gone id hmid] at hm''
      cases hm''
    | some m' => exact (h.histories id m m' hm hmid).trans (h'.histories id m' m'' hmid hm'')
  events := by
    obtain ⟨rows, hd, hrows⟩ := h.events
    obtain ⟨rows', hd', hrows'⟩ := h'.events
    refine ⟨rows ++ rows', ?_, ?_⟩
    · rw [hd', hd, List.append_assoc]
    · rw [List.map_append, List.map_append, hrows, hrows']

section
variable {env : Env} {st : Stamp} {m : Modification} {d : KeyedDatabase} {L : Store}
  {w : DateTime × List Pending}

/-- An executed request is one entry of the ledger. -/
theorem Represents.execute (hrep : Represents env.mixin d.db L)
    (h : m.execute env st (d.db.yourAggregate m.id) (d.db.yourAggregate m.id) = some w) :
    ∃ L', L.append machine m.id m.change = some L' ∧
      Represents env.mixin (d.writeAll w).db L' ∧
      Advances d.db [(m.id, m.change)] (d.writeAll w).db := by
  obtain ⟨model, a, a', hrow, hload, hcall, rfl⟩ := Modification.execute_some h
  have hmid : model.id = m.id := d.keyed m.id model hrow
  have hid : a'.id = m.id := by
    rw [(Modification.call_ok hcall).1, (modelToEntity_ok hload).1, hmid]
  have hslot := hrep.rows m.id
  cases hs : L.state m.id with
  | absent => rw [hs, hrow] at hslot; cases hslot
  | deleted g => rw [hs, hrow] at hslot; cases hslot
  | live g =>
    rw [hs, hrow] at hslot
    obtain ⟨m₁, hm₁, hstored, hcreated⟩ := hslot
    cases hm₁
    obtain ⟨a₁, hload₁, hloaded⟩ := modelToEntity_stored hstored hcreated
    cases hload₁.symm.trans hload
    obtain ⟨s', g', hready⟩ := Modification.ready hloaded hcall
    rw [← hs] at hready
    obtain ⟨L', happend, hrep'⟩ := hrep.save st.dbNow hready st.archiveId st.tracer
    rw [hmid]
    refine ⟨L', happend, hrep', ?_, ?_, ?_⟩
    · intro id hnone
      have hne : id ≠ a'.id := by
        intro he
        rw [he, hid, hrow] at hnone
        cases hnone
      show (d.db.writeAll _ _).yourAggregate id = none
      rw [saveWrites_row, Function.update_of_ne hne]
      exact hnone
    · intro id m₂ m₃ hm₂ hm₃
      by_cases he : id = a'.id
      · rw [he, hid, hrow] at hm₂
        cases hm₂
        subst he
        rw [persisted_histories hm₃]
        -- the entity's history is the row's, read back
        obtain ⟨entries, hentries, _⟩ := hstored.histories
        have hread := (modelToEntity_ok hload).2.2
        rw [hentries, env.mixin.mapM_createHistory] at hread
        cases hread
        rw [hentries]
        exact (Modification.call_ok hcall).2.2.2.map _
      · change (d.db.writeAll _ _).yourAggregate id = some m₃ at hm₃
        rw [saveWrites_row, Function.update_of_ne he, hm₂] at hm₃
        cases hm₃
        exact List.prefix_rfl
    · refine ⟨[eventRow st.tracer (bodyOf m.id m.change)], ?_, rfl⟩
      exact saveWrites_events ..

/-- The changes of executed requests. -/
def changesOf {S W : Type} (xs : List (Done S Modification W)) : List (String × Change) :=
  xs.map fun x => (x.request.id, x.request.change)

theorem performs_represents {xs : List (Done Stamp Modification (DateTime × List Pending))}
    (hrep : Represents env.mixin d.db L) (h : Performs (transactions env) d xs) :
    ∃ L', L.appendAll machine (changesOf xs) = some L' ∧
      Represents env.mixin (after (transactions env) d xs).db L' ∧
      Advances d.db (changesOf xs) (after (transactions env) d xs).db := by
  induction xs generalizing d L with
  | nil => exact ⟨L, rfl, hrep, Advances.refl d.db⟩
  | cons x xs ih =>
    obtain ⟨L₁, happend, hrep₁, hadv₁⟩ := hrep.execute h.1
    obtain ⟨L₂, hall, hrep₂, hadv₂⟩ := ih hrep₁ h.2
    refine ⟨L₂, ?_, hrep₂, hadv₁.trans hadv₂⟩
    show (L.append machine x.request.id x.request.change).bind _ = _
    rw [happend]
    exact hall

end

/-! ## No lost update -/

theorem Represents.keyed {mixin : DataclassMixin} {db : Database} {L : Store}
    (h : Represents mixin db L) : ∀ id m, db.yourAggregate id = some m → m.id = id := by
  intro id m hm
  have hrow := h.rows id
  rw [hm] at hrow
  cases hs : L.state id with
  | absent => rw [hs] at hrow; cases hrow
  | deleted g => rw [hs] at hrow; cases hrow
  | live g =>
    rw [hs] at hrow
    obtain ⟨m', hm', hst, _⟩ := hrow
    cases hm'
    exact hst.key

/-- The tables after a run of calls, one at a time. -/
def KeyedDatabase.afterCalls (env : Env) (faults : List (Option Exc)) (calls : List Call) :
    KeyedDatabase where
  db := (runCalls env (World.init faults) calls).db
  keyed := by
    obtain ⟨L, _, hidle⟩ := runCalls_represents env faults calls
    exact hidle.represents.keyed

/-- The histories of the rows record the events, one for one. -/
def Audited (mixin : DataclassMixin) (db : Database) : Prop :=
  ∀ id m, db.yourAggregate id = some m →
    ∃ hs : List OperationHistory, m.operationHistories = hs.map mixin.serializeHistory ∧
      hs.length = (eventsOf id db.domainEvent).length ∧
      ∀ k e entry, (eventsOf id db.domainEvent)[k]? = some e → hs[k]? = some entry →
        Records mixin (valueInForce ((eventsOf id db.domainEvent).take k)) entry e

/-- Any number of concurrent calls, on any reachable tables, under any schedule. The
    tables are what the committed calls make of them one after another, with their
    events in this order; the rows' histories record all the events; and whatever is
    committed later drops no history entry and no event, and brings no deleted row
    back. -/
theorem no_lost_update (env : Env) (faults : List (Option Exc)) (calls : List Call)
    (batch : Nat → List Modification) (schedule more : List (Action Stamp)) :
    let db := KeyedDatabase.afterCalls env faults calls
    let s := (State.start db batch).run (transactions env) schedule
    Serial (transactions env) db batch s ∧
      Advances db.db (changesOf (s.order.flatMap Prod.snd)) s.store.db ∧
      Audited env.mixin s.store.db ∧
      ∃ cs, Advances s.store.db cs (s.run (transactions env) more).store.db := by
  intro db s
  obtain ⟨L, hleads, hidle⟩ := runCalls_represents env faults calls
  have hcons : Consistent (transactions env) db batch s :=
    consistent_run (start_consistent db batch) schedule
  obtain ⟨L₁, hall, hrep₁, hadv⟩ := performs_represents (d := db) hidle.represents hcons.performs
  rw [hcons.store] at hrep₁ hadv
  refine ⟨hcons.toSerial, hadv, ?_, ?_⟩
  · intro id m hm
    exact hrep₁.audited (hleads.trans (EventLog.Store.Leads.of_appendAll hall)) hm
  · obtain ⟨xs, hperforms, hafter⟩ := hcons.later more
    obtain ⟨_, _, _, hadv'⟩ := performs_represents hrep₁ hperforms
    rw [hafter] at hadv'
    exact ⟨_, hadv'⟩

end DddService
