import DddService.Runs

/- What the `domain_event` table says. Its rows are read back as events
   (`DomainEventModel.event?`); the events of one id, in insertion order, determine
   the id's row (`event_log_agrees`), follow one grammar (`lifecycle_grammar`), and
   are what the row's operation histories record (`audit_trail_exact`), after every
   run of calls from the empty database. -/
namespace DddService
open EventLog

/-! ## Reading the event rows -/

/-- The event a row stores, by its name and the fields of its body. -/
def DomainEventModel.event? (r : DomainEventModel) : Option EventBody := do
  let id ← (← r.body.get? "your_aggregate_id").asStr?
  let doer ← User.ofDict? (← r.body.get? "doer")
  if r.name = "YourAggregateCreated" then do
    let v ← YourValueObject.ofDict? (← r.body.get? "your_value_object")
    pure (.yourAggregateCreated id v doer)
  else if r.name = "YourAggregateUpdated" then do
    let v ← YourValueObject.ofDict? (← r.body.get? "your_value_object")
    pure (.yourAggregateUpdated id v doer)
  else if r.name = "YourAggregateVoided" then pure (.yourAggregateVoided id doer)
  else if r.name = "YourAggregateDeleted" then pure (.yourAggregateDeleted id doer)
  else none

/-- A stored event reads back as itself. -/
theorem DomainEventModel.event_asdict {r : DomainEventModel} {b : EventBody}
    (h : (r.name, r.body) = (b.name, b.asdict)) : r.event? = some b := by
  have hname : r.name = b.name := congrArg Prod.fst h
  have hbody : r.body = b.asdict := congrArg Prod.snd h
  unfold DomainEventModel.event?
  rw [hname, hbody]
  cases b <;> simp [EventBody.asdict, EventBody.name, Json.asStr?]

/-- The events of an id, in insertion order. -/
def eventsOf (id : String) (rows : List DomainEventModel) : List EventBody :=
  (rows.filterMap DomainEventModel.event?).filter (fun b => b.yourAggregateId = id)

theorem bodyOf_yourAggregateId (id : String) (c : Change) : (bodyOf id c).yourAggregateId = id := by
  cases c <;> rfl

theorem read_log : ∀ (rows : List DomainEventModel) (log : List (Entry String Slot Change)),
    rows.map (fun r => (r.name, r.body)) = log.map eventColumns →
    rows.filterMap DomainEventModel.event? = log.map (fun e => bodyOf e.key e.event)
  | [], [], _ => rfl
  | [], _ :: _, h => by cases h
  | _ :: _, [], h => by cases h
  | r :: rows, e :: log, h => by
    rw [List.map_cons, List.map_cons, List.cons.injEq] at h
    have ih := read_log rows log h.2
    have hr : r.event? = some (bodyOf e.key e.event) := DomainEventModel.event_asdict h.1
    rw [List.filterMap_cons, hr, List.map_cons, ih]

theorem filter_log (id : String) (log : List (Entry String Slot Change)) :
    (log.map (fun e => bodyOf e.key e.event)).filter (fun b => b.yourAggregateId = id) =
      (EventLog.Store.wordOf log id).map (bodyOf id) := by
  induction log with
  | nil => rfl
  | cons e log ih =>
    have hid := bodyOf_yourAggregateId e.key e.event
    by_cases h : e.key = id
    · have hkey : (bodyOf e.key e.event).yourAggregateId = id := hid.trans h
      rw [List.map_cons, List.filter_cons_of_pos (by simpa using hkey), ih]
      simp [EventLog.Store.wordOf, h]
    · have hkey : ¬(bodyOf e.key e.event).yourAggregateId = id := by rw [hid]; exact h
      rw [List.map_cons, List.filter_cons_of_neg (by simpa using hkey), ih]
      simp [EventLog.Store.wordOf, h]

section
variable {mixin : DataclassMixin} {db : Database} {L : Store}

theorem Represents.eventsOf_eq (h : Represents mixin db L) (id : String) :
    eventsOf id db.domainEvent = (EventLog.Store.wordOf L.log id).map (bodyOf id) := by
  unfold eventsOf
  rw [read_log db.domainEvent L.log h.events, filter_log]

/-! ## Folding the events -/

/-- What one event makes of an aggregate's value object, status and creator. -/
def foldStep : Option (YourValueObject × String × User) → EventBody →
    Option (YourValueObject × String × User)
  | _, .yourAggregateCreated _ v d => some (v, "created", d)
  | s, .yourAggregateUpdated _ v _ => s.map fun (_, status, creator) => (v, status, creator)
  | s, .yourAggregateVoided _ _ => s.map fun (v, _, creator) => (v, "voided", creator)
  | _, .yourAggregateDeleted _ _ => none

def foldEvents (events : List EventBody) : Option (YourValueObject × String × User) :=
  events.foldl foldStep none

/-- The same three columns of a row. -/
def rowColumns (m : YourAggregateModel) : Json × String × Json :=
  (m.yourValueObject, m.status, m.creator)

theorem foldEvents_bodies (id : String) (cs : List Change) :
    foldEvents (cs.map (bodyOf id)) =
      (Ledger.replay cs).map fun (v, voided, creator) => (v, (statusOf voided).value, creator) := by
  induction cs using List.reverseRecOn with
  | nil => rfl
  | append_singleton cs c ih =>
    have hfold : foldEvents ((cs ++ [c]).map (bodyOf id)) =
        foldStep (foldEvents (cs.map (bodyOf id))) (bodyOf id c) := by simp [foldEvents]
    have hreplay : Ledger.replay (cs ++ [c]) = Ledger.replayStep (Ledger.replay cs) c := by
      simp [Ledger.replay]
    rw [hfold, hreplay, ih]
    cases c <;> cases Ledger.replay cs <;> rfl

theorem Represents.row_columns (h : Represents mixin db L)
    (hl : EventLog.Store.Leads machine (EventLog.Store.init machine) L) (id : String) :
    (db.yourAggregate id).map rowColumns =
      (foldEvents (eventsOf id db.domainEvent)).map fun (v, status, creator) =>
        (mixin.serializeValueObject v, status, mixin.serializeUser creator) := by
  have hreplay := Ledger.replay_value _ _ (hl.replays id)
  have hrow := h.rows id
  rw [h.eventsOf_eq id, foldEvents_bodies, hreplay]
  unfold RowIs at hrow
  cases hs : (L.state id).aggregate? with
  | none => rw [hs] at hrow; rw [hrow]; rfl
  | some g =>
    rw [hs] at hrow
    obtain ⟨m, hm, hst, _⟩ := hrow
    rw [hm]
    simp only [Option.map_some, rowColumns, hst.value, hst.status, hst.creator]

end

/-- After any run from the empty database the event log and the table agree: the
    fold of an id's events is the id's row, and is absent exactly when there is no
    row. -/
theorem event_log_agrees (env : Env) (faults : List (Option Exc)) (calls : List Call) (id : String) :
    let db := (runCalls env (World.init faults) calls).db
    (db.yourAggregate id).map rowColumns =
        (foldEvents (eventsOf id db.domainEvent)).map (fun (v, status, creator) =>
          (env.mixin.serializeValueObject v, status, env.mixin.serializeUser creator)) ∧
      (foldEvents (eventsOf id db.domainEvent) = none ↔ db.yourAggregate id = none) := by
  intro db
  obtain ⟨L, hleads, hidle⟩ := runCalls_represents env faults calls
  have hcols := hidle.represents.row_columns hleads id
  refine ⟨hcols, ?_⟩
  rw [← Option.map_eq_none_iff (f := rowColumns) (x := db.yourAggregate id), hcols, Option.map_eq_none_iff]

/-! ## The grammar -/

theorem name_bodyOf (id : String) (c : Change) : (bodyOf id c).name =
    c.kind "YourAggregateCreated" "YourAggregateUpdated" "YourAggregateVoided"
      "YourAggregateDeleted" := by
  cases c <;> rfl

theorem Represents.status_of_voided {mixin : DataclassMixin} {db : Database} {L : Store}
    (h : Represents mixin db L)
    (hl : EventLog.Store.Leads machine (EventLog.Store.init machine) L) {id : String}
    (hev : "YourAggregateVoided" ∈ (eventsOf id db.domainEvent).map EventBody.name)
    {m : YourAggregateModel} (hm : db.yourAggregate id = some m) :
    m.status = YourAggregateStatus.voided.value := by
  have hrow := h.rows id
  rw [hm] at hrow
  have hword := Ledger.lifecycle_word "YourAggregateCreated" "YourAggregateUpdated"
    "YourAggregateVoided" "YourAggregateDeleted" _ _ (hl.replays id)
  rw [h.eventsOf_eq id, List.map_map] at hev
  have hnames : (EventLog.Store.wordOf L.log id).map (EventBody.name ∘ bodyOf id) =
      (EventLog.Store.wordOf L.log id).map (Ledger.Change.kind "YourAggregateCreated"
        "YourAggregateUpdated" "YourAggregateVoided" "YourAggregateDeleted") :=
    List.map_congr_left fun c _ => name_bodyOf id c
  rw [hnames] at hev
  cases hs : L.state id with
  | live g =>
    rw [hs] at hrow hword
    obtain ⟨m', hm', hst, _⟩ := hrow
    cases hm'
    obtain ⟨n, hn⟩ := hword
    rw [hn] at hev
    cases hv : g.voided with
    | true => rw [hst.status, hv]; rfl
    | false =>
      rw [hv] at hev
      simp [List.mem_replicate] at hev
  | absent => rw [hs] at hrow; cases hrow
  | deleted g => rw [hs] at hrow; cases hrow

/-- In every reachable state the events of an id form a word of
    `Created Updated* Voided? Deleted?`, an id with a `Deleted` event has no row, and
    a row that has seen a `Voided` event stays as it is until it is deleted. -/
theorem lifecycle_grammar (env : Env) (faults : List (Option Exc)) (calls : List Call)
    (id : String) :
    let db := (runCalls env (World.init faults) calls).db
    let names := (eventsOf id db.domainEvent).map EventBody.name
    names ∈ (Ledger.lifecycle "YourAggregateCreated" "YourAggregateUpdated" "YourAggregateVoided"
        "YourAggregateDeleted").matches' ∧
      ("YourAggregateDeleted" ∈ names → db.yourAggregate id = none) ∧
      ("YourAggregateVoided" ∈ names → ∀ more m m', db.yourAggregate id = some m →
        (runCalls env (World.init faults) (calls ++ more)).db.yourAggregate id = some m' →
        m'.yourValueObject = m.yourValueObject ∧ m'.status = m.status ∧
          m'.operationHistories = m.operationHistories) := by
  intro db names
  obtain ⟨L, hleads, hidle⟩ := runCalls_represents env faults calls
  have hrep : Represents env.mixin db L := hidle.represents
  have hword := Ledger.lifecycle_word "YourAggregateCreated" "YourAggregateUpdated"
    "YourAggregateVoided" "YourAggregateDeleted" _ _ (hleads.replays id)
  -- the names of the events are the word of the id in the log
  have hnames : names = (EventLog.Store.wordOf L.log id).map (Ledger.Change.kind
      "YourAggregateCreated" "YourAggregateUpdated" "YourAggregateVoided" "YourAggregateDeleted") := by
    change (eventsOf id db.domainEvent).map EventBody.name = _
    rw [hrep.eventsOf_eq id, List.map_map]
    exact List.map_congr_left fun c _ => name_bodyOf id c
  rw [← hnames] at hword
  refine ⟨hword.mem_lifecycle, ?_, ?_⟩
  · intro hdel
    have hrow := hrep.rows id
    cases hs : L.state id with
    | live g =>
      rw [hs] at hword
      obtain ⟨n, hn⟩ := hword
      rw [hn] at hdel
      cases hv : g.voided <;> rw [hv] at hdel <;> simp [List.mem_replicate] at hdel
    | absent => rw [hs] at hrow; exact hrow
    | deleted g => rw [hs] at hrow; exact hrow
  · intro hev more m m' hm hm'
    have hst := hrep.status_of_voided hleads hev hm
    obtain ⟨L', hgrew, _⟩ := runCalls_idle more hidle
    rw [runCalls_append] at hm'
    -- a voided row stays as it is until it is deleted
    rcases hgrew.frozen id m hm hst with hsame | hnone
    · rw [hm'] at hsame
      cases hsame
      exact ⟨rfl, rfl, rfl⟩
    · rw [hm'] at hnone
      cases hnone

/-! ## The audit trail -/

/-- The history entry `h` records the event, where `before` is the value object in
    force until then. -/
def Records (mixin : DataclassMixin) (before : Option YourValueObject) (h : OperationHistory) :
    EventBody → Prop
  | .yourAggregateCreated _ _ d => h.type = .created ∧ h.doer = d ∧ h.data = []
  | .yourAggregateUpdated _ v d => h.type = .updated ∧ h.doer = d ∧ ∃ b, before = some b ∧
      h.data = if b = v then [] else [⟨"your_value_object", mixin.serializeValueObject b,
        mixin.serializeValueObject v⟩]
  | .yourAggregateVoided _ d => h.type = .voided ∧ h.doer = d ∧
      h.data = [⟨"status", .str "created", .str "voided"⟩]
  | .yourAggregateDeleted _ _ => False

/-- The value object the events have put in force. -/
def valueInForce (events : List EventBody) : Option YourValueObject :=
  (foldEvents events).map Prod.fst

theorem valueInForce_bodies (id : String) (cs : List Change) :
    valueInForce (cs.map (bodyOf id)) = Ledger.inForce cs := by
  unfold valueInForce Ledger.inForce
  rw [foldEvents_bodies]
  cases Ledger.replay cs <;> rfl

theorem records_of_record {mixin : DataclassMixin} {before : Option YourValueObject}
    {c : Change} {r : Ledger.Record YourValueObject User} {h : OperationHistory} (id : String)
    (hr : Ledger.RecordOf before c r) (hc : h.content = recordContent mixin r) :
    Records mixin before h (bodyOf id c) := by
  have htype : h.type = (recordContent mixin r).1 := congrArg Prod.fst hc
  have hdata : h.data = (recordContent mixin r).2.1 := congrArg (fun x => x.2.1) hc
  have hdoer : h.doer = (recordContent mixin r).2.2 := congrArg (fun x => x.2.2) hc
  cases c with
  | created v d =>
    cases r with
    | created d' => cases hr; exact ⟨htype, hdoer, hdata⟩
    | updated b a d' => cases hr
    | voided d' => cases hr
  | updated v d =>
    cases r with
    | updated b a d' =>
      obtain ⟨hb, rfl, rfl⟩ := hr
      exact ⟨htype, hdoer, b, hb, hdata⟩
    | created d' => cases hr
    | voided d' => cases hr
  | voided d =>
    cases r with
    | voided d' => cases hr; exact ⟨htype, hdoer, hdata⟩
    | created d' => cases hr
    | updated b a d' => cases hr
  | deleted d => cases r <;> cases hr

/-- The history of a stored aggregate records its events, one for one. -/
theorem Represents.audited {mixin : DataclassMixin} {db : Database} {L : Store}
    (h : Represents mixin db L)
    (hl : EventLog.Store.Leads machine (EventLog.Store.init machine) L) {id : String}
    {m : YourAggregateModel} (hm : db.yourAggregate id = some m) :
    ∃ hs : List OperationHistory, m.operationHistories = hs.map mixin.serializeHistory ∧
      hs.length = (eventsOf id db.domainEvent).length ∧
      ∀ k e entry, (eventsOf id db.domainEvent)[k]? = some e → hs[k]? = some entry →
        Records mixin (valueInForce ((eventsOf id db.domainEvent).take k)) entry e := by
  have hrow := h.rows id
  rw [hm] at hrow
  cases hs : L.state id with
  | absent => rw [hs] at hrow; cases hrow
  | deleted g => rw [hs] at hrow; cases hrow
  | live g =>
    rw [hs] at hrow
    obtain ⟨m', hm', hst, _⟩ := hrow
    cases hm'
    obtain ⟨entries, hser, hcont⟩ := hst.histories
    have htrail := Ledger.audit_trail _ _ (hl.replays id)
    rw [hs] at htrail
    obtain ⟨⟨hlen, haudit⟩, _⟩ := htrail
    have hlen' : entries.length = g.history.length := by
      have := congrArg List.length hcont
      simpa using this
    rw [h.eventsOf_eq id]
    refine ⟨entries, hser, by rw [List.length_map, hlen', hlen], ?_⟩
    intro k e entry he hentry
    rw [List.getElem?_map, Option.map_eq_some_iff] at he
    obtain ⟨c, hc, rfl⟩ := he
    -- the record the entry was made of
    have hcontk := congrArg (fun l => l[k]?) hcont
    simp only [List.getElem?_map, hentry, Option.map_some] at hcontk
    obtain ⟨r, hr, hrc⟩ := Option.map_eq_some_iff.mp hcontk.symm
    rw [← List.map_take, valueInForce_bodies]
    exact records_of_record id (haudit k c r hc hr) hrc.symm

/-- After any run from the empty database the histories of the stored aggregates
    are an exact audit trail; an operation only adds to the history, and one that
    raises leaves the aggregate as it was. -/
theorem audit_trail_exact (env : Env) (faults : List (Option Exc)) (calls : List Call) :
    let db := (runCalls env (World.init faults) calls).db
    (∀ id m, db.yourAggregate id = some m →
      ∃ hs : List OperationHistory, m.operationHistories = hs.map env.mixin.serializeHistory ∧
        hs.length = (eventsOf id db.domainEvent).length ∧
        ∀ k e entry, (eventsOf id db.domainEvent)[k]? = some e → hs[k]? = some entry →
          Records env.mixin (valueInForce ((eventsOf id db.domainEvent).take k)) entry e) ∧
    (∀ op, YourAggregate.Operation env.mixin op → ∀ a,
      (∀ a', op a = .ok () a' → a.operationHistories <+: a'.operationHistories) ∧
      (∀ e a', op a = .error e a' → a' = a)) := by
  intro db
  obtain ⟨L, hleads, hidle⟩ := runCalls_represents env faults calls
  refine ⟨fun id m hm => hidle.represents.audited hleads hm, ?_⟩
  exact fun op hop a => ⟨fun a' h => hop.history_grows h, fun e a' h => hop.error h⟩

end DddService
