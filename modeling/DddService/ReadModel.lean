import DddService.VersionHistory
import DddService.SearchFilters
import DddService.SearchModels

/- Searches as reads of the event log. A search reads the aggregate table only, which a save
   brings up to date together with the events; so what it finds, how many it counts and what
   it says of each are all in the events of the ids (`search_follows_events`). The API's
   date fields do not come to the WHERE clause, and no other column that a search reads is
   missing from the events (`selects_congr`). -/
namespace DddService
open EventLog Locking

/-! ## What the events say of a search -/

/-- The rows of the aggregate table, in some order. -/
structure TableOf (db : Database) (stored : List YourAggregateModel) : Prop where
  ids : (stored.map (·.id)).Nodup
  rows : ∀ row, row ∈ stored ↔ db.yourAggregate row.id = some row

/-- What the events say of an id, as a row. It has no times and no histories, which the
    searches here do not read. -/
def rowOf (mixin : DataclassMixin) (id : String) :
    YourValueObject × String × User → YourAggregateModel
  | (v, status, creator) =>
    { id, yourValueObject := mixin.serializeValueObject v, status, operationHistories := []
      creator := mixin.serializeUser creator, createdAt := none, updatedAt := none }

/-- The events made the id an aggregate that is there and that the statement selects. -/
def Select.Found (q : Select) (mixin : DataclassMixin) (events : List DomainEventModel)
    (id : String) : Prop :=
  ∃ columns, foldEvents (eventsOf id events) = some columns ∧
    q.selects (rowOf mixin id columns) = true

/-- OFFSET and LIMIT, on ids. -/
def Select.window (q : Select) (ids : List String) : List String :=
  let rest := ids.drop q.offset.toNat
  if q.limit > 0 then rest.take q.limit.toNat else rest

/-- The entity is what the events make of its id, with the history of it. -/
structure MadeBy (mixin : DataclassMixin) (events : List DomainEventModel) (a : YourAggregate) :
    Prop where
  columns : foldEvents (eventsOf a.id events) =
    some (a.yourValueObject, a.status.value, a.creator)
  histories : Trails mixin (eventsOf a.id events)
    (a.operationHistories.map mixin.serializeHistory)

/-- The result of a search of the events: of the ids found, each of them once, those that
    OFFSET and LIMIT leave, and how many there are. -/
structure SearchedFrom (mixin : DataclassMixin) (q : Select) (events : List DomainEventModel)
    (result : SearchResult) : Prop where
  entities : ∀ a ∈ result.results, MadeBy mixin events a
  page : ∃ ids : List String, ids.Nodup ∧ (∀ id, id ∈ ids ↔ q.Found mixin events id) ∧
    result.total = ids.length ∧ result.results.map (·.id) = q.window ids

theorem Select.map_cut (q : Select) (rows : List YourAggregateModel) :
    (q.cut rows).map (·.id) = q.window (rows.map (·.id)) := by
  unfold Select.cut Select.window
  dsimp only
  split
  · rw [List.map_take, List.map_drop]
  · rw [List.map_drop]

/-! ## The columns a search reads -/

namespace YourAggregateRepository
variable {w : WordChars} {a : SearchArguments}

/-- A search reads of a row its id, its value object and its status. -/
theorem selects_congr (hdates : ∀ f ∈ a.dateFields.getD [], f = "createdAt")
    {row row' : YourAggregateModel} (hid : row.id = row'.id)
    (hvalue : row.yourValueObject = row'.yourValueObject) (hstatus : row.status = row'.status) :
    (searchSelect w a).selects row = (searchSelect w a).selects row' := by
  have htext : ∀ f : SearchKeyField, f.text row = f.text row' := by
    intro f
    unfold SearchKeyField.text
    rw [hid, hvalue, hstatus]
  have hkeys : ∀ fields keys, ∀ f ∈ RepositoryBase.searchKeyFilters w searchKeyFields fields keys,
      f row = f row' := by
    intro fields keys f hf
    obtain ⟨field, -, hfield⟩ := List.mem_filterMap.mp hf
    obtain ⟨s, -, rfl⟩ := Option.map_eq_some_iff.mp hfield
    exact congrArg _ (htext s)
  have hall : ∀ f ∈ (searchSelect w a).filters, f row = f row' := by
    intro f hf
    unfold searchSelect RepositoryBase.searchStatement at hf
    rw [getSearchFilters_requested hdates] at hf
    rcases List.mem_append.mp hf with hf | hf
    · rcases List.mem_append.mp hf with hf | hf
      · obtain ⟨ids, -, rfl⟩ := Option.map_eq_some_iff.mp (Option.mem_toList.mp hf)
        exact congrArg _ hid
      · obtain ⟨statuses, -, rfl⟩ := Option.map_eq_some_iff.mp (Option.mem_toList.mp hf)
        exact congrArg _ hstatus
    · -- the search keys: a condition on a text of the row, where there are keys
      split at hf
      · cases hf
      · cases hf
      · split at hf
        · cases hf
        · rw [List.mem_singleton.mp hf, Bool.eq_iff_iff]
          dsimp only
          rw [List.any_eq_true, List.any_eq_true]
          exact exists_congr fun g => and_congr_right fun hg => by rw [hkeys _ _ g hg]
  unfold Select.selects
  rw [Bool.eq_iff_iff, List.all_eq_true, List.all_eq_true]
  exact forall₂_congr fun f hf => by rw [hall f hf]

end YourAggregateRepository

/-! ## The table and the events -/

section
variable {env : Env} {mixin : DataclassMixin} {db : Database} {L : Store} {w : WordChars}
  {stored : List YourAggregateModel} {a : SearchArguments}

theorem Represents.madeBy (h : Represents env.mixin db L)
    (hl : EventLog.Store.Leads machine (EventLog.Store.init machine) L) {row : YourAggregateModel}
    (hrow : db.yourAggregate row.id = some row) :
    ∃ a, YourAggregateRepository.modelToEntity env row = .ok a ∧
      MadeBy env.mixin db.domainEvent a := by
  have hslot := h.rows row.id
  rw [hrow] at hslot
  cases hs : L.state row.id with
  | absent => rw [hs] at hslot; cases hslot
  | deleted g => rw [hs] at hslot; cases hslot
  | live g =>
    rw [hs] at hslot
    obtain ⟨m, hm, hstored, hcreated⟩ := hslot
    cases hm
    obtain ⟨a, ha, hloaded⟩ := modelToEntity_stored hstored hcreated
    have hrun : machine.run .absent (EventLog.Store.wordOf L.log row.id) = some (.live g) := by
      rw [← hs]
      exact hl.replays row.id
    have htells := hstored.tells hrun
    rw [← h.eventsOf_eq row.id] at htells
    refine ⟨a, ha, ?_, ?_⟩
    · rw [hloaded.key, h.eventsOf_eq, foldEvents_bodies, Ledger.replay_value _ _ hrun,
        hloaded.value, hloaded.status, hloaded.creator]
      rfl
    · -- the entity has the entries of the row, read back
      obtain ⟨entries, hentries, htrail⟩ := htells.histories
      have hread := (modelToEntity_ok ha).2.2
      rw [hentries, env.mixin.mapM_createHistory] at hread
      cases hread
      rw [hloaded.key, ← hentries]
      exact htells.histories

/-- The rows can be listed: only ids with events have one. -/
theorem Represents.exists_table (h : Represents mixin db L)
    (hl : EventLog.Store.Leads machine (EventLog.Store.init machine) L) :
    ∃ stored, TableOf db stored := by
  have hids : ((L.log.map Entry.key).dedup.filterMap db.yourAggregate).map (·.id) =
      (L.log.map Entry.key).dedup.filter fun id => (db.yourAggregate id).isSome := by
    induction (L.log.map Entry.key).dedup with
    | nil => rfl
    | cons id ids ih =>
      cases hrow : db.yourAggregate id with
      | none => simp [hrow, ih]
      | some row => simp [hrow, ih, h.keyed _ _ hrow]
  refine ⟨(L.log.map Entry.key).dedup.filterMap db.yourAggregate, ?_, fun row => ⟨?_, ?_⟩⟩
  · rw [hids]
    exact (List.nodup_dedup _).filter _
  · intro hmem
    obtain ⟨id, -, hrow⟩ := List.mem_filterMap.mp hmem
    rwa [h.keyed _ _ hrow]
  · intro hrow
    refine List.mem_filterMap.mpr ⟨row.id, List.mem_dedup.mpr ?_, hrow⟩
    by_contra hnot
    have hword : EventLog.Store.wordOf L.log row.id = [] := by
      unfold EventLog.Store.wordOf
      rw [List.map_eq_nil_iff, List.filter_eq_nil_iff]
      intro e he hkey
      exact hnot (List.mem_map.mpr ⟨e, he, by simpa using hkey⟩)
    have hcolumns := h.row_columns hl row.id
    rw [hrow, h.eventsOf_eq, hword] at hcolumns
    cases hcolumns

theorem Represents.found_iff (h : Represents mixin db L)
    (hl : EventLog.Store.Leads machine (EventLog.Store.init machine) L)
    (hstored : TableOf db stored) (hdates : ∀ f ∈ a.dateFields.getD [], f = "createdAt")
    (id : String) : (YourAggregateRepository.searchSelect w a).Found mixin db.domainEvent id ↔
      id ∈ (stored.filter (YourAggregateRepository.searchSelect w a).selects).map (·.id) := by
  have hcolumns := h.row_columns hl id
  -- the row and the events agree on every column that the search reads
  have hsame : ∀ row columns, db.yourAggregate id = some row →
      foldEvents (eventsOf id db.domainEvent) = some columns →
      (YourAggregateRepository.searchSelect w a).selects row =
        (YourAggregateRepository.searchSelect w a).selects (rowOf mixin id columns) := by
    intro row columns hrow hfold
    rw [hrow, hfold] at hcolumns
    obtain ⟨hvalue, hrest⟩ := Prod.mk.inj (Option.some.inj hcolumns)
    exact YourAggregateRepository.selects_congr hdates (h.keyed _ _ hrow) hvalue
      (Prod.mk.inj hrest).1
  constructor
  · rintro ⟨columns, hfold, hselects⟩
    cases hrow : db.yourAggregate id with
    | none => rw [hrow, hfold] at hcolumns; cases hcolumns
    | some row =>
      have hid : row.id = id := h.keyed _ _ hrow
      have hmem : row ∈ stored := (hstored.rows row).mpr (by rw [hid]; exact hrow)
      rw [← hsame row columns hrow hfold] at hselects
      exact List.mem_map.mpr ⟨row, List.mem_filter.mpr ⟨hmem, hselects⟩, hid⟩
  · intro hmem
    obtain ⟨row, hrow, rfl⟩ := List.mem_map.mp hmem
    obtain ⟨hmem, hselects⟩ := List.mem_filter.mp hrow
    have hrow : db.yourAggregate row.id = some row := (hstored.rows row).mp hmem
    cases hfold : foldEvents (eventsOf row.id db.domainEvent) with
    | none => rw [hrow, hfold] at hcolumns; cases hcolumns
    | some columns =>
      rw [hsame row columns hrow hfold] at hselects
      exact ⟨columns, hfold, hselects⟩

theorem TableOf.row_of_cut (hstored : TableOf db stored) {q : Select}
    {le : YourAggregateModel → YourAggregateModel → Bool} {listing : List YourAggregateModel}
    (hlisting : Paging.Listing le (stored.filter q.selects) listing) {row : YourAggregateModel}
    (hrow : row ∈ q.cut listing) : db.yourAggregate row.id = some row := by
  have hmem : row ∈ listing := (YourAggregateRepository.cut_sublist q listing).subset hrow
  exact (hstored.rows row).mp (List.mem_filter.mp (hlisting.perm.subset hmem)).1

theorem Represents.searchedFrom (h : Represents env.mixin db L)
    (hl : EventLog.Store.Leads machine (EventLog.Store.init machine) L)
    (hstored : TableOf db stored) (hdates : ∀ f ∈ a.dateFields.getD [], f = "createdAt")
    {result : SearchResult}
    (hresult : YourAggregateRepository.SearchYourAggregates w env stored a result) :
    SearchedFrom env.mixin (YourAggregateRepository.searchSelect w a) db.domainEvent result := by
  obtain ⟨rows, ⟨-, listing, hlisting, rfl⟩, htotal, hread⟩ := hresult
  refine ⟨fun x hx => ?_, listing.map (·.id), ?_, fun id => ?_, ?_, ?_⟩
  · have hsome : some x ∈ result.results.map some := List.mem_map_of_mem hx
    rw [entities_read hread] at hsome
    obtain ⟨row, hrow, hentity⟩ := List.mem_map.mp hsome
    obtain ⟨x', hx', hmade⟩ := h.madeBy hl (hstored.row_of_cut hlisting hrow)
    rw [hx'] at hentity
    cases hentity
    exact hmade
  · rw [(hlisting.perm.map _).nodup_iff]
    exact hstored.ids.sublist (List.filter_sublist.map _)
  · rw [(hlisting.perm.map _).mem_iff, h.found_iff hl hstored hdates]
  · rw [htotal, List.length_map, hlisting.perm.length_eq]
    rfl
  · rw [entities_ids hread, Select.map_cut]

theorem Represents.searchable (h : Represents env.mixin db L)
    (hl : EventLog.Store.Leads machine (EventLog.Store.init machine) L)
    (hstored : TableOf db stored) (hoffset : 0 ≤ a.offset) :
    ∃ result, YourAggregateRepository.SearchYourAggregates w env stored a result := by
  obtain ⟨listing, hlisting⟩ := Paging.Listing.exists_of
    (orderByLe_comparison (YourAggregateRepository.searchSelect w a).orderBy)
    (stored.filter (YourAggregateRepository.searchSelect w a).selects)
  have hreadable : ∀ row ∈ (YourAggregateRepository.searchSelect w a).cut listing,
      ∃ x, YourAggregateRepository.modelToEntity env row = .ok x := by
    intro row hrow
    obtain ⟨x, hx, -⟩ := h.madeBy hl (hstored.row_of_cut hlisting hrow)
    exact ⟨x, hx⟩
  obtain ⟨xs, hxs⟩ := Lists.mapM_ok_of_forall hreadable
  exact ⟨⟨_, xs⟩, _, ⟨hoffset, listing, hlisting, rfl⟩, rfl, hxs⟩

end

/-- After any run of calls, and of what any number of concurrent calls have committed, under
    any schedule: the aggregate table can be listed, and a request of the API for it, with any
    ids, statuses, search keys, order, offset and limit, is answered as a search of the
    events, unless its offset is negative. -/
theorem search_follows_events {ν : Type} (mixin : RequestMixin ν) (w : WordChars) (env : Env)
    (faults : List (Option Exc)) (calls : List Call) (batch : Nat → List Modification)
    (schedule : List (Action Stamp)) (q : SearchQuery ν) (offset limit : Option Int)
    (hdates : ∀ f ∈ q.dateField.getD [], f = "createdAt") :
    let db := ((State.start (KeyedDatabase.afterCalls env faults calls) batch).run
      (transactions env) schedule).store.db
    let request := SearchYourAggregatesRequest.createStrictly mixin q (some (offset.getD 0))
      (some (limit.getD 100))
    let Answers := fun stored => YourAggregateRepository.SearchYourAggregates w env stored
      (YourAggregateController.searchArguments request)
    (∃ stored, TableOf db stored) ∧ ∀ stored, TableOf db stored →
      (0 ≤ offset.getD 0 → ∃ result, Answers stored result) ∧
      ∀ result, Answers stored result →
        SearchedFrom env.mixin (YourAggregateHandler.searchYourAggregates mixin w q offset limit)
          db.domainEvent result := by
  intro db request Answers
  obtain ⟨L, hleads, hrep⟩ := committed_represents env faults calls batch schedule
  refine ⟨hrep.exists_table hleads, fun stored hstored => ⟨fun hoffset => ?_, fun result h => ?_⟩⟩
  · exact hrep.searchable hleads hstored hoffset
  · exact hrep.searchedFrom hleads hstored hdates h

/-- Two calls of one aggregate at the same time: the voiding waits for the row until the update
    is committed. A search for voided aggregates finds it as the two have left it. -/
theorem search_follows_concurrent :
    let doer : User := ⟨none, none, none, none, none⟩
    let stamp : Stamp := ⟨0, "r", ⟨0, "s", none, "t"⟩, 0⟩
    let db := ((State.start (KeyedDatabase.afterCalls .plain [] [.createOne]) fun i =>
        if i = 0 then [.update ⟨doer, none, "a", ⟨"changed", 2⟩⟩]
        else if i = 1 then [.void ⟨doer, none, "a"⟩] else []).run (transactions .plain)
      [.load 0, .load 1, .save 0 stamp, .commit 0, .load 1, .save 1 stamp, .commit 1]).store.db
    ∃ stored, TableOf db stored ∧ ∃ result,
      YourAggregateRepository.SearchYourAggregates .plain .plain stored
        (YourAggregateController.searchArguments (.createStrictly .plain
          { status := some ["voided"] } (some 0) (some 100))) result ∧
      result.total = 1 ∧
      result.results.map (fun a => (a.id, a.yourValueObject)) = [("a", ⟨"changed", 2⟩)] := by
  intro doer stamp db
  obtain ⟨⟨stored, hstored⟩, hanswers⟩ := search_follows_events .plain .plain .plain []
    [.createOne] (fun i => if i = 0 then [.update ⟨doer, none, "a", ⟨"changed", 2⟩⟩]
      else if i = 1 then [.void ⟨doer, none, "a"⟩] else [])
    [.load 0, .load 1, .save 0 stamp, .commit 0, .load 1, .save 1 stamp, .commit 1]
    { status := some ["voided"] } none none nofun
  obtain ⟨hsome, hall⟩ := hanswers stored hstored
  obtain ⟨result, hresult⟩ := hsome (Int.le_refl 0)
  obtain ⟨hmade, ids, hnodup, hfound, htotal, hpage⟩ := hall result hresult
  have hevents : ((db.domainEvent.filterMap DomainEventModel.event?).map
      EventBody.yourAggregateId) = ["a", "a", "a", "a"] := by decide +kernel
  have hfold : foldEvents (eventsOf "a" db.domainEvent) =
      some (⟨"changed", 2⟩, "voided", doer) := by decide +kernel
  have hone : ∀ id, id ∈ ids ↔ id ∈ ["a"] := by
    intro id
    rw [hfound, List.mem_singleton]
    constructor
    · rintro ⟨columns, hcolumns, -⟩
      by_contra hne
      have hnone : eventsOf id db.domainEvent = [] := by
        refine List.filter_eq_nil_iff.mpr fun b hb hid => hne ?_
        have hb' : b.yourAggregateId ∈ ["a", "a", "a", "a"] := hevents ▸ List.mem_map_of_mem hb
        have hid' : b.yourAggregateId = id := by simpa using hid
        rw [← hid']
        simpa using hb'
      rw [hnone] at hcolumns
      cases hcolumns
    · rintro rfl
      exact ⟨_, hfold, by decide⟩
  have hids : ids = ["a"] :=
    List.perm_singleton.mp ((List.perm_ext_iff_of_nodup hnodup (by decide)).mpr hone)
  have hresults : result.results.map (·.id) = ["a"] := by
    rw [hpage, hids]
    rfl
  obtain ⟨x, hx, hid⟩ := List.map_eq_singleton_iff.mp hresults
  have hcolumns := (hmade x (by rw [hx]; exact List.mem_singleton_self x)).columns
  rw [hid, hfold] at hcolumns
  refine ⟨stored, hstored, result, hresult, ?_, ?_⟩
  · rw [htotal, hids]
    rfl
  · rw [hx, List.map_singleton, hid, ← (Prod.mk.inj (Option.some.inj hcolumns)).1]

end DddService
