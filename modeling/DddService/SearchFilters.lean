import DddService.SearchOrder

/- From the query parameters of the API to the WHERE clause. The values of `dateField`
   are in camel case, the repository knows its date fields in snake case, and
   `__post_init__` converts `search_key_fields` and `sort_by` but not `date_fields`: a
   requested date range is left out of the WHERE clause (`selects_requested`). -/
namespace DddService

/-- What `dataclass_mixins` does with a search request: `camel_to_snake_case`, how
    `create_strictly` makes a time of the number a client sends, and what it puts in a
    number that is not passed. -/
structure RequestMixin (ν : Type) where
  camelToSnakeCase : String → String
  toDateTime : ν → DateTime
  absentInt : Int

/-- The fields of `SearchYourAggregatesRequest` that a search reads. -/
structure SearchYourAggregatesRequest where
  dateFields : Option (List String)
  startTime : Option DateTime
  endTime : Option DateTime
  searchKeyFields : Option (List String)
  searchKeys : Option (List String)
  sortBy : Option (List String)
  offset : Int
  limit : Int
  ids : Option (List String)
  statuses : Option (List String)

/-- The query parameters of `your_aggregates.yml` and `export.yml`. -/
structure SearchQuery (ν : Type) where
  id_ : Option (List String) := none
  status : Option (List String) := none
  dateField : Option (List String) := none
  startTime : Option ν := none
  endTime : Option ν := none
  searchKeyField : Option (List String) := none
  searchKey : Option (List String) := none
  sortBy : Option (List String) := none

section
variable {ν : Type} (mixin : RequestMixin ν)

/-- `SearchRequestBase.__post_init__` -/
def SearchYourAggregatesRequest.postInit (r : SearchYourAggregatesRequest) :
    SearchYourAggregatesRequest :=
  { r with
    searchKeyFields := some ((r.searchKeyFields.getD []).map mixin.camelToSnakeCase)
    sortBy := some ((r.sortBy.getD []).map mixin.camelToSnakeCase) }

/-- `SearchYourAggregatesRequest.create_strictly` with the parameters of a handler. -/
def SearchYourAggregatesRequest.createStrictly (q : SearchQuery ν) (offset limit : Option Int) :
    SearchYourAggregatesRequest :=
  postInit mixin
    { dateFields := q.dateField
      startTime := q.startTime.map mixin.toDateTime
      endTime := q.endTime.map mixin.toDateTime
      searchKeyFields := q.searchKeyField
      searchKeys := q.searchKey
      sortBy := q.sortBy
      offset := offset.getD mixin.absentInt
      limit := limit.getD mixin.absentInt
      ids := q.id_
      statuses := q.status }

/-! ## The controller -/

namespace YourAggregateController

/-- What `search_your_aggregates` passes to the repository. -/
def searchArguments (r : SearchYourAggregatesRequest) : SearchArguments :=
  { ids := r.ids, statuses := r.statuses, dateFields := r.dateFields, startTime := r.startTime
    endTime := r.endTime, searchKeyFields := r.searchKeyFields, searchKeys := r.searchKeys
    sortBy := r.sortBy, offset := r.offset, limit := r.limit }

/-- What `export_your_aggregates` passes: neither offset nor limit. -/
def exportArguments (r : SearchYourAggregatesRequest) : SearchArguments :=
  { ids := r.ids, statuses := r.statuses, dateFields := r.dateFields, startTime := r.startTime
    endTime := r.endTime, searchKeyFields := r.searchKeyFields, searchKeys := r.searchKeys
    sortBy := r.sortBy }

end YourAggregateController

/-! ## The handlers -/

namespace YourAggregateHandler
variable (w : WordChars)

/-- The statement a `search_your_aggregates` request comes to; the parameters `offset` and
    `limit` have the defaults 0 and 100. -/
def searchYourAggregates (q : SearchQuery ν) (offset limit : Option Int) : Select :=
  YourAggregateRepository.searchSelect w <| YourAggregateController.searchArguments <|
    SearchYourAggregatesRequest.createStrictly mixin q (some (offset.getD 0)) (some (limit.getD 100))

/-- The statement an `export_your_aggregates` request comes to. -/
def exportYourAggregates (q : SearchQuery ν) : Select :=
  YourAggregateRepository.searchSelect w <| YourAggregateController.exportArguments <|
    SearchYourAggregatesRequest.createStrictly mixin q none none

end YourAggregateHandler

/-! ## What a request asks for -/

/-- The date that a value of `dateField` names. -/
def dateOf (dateField : String) (row : YourAggregateModel) : Option DateTime :=
  if dateField = "createdAt" then row.createdAt else none

/-- A time within inclusive bounds, each of which may be absent. -/
def InBounds (startTime endTime : Option DateTime) (t : Option DateTime) : Prop :=
  (∀ s ∈ startTime, ∃ d ∈ t, s ≤ d) ∧ ∀ e ∈ endTime, ∃ d ∈ t, d ≤ e

namespace SearchQuery
variable (q : SearchQuery ν) (row : YourAggregateModel)

/-- A request as the API describes it, with a date field and without search keys. -/
structure Admitted : Prop where
  dateField : ∃ fields, q.dateField = some fields ∧ fields ≠ [] ∧ ∀ f ∈ fields, f = "createdAt"
  searchKey : q.searchKey.getD [] = []

/-- The id and the status are in the lists given. -/
def Listed : Prop :=
  (∀ ids ∈ q.id_, row.id ∈ ids) ∧ ∀ statuses ∈ q.status, row.status ∈ statuses

/-- Some requested date lies within the bounds. -/
def Dated : Prop :=
  ∃ f ∈ q.dateField.getD [],
    InBounds (q.startTime.map mixin.toDateTime) (q.endTime.map mixin.toDateTime) (dateOf f row)

/-- What the request asks for. -/
def AsksFor : Prop := q.Listed row ∧ q.Dated mixin row

end SearchQuery

/-- The statement selects just the stored rows that the request asks for. -/
def FiltersApplied (stored : List YourAggregateModel) (q : SearchQuery ν) (s : Select) : Prop :=
  ∀ row ∈ stored, s.selects row = true ↔ q.AsksFor mixin row

end

/-! ## What is selected -/

section
variable {ν : Type} {mixin : RequestMixin ν} {w : WordChars} {q : SearchQuery ν}
  {row : YourAggregateModel}

namespace YourAggregateRepository

/-- The repository does not know the date field by the API's name for it. -/
theorem dateFilters_createdAt (startTime endTime : Option DateTime) :
    dateFilters startTime endTime "createdAt" = [] := by
  have hne : ¬"createdAt" = SearchDateField.createdAt := by decide
  unfold dateFilters
  rw [if_neg hne]

/-- The API's names for the date fields add no condition. -/
theorem getSearchFilters_requested {dateFields : Option (List String)}
    (hdates : ∀ f ∈ dateFields.getD [], f = "createdAt") (ids statuses : Option (List String))
    (startTime endTime : Option DateTime) :
    getSearchFilters ids statuses dateFields startTime endTime =
      (ids.map fun ids (row : YourAggregateModel) => ids.contains row.id).toList ++
        (statuses.map fun statuses (row : YourAggregateModel) =>
          statuses.contains row.status).toList := by
  have hnone : (dateFields.getD []).filterMap (fun dateField =>
      let fs := dateFilters startTime endTime dateField
      if fs.isEmpty then none else some fs) = [] := by
    refine List.filterMap_eq_nil_iff.mpr fun f hf => ?_
    rw [hdates f hf]
    dsimp only
    rw [dateFilters_createdAt, if_pos List.isEmpty_nil]
  unfold getSearchFilters
  dsimp only
  rw [hnone]
  simp

/-- The conditions that are left: the ids and the statuses. -/
theorem getSearchFilters_createdAt {fields : List String} (hfields : ∀ f ∈ fields, f = "createdAt")
    (ids statuses : Option (List String)) (startTime endTime : Option DateTime) :
    (getSearchFilters ids statuses (some fields) startTime endTime).all (fun f => f row) = true ↔
      (∀ l ∈ ids, row.id ∈ l) ∧ ∀ l ∈ statuses, row.status ∈ l := by
  have hall : ∀ f ∈ (some fields).getD [], f = "createdAt" := hfields
  rw [getSearchFilters_requested hall]
  cases ids <;> cases statuses <;> simp

theorem selects_requested {a : SearchArguments} {fields : List String}
    (hdate : a.dateFields = some fields) (hfields : ∀ f ∈ fields, f = "createdAt")
    (hkeys : a.searchKeys.getD [] = []) : (searchSelect w a).selects row = true ↔
      (∀ l ∈ a.ids, row.id ∈ l) ∧ ∀ l ∈ a.statuses, row.status ∈ l := by
  have hfilters : (searchSelect w a).filters =
      getSearchFilters a.ids a.statuses (some fields) a.startTime a.endTime := by
    unfold searchSelect RepositoryBase.searchStatement
    rw [hdate]
    cases hk : a.searchKeys with
    | none => simp
    | some keys =>
      have hnil : keys = [] := by simpa [hk] using hkeys
      simp [hnil]
  rw [Select.selects, hfilters, getSearchFilters_createdAt hfields]

end YourAggregateRepository

theorem selects_admitted (hq : q.Admitted) (s : Select)
    (hs : s = YourAggregateHandler.exportYourAggregates mixin w q ∨
      ∃ offset limit, s = YourAggregateHandler.searchYourAggregates mixin w q offset limit) :
    s.selects row = true ↔ q.Listed row := by
  obtain ⟨fields, hdate, _, hfields⟩ := hq.dateField
  rcases hs with rfl | ⟨offset, limit, rfl⟩ <;>
  · refine YourAggregateRepository.selects_requested ?_ hfields ?_
    · exact hdate
    · exact hq.searchKey

theorem dated_iff (hq : q.Admitted) : q.Dated mixin row ↔
    InBounds (q.startTime.map mixin.toDateTime) (q.endTime.map mixin.toDateTime) row.createdAt := by
  obtain ⟨fields, hdate, hne, hfields⟩ := hq.dateField
  obtain ⟨f, hf⟩ := List.exists_mem_of_ne_nil fields hne
  have hdateOf : ∀ f ∈ fields, dateOf f row = row.createdAt := fun f hf => if_pos (hfields f hf)
  unfold SearchQuery.Dated
  rw [hdate, Option.getD_some]
  constructor
  · rintro ⟨f, hf, h⟩
    rwa [hdateOf f hf] at h
  · intro h
    exact ⟨f, hf, by rwa [hdateOf f hf]⟩

/-- The API's filters are applied just when every stored aggregate of the ids and statuses asked
    for was created within the bounds. -/
theorem api_filters_iff (mixin : RequestMixin ν) (w : WordChars) (stored : List YourAggregateModel)
    (hq : q.Admitted) (offset limit : Option Int) :
    (FiltersApplied mixin stored q (YourAggregateHandler.searchYourAggregates mixin w q offset limit) ↔
      ∀ row ∈ stored, q.Listed row →
        InBounds (q.startTime.map mixin.toDateTime) (q.endTime.map mixin.toDateTime)
          row.createdAt) ∧
    (FiltersApplied mixin stored q (YourAggregateHandler.exportYourAggregates mixin w q) ↔
      ∀ row ∈ stored, q.Listed row →
        InBounds (q.startTime.map mixin.toDateTime) (q.endTime.map mixin.toDateTime)
          row.createdAt) := by
  have happlied : ∀ s : Select, (∀ row, s.selects row = true ↔ q.Listed row) →
      (FiltersApplied mixin stored q s ↔ ∀ row ∈ stored, q.Listed row →
        InBounds (q.startTime.map mixin.toDateTime) (q.endTime.map mixin.toDateTime)
          row.createdAt) := by
    intro s hs
    refine forall₂_congr fun row _ => ?_
    rw [hs, SearchQuery.AsksFor, dated_iff hq]
    exact iff_self_and
  exact ⟨happlied _ fun _ => selects_admitted hq _ (Or.inr ⟨offset, limit, rfl⟩),
    happlied _ fun _ => selects_admitted hq _ (Or.inl rfl)⟩

end

/-! ## A request with a start time -/

/-- Numbers of microseconds, and camel case left as it is. -/
def RequestMixin.plain : RequestMixin Int := ⟨id, id, 0⟩

/-- An aggregate created at time 5. -/
def createdEarly : YourAggregateModel :=
  { id := "a", yourValueObject := .null, status := "created", operationHistories := []
    creator := .null, createdAt := some 5, updatedAt := none }

/-- A request for what was created from `start` on. -/
def createdFrom (start : Int) : SearchQuery Int :=
  { dateField := some ["createdAt"], startTime := some start }

theorem createdFrom_admitted (start : Int) : (createdFrom start).Admitted :=
  ⟨⟨["createdAt"], rfl, List.cons_ne_nil _ _, by simp⟩, rfl⟩

/-- An aggregate of before the start time is selected. -/
theorem start_time_ignored : ¬FiltersApplied .plain [createdEarly] (createdFrom 10)
    (YourAggregateHandler.searchYourAggregates .plain .plain (createdFrom 10) none none) := by
  intro h
  have hselected : (YourAggregateHandler.searchYourAggregates .plain .plain (createdFrom 10) none
      none).selects createdEarly = true := by decide
  obtain ⟨_, f, hf, hbounds⟩ := (h createdEarly List.mem_cons_self).mp hselected
  obtain ⟨d, hd, hle⟩ := hbounds.1 10 rfl
  rw [List.mem_singleton.mp hf] at hd
  have hfive : (5 : Int) = d := Option.some.inj hd
  have hten : (10 : Int) ≤ d := hle
  omega

theorem start_time_applied : FiltersApplied .plain [createdEarly] (createdFrom 0)
    (YourAggregateHandler.searchYourAggregates .plain .plain (createdFrom 0) none none) := by
  refine (api_filters_iff .plain .plain [createdEarly] (createdFrom_admitted 0) none none).1.mpr ?_
  intro row hrow _
  rw [List.mem_singleton.mp hrow]
  exact ⟨fun s hs => ⟨5, rfl, by rw [← Option.some.inj hs]; decide⟩, nofun⟩

end DddService
