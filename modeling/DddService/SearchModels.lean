import DddService.Pagination

/- `search_your_aggregate_models` beside `search_your_aggregates`: the same statement, whose
   answer `_search` unpacks in two ways. A result yields a `Row` for each row of the answer.
   `q.scalars()` takes the first column of each, `list(q)` keeps the `Row`s, and a `Row` has
   no other attributes than its columns. `model_to_entity` finds none of those it reads, so
   the two searches agree only where there is nothing to find (`searches_agree_iff`). -/
namespace DddService

/-! ## Attributes -/

/-- What an attribute of a searched object holds. -/
inductive Attribute where
  | text (s : String)
  | json (j : Json)
  | jsons (js : List Json)
  | time (t : Option DateTime)
  | model (m : YourAggregateModel)

namespace Attribute

/-- An attribute of another kind than its reader takes. -/
def mismatch {α : Type} : Except Exc α := .error (.typeError "unexpected attribute type")

def asText : Attribute → Except Exc String
  | text s => .ok s
  | _ => mismatch

def asJson : Attribute → Except Exc Json
  | json j => .ok j
  | _ => mismatch

def asJsons : Attribute → Except Exc (List Json)
  | jsons js => .ok js
  | _ => mismatch

def asTime : Attribute → Except Exc (Option DateTime)
  | time t => .ok t
  | _ => mismatch

end Attribute

/-- The columns of a model object, by name. -/
def YourAggregateModel.getattr (m : YourAggregateModel) (name : String) : Except Exc Attribute :=
  match name with
  | "id" => .ok (.text m.id)
  | "your_value_object" => .ok (.json m.yourValueObject)
  | "status" => .ok (.text m.status)
  | "operation_histories" => .ok (.jsons m.operationHistories)
  | "creator" => .ok (.json m.creator)
  | "created_at" => .ok (.time m.createdAt)
  | "updated_at" => .ok (.time m.updatedAt)
  | _ => .error (.attributeError name)

/-- A `Row` of `select(YourAggregateModel)`: a tuple of one column, which has the name of
    the class. -/
structure Row where
  yourAggregateModel : YourAggregateModel

def Row.getattr (row : Row) (name : String) : Except Exc Attribute :=
  match name with
  | "YourAggregateModel" => .ok (.model row.yourAggregateModel)
  | _ => .error (.attributeError name)

namespace YourAggregateRepository
variable (env : Env)

/-- `model_to_entity` of any object, given its attributes. -/
def modelToEntityOf (getattr : String → Except Exc Attribute) : Except Exc YourAggregate := do
  let id ← (← getattr "id").asText
  let yourValueObject ← env.mixin.createValueObject (← (← getattr "your_value_object").asJson)
  let status ← YourAggregateStatus.ofValue (← (← getattr "status").asText)
  let operationHistories ←
    (← (← getattr "operation_histories").asJsons).mapM env.mixin.createHistory
  let creator ← env.mixin.createUser (← (← getattr "creator").asJson)
  match ← (← getattr "created_at").asTime with
  | none => .error (.attributeError "'NoneType' object has no attribute 'timestamp'")
  | some t => do
    let updatedAt ← (← getattr "updated_at").asTime
    pure (YourAggregate.mk' id yourValueObject status operationHistories creator (some t) updatedAt)

theorem modelToEntityOf_model (m : YourAggregateModel) :
    modelToEntityOf env m.getattr = modelToEntity env m := rfl

/-- A `Row` lacks the first attribute that is read. -/
theorem modelToEntityOf_row (row : Row) :
    modelToEntityOf env row.getattr = .error (.attributeError "id") := rfl

end YourAggregateRepository

/-! ## The two searches -/

/-- The items that `_search` returns. -/
inductive SearchItems where
  | entities (items : List YourAggregate)
  | rows (items : List Row)

namespace RepositoryBase

/-- `q.scalars()` -/
def scalars (q : List Row) : List YourAggregateModel := q.map Row.yourAggregateModel

/-- What `_search` makes of the answer. -/
def unpack (env : Env) (q : List Row) (returnEntity : Bool) : Except Exc SearchItems :=
  if returnEntity then
    ((scalars q).mapM (YourAggregateRepository.modelToEntity env)).map .entities
  else .ok (.rows q)

end RepositoryBase

namespace YourAggregateRepository
open RepositoryBase

section
variable (w : WordChars) (env : Env) (stored : List YourAggregateModel) (a : SearchArguments)

/-- `search_your_aggregate_models`, without `load_fields`, may return `items`. -/
def SearchYourAggregateModels (items : List Row) : Prop :=
  ∃ q, (searchSelect w a).Returns stored (scalars q) ∧ unpack env q false = .ok (.rows items)

theorem searchYourAggregates_unpack (result : SearchResult) :
    SearchYourAggregates w env stored a result ↔
      ∃ q, (searchSelect w a).Returns stored (scalars q) ∧
        result.total = (searchSelect w a).count stored ∧
        unpack env q true = .ok (.entities result.results) := by
  have hscalars : ∀ rows : List YourAggregateModel, scalars (rows.map Row.mk) = rows := by
    intro rows
    simp [scalars, Function.comp_def]
  have hunpack : ∀ q, unpack env q true = .ok (.entities result.results) ↔
      (scalars q).mapM (modelToEntity env) = .ok result.results := by
    intro q
    show Except.map _ _ = _ ↔ _
    cases (scalars q).mapM (modelToEntity env) with
    | error e => simp [Except.map]
    | ok items => simp [Except.map]
  constructor
  · rintro ⟨rows, hrows, htotal, hread⟩
    refine ⟨rows.map Row.mk, ?_, htotal, ?_⟩
    · rw [hscalars]
      exact hrows
    · rw [hunpack, hscalars]
      exact hread
  · rintro ⟨q, hrows, htotal, hread⟩
    exact ⟨scalars q, hrows, htotal, (hunpack q).mp hread⟩

end

variable {w : WordChars} {env : Env} {stored : StoredAggregates env} {a : SearchArguments}

/-- Whatever the database answers the two statements, `model_to_entity` of each element of
    the one result is the element of the other. -/
def SearchesAgree (w : WordChars) (stored : StoredAggregates env) (a : SearchArguments) : Prop :=
  ∀ items result, SearchYourAggregateModels w env stored.rows a items →
    SearchYourAggregates w env stored.rows a result →
    items.mapM (fun item => modelToEntityOf env item.getattr) = .ok result.results

theorem length_cut (q : Select) (rows : List YourAggregateModel) :
    (q.cut rows).length = if q.limit > 0 then min q.limit.toNat (rows.length - q.offset.toNat)
      else rows.length - q.offset.toNat := by
  unfold Select.cut
  dsimp only
  split
  · rw [List.length_take, List.length_drop]
  · rw [List.length_drop]

theorem cut_sublist (q : Select) (rows : List YourAggregateModel) : (q.cut rows).Sublist rows := by
  unfold Select.cut
  dsimp only
  split
  · exact (List.take_sublist _ _).trans (List.drop_sublist _ _)
  · exact List.drop_sublist _ _

theorem cut_eq_nil_iff (q : Select) (hq : 0 ≤ q.offset) (rows : List YourAggregateModel) :
    q.cut rows = [] ↔ (rows.length : Int) ≤ q.offset := by
  rw [← List.length_eq_zero_iff, length_cut]
  split <;> omega

/-- A search that selects nothing has one result in both forms. -/
theorem agree_of_nothing (h : ((matching w stored a).length : Int) ≤ a.offset) :
    SearchesAgree w stored a := by
  have hnil : ∀ rows, (searchSelect w a).Returns stored.rows rows → rows = [] := by
    rintro rows ⟨hoffset, listing, hlisting, rfl⟩
    rw [cut_eq_nil_iff _ hoffset, hlisting.perm.length_eq]
    exact h
  rintro items result ⟨q, hq, hitems⟩ ⟨rows, hrows, _, hread⟩
  cases hitems
  have hq' : items = [] := List.map_eq_nil_iff.mp (hnil _ hq)
  rw [hnil rows hrows] at hread
  have hresults : [] = result.results := Except.ok.inj hread
  rw [hq', ← hresults]
  rfl

/-- The first `Row` that is found raises. -/
theorem not_agree_of_some (ho : 0 ≤ a.offset) (h : a.offset < (matching w stored a).length) :
    ¬SearchesAgree w stored a := by
  intro hagree
  obtain ⟨listing, hlisting⟩ := Paging.Listing.exists_of
    (orderByLe_comparison (searchSelect w a).orderBy) (matching w stored a)
  let rows := (searchSelect w a).cut listing
  have hreturns : (searchSelect w a).Returns stored.rows rows := ⟨ho, listing, hlisting, rfl⟩
  have hreadable : ∀ row ∈ rows, ∃ e, modelToEntity env row = .ok e := by
    intro row hrow
    have hmem : row ∈ listing := (cut_sublist (searchSelect w a) listing).subset hrow
    exact stored.readable row (List.mem_filter.mp (hlisting.mem_iff.mp hmem)).1
  obtain ⟨es, hes⟩ := Lists.mapM_ok_of_forall hreadable
  have hsome : rows ≠ [] := by
    intro hnil
    have hle : (listing.length : Int) ≤ a.offset :=
      (cut_eq_nil_iff (searchSelect w a) ho listing).mp hnil
    rw [hlisting.perm.length_eq] at hle
    omega
  obtain ⟨row, rest, hrest⟩ := List.exists_cons_of_ne_nil hsome
  have hfound : SearchYourAggregateModels w env stored.rows a (rows.map Row.mk) := by
    refine ⟨rows.map Row.mk, ?_, rfl⟩
    simpa [scalars, Function.comp_def] using hreturns
  have hread := hagree _ ⟨_, es⟩ hfound ⟨rows, hreturns, rfl, hes⟩
  rw [hrest, List.map_cons, List.mapM_cons, modelToEntityOf_row] at hread
  cases hread

/-- The two searches agree just where they find nothing: no row is left after the offset,
    or the offset is negative and the database refuses both. -/
theorem searches_agree_iff (w : WordChars) (stored : StoredAggregates env) (a : SearchArguments) :
    SearchesAgree w stored a ↔
      a.offset < 0 ∨ ((matching w stored a).length : Int) ≤ a.offset := by
  constructor
  · intro hagree
    by_contra hsome
    exact not_agree_of_some (by omega) (by omega) hagree
  · rintro (hnegative | hnothing)
    · rintro items result _ ⟨rows, ⟨hoffset, _⟩, _⟩
      have hoffset : 0 ≤ a.offset := hoffset
      omega
    · exact agree_of_nothing hnothing

/-- Three aggregates are stored and searched for without arguments. -/
theorem searches_disagree : ¬SearchesAgree .plain createdInTurn {} :=
  not_agree_of_some (by decide) (by decide)

end YourAggregateRepository

end DddService
