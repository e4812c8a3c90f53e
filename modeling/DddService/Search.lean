import DddService.Repository
import DddService.Lib.Dict
import DddService.Lib.Regex
import DddService.Lib.Paging

/- Searching: from the query parameters of a request to the statements the
   repository sends and what the database may answer. A condition of a WHERE clause
   is the set of the rows for which it is true. An ORDER BY leaves rows equal when
   every one of its expressions does, and the database may return those in any
   order, anew for each statement (`Select.Returns`). -/
namespace DddService

/-! ## Characters -/

/-- The characters `\w` matches: Unicode's letters and digits and the underscore.
    Of their table only the ASCII part is used. -/
structure WordChars where
  isWord : Char → Bool
  ascii : ∀ c : Char, c.toNat < 128 → isWord c = (c.isAlphanum || c == '_')

/-- The table without the letters beyond ASCII. -/
def WordChars.plain : WordChars := ⟨fun c => c.isAlphanum || c == '_', fun _ _ => rfl⟩

namespace WordChars
variable (w : WordChars)

/-- `(\w+)$`: the `$` also matches before a newline at the end. -/
def matchWord (s : List Char) : Option (List Char) :=
  let word := if s.getLast? = some '\n' then s.dropLast else s
  if word ≠ [] ∧ word.all w.isWord = true then some word else none

end WordChars

/-! ## Statements -/

/-- The columns of `YourAggregateModel` that a search names. -/
inductive InstrumentedAttribute where
  | id | yourValueObject | status | createdAt
  deriving DecidableEq, Repr

structure SearchKeyField where
  column : InstrumentedAttribute
  jsonPath : Option String
  deriving DecidableEq, Repr

/-- `sa.asc(column)` and `sa.desc(column)` -/
inductive UnaryExpression (κ : Type) where
  | asc (column : κ)
  | desc (column : κ)
  deriving DecidableEq, Repr

/-- A condition of a WHERE clause: the rows for which it is true. -/
abbrev ColumnExpression := YourAggregateModel → Bool

/-- `$.name`, the member of that name, where it is a text. -/
def Json.textAt (path : String) (j : Json) : Option String :=
  match path.toList with
  | '$' :: '.' :: name => (j.get? (String.ofList name)).bind Json.asStr?
  | _ => none

/-- The text that a search of the field reads in a row. -/
def SearchKeyField.text (f : SearchKeyField) (row : YourAggregateModel) : Option String :=
  match f.column, f.jsonPath with
  | .yourValueObject, some path => row.yourValueObject.textAt path
  | .id, _ => some row.id
  | .status, _ => some row.status
  | _, _ => none

/-- Whether the regular expression matches somewhere in the value. -/
def regexpMatch (regexp value : String) : Bool :=
  (Regex.parse false regexp.toList).any fun r => Regex.search r value.toList

/-- The ascending order of a nullable column: `NULL` comes last. -/
def nullsLast : Option Int → Option Int → Bool
  | _, none => true
  | none, some _ => false
  | some a, some b => decide (a ≤ b)

/-- Whether a column in ascending order allows one row before another. No search sorts by
    a column other than `created_at`. -/
def InstrumentedAttribute.le (column : InstrumentedAttribute) (a b : YourAggregateModel) : Bool :=
  match column with
  | .createdAt => nullsLast a.createdAt b.createdAt
  | .id | .status | .yourValueObject => true

def UnaryExpression.le : UnaryExpression InstrumentedAttribute →
    YourAggregateModel → YourAggregateModel → Bool
  | .asc column, a, b => column.le a b
  | .desc column, a, b => column.le b a

/-- The order of an ORDER BY list: the first expression that tells the rows apart decides. -/
def orderByLe : List (UnaryExpression InstrumentedAttribute) →
    YourAggregateModel → YourAggregateModel → Bool
  | [], _, _ => true
  | e :: es, a, b => e.le a b && (!e.le b a || orderByLe es a b)

/-- `select(YourAggregateModel).where(..).order_by(..).offset(..).limit(..)`; a limit that
    is not positive is left out. -/
structure Select where
  filters : List ColumnExpression
  orderBy : List (UnaryExpression InstrumentedAttribute)
  offset : Int
  limit : Int

namespace Select

/-- The WHERE clause: the conjunction of the filters. -/
def selects (q : Select) (row : YourAggregateModel) : Bool := q.filters.all fun f => f row

/-- OFFSET and LIMIT, on the rows in order. -/
def cut (q : Select) (rows : List YourAggregateModel) : List YourAggregateModel :=
  let rest := rows.drop q.offset.toNat
  if q.limit > 0 then rest.take q.limit.toNat else rest

/-- The database may answer with `rows`: it lists the selected rows in some order that the
    ORDER BY allows. A negative OFFSET is refused. -/
def Returns (q : Select) (stored rows : List YourAggregateModel) : Prop :=
  0 ≤ q.offset ∧ ∃ listing,
    Paging.Listing (orderByLe q.orderBy) (stored.filter q.selects) listing ∧ rows = q.cut listing

/-- `select(count()).where(..)`, with the same WHERE clause. -/
def count (q : Select) (stored : List YourAggregateModel) : Nat :=
  (stored.filter q.selects).length

end Select

/-! ## RepositoryBase -/

/-- The operators of a search key field. -/
inductive SearchOperator where
  | starts | ends | equals
  deriving DecidableEq, Repr

namespace SearchOperator

def all : List SearchOperator := [starts, ends, equals]

/-- The operator's name and the colon. -/
def prefixText : SearchOperator → String
  | starts => "starts:"
  | ends => "ends:"
  | equals => "equals:"

end SearchOperator

namespace RepositoryBase
variable (w : WordChars)

/-- `^((?P<operator>starts|ends|equals):)?(?P<search_key_field>\w+)$`. The colon is no
    word character, so a text that has an operator's name and colon does not match without. -/
def matchSearchKeyField (s : List Char) : Option (Option SearchOperator × List Char) :=
  match SearchOperator.all.find? fun op => op.prefixText.toList.isPrefixOf s with
  | some op => (w.matchWord (s.drop op.prefixText.toList.length)).map (some op, ·)
  | none => (w.matchWord s).map (none, ·)

def createSearchKeyRegexp (searchKeyField : String) (searchKeys : List String) :
    String × String :=
  let searchKeyRegexp := "|".intercalate
    (searchKeys.map fun k => String.ofList (Regex.escape k.toList))
  match matchSearchKeyField w searchKeyField.toList with
  | some (some .starts, field) => (String.ofList field, "^" ++ searchKeyRegexp)
  | some (some .ends, field) => (String.ofList field, searchKeyRegexp ++ "$")
  | some (some .equals, field) => (String.ofList field, "^" ++ searchKeyRegexp ++ "$")
  | some (none, field) => (String.ofList field, searchKeyRegexp)
  | none => (searchKeyField, searchKeyRegexp)

/-- `^([\-\+]?)(\w+)$`; the signs are no word characters. -/
def matchSort (sort : String) : Option (String × String) :=
  match sort.toList with
  | '-' :: field => (w.matchWord field).map fun f => ("-", String.ofList f)
  | '+' :: field => (w.matchWord field).map fun f => ("+", String.ofList f)
  | field => (w.matchWord field).map fun f => ("", String.ofList f)

section
variable {κ : Type} (sortByFields : Dict String κ)

/-- The loop of `create_sort_by_exp`, after the fields of `usedFields`. -/
def sortByLoop (usedFields : List String) : List String → List (UnaryExpression κ)
  | [] => []
  | sort :: rest =>
    match matchSort w sort with
    | none => sortByLoop usedFields rest
    | some (order, field) =>
      match sortByFields.get? field with
      | none => sortByLoop usedFields rest
      | some column =>
        if field ∈ usedFields then sortByLoop usedFields rest
        else (if order = "-" then .desc column else .asc column) ::
          sortByLoop (field :: usedFields) rest

def createSortByExp (sortBy : List String) : List (UnaryExpression κ) :=
  sortByLoop w sortByFields [] sortBy

/-- The ORDER BY list of `_search`. -/
def searchOrderBy (sortBy : List String) : List (UnaryExpression κ) :=
  let sortByExp := createSortByExp w sortByFields sortBy
  if sortByExp.isEmpty then createSortByExp w sortByFields ["-created"] else sortByExp

end

/-- The conditions that `_search` makes of the search keys, one for each known field. -/
def searchKeyFilters (searchKeyFields : Dict String SearchKeyField) (fields keys : List String) :
    List ColumnExpression :=
  fields.filterMap fun searchKeyField =>
    let (f, searchKeyRegexp) := createSearchKeyRegexp w searchKeyField keys
    (searchKeyFields.get? f).map fun s row => (s.text row).any (regexpMatch searchKeyRegexp)

/-- The statement of `_search`. -/
def searchStatement (searchKeyFields : Dict String SearchKeyField)
    (sortByFields : Dict String InstrumentedAttribute) (filters : List ColumnExpression)
    (fields : List String) (keys : Option (List String)) (sortBy : List String)
    (offset limit : Int) : Select :=
  let keyFilters := match keys with
    | none | some [] => []
    | some keys => searchKeyFilters w searchKeyFields fields keys
  let anyOf : List ColumnExpression :=
    if keyFilters.isEmpty then [] else [fun row => keyFilters.any fun f => f row]
  { filters := filters ++ anyOf, orderBy := searchOrderBy w sortByFields sortBy, offset, limit }

end RepositoryBase

/-! ## YourAggregateRepository -/

/-- `SearchDateField.CREATED_AT.value` -/
def SearchDateField.createdAt : String := "created_at"

/-- The arguments of `search_your_aggregates`. -/
structure SearchArguments where
  ids : Option (List String) := none
  statuses : Option (List String) := none
  dateFields : Option (List String) := none
  startTime : Option DateTime := none
  endTime : Option DateTime := none
  searchKeyFields : Option (List String) := none
  searchKeys : Option (List String) := none
  sortBy : Option (List String) := none
  offset : Int := 0
  limit : Int := 0

structure SearchResult where
  total : Nat
  results : List YourAggregate

namespace YourAggregateRepository
variable (w : WordChars)

def searchKeyFields : Dict String SearchKeyField :=
  Dict.empty.set "your_value_object_a" ⟨.yourValueObject, some "$.property_a"⟩

def sortByFields : Dict String InstrumentedAttribute := Dict.empty.set "created_at" .createdAt

/-- The conditions of one date field: none for a field that is not known. -/
def dateFilters (startTime endTime : Option DateTime) (dateField : String) :
    List ColumnExpression :=
  if dateField = SearchDateField.createdAt then
    (startTime.map fun t row => row.createdAt.any (t ≤ ·)).toList ++
      (endTime.map fun t row => row.createdAt.any (· ≤ t)).toList
  else []

/-- `_get_search_filters` -/
def getSearchFilters (ids statuses dateFields : Option (List String))
    (startTime endTime : Option DateTime) : List ColumnExpression :=
  let idFilters : List ColumnExpression := (ids.map fun ids row => ids.contains row.id).toList
  let statusFilters : List ColumnExpression :=
    (statuses.map fun statuses row => statuses.contains row.status).toList
  let dateFilters : List (List ColumnExpression) := (dateFields.getD []).filterMap fun dateField =>
    let fs := dateFilters startTime endTime dateField
    if fs.isEmpty then none else some fs
  let anyDate : List ColumnExpression :=
    if dateFilters.isEmpty then []
    else [fun row => dateFilters.any fun fs => fs.all fun f => f row]
  idFilters ++ statusFilters ++ anyDate

/-- The statement of `search_your_aggregates`. -/
def searchSelect (a : SearchArguments) : Select :=
  RepositoryBase.searchStatement w searchKeyFields sortByFields
    (getSearchFilters a.ids a.statuses a.dateFields a.startTime a.endTime)
    (a.searchKeyFields.getD []) a.searchKeys (a.sortBy.getD []) a.offset a.limit

/-- `search_your_aggregates` may return `result`: the count of one statement, and the
    entities of the rows that the database answers the other with. -/
def SearchYourAggregates (env : Env) (stored : List YourAggregateModel) (a : SearchArguments)
    (result : SearchResult) : Prop :=
  ∃ rows, (searchSelect w a).Returns stored rows ∧
    result.total = (searchSelect w a).count stored ∧
    rows.mapM (modelToEntity env) = .ok result.results

end YourAggregateRepository

end DddService
