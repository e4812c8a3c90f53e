import DddService.Pagination
import DddService.SearchFilters
import DddService.Spreadsheet

/- `export_your_aggregates`: the aggregates that a search finds, as a sheet. Whoever goes by
   the header row finds every object's attributes again, each under its own field
   (`createXlsx_tells`), so an export holds each matching aggregate once, in the order of
   the search, and all that the columns promise of it (`export_tells`). -/
namespace DddService

/-! ## Sheets of objects -/

section
variable {α : Type} [CellObject α]

/-- What `create_xlsx` puts into a cell of the object. -/
def attributeOf (dc : Text → Option (CellValue α)) (name : Text) : CellValue α :=
  (dc name).getD (.text "#N/A#".toList)

/-- The row tells what the object is: each output field has a column, and each column that
    the header row names holds that field's value, as `openpyxl` stores it. -/
structure RowTells (openpyxl : Openpyxl α) {dcType : LabelledType} (out : OutputFields dcType)
    (header : List (CellValue α)) (dc : Text → Option (CellValue α)) (row : List (CellValue α)) :
    Prop where
  width : row.length = out.names.length
  columns : ∀ name ∈ out.names,
    ∃ i, (parseSheetHeaderRow (header.map .cell) dcType.toDataclassType).get? i = some name
  cells : ∀ i name,
    (parseSheetHeaderRow (header.map .cell) dcType.toDataclassType).get? i = some name →
      ∃ v, row[i]? = some v ∧ openpyxl.bindValue (attributeOf dc name) = .ok v

variable {openpyxl : Openpyxl α} {dcType : LabelledType} {out : OutputFields dcType}

omit [CellObject α] in
theorem createXlsx_data {title : Text} {dcType : DataclassType} {names : Option (List Text)}
    {dcList : List (Text → Option (CellValue α))} {wb : Workbook α}
    (h : createXlsx openpyxl title dcType dcList names = .ok wb) :
    List.Forall₂ (fun dc row =>
      openpyxl.append ((outputColumns dcType names).map fun f => attributeOf dc f.1) = .ok row)
      dcList wb.rows.tail := by
  unfold createXlsx at h
  cases htitle : openpyxl.setTitle title with
  | error e =>
    rw [htitle] at h
    cases h
  | ok t =>
    rw [htitle] at h
    dsimp only [bind, Except.bind] at h
    split at h
    · cases h
    · split at h
      · cases h
      · next hdata =>
        cases h
        exact Lists.mapM_ok_iff.mp hdata

/-- For every dataclass, output fields and list of objects: a sheet that is made tells of its
    objects, one row each, in their order. -/
theorem createXlsx_tells (hkeeps : ∀ f ∈ dcType.fields, openpyxl.Keeps f.label) {title : Text}
    {dcList : List (Text → Option (CellValue α))} {wb : Workbook α}
    (h : createXlsx openpyxl title dcType.toDataclassType dcList out.outputFields = .ok wb) :
    List.Forall₂ (RowTells openpyxl out (wb.rows.headD [])) dcList wb.rows.tail := by
  obtain ⟨fs, hfs, hnames, hlabels⟩ := header_labels hkeeps h
  -- a reader of the header row finds the output fields in their order
  have hread : ∀ i, (parseSheetHeaderRow ((wb.rows.headD []).map .cell)
      dcType.toDataclassType).get? i = out.names[i]? := by
    intro i
    rw [parseSheetHeaderRow_get?, hlabels, hnames, List.getElem?_map, List.getElem?_map,
      List.getElem?_map]
    cases hi : fs[i]? with
    | none => rfl
    | some f => exact namedBy_cell (hfs f (List.mem_of_getElem? hi))
  have hcolumns : (outputColumns dcType.toDataclassType out.outputFields).map Prod.fst =
      out.names := by
    obtain ⟨fs', -, hnames', hcols⟩ := outputColumns_fields out
    rw [hcols, List.map_map, hnames']
    rfl
  refine (createXlsx_data h).imp fun dc row hrow => ?_
  -- and the values were taken in that order
  have hvalues : (outputColumns dcType.toDataclassType out.outputFields).map
      (fun f => attributeOf dc f.1) = out.names.map (attributeOf dc) := by
    rw [← hcolumns, List.map_map]
    rfl
  rw [hvalues] at hrow
  have hcells := Lists.mapM_ok_iff.mp hrow
  rw [List.forall₂_map_left_iff] at hcells
  obtain ⟨hlength, hget⟩ := List.forall₂_iff_get.mp hcells
  refine ⟨hlength.symm, fun name hname => ?_, fun i name hi => ?_⟩
  · obtain ⟨i, hi⟩ := List.mem_iff_getElem?.mp hname
    exact ⟨i, (hread i).trans hi⟩
  · rw [hread] at hi
    obtain ⟨hlt, rfl⟩ := List.getElem?_eq_some_iff.mp hi
    have hlt' : i < row.length := hlength ▸ hlt
    exact ⟨row[i], List.getElem?_eq_getElem hlt', hget i hlt hlt'⟩

end

/-! ## The export -/

/-- Values of cells that are no texts. -/
inductive ExcelValue where
  | none
  | int (n : Int)
  deriving DecidableEq

instance : CellObject ExcelValue where
  truthy
    | .none => false
    | .int n => n != 0
  str
    | .none => "None".toList
    | .int n => (toString n).toList

/-- `YourAggregateExcel` -/
structure YourAggregateExcel where
  id : String
  propertyA : String
  propertyB : Int
  status : String
  creator : Option String
  createdAt : Option String

namespace YourAggregateExcel

/-- Its fields, with their labels. -/
def dcType : LabelledType where
  fields :=
    [⟨"id".toList, some "ID".toList⟩, ⟨"property_a".toList, some "Property A".toList⟩,
      ⟨"property_b".toList, some "Property B".toList⟩, ⟨"status".toList, some "Status".toList⟩,
      ⟨"creator".toList, some "Creator".toList⟩, ⟨"created_at".toList, some "Created At".toList⟩]
  nodup := by decide
  distinct := by decide
  nonempty := by decide
  stripped := by decide

/-- A cell for `str | None`. -/
def cellOf (s : Option String) : CellValue ExcelValue :=
  s.elim (.other .none) fun s => .text s.toList

/-- `getattr` of a field. -/
def getattr (x : YourAggregateExcel) (name : Text) : Option (CellValue ExcelValue) :=
  (Dict.ofPairs
    [("id".toList, .text x.id.toList), ("property_a".toList, .text x.propertyA.toList),
      ("property_b".toList, .other (.int x.propertyB)), ("status".toList, .text x.status.toList),
      ("creator".toList, cellOf x.creator), ("created_at".toList, cellOf x.createdAt)]).get? name

/-- The row of an aggregate; `convertToDatetimeStr` is `config`'s, of a time. -/
def ofAggregate (convertToDatetimeStr : DateTime → String) (a : YourAggregate) :
    YourAggregateExcel where
  id := a.id
  propertyA := a.yourValueObject.propertyA
  propertyB := a.yourValueObject.propertyB
  status := a.status.value
  creator := a.creator.name
  createdAt := a.createdAt.map convertToDatetimeStr

end YourAggregateExcel

/-- `export_your_aggregates` may return `wb`. -/
def YourAggregateController.ExportYourAggregates (w : WordChars) (env : Env)
    (openpyxl : Openpyxl ExcelValue) (convertToDatetimeStr : DateTime → String)
    (stored : List YourAggregateModel) (r : SearchYourAggregatesRequest)
    (wb : Workbook ExcelValue) : Prop :=
  ∃ result, YourAggregateRepository.SearchYourAggregates w env stored (exportArguments r) result ∧
    createXlsx openpyxl "YourAggregates".toList YourAggregateExcel.dcType.toDataclassType
      (result.results.map fun a => (YourAggregateExcel.ofAggregate convertToDatetimeStr a).getattr)
      none = .ok wb

/-- For every stored set, request and file: the file holds the aggregates that the request's
    statement selects, each once and in its order, and of each one all that its columns say. -/
theorem export_tells {ν : Type} (mixin : RequestMixin ν) (w : WordChars) (env : Env)
    (openpyxl : Openpyxl ExcelValue) (convertToDatetimeStr : DateTime → String)
    (stored : List YourAggregateModel) (q : SearchQuery ν) (wb : Workbook ExcelValue)
    (hkeeps : ∀ f ∈ YourAggregateExcel.dcType.fields, openpyxl.Keeps f.label)
    (hexport : YourAggregateController.ExportYourAggregates w env openpyxl convertToDatetimeStr
      stored (.createStrictly mixin q none none) wb) :
    let statement := YourAggregateHandler.exportYourAggregates mixin w q
    ∃ rows, Paging.Listing (orderByLe statement.orderBy) (stored.filter statement.selects) rows ∧
      List.Forall₂ (fun row cells => ∃ a, YourAggregateRepository.modelToEntity env row = .ok a ∧
        RowTells openpyxl (.all YourAggregateExcel.dcType) (wb.rows.headD [])
          (YourAggregateExcel.ofAggregate convertToDatetimeStr a).getattr cells) rows
        wb.rows.tail := by
  intro statement
  obtain ⟨result, ⟨rows, ⟨-, listing, hlisting, hcut⟩, -, hentities⟩, hsheet⟩ := hexport
  -- no offset and no limit are passed
  have hall : rows = listing := hcut
  have htells : List.Forall₂ (RowTells openpyxl (.all YourAggregateExcel.dcType) (wb.rows.headD []))
      (result.results.map fun a =>
        (YourAggregateExcel.ofAggregate convertToDatetimeStr a).getattr) wb.rows.tail :=
    createXlsx_tells hkeeps hsheet
  rw [List.forall₂_map_left_iff] at htells
  refine ⟨listing, hlisting, ?_⟩
  rw [← hall]
  exact Lists.forall₂_through (Lists.mapM_ok_iff.mp hentities) htells

/-- Every value is stored as it is. -/
def keepingOpenpyxl : Openpyxl ExcelValue := ⟨.ok, .ok⟩

/-- Three aggregates are exported to three rows below the header row. -/
theorem export_tells_three :
    let statement := YourAggregateHandler.exportYourAggregates .plain .plain {}
    let stored := YourAggregateRepository.createdInTurn.rows
    ∃ wb : Workbook ExcelValue, wb.rows.length = 4 ∧
      ∃ rows, Paging.Listing (orderByLe statement.orderBy) (stored.filter statement.selects) rows ∧
        List.Forall₂ (fun row cells => ∃ a,
          YourAggregateRepository.modelToEntity .plain row = .ok a ∧
          RowTells keepingOpenpyxl (.all YourAggregateExcel.dcType) (wb.rows.headD [])
            (YourAggregateExcel.ofAggregate toString a).getattr cells) rows wb.rows.tail := by
  intro statement stored
  obtain ⟨a, b, c, hread⟩ : ∃ a b c, stored.mapM (YourAggregateRepository.modelToEntity .plain) =
      .ok [a, b, c] := ⟨_, _, _, rfl⟩
  have hsearch : YourAggregateRepository.SearchYourAggregates .plain .plain stored
      (YourAggregateController.exportArguments (.createStrictly .plain {} none none))
      ⟨3, [a, b, c]⟩ :=
    ⟨stored, ⟨by decide, stored, ⟨by decide, by decide⟩, rfl⟩, rfl, hread⟩
  obtain ⟨wb, hsheet, hrows⟩ : ∃ wb, createXlsx keepingOpenpyxl "YourAggregates".toList
      YourAggregateExcel.dcType.toDataclassType
      ([a, b, c].map fun a => (YourAggregateExcel.ofAggregate toString a).getattr) none = .ok wb ∧
      wb.rows.length = 4 := ⟨_, rfl, rfl⟩
  exact ⟨wb, hrows, export_tells .plain .plain .plain keepingOpenpyxl toString stored {} wb
    (fun _ _ => rfl) ⟨_, hsearch, hsheet⟩⟩

end DddService
