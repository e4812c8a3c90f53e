import DddService.Basic
import DddService.Lib.Dict
import DddService.Lib.PyText
import DddService.Lib.Lists

/- `packages/dataclass2excel`: sheets of dataclass objects, and the reading of their header
   rows. `create_xlsx` heads a column with the label of its field, and
   `parse_sheet_header_row` looks the labels up again. It takes a header for its value if it
   is a `Cell`; of a plain text it takes nothing, so a header row is read back exactly where
   all its headers are cells (`header_round_trip_iff`). -/
namespace DddService

/-- A field of a dataclass, with the `alias` of its metadata. -/
structure DataclassField where
  name : Text
  metadataAlias : Option Text

/-- `f.metadata.get("alias", f.name)` -/
def DataclassField.label (f : DataclassField) : Text := f.metadataAlias.getD f.name

/-- A dataclass by `dataclasses.fields`: no two have the same name. -/
structure DataclassType where
  fields : List DataclassField
  nodup : (fields.map (·.name)).Nodup

/-- What a cell holds: a text, or a value of another type. -/
inductive CellValue (α : Type) where
  | text (s : Text)
  | other (v : α)

/-- What `openpyxl` makes of a title and of a value that is put into a cell. -/
structure Openpyxl (α : Type) where
  setTitle : Text → Except Exc Text
  bindValue : CellValue α → Except Exc (CellValue α)

/-- The built-in functions on values that are no texts. -/
class CellObject (α : Type) where
  truthy : α → Bool
  str : α → Text

/-- A sheet and its title. -/
structure Workbook (α : Type) where
  title : Text
  rows : List (List (CellValue α))

section
variable {α : Type} (openpyxl : Openpyxl α)

/-- `ws.append` -/
def Openpyxl.append (values : List (CellValue α)) : Except Exc (List (CellValue α)) :=
  values.mapM openpyxl.bindValue

/-- `fields`: the columns by field name and label. -/
def outputColumns (dcType : DataclassType) (outputFields : Option (List Text)) :
    List (Text × Text) :=
  match outputFields with
  | some names =>
    let fieldsMapping := Dict.ofPairs (dcType.fields.map fun f => (f.name, f.label))
    names.map fun f => (f, (fieldsMapping.get? f).getD f)
  | none => dcType.fields.map fun f => (f.name, f.label)

/-- `create_xlsx`. An object is given by what `getattr` finds on it; the file is the
    workbook. -/
def createXlsx (title : Text) (dcType : DataclassType)
    (dcList : List (Text → Option (CellValue α))) (outputFields : Option (List Text)) :
    Except Exc (Workbook α) := do
  let title ← openpyxl.setTitle title
  let fields := outputColumns dcType outputFields
  let header ← openpyxl.append (fields.map fun f => .text f.2)
  let rows ← dcList.mapM fun dc =>
    openpyxl.append (fields.map fun f => (dc f.1).getD (.text "#N/A#".toList))
  pure ⟨title, header :: rows⟩

def getFieldNames (dcType : DataclassType) : List Text := dcType.fields.map (·.label)

/-- An element of a header row: `Cell | str`. -/
inductive Header (α : Type) where
  | cell (value : CellValue α)
  | str (s : Text)

def Header.isCell : Header α → Bool
  | .cell _ => true
  | .str _ => false

variable [CellObject α]

/-- The text `v` that is looked up: `str(v or "").strip()`. -/
def headerText : Header α → Text
  | .cell (.text s) => PyText.strip s
  | .cell (.other v) => PyText.strip (if CellObject.truthy v then CellObject.str v else [])
  -- `v` is still `None`
  | .str _ => PyText.strip []

def parseSheetHeaderRow (headerRow : List (Header α)) (dcType : DataclassType) : Dict Nat Text :=
  let fieldsMapping := Dict.ofPairs (dcType.fields.map fun f => (f.label, f.name))
  headerRow.zipIdx.foldl (fun result h =>
    match fieldsMapping.get? (headerText h.1) with
    | some name => result.set h.2 name
    | none => result) .empty

end

/-! ## What is asked -/

/-- A dataclass whose columns can be told apart by their labels. -/
structure LabelledType extends DataclassType where
  distinct : (fields.map (·.label)).Nodup
  nonempty : ∀ f ∈ fields, f.label ≠ []
  stripped : ∀ f ∈ fields, PyText.strip f.label = f.label

/-- An `output_fields` of field names of the type, or `None`. -/
structure OutputFields (dcType : LabelledType) where
  outputFields : Option (List Text)
  known : ∀ names, outputFields = some names → ∀ n ∈ names, n ∈ dcType.fields.map (·.name)

/-- No `output_fields`: all the fields of the type. -/
def OutputFields.all (dcType : LabelledType) : OutputFields dcType where
  outputFields := none
  known := by
    intro names h
    cases h

/-- The output fields, in the order of their columns. -/
def OutputFields.names {dcType : LabelledType} (out : OutputFields dcType) : List Text :=
  out.outputFields.getD (dcType.fields.map (·.name))

section
variable {α : Type}

/-- The label goes into a cell as it is. -/
def Openpyxl.Keeps (openpyxl : Openpyxl α) (label : Text) : Prop :=
  openpyxl.bindValue (.text label) = .ok (.text label)

/-- A header as it stands for a cell of the sheet: the cell itself, or its text. -/
inductive Gives : Header α → CellValue α → Prop where
  | cell (value : CellValue α) : Gives (.cell value) value
  | str (s : Text) : Gives (.str s) (.text s)

variable [CellObject α]

/-- The header row reads as the output fields, each at the index of its column. -/
def ReadsBack (dcType : LabelledType) (out : OutputFields dcType) (headerRow : List (Header α)) :
    Prop :=
  ∀ i, (parseSheetHeaderRow headerRow dcType.toDataclassType).get? i = out.names[i]?

end

/-! ## What is written -/

section
variable {α : Type} {openpyxl : Openpyxl α} {dcType : LabelledType} {out : OutputFields dcType}

theorem fields_of_names {fields : List DataclassField} {names : List Text}
    (h : ∀ n ∈ names, n ∈ fields.map (·.name)) :
    ∃ fs : List DataclassField, (∀ f ∈ fs, f ∈ fields) ∧ names = fs.map (·.name) := by
  induction names with
  | nil => exact ⟨[], by simp, rfl⟩
  | cons n names ih =>
    obtain ⟨fs, hfs, rfl⟩ := ih fun m hm => h m (by simp [hm])
    obtain ⟨f, hf, rfl⟩ := List.mem_map.mp (h n (by simp))
    exact ⟨f :: fs, List.forall_mem_cons.mpr ⟨hf, hfs⟩, rfl⟩

theorem outputColumns_fields (out : OutputFields dcType) :
    ∃ fs : List DataclassField, (∀ f ∈ fs, f ∈ dcType.fields) ∧ out.names = fs.map (·.name) ∧
      outputColumns dcType.toDataclassType out.outputFields =
        fs.map fun f => (f.name, f.label) := by
  obtain ⟨outputFields, hknown⟩ := out
  cases outputFields with
  | none => exact ⟨dcType.fields, fun f hf => hf, rfl, rfl⟩
  | some names =>
    obtain ⟨fs, hfs, rfl⟩ := fields_of_names (hknown names rfl)
    refine ⟨fs, hfs, rfl, ?_⟩
    have hkeys : ((dcType.fields.map fun f => (f.name, f.label)).map Prod.fst).Nodup := by
      rw [List.map_map]
      exact dcType.nodup
    unfold outputColumns
    dsimp only
    rw [List.map_map]
    refine List.map_congr_left fun f hf => ?_
    have hlabel := (Dict.get?_ofPairs hkeys).mpr (List.mem_map_of_mem (hfs f hf))
    dsimp only [Function.comp] at hlabel ⊢
    rw [hlabel]
    rfl

theorem append_kept {values : List (CellValue α)}
    (h : ∀ v ∈ values, openpyxl.bindValue v = .ok v) : openpyxl.append values = .ok values :=
  Lists.mapM_ok_iff.mpr (List.forall₂_same.mpr h)

theorem createXlsx_header {title : Text} {dcType : DataclassType} {names : Option (List Text)}
    {dcList : List (Text → Option (CellValue α))} {wb : Workbook α}
    (h : createXlsx openpyxl title dcType dcList names = .ok wb) :
    openpyxl.append ((outputColumns dcType names).map fun f => .text f.2) =
      .ok (wb.rows.headD []) := by
  unfold createXlsx at h
  cases htitle : openpyxl.setTitle title with
  | error e =>
    rw [htitle] at h
    cases h
  | ok t =>
    rw [htitle] at h
    dsimp only [bind, Except.bind] at h
    cases hheader : openpyxl.append ((outputColumns dcType names).map fun f => .text f.2) with
    | error e =>
      rw [hheader] at h
      cases h
    | ok header =>
      rw [hheader] at h
      dsimp only at h
      split at h
      · cases h
      · cases h
        rfl

/-- The header row holds the labels of the output fields. -/
theorem header_labels (hkeeps : ∀ f ∈ dcType.fields, openpyxl.Keeps f.label) {title : Text}
    {dcList : List (Text → Option (CellValue α))} {wb : Workbook α}
    (h : createXlsx openpyxl title dcType.toDataclassType dcList out.outputFields = .ok wb) :
    ∃ fs : List DataclassField, (∀ f ∈ fs, f ∈ dcType.fields) ∧ out.names = fs.map (·.name) ∧
      wb.rows.headD [] = fs.map fun f => .text f.label := by
  obtain ⟨fs, hfs, hnames, hcolumns⟩ := outputColumns_fields out
  have hheader := createXlsx_header h
  have hkept : openpyxl.append (fs.map fun f => .text f.label) =
      .ok (fs.map fun f => .text f.label) := by
    refine append_kept fun v hv => ?_
    obtain ⟨f, hf, rfl⟩ := List.mem_map.mp hv
    exact hkeeps f (hfs f hf)
  rw [hcolumns, List.map_map] at hheader
  exact ⟨fs, hfs, hnames, (Except.ok.inj (hkept.symm.trans hheader)).symm⟩

/-! ## What is read -/

variable [CellObject α]

/-- The field that a header text names. -/
def namedBy (dcType : DataclassType) (h : Header α) : Option Text :=
  (Dict.ofPairs (dcType.fields.map fun f => (f.label, f.name))).get? (headerText h)

theorem parseSheetHeaderRow_get? (headerRow : List (Header α)) (dcType : DataclassType) (i : Nat) :
    (parseSheetHeaderRow headerRow dcType).get? i = headerRow[i]?.bind (namedBy dcType) := by
  unfold parseSheetHeaderRow
  induction headerRow using List.reverseRecOn with
  | nil => rfl
  | append_singleton headers h ih =>
    rw [List.zipIdx_append, List.foldl_append]
    dsimp only [List.zipIdx_cons, List.zipIdx_nil, List.foldl_cons, List.foldl_nil] at ih ⊢
    have hnamed : (Dict.ofPairs (dcType.fields.map fun f => (f.label, f.name))).get?
        (headerText h) = namedBy dcType h := rfl
    rw [hnamed]
    by_cases hi : i = headers.length
    · subst hi
      have hlast : (headers ++ [h])[headers.length]? = some h := by simp
      have hnone : headers[headers.length]? = none := by simp
      rw [hlast]
      rw [hnone] at ih
      cases hn : namedBy dcType h with
      | none =>
        dsimp only
        rw [ih]
        exact hn.symm
      | some name =>
        rw [Dict.get?_set, if_pos (by simp)]
        exact hn.symm
    · have hsame : (headers ++ [h])[i]? = headers[i]? := by
        rcases Nat.lt_or_gt_of_ne hi with hlt | hgt
        · exact List.getElem?_append_left hlt
        · rw [List.getElem?_eq_none (by simp; omega), List.getElem?_eq_none (by omega)]
      rw [hsame, ← ih]
      cases namedBy dcType h with
      | none => rfl
      | some name => rw [Dict.get?_set, if_neg (by simpa using hi)]

theorem labels_nodup (dcType : LabelledType) :
    ((dcType.fields.map fun f => (f.label, f.name)).map Prod.fst).Nodup := by
  rw [List.map_map]
  exact dcType.distinct

theorem namedBy_cell {f : DataclassField} (hf : f ∈ dcType.fields) :
    namedBy dcType.toDataclassType (.cell (.text f.label) : Header α) = some f.name := by
  unfold namedBy
  rw [show headerText (.cell (.text f.label) : Header α) = f.label from dcType.stripped f hf]
  exact (Dict.get?_ofPairs (labels_nodup dcType)).mpr (List.mem_map_of_mem hf)

/-- A plain text names nothing: no label is empty. -/
theorem namedBy_str (s : Text) :
    namedBy dcType.toDataclassType (.str s : Header α) = none := by
  rw [Option.eq_none_iff_forall_ne_some]
  intro name h
  obtain ⟨f, hf, hlabel⟩ := List.mem_map.mp ((Dict.get?_ofPairs (labels_nodup dcType)).mp h)
  exact dcType.nonempty f hf (congrArg Prod.fst hlabel)

/-! ## When the header row is read back -/

/-- For every type, output fields and sheet, with each header given as a cell or as a text:
    the header row reads back if and only if all headers are given as cells. -/
theorem header_round_trip_iff {title : Text} {dcList : List (Text → Option (CellValue α))}
    {wb : Workbook α} {headerRow : List (Header α)}
    (hkeeps : ∀ f ∈ dcType.fields, openpyxl.Keeps f.label)
    (h : createXlsx openpyxl title dcType.toDataclassType dcList out.outputFields = .ok wb)
    (hgives : List.Forall₂ Gives headerRow (wb.rows.headD [])) :
    ReadsBack dcType out headerRow ↔ ∀ header ∈ headerRow, header.isCell = true := by
  obtain ⟨fs, hfs, hnames, hlabels⟩ := header_labels hkeeps h
  rw [hlabels, List.forall₂_map_right_iff] at hgives
  obtain ⟨hlength, hgives⟩ := List.forall₂_iff_get.mp hgives
  -- cell by cell: what the header at an index names is the name of the field there
  have hread : ReadsBack dcType out headerRow ↔
      ∀ i : Nat, headerRow[i]?.bind (namedBy dcType.toDataclassType) = fs[i]?.map (fun f : DataclassField => f.name) := by
    refine forall_congr' fun i => ?_
    rw [parseSheetHeaderRow_get?, hnames, List.getElem?_map]
  rw [hread]
  constructor
  · -- a text among the headers would name nothing, where there is a field
    intro hall header hmem
    obtain ⟨i, hi, rfl⟩ := List.getElem_of_mem hmem
    have hi' : i < fs.length := hlength ▸ hi
    have hname := hall i
    rw [List.getElem?_eq_getElem hi, List.getElem?_eq_getElem hi'] at hname
    cases hheader : headerRow[i] with
    | cell value => rfl
    | str s =>
      rw [hheader, Option.bind_some, namedBy_str] at hname
      cases hname
  · intro hcells i
    rcases Nat.lt_or_ge i headerRow.length with hi | hi
    · have hi' : i < fs.length := hlength ▸ hi
      have hgiven := hgives i hi hi'
      have hcell := hcells headerRow[i] (List.getElem_mem hi)
      rw [List.get_eq_getElem, List.get_eq_getElem] at hgiven
      rw [List.getElem?_eq_getElem hi, List.getElem?_eq_getElem hi', Option.bind_some]
      cases hheader : headerRow[i] with
      | str s =>
        rw [hheader] at hcell
        cases hcell
      | cell value =>
        rw [hheader] at hgiven
        cases hgiven
        exact namedBy_cell (hfs _ (List.getElem_mem hi'))
    · rw [List.getElem?_eq_none hi, List.getElem?_eq_none (by omega)]
      rfl

end

/-! ## Two sheets -/

/-- Texts are cut to what a cell can hold. -/
def cuttingOpenpyxl : Openpyxl Nat where
  setTitle := .ok
  bindValue
    | .text s => .ok (.text (s.take 32767))
    | .other v => .ok (.other v)

instance : CellObject Nat where
  truthy v := v != 0
  str v := (toString v).toList

/-- A dataclass with three fields, of which two have a label of their own. -/
def orderType : LabelledType where
  fields := [⟨"id".toList, some "ID".toList⟩, ⟨"name".toList, none⟩,
    ⟨"status".toList, some "State".toList⟩]
  nodup := by decide
  distinct := by decide
  nonempty := by decide
  stripped := by decide

def statusAndId : OutputFields orderType where
  outputFields := some ["status".toList, "id".toList]
  known := by
    intro names h
    cases h
    decide

/-- The sheet of one object, with two of its fields in another order. -/
def orderSheet : Workbook Nat :=
  ⟨"orders".toList, [[.text "State".toList, .text "ID".toList], [.text "#N/A#".toList, .other 7]]⟩

def orderHeaders : List (Header Nat) :=
  [.cell (.text "State".toList), .cell (.text "ID".toList)]

theorem header_round_trip_reordered : ReadsBack orderType statusAndId orderHeaders := by
  have hkeeps : ∀ f ∈ orderType.fields, cuttingOpenpyxl.Keeps f.label := by
    intro f hf
    simp only [orderType, List.mem_cons, List.not_mem_nil, or_false] at hf
    obtain rfl | rfl | rfl := hf <;> rfl
  have h : createXlsx cuttingOpenpyxl "orders".toList orderType.toDataclassType
      [fun name => if name = "id".toList then some (.other 7) else none]
      statusAndId.outputFields = .ok orderSheet := rfl
  exact (header_round_trip_iff hkeeps h (.cons (.cell _) (.cons (.cell _) .nil))).mpr (by decide)

/-- A dataclass with the field `id`, headed by `ID`. -/
def idType : LabelledType where
  fields := [⟨"id".toList, some "ID".toList⟩]
  nodup := by decide
  distinct := by decide
  nonempty := by decide
  stripped := by decide

/-- Given as plain texts, the header row of the sheet reads as no field at all. -/
theorem header_of_text_lost :
    ∃ wb : Workbook Nat,
      createXlsx cuttingOpenpyxl "ids".toList idType.toDataclassType [] none = .ok wb ∧
      List.Forall₂ Gives [.str "ID".toList] (wb.rows.headD []) ∧
      ¬ ReadsBack idType (.all idType) [(.str "ID".toList : Header Nat)] := by
  refine ⟨⟨"ids".toList, [[.text "ID".toList]]⟩, rfl, .cons (.str _) .nil, fun h => ?_⟩
  have hzero := h 0
  cases hzero

end DddService
