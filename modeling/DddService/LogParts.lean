import DddService.LogLines
import DddService.Lib.Lists

/- The lines of a record whose detail is split. Their parts are numbered and make up the whole
   detail (`decode_detailParts`), and none is empty unless the limit divides its length
   (`carriesDetail_iff`). But no line has the trace id, the request or the token info
   (`split_loses_request`). -/
namespace DddService
open JsonText (Value decode)

/-- The lines have the detail in parts: labelled, none empty, none over the limit. -/
def CarriesDetail (context : LogContext) (record : LogRecord) : Prop :=
  ∃ parts : List Text, parts.flatten = detailText record ∧
    (∀ part ∈ parts, part ≠ [] ∧ part.length ≤ MAX_DETAIL_LENGTH) ∧
    (outputLines context record).length = parts.length ∧
    ∀ i part, parts[i]? = some part → ∃ line fields, (outputLines context record)[i]? = some line ∧
      decode line = some (.obj fields) ∧
      ("part".toList, .str (partLabel i parts.length)) ∈ fields ∧
      ("detail".toList, .str part) ∈ fields

/-- What a line says of the request it belongs to. -/
def carriedFields (context : LogContext) (record : LogRecord) : List (Text × Value) :=
  [("traceId".toList, .str (recordTraceId context record)),
    ("httpRequest".toList, httpRequestValue record)] ++
  match context.tokenInfo with
  | some tokenInfo => [("tokenInfo".toList, tokenInfoValue tokenInfo)]
  | none => []

/-- Every line has what the single line says of the request. -/
def CarriesRequest (context : LogContext) (record : LogRecord) : Prop :=
  ∀ line ∈ outputLines context record, ∃ fields, decode line = some (.obj fields) ∧
    ∀ m ∈ carriedFields context record, m ∈ fields

structure LosesNothing (context : LogContext) (record : LogRecord) : Prop where
  detail : CarriesDetail context record
  request : CarriesRequest context record

/-! ## The parts -/

/-- The number of parts. -/
def partCount (record : LogRecord) : Nat := (detailText record).length / MAX_DETAIL_LENGTH + 1

def detailParts (record : LogRecord) : List Text :=
  (List.range (partCount record)).map (partText (detailText record))

theorem detailParts_flatten (record : LogRecord) :
    (detailParts record).flatten = detailText record := by
  have h := Lists.flatten_slices (detailText record) MAX_DETAIL_LENGTH (partCount record)
  have hlength : (detailText record).length ≤ partCount record * MAX_DETAIL_LENGTH := by
    have hlt := Nat.lt_div_mul_add (a := (detailText record).length) (b := MAX_DETAIL_LENGTH)
      (by decide)
    unfold partCount
    rw [Nat.succ_mul]
    omega
  rw [List.take_of_length_le hlength] at h
  exact h

/-- The parts put together are read as the detail. -/
theorem decode_detailParts {record : LogRecord} (h : (detailValue record).finite = true) :
    decode (detailParts record).flatten = some (detailValue record) := by
  rw [detailParts_flatten]
  exact JsonText.decode_dumps false h

theorem partText_length (s : Text) (i : Nat) : (partText s i).length ≤ MAX_DETAIL_LENGTH := by
  unfold partText
  rw [List.length_take]
  exact Nat.min_le_left _ _

theorem partText_eq_nil_iff (s : Text) (i : Nat) :
    partText s i = [] ↔ s.length ≤ i * MAX_DETAIL_LENGTH := by
  simp [partText, MAX_DETAIL_LENGTH]

/-- Only the last part can be empty: where the limit divides the length of the detail. -/
theorem nil_mem_detailParts_iff (record : LogRecord) :
    [] ∈ detailParts record ↔ MAX_DETAIL_LENGTH ∣ (detailText record).length := by
  unfold detailParts partCount
  constructor
  · intro h
    obtain ⟨i, hi, hnil⟩ := List.mem_map.mp h
    have hle : i * MAX_DETAIL_LENGTH ≤ (detailText record).length :=
      calc i * MAX_DETAIL_LENGTH
          ≤ (detailText record).length / MAX_DETAIL_LENGTH * MAX_DETAIL_LENGTH :=
            Nat.mul_le_mul_right _ (Nat.le_of_lt_succ (List.mem_range.mp hi))
        _ ≤ (detailText record).length := Nat.div_mul_le_self _ _
    have hge := (partText_eq_nil_iff _ i).mp hnil
    exact ⟨i, by rw [Nat.mul_comm]; omega⟩
  · intro h
    refine List.mem_map.mpr ⟨(detailText record).length / MAX_DETAIL_LENGTH, by simp, ?_⟩
    rw [partText_eq_nil_iff, Nat.div_mul_cancel h]

/-! ## What the lines carry -/

theorem mem_partFields {record : LogRecord} {i : Nat} {k : Text} {v : Value}
    (hk : k ∈ ["part".toList, "detail".toList, "traceId".toList])
    (h : (k, v) ∈ commonFields record ++ partFields record i) : (k, v) ∈ partFields record i := by
  refine (List.mem_append.mp h).resolve_left fun hcommon => ?_
  have hkey : k ∈ (commonFields record).map Prod.fst := List.mem_map_of_mem hcommon
  have hkeys : (commonFields record).map Prod.fst ⊆ ["timestamp".toList, "severity".toList,
      "logging.googleapis.com/sourceLocation".toList, "logger".toList, "message".toList,
      "excInfo".toList] := by
    unfold commonFields
    cases record.excInfo <;> simp
  have hall : ∀ x ∈ ["part".toList, "detail".toList, "traceId".toList], x ∉ ["timestamp".toList,
      "severity".toList, "logging.googleapis.com/sourceLocation".toList, "logger".toList,
      "message".toList, "excInfo".toList] := by decide
  exact hall k hk (hkeys hkey)

theorem outputLines_get {context : LogContext} {record : LogRecord}
    (h : MAX_DETAIL_LENGTH ≤ (detailText record).length) {i : Nat} {line : Text}
    (hline : (outputLines context record)[i]? = some line) :
    i < partCount record ∧ line = partLine record i := by
  rw [outputLines_parts h, List.getElem?_map] at hline
  obtain ⟨j, hj, rfl⟩ := Option.map_eq_some_iff.mp hline
  obtain ⟨hi, rfl⟩ := List.getElem?_eq_some_iff.mp hj
  rw [List.length_range] at hi
  exact ⟨hi, by rw [List.getElem_range]⟩

/-- The parts that lines carry are the slices of the detail. -/
theorem carried_parts {context : LogContext} {record : LogRecord}
    (h : MAX_DETAIL_LENGTH ≤ (detailText record).length) {parts : List Text}
    (hlength : (outputLines context record).length = parts.length)
    (hlines : ∀ (i : Nat) (part : Text), parts[i]? = some part → ∃ line fields,
      (outputLines context record)[i]? = some line ∧ decode line = some (.obj fields) ∧
      ("detail".toList, .str part) ∈ fields) : parts = detailParts record := by
  have hcount : parts.length = (detailParts record).length := by
    rw [← hlength, outputLines_parts h]
    simp [detailParts, partCount]
  refine List.ext_getElem hcount fun i hi hi' => ?_
  obtain ⟨line, fields, hline, hdecode, hmem⟩ := hlines i parts[i] (List.getElem?_eq_getElem hi)
  obtain ⟨-, rfl⟩ := outputLines_get h hline
  rw [decode_partLine] at hdecode
  cases hdecode
  have hpart := mem_partFields (by decide) hmem
  simp only [partFields, List.mem_cons, Prod.mk.injEq, Value.str.injEq, List.not_mem_nil,
    or_false] at hpart
  obtain ⟨hkey, -⟩ | ⟨-, hpart⟩ := hpart
  · exact absurd hkey (by decide)
  · rw [hpart]
    simp [detailParts]

theorem carriesDetail_iff {record : LogRecord}
    (h : MAX_DETAIL_LENGTH ≤ (detailText record).length) (context : LogContext) :
    CarriesDetail context record ↔ ¬ MAX_DETAIL_LENGTH ∣ (detailText record).length := by
  rw [← nil_mem_detailParts_iff]
  constructor
  · rintro ⟨parts, -, hparts, hlength, hlines⟩ hnil
    have heq := carried_parts h hlength fun i part hi => by
      obtain ⟨line, fields, hline, hdecode, -, hmem⟩ := hlines i part hi
      exact ⟨line, fields, hline, hdecode, hmem⟩
    exact (hparts [] (heq ▸ hnil)).1 rfl
  · intro hnil
    have hcount : (detailParts record).length = partCount record := by simp [detailParts]
    refine ⟨detailParts record, detailParts_flatten record, fun part hpart => ⟨?_, ?_⟩, ?_, ?_⟩
    · rintro rfl
      exact hnil hpart
    · obtain ⟨i, -, rfl⟩ := List.mem_map.mp hpart
      exact partText_length _ i
    · rw [outputLines_parts h, hcount]
      simp [partCount]
    · intro i part hi
      rw [detailParts, List.getElem?_map] at hi
      obtain ⟨j, hj, rfl⟩ := Option.map_eq_some_iff.mp hi
      obtain ⟨hlt, rfl⟩ := List.getElem?_eq_some_iff.mp hj
      rw [List.getElem_range, hcount]
      refine ⟨partLine record i, _, ?_, decode_partLine record i, ?_, ?_⟩
      · rw [outputLines_parts h, List.getElem?_map]
        exact congrArg _ (hj.trans (by rw [List.getElem_range]))
      · exact List.mem_append_right _ (by simp [partFields, partCount])
      · exact List.mem_append_right _ (by simp [partFields])

theorem not_carriesRequest {record : LogRecord}
    (h : MAX_DETAIL_LENGTH ≤ (detailText record).length) (context : LogContext) :
    ¬ CarriesRequest context record := by
  intro hrequest
  have hline : partLine record 0 ∈ outputLines context record := by
    rw [outputLines_parts h]
    exact List.mem_map_of_mem (by simp)
  obtain ⟨fields, hdecode, hfields⟩ := hrequest _ hline
  rw [decode_partLine] at hdecode
  cases hdecode
  have hmem := mem_partFields (by decide) (hfields _ List.mem_cons_self)
  simp only [partFields, List.mem_cons, Prod.mk.injEq, List.not_mem_nil, or_false] at hmem
  obtain ⟨hkey, -⟩ | ⟨hkey, -⟩ := hmem <;> exact absurd hkey (by decide)

/-- Splitting a detail that is over the limit always loses the request. -/
theorem split_loses_request {record : LogRecord}
    (h : MAX_DETAIL_LENGTH < (detailText record).length) (context : LogContext) :
    ¬ LosesNothing context record :=
  fun hwhole => not_carriesRequest (Nat.le_of_lt h) context hwhole.request

/-- A record with `n` letters in its detail. -/
def lettersRecord (n : Nat) : LogRecord :=
  { processComplete with detail := some (.list [.str (List.replicate n 'a')]) }

theorem encode_letters (n : Nat) :
    JsonText.encode false (List.replicate n 'a') = List.replicate n 'a' := by
  induction n with
  | zero => rfl
  | succ n ih =>
    rw [List.replicate_succ]
    exact congrArg ('a' :: ·) ih

theorem lettersRecord_length (n : Nat) : (detailText (lettersRecord n)).length = n + 4 := by
  unfold detailText
  simp only [detailValue, lettersRecord]
  rw [JsonText.dumps, JsonText.dumpsItems, JsonText.dumps, encode_letters]
  simp [JsonText.quote]

theorem split_letters : MAX_DETAIL_LENGTH < (detailText (lettersRecord 190000)).length ∧
    ¬ LosesNothing ⟨some "a-b".toList, none, "uuid".toList⟩ (lettersRecord 190000) := by
  have h : MAX_DETAIL_LENGTH < (detailText (lettersRecord 190000)).length := by
    rw [lettersRecord_length]
    decide
  exact ⟨h, split_loses_request h _⟩

/-- Of 190000 letters, the trace id is in no line. -/
theorem letters_without_request :
    ¬ LosesNothing ⟨some "a-b".toList, none, "uuid".toList⟩ (lettersRecord 190000) := by
  intro h
  refine not_carriesRequest ?_ _ h.request
  rw [lettersRecord_length]
  decide

end DddService
