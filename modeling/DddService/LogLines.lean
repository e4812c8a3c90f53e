import DddService.Logger

/- What the lines of the log say. `lineFields` are the members that the lines of a record have,
   as its values; `LinesOk`: every line that is not empty reads as one JSON object with these
   members and no others. The line is taken apart into members as they are written; all are
   written well but the two with the trace id, which stand or fall with its characters, and
   those whose values have an infinite float or `NaN`, which is written as no JSON is. -/
namespace DddService
open JsonText (Value Member Spells Reads quote dumps decode moreMembers objectText)

/-! ## What a record says -/

/-- The members of every line. -/
def commonFields (record : LogRecord) : List (Text × Value) :=
  [("timestamp".toList, .str record.asctime.text),
    ("severity".toList, .str record.levelname.text),
    ("logging.googleapis.com/sourceLocation".toList,
      .obj [("file".toList, .str record.filename.text),
        ("line".toList, .str (decimal record.lineno)),
        ("function".toList, .str record.funcName.text)]),
    ("logger".toList, .str record.name.text),
    ("message".toList, messageValue record)] ++
  match record.excInfo with
  | some traceback => [("excInfo".toList, stringArray (quotedLines traceback))]
  | none => []

/-- The trace id, the request and the token info. -/
def requestFields (context : LogContext) (record : LogRecord) : List (Text × Value) :=
  [("traceId".toList, .str (recordTraceId context record)),
    ("logging.googleapis.com/trace".toList,
      .str ((recordTraceId context record).filter (· != '-'))),
    ("httpRequest".toList, httpRequestValue record)] ++
  match context.tokenInfo with
  | some tokenInfo => [("tokenInfo".toList, tokenInfoValue tokenInfo)]
  | none => []

def partFields (record : LogRecord) (i : Nat) : List (Text × Value) :=
  [("part".toList, .str (partLabel i ((detailText record).length / MAX_DETAIL_LENGTH + 1))),
    ("detail".toList, .str (partText (detailText record) i))]

/-- The members of the lines: of the one line, or of a line for each part of the detail. -/
def lineFields (context : LogContext) (record : LogRecord) : List (List (Text × Value)) :=
  if MAX_DETAIL_LENGTH ≤ (detailText record).length then
    (List.range ((detailText record).length / MAX_DETAIL_LENGTH + 1)).map fun i =>
      commonFields record ++ partFields record i
  else
    [commonFields record ++ requestFields context record ++ [("detail".toList, detailValue record)]]

/-- Every line is an object with the members of its record. -/
def LinesOk (context : LogContext) (record : LogRecord) : Prop :=
  ∀ line ∈ outputLines context record,
    ∃ fields ∈ lineFields context record, decode line = some (.obj fields)

/-- The values that come from outside are written without `Infinity` and `NaN`. -/
def finiteValues (context : LogContext) (record : LogRecord) : Bool :=
  (httpRequestValue record).finite && (detailValue record).finite &&
    match context.tokenInfo with
    | some tokenInfo => (tokenInfoValue tokenInfo).finite
    | none => true

/-! ## Members as they are written -/

/-- A text between quotes, as it is. -/
def rawMember (name text : Text) : Member := ⟨name, name, quote text, .str text⟩

def jsonMember (ensureAscii : Bool) (name : Text) (value : Value) : Member :=
  ⟨name, name, dumps ensureAscii value, value⟩

theorem rawMember_written {name text : Text} (hname : name.all JsonText.plain = true)
    (htext : text.all JsonText.plain = true) : (rawMember name text).Written :=
  ⟨JsonText.spells_plain hname, .string (JsonText.spells_plain htext)⟩

theorem jsonMember_written (ensureAscii : Bool) {name : Text} {value : Value}
    (hname : name.all JsonText.plain = true) (hvalue : value.finite = true) :
    (jsonMember ensureAscii name value).Written :=
  ⟨JsonText.spells_plain hname, JsonText.reads_dumps ensureAscii hvalue⟩

theorem finite_stringArray (lines : List Text) : (stringArray lines).finite = true := by
  rw [stringArray, JsonText.finite_arr]
  intro v hv
  obtain ⟨line, -, rfl⟩ := List.mem_map.mp hv
  exact JsonText.finite_str line

theorem finite_messageValue (record : LogRecord) : (messageValue record).finite = true := by
  unfold messageValue
  split
  · exact JsonText.finite_str _
  · exact finite_stringArray _

def fileMember (record : LogRecord) : Member := rawMember "file".toList record.filename.text

def placeMembers (record : LogRecord) : List Member :=
  [rawMember "line".toList (decimal record.lineno),
    rawMember "function".toList record.funcName.text]

def sourceLocationMember (record : LogRecord) : Member where
  nameText := "logging.googleapis.com/sourceLocation".toList
  name := "logging.googleapis.com/sourceLocation".toList
  valueText := objectText (fileMember record) (placeMembers record)
  value := .obj ((fileMember record :: placeMembers record).map Member.pair)

def timestampMember (record : LogRecord) : Member :=
  rawMember "timestamp".toList record.asctime.text

/-- The members of the format after the first. -/
def formatMembers (record : LogRecord) : List Member :=
  [rawMember "severity".toList record.levelname.text, sourceLocationMember record,
    rawMember "logger".toList record.name.text,
    jsonMember false "message".toList (messageValue record)]

def excInfoMembers (record : LogRecord) : List Member :=
  match record.excInfo with
  | some traceback =>
    [jsonMember false "excInfo".toList (stringArray (quotedLines traceback))]
  | none => []

def commonMembers (record : LogRecord) : List Member :=
  formatMembers record ++ excInfoMembers record

/-- The members after the two with the trace id. -/
def requestMembers (context : LogContext) (record : LogRecord) : List Member :=
  jsonMember true "httpRequest".toList (httpRequestValue record) ::
    match context.tokenInfo with
    | some tokenInfo => [jsonMember true "tokenInfo".toList (tokenInfoValue tokenInfo)]
    | none => []

def traceIdMember (context : LogContext) (record : LogRecord) : Member :=
  rawMember "traceId".toList (recordTraceId context record)

def traceMember (context : LogContext) (record : LogRecord) : Member :=
  rawMember "logging.googleapis.com/trace".toList
    ((recordTraceId context record).filter (· != '-'))

def detailMember (record : LogRecord) : Member :=
  jsonMember false "detail".toList (detailValue record)

theorem plain_decimal (n : Nat) : (decimal n).all JsonText.plain = true := by
  rw [List.all_eq_true]
  intro c hc
  have hdigit := Nat.isDigit_of_mem_toDigits (by decide) (by decide) hc
  rw [Char.isDigit_iff_toNat] at hdigit
  have h0 : '0'.toNat = 48 := rfl
  have h9 : '9'.toNat = 57 := rfl
  have hquote : c ≠ '"' := by
    rintro rfl
    revert hdigit
    decide
  have hbackslash : c ≠ '\\' := by
    rintro rfl
    revert hdigit
    decide
  simp only [JsonText.plain, Bool.and_eq_true, bne_iff_ne, ne_eq, decide_eq_true_eq]
  exact ⟨⟨hquote, hbackslash⟩, by omega⟩

theorem sourceLocation_written (record : LogRecord) : (sourceLocationMember record).Written := by
  have hname : "logging.googleapis.com/sourceLocation".toList.all JsonText.plain = true := by decide
  refine ⟨JsonText.spells_plain hname, .object ?_⟩
  intro m hm
  simp only [placeMembers, List.mem_cons, List.not_mem_nil, or_false] at hm
  obtain rfl | rfl | rfl := hm
  · exact rawMember_written (by decide) record.filename.plain
  · exact rawMember_written (by decide) (plain_decimal _)
  · exact rawMember_written (by decide) record.funcName.plain

theorem common_written (record : LogRecord) :
    ∀ m ∈ timestampMember record :: commonMembers record, m.Written := by
  intro m hm
  simp only [commonMembers, formatMembers, List.cons_append, List.nil_append, List.mem_cons] at hm
  obtain rfl | rfl | rfl | rfl | rfl | hm := hm
  · exact rawMember_written (by decide) record.asctime.plain
  · exact rawMember_written (by decide) record.levelname.plain
  · exact sourceLocation_written record
  · exact rawMember_written (by decide) record.name.plain
  · exact jsonMember_written false (by decide) (finite_messageValue record)
  · unfold excInfoMembers at hm
    split at hm
    · rw [List.mem_singleton.mp hm]
      exact jsonMember_written false (by decide) (finite_stringArray _)
    · cases hm

theorem common_pairs (record : LogRecord) :
    (timestampMember record :: commonMembers record).map Member.pair = commonFields record := by
  unfold commonFields commonMembers excInfoMembers
  cases record.excInfo <;> rfl

theorem request_written {context : LogContext} {record : LogRecord}
    (h : finiteValues context record = true) :
    ∀ m ∈ requestMembers context record, m.Written := by
  simp only [finiteValues, Bool.and_eq_true] at h
  obtain ⟨⟨hrequest, -⟩, htokenInfo⟩ := h
  intro m hm
  unfold requestMembers at hm
  split at hm
  · rename_i tokenInfo heq
    rw [heq] at htokenInfo
    simp only [List.mem_cons, List.not_mem_nil, or_false] at hm
    obtain rfl | rfl := hm
    · exact jsonMember_written true (by decide) hrequest
    · exact jsonMember_written true (by decide) htokenInfo
  · rw [List.mem_singleton.mp hm]
    exact jsonMember_written true (by decide) hrequest

theorem request_pairs (context : LogContext) (record : LogRecord) :
    (traceIdMember context record :: traceMember context record ::
      requestMembers context record).map Member.pair = requestFields context record := by
  unfold requestFields requestMembers
  cases context.tokenInfo <;> rfl

/-! ## The text of a line -/

theorem newline_not_mem_plain {s : Text} (h : s.all JsonText.plain = true) : '\n' ∉ s := by
  intro hmem
  have hplain := List.all_eq_true.mp h _ hmem
  revert hplain
  decide

theorem removeNewlines_append (s t : Text) :
    removeNewlines (s ++ t) = removeNewlines s ++ removeNewlines t := List.filter_append s t

theorem removeNewlines_eq_self {s : Text} (h : '\n' ∉ s) : removeNewlines s = s := by
  refine List.filter_eq_self.mpr fun c hc => ?_
  rw [bne_iff_ne]
  rintro rfl
  exact h hc

theorem formatMessage_text (record : LogRecord) :
    formatMessage record (dumps false (messageValue record)) =
      '{' :: ((timestampMember record).text ++ moreMembers (formatMembers record)) := by
  unfold formatMessage timestampMember formatMembers sourceLocationMember fileMember placeMembers
  simp only [rawMember, jsonMember, Member.text, moreMembers, objectText, quote,
    List.flatMap_cons, List.flatMap_nil, List.append_nil, List.cons_append, List.nil_append,
    List.append_assoc]
  rfl

theorem newline_not_mem_formatMessage (record : LogRecord) :
    '\n' ∉ formatMessage record (dumps false (messageValue record)) := by
  unfold formatMessage
  simp only [List.mem_append, newline_not_mem_plain record.asctime.plain,
    newline_not_mem_plain record.levelname.plain, newline_not_mem_plain record.filename.plain,
    newline_not_mem_plain record.funcName.plain, newline_not_mem_plain record.name.plain,
    newline_not_mem_plain (plain_decimal record.lineno), JsonText.newline_not_mem_dumps,
    or_false]
  decide

theorem baseFormat_text (record : LogRecord) :
    removeNewlines (baseFormat record (dumps false (messageValue record))) =
      '{' :: ((timestampMember record).text ++ moreMembers (commonMembers record)) := by
  have hformat := removeNewlines_eq_self (newline_not_mem_formatMessage record)
  unfold baseFormat commonMembers excInfoMembers
  cases record.excInfo with
  | none =>
    dsimp only
    rw [hformat, formatMessage_text, List.append_nil]
  | some traceback =>
    have hexc : removeNewlines (formatException traceback) = formatException traceback := by
      refine removeNewlines_eq_self ?_
      unfold formatException
      simp [JsonText.newline_not_mem_dumps]
    have hnewline : ∀ s, removeNewlines (s ++ ['\n']) = removeNewlines s := by
      intro s
      rw [removeNewlines_append]
      exact List.append_nil _
    dsimp only
    rw [removeNewlines_append, apply_ite removeNewlines, hnewline, ite_self, hformat, hexc,
      formatMessage_text]
    unfold formatException
    simp only [moreMembers, jsonMember, Member.text, quote, List.flatMap_append,
      List.flatMap_cons, List.flatMap_nil, List.append_nil, List.cons_append, List.append_assoc]
    rfl

theorem format_text {context : LogContext} {record : LogRecord}
    (h : (detailText record).length < MAX_DETAIL_LENGTH) :
    format context record = objectText (timestampMember record)
      (commonMembers record ++ traceIdMember context record :: traceMember context record ::
        requestMembers context record ++ [detailMember record]) := by
  have hparts : ¬ 1 < (detailText record).length / MAX_DETAIL_LENGTH + 1 := by
    rw [Nat.div_eq_of_lt h]
    decide
  unfold format
  dsimp only
  rw [if_neg hparts, baseFormat_text]
  unfold extraInfo requestMembers
  cases context.tokenInfo <;>
  · simp only [objectText, moreMembers, traceIdMember, traceMember, detailMember, jsonMember,
      rawMember, Member.text, quote, detailText, List.flatMap_append, List.flatMap_cons,
      List.flatMap_nil, List.append_nil, List.cons_append, List.nil_append, List.append_assoc]
    rfl

/-- The members of the line of a part, after those of every line. -/
def partMembers (record : LogRecord) (i : Nat) : List Member :=
  [rawMember "part".toList (partLabel i ((detailText record).length / MAX_DETAIL_LENGTH + 1)),
    jsonMember false "detail".toList (.str (partText (detailText record) i))]

def partLine (record : LogRecord) (i : Nat) : Text :=
  objectText (timestampMember record) (commonMembers record ++ partMembers record i)

theorem format_parts {record : LogRecord} (h : MAX_DETAIL_LENGTH ≤ (detailText record).length)
    (context : LogContext) :
    format context record =
      (List.range ((detailText record).length / MAX_DETAIL_LENGTH + 1)).flatMap fun i =>
        partLine record i ++ ['\n'] := by
  have hparts : 1 < (detailText record).length / MAX_DETAIL_LENGTH + 1 :=
    Nat.succ_lt_succ (Nat.div_pos h (by decide))
  unfold format
  dsimp only
  rw [if_pos hparts]
  refine List.flatMap_congr fun i _ => ?_
  rw [baseFormat_text]
  unfold partInfo partLine partMembers
  simp only [objectText, moreMembers, jsonMember, rawMember, Member.text, quote,
    List.flatMap_append, List.flatMap_cons, List.flatMap_nil, List.append_nil, List.cons_append,
    List.nil_append, List.append_assoc]
  rfl

/-! ## One line -/

theorem newline_not_mem_raw {name text : Text} (hname : '\n' ∉ name) (htext : '\n' ∉ text) :
    '\n' ∉ (rawMember name text).text := by
  simp [rawMember, Member.text, quote, hname, htext]

theorem newline_not_mem_json (ensureAscii : Bool) {name : Text} (hname : '\n' ∉ name)
    (value : Value) : '\n' ∉ (jsonMember ensureAscii name value).text := by
  simp [jsonMember, Member.text, quote, hname, JsonText.newline_not_mem_dumps]

theorem newline_not_mem_common (record : LogRecord) :
    '\n' ∉ '{' :: ((timestampMember record).text ++ moreMembers (commonMembers record)) := by
  rw [← baseFormat_text]
  simp [removeNewlines]

/-- A line is one line if the members after those of every line are. -/
theorem newline_not_mem_line {record : LogRecord} {ms : List Member}
    (h : ∀ m ∈ ms, '\n' ∉ m.text) :
    '\n' ∉ objectText (timestampMember record) (commonMembers record ++ ms) := by
  have hcommon := newline_not_mem_common record
  have hmore : '\n' ∉ moreMembers ms := by
    simp only [moreMembers, List.mem_flatMap, List.mem_append, not_exists, not_and, not_or]
    exact fun m hm => ⟨by decide, h m hm⟩
  have htext : objectText (timestampMember record) (commonMembers record ++ ms) =
      '{' :: ((timestampMember record).text ++ moreMembers (commonMembers record)) ++
        moreMembers ms ++ ['}'] := by
    simp [objectText, moreMembers]
  rw [htext, List.mem_append, List.mem_append]
  rintro ((hmem | hmem) | hmem)
  · exact hcommon hmem
  · exact hmore hmem
  · revert hmem
    decide

theorem splitOn_lines {lines : List Text} (h : ∀ line ∈ lines, '\n' ∉ line) :
    (lines.flatMap (· ++ ['\n'])).splitOn '\n' = lines ++ [[]] := by
  induction lines with
  | nil => rfl
  | cons line lines ih =>
    have htext : (line :: lines).flatMap (· ++ ['\n']) =
        line ++ '\n' :: lines.flatMap (· ++ ['\n']) := by simp
    rw [htext, List.splitOn_append_cons_self_of_not_mem (h line (by simp)),
      ih fun l hl => h l (by simp [hl])]
    rfl

theorem plain_partLabel (i n : Nat) : (partLabel i n).all JsonText.plain = true := by
  rw [partLabel, List.all_append, List.all_cons, plain_decimal, plain_decimal]
  rfl

theorem part_written (record : LogRecord) (i : Nat) : ∀ m ∈ partMembers record i, m.Written := by
  intro m hm
  simp only [partMembers, List.mem_cons, List.not_mem_nil, or_false] at hm
  obtain rfl | rfl := hm
  · exact rawMember_written (by decide) (plain_partLabel _ _)
  · exact jsonMember_written false (by decide) (JsonText.finite_str _)

theorem outputLines_parts {record : LogRecord}
    (h : MAX_DETAIL_LENGTH ≤ (detailText record).length) (context : LogContext) :
    outputLines context record =
      (List.range ((detailText record).length / MAX_DETAIL_LENGTH + 1)).map (partLine record) := by
  have hlines : ∀ line ∈ (List.range ((detailText record).length / MAX_DETAIL_LENGTH + 1)).map
      (partLine record), '\n' ∉ line := by
    intro line hline
    obtain ⟨i, -, rfl⟩ := List.mem_map.mp hline
    refine newline_not_mem_line fun m hm => ?_
    simp only [partMembers, List.mem_cons, List.not_mem_nil, or_false] at hm
    obtain rfl | rfl := hm
    · exact newline_not_mem_raw (by decide) (newline_not_mem_plain (plain_partLabel _ _))
    · exact newline_not_mem_json false (by decide) _
  have hsplit := splitOn_lines hlines
  rw [List.flatMap_map] at hsplit
  rw [outputLines, format_parts h, hsplit, List.filter_append, List.filter_eq_self.mpr]
  · exact List.append_nil _
  · intro line hline
    obtain ⟨i, -, rfl⟩ := List.mem_map.mp hline
    rfl

theorem decode_partLine (record : LogRecord) (i : Nat) :
    decode (partLine record i) = some (.obj (commonFields record ++ partFields record i)) := by
  have hwritten : ∀ m ∈ timestampMember record :: (commonMembers record ++ partMembers record i),
      m.Written := by
    rw [← List.cons_append]
    intro m hm
    exact (List.mem_append.mp hm).elim (common_written record m) (part_written record i m)
  have h := JsonText.decode_reads (Reads.object hwritten)
  rw [← List.cons_append, List.map_append, common_pairs] at h
  exact h

/-! ## The trace id in a line -/

/-- The members that come after those of every line, where the detail is not split. -/
def restMembers (context : LogContext) (record : LogRecord) : List Member :=
  traceIdMember context record :: traceMember context record ::
    (requestMembers context record ++ [detailMember record])

theorem format_line {context : LogContext} {record : LogRecord}
    (h : (detailText record).length < MAX_DETAIL_LENGTH) :
    format context record =
      objectText (timestampMember record) (commonMembers record ++ restMembers context record) := by
  rw [format_text h]
  unfold restMembers
  rw [List.append_assoc, List.cons_append, List.cons_append]

theorem rest_pairs (context : LogContext) (record : LogRecord) :
    (restMembers context record).map Member.pair =
      requestFields context record ++ [("detail".toList, detailValue record)] := by
  rw [← request_pairs]
  unfold restMembers
  rw [List.map_cons, List.map_cons, List.map_append]
  rfl

/-- With a plain trace id and finite values these are written well, each in one line. -/
theorem rest_plain {context : LogContext} {record : LogRecord}
    (h : (recordTraceId context record).all JsonText.plain = true)
    (hfinite : finiteValues context record = true) :
    ∀ m ∈ restMembers context record, m.Written ∧ '\n' ∉ m.text := by
  have hfilter : ((recordTraceId context record).filter (· != '-')).all JsonText.plain = true := by
    rw [List.all_eq_true] at h ⊢
    exact fun c hc => h c (List.mem_of_mem_filter hc)
  intro m hm
  simp only [restMembers, List.mem_cons, List.mem_append, List.not_mem_nil, or_false] at hm
  obtain rfl | rfl | hm | rfl := hm
  · exact ⟨rawMember_written (by decide) h,
      newline_not_mem_raw (by decide) (newline_not_mem_plain h)⟩
  · exact ⟨rawMember_written (by decide) hfilter,
      newline_not_mem_raw (by decide) (newline_not_mem_plain hfilter)⟩
  · refine ⟨request_written hfinite m hm, ?_⟩
    unfold requestMembers at hm
    split at hm
    · simp only [List.mem_cons, List.not_mem_nil, or_false] at hm
      obtain rfl | rfl := hm <;> exact newline_not_mem_json true (by decide) _
    · rw [List.mem_singleton.mp hm]
      exact newline_not_mem_json true (by decide) _
  · simp only [finiteValues, Bool.and_eq_true] at hfinite
    exact ⟨jsonMember_written false (by decide) hfinite.1.2,
      newline_not_mem_json false (by decide) _⟩

theorem linesOk_of_plain {context : LogContext} {record : LogRecord}
    (hlength : (detailText record).length < MAX_DETAIL_LENGTH)
    (h : (recordTraceId context record).all JsonText.plain = true)
    (hfinite : finiteValues context record = true) : LinesOk context record := by
  have hrest := rest_plain h hfinite
  have hwritten : ∀ m ∈ timestampMember record ::
      (commonMembers record ++ restMembers context record), m.Written := by
    rw [← List.cons_append]
    intro m hm
    exact (List.mem_append.mp hm).elim (common_written record m) fun hm => (hrest m hm).1
  have hdecode := JsonText.decode_reads (Reads.object hwritten)
  rw [← List.cons_append, List.map_append, common_pairs, rest_pairs, ← List.append_assoc,
    ← format_line hlength] at hdecode
  intro line hline
  rw [outputLines, format_line hlength,
    List.splitOn_eq_singleton (newline_not_mem_line fun m hm => (hrest m hm).2)] at hline
  have heq := List.mem_singleton.mp (List.mem_of_mem_filter hline)
  rw [heq, ← format_line hlength]
  exact ⟨_, by rw [lineFields, if_neg (by omega)]; exact List.mem_singleton_self _, hdecode⟩

theorem splitOn_head (s : Text) :
    ∃ lines, s.splitOn '\n' = s.takeWhile (· != '\n') :: lines := by
  induction s with
  | nil => exact ⟨[], rfl⟩
  | cons c s ih =>
    obtain ⟨lines, hs⟩ := ih
    rw [List.splitOn_cons_eq_if_modifyHead, List.takeWhile_cons]
    by_cases hc : c = '\n'
    · subst hc
      exact ⟨_, rfl⟩
    · rw [if_neg (by simpa using hc), if_pos (by simpa using hc), hs]
      exact ⟨lines, rfl⟩

/-- A line up to the trace id in its quotes. -/
def traceIdPrefix (record : LogRecord) : Text :=
  '{' :: ((timestampMember record).text ++ moreMembers (commonMembers record)) ++
    ", ".toList ++ quote "traceId".toList ++ ": ".toList ++ ['"']

theorem format_prefix {context : LogContext} {record : LogRecord}
    (h : (detailText record).length < MAX_DETAIL_LENGTH) :
    ∃ u, format context record = traceIdPrefix record ++
      (recordTraceId context record ++ '"' :: ',' :: ' ' :: '"' :: u) := by
  refine ⟨"logging.googleapis.com/trace".toList ++ '"' :: ':' :: ' ' :: '"' ::
    ((recordTraceId context record).filter (· != '-') ++ '"' ::
      (moreMembers (requestMembers context record ++ [detailMember record]) ++ ['}'])), ?_⟩
  rw [format_line h]
  unfold restMembers traceIdPrefix traceIdMember traceMember
  generalize requestMembers context record ++ [detailMember record] = ms
  simp only [objectText, moreMembers, rawMember, Member.text, quote,
    List.flatMap_append, List.flatMap_cons, List.cons_append, List.nil_append, List.append_assoc]
  rfl

/-- The first line ends where the trace id has a newline, or after it. -/
theorem first_line {context : LogContext} {record : LogRecord}
    (h : (detailText record).length < MAX_DETAIL_LENGTH) :
    ∃ s, traceIdPrefix record ++ s ∈ outputLines context record ∧
      (s.length < (recordTraceId context record).length ∨
        ∃ u, s = recordTraceId context record ++ '"' :: ',' :: ' ' :: '"' :: u) := by
  obtain ⟨u, hu⟩ := format_prefix h
  obtain ⟨lines, hlines⟩ := splitOn_head (format context record)
  have hprefix : '\n' ∉ traceIdPrefix record := by
    unfold traceIdPrefix
    simp only [List.mem_append, newline_not_mem_common, false_or]
    decide
  have hpos : ∀ c ∈ traceIdPrefix record, (c != '\n') = true := by
    intro c hc
    rw [bne_iff_ne]
    rintro rfl
    exact hprefix hc
  rw [hu, List.takeWhile_append_of_pos hpos] at hlines
  refine ⟨(recordTraceId context record ++ '"' :: ',' :: ' ' :: '"' :: u).takeWhile
    (· != '\n'), ?_, ?_⟩
  · rw [outputLines, hu, hlines]
    exact List.mem_filter.mpr ⟨List.mem_cons_self, by simp [traceIdPrefix]⟩
  · rw [List.takeWhile_append]
    split
    · exact .inr ⟨u.takeWhile (· != '\n'), rfl⟩
    · rename_i hlength
      have hle := (List.takeWhile_prefix (· != '\n')
        (l := recordTraceId context record)).length_le
      exact .inl (by omega)

theorem plain_of_linesOk {context : LogContext} {record : LogRecord}
    (hlength : (detailText record).length < MAX_DETAIL_LENGTH) (h : LinesOk context record) :
    (recordTraceId context record).all JsonText.plain = true := by
  obtain ⟨s, hline, hs⟩ := first_line hlength
  obtain ⟨fields, hfields, hdecode⟩ := h _ hline
  rw [lineFields, if_neg (by omega), List.mem_singleton] at hfields
  have htext : traceIdPrefix record ++ s = '{' :: ((timestampMember record).text ++
      moreMembers (commonMembers record) ++ ", ".toList ++ quote "traceId".toList ++
      ": ".toList ++ '"' :: s) := by
    simp [traceIdPrefix]
  rw [htext] at hdecode
  obtain ⟨v, r, rest, hstring, heq⟩ := JsonText.decode_raw (common_written record)
    (JsonText.spells_plain (by decide)) hdecode
  have hv : v = recordTraceId context record := by
    rw [hfields, common_pairs, requestFields, List.append_assoc] at heq
    have htail := List.append_cancel_left heq
    simp only [List.cons_append, List.cons.injEq, Prod.mk.injEq, Value.str.injEq] at htail
    exact htail.1.2.symm
  subst hv
  obtain hshort | ⟨u, rfl⟩ := hs
  · have hlt := JsonText.string_length hstring
    omega
  · exact JsonText.plain_of_string hstring

/-- A line that says what it should says only what is JSON. -/
theorem finite_of_linesOk {context : LogContext} {record : LogRecord}
    (hlength : (detailText record).length < MAX_DETAIL_LENGTH) (h : LinesOk context record) :
    finiteValues context record = true := by
  obtain ⟨s, hline, -⟩ := @first_line context record hlength
  obtain ⟨fields, hfields, hdecode⟩ := h _ hline
  rw [lineFields, if_neg (by omega), List.mem_singleton] at hfields
  have hall := JsonText.finite_obj.mp (JsonText.decode_finite hdecode)
  have hrequest : ∀ m ∈ requestFields context record, m.2.finite = true := fun m hm =>
    hall m (by rw [hfields]; exact List.mem_append_left _ (List.mem_append_right _ hm))
  have hdetail := hall ("detail".toList, detailValue record) (by rw [hfields]; simp)
  have hhttp := hrequest ("httpRequest".toList, httpRequestValue record) (by simp [requestFields])
  simp only [finiteValues, hhttp, hdetail, Bool.and_true, Bool.true_and]
  cases htoken : context.tokenInfo with
  | none => rfl
  | some tokenInfo =>
    exact hrequest ("tokenInfo".toList, tokenInfoValue tokenInfo) (by simp [requestFields, htoken])

/-- The lines of a record say what it says, and nothing else, if and only if its trace id has
    no quote, no backslash and no control character and its values no infinite float and no
    `NaN`, or these are not written, because the detail is split. -/
theorem lines_ok_iff (context : LogContext) (record : LogRecord) :
    LinesOk context record ↔
      ((recordTraceId context record).all JsonText.plain = true ∧
        finiteValues context record = true) ∨
        MAX_DETAIL_LENGTH ≤ (detailText record).length := by
  rcases Nat.lt_or_ge (detailText record).length MAX_DETAIL_LENGTH with hlength | hlength
  · constructor
    · exact fun h => .inl ⟨plain_of_linesOk hlength h, finite_of_linesOk hlength h⟩
    · rintro (⟨h, hfinite⟩ | h)
      · exact linesOk_of_plain hlength h hfinite
      · omega
  · refine iff_of_true ?_ (.inr hlength)
    intro line hline
    rw [outputLines_parts hlength] at hline
    obtain ⟨i, hi, rfl⟩ := List.mem_map.mp hline
    refine ⟨_, ?_, decode_partLine record i⟩
    rw [lineFields, if_pos hlength]
    exact List.mem_map_of_mem hi

/-- The record of `logger.info("process complete")`. -/
def processComplete : LogRecord where
  asctime := ⟨"2024-05-01 12:00:00,000".toList, by decide⟩
  levelname := ⟨"INFO".toList, by decide⟩
  filename := ⟨"your_exchange_handler.py".toList, by decide⟩
  lineno := 25
  funcName := ⟨"handle".toList, by decide⟩
  name := ⟨"app".toList, by decide⟩
  message := "process complete".toList
  excInfo := none
  traceId := none
  httpRequest := none
  detail := none

/-- With the trace id `a"b`, the line is no longer what it should be. -/
theorem quote_in_trace_id :
    ¬ LinesOk ⟨some "a\"b".toList, none, "uuid".toList⟩ processComplete := by
  intro h
  have hplain := plain_of_linesOk (by decide) h
  revert hplain
  decide

end DddService
