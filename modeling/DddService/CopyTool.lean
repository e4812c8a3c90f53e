import Mathlib.Logic.Function.Basic
import DddService.Lib.PyText
import DddService.Lib.Replace

/- `copy_tool.py add`: a bounded context of one's own, made from the template files by putting
   its name in place of the placeholders. Paths, contents and the lines appended to three
   `__init__.py` are renamed by three chains of replacements, and a path is renamed with the
   template root and the target directory in it. -/
namespace DddService
open Replace (replace replaceEach)
namespace CopyTool

/-! ## Names and paths -/

def yourBoundedContext : Text := "your_bounded_context".toList

def yourAggregate : Text := "your_aggregate".toList

/-- A name in snake case: a small letter, then small letters, digits and underscores. -/
def isSnake : Text → Bool
  | [] => false
  | c :: s => c.isLower && s.all fun c => c.isLower || c.isDigit || c = '_'

structure SnakeName where
  text : Text
  snake : isSnake text = true

def isPart (part : Text) : Bool :=
  part != [] && part != ['.'] && part != ['.', '.'] && !part.contains '/'

/-- An absolute directory after `resolve()`, by its parts: the root directory has none. -/
structure Directory where
  parts : List Text
  resolved : parts.all isPart = true

/-- `str(path)` of an absolute path. -/
def pathStr (parts : List Text) : Text :=
  if parts = [] then ['/'] else parts.flatMap ('/' :: ·)

/-- `Path(s)` of an absolute path, by its parts. -/
def pathOf (s : Text) : List Text := (s.splitOn '/').filter fun part => part != [] && part != ['.']

def snakeToPascalCase (s : Text) : Text := replace ['_'] [] (PyText.title s)

def replacePathByName (root cwd : Directory) (name : Text) (path : List Text) : List Text :=
  let newPath := pathStr path
  let newPath := replace (pathStr root.parts) (pathStr cwd.parts) newPath
  let newPath := replace yourBoundedContext name newPath
  let newPath := replace yourAggregate name newPath
  pathOf newPath

def renameContent (name content : Text) : Text :=
  let content := replace yourBoundedContext name content
  let content := replace yourAggregate name content
  let content := replace "YourAggregate".toList (snakeToPascalCase name) content
  replace "Your Aggregate".toList (replace ['_'] [' '] (PyText.title name)) content

/-! ## The template files

Of each file the lines that import a template module, define a class or an operation, or name
an operation, without indentation and with the names of an import on its line. -/

structure TemplateFile where
  path : List Text
  lines : List Text

def TemplateFile.content (file : TemplateFile) : Text := file.lines.flatMap (· ++ ['\n'])

def parts (path : List String) : List Text := path.map (·.toList)

def dotted (module : List String) : Text := ['.'].intercalate (parts module)

/-- `from module import name, name` -/
def fromImport (module names : List String) : Text :=
  "from ".toList ++ dotted module ++ " import ".toList ++ [',', ' '].intercalate (parts names)

def importAs (module : List String) (name : String) : Text :=
  "import ".toList ++ dotted module ++ " as ".toList ++ name.toList

/-- The first line of a class, by its name and what follows it. -/
def classDef (name rest : String) : Text := "class ".toList ++ name.toList ++ rest.toList

def asyncDef (name rest : String) : Text := "async def ".toList ++ name.toList ++ rest.toList

def file (path : List String) (lines : List Text) : TemplateFile := ⟨parts path, lines⟩

def requests : List String :=
  ["app", "adapter", "controller", "your_bounded_context", "request"]

def responses : List String :=
  ["app", "adapter", "controller", "your_bounded_context", "response"]

def repositories : List String :=
  ["app", "adapter", "repository", "your_aggregate_repository"]

def entities : List String :=
  ["app", "core", "your_bounded_context", "domain", "entity", "your_aggregate"]

def events : List String :=
  ["app", "core", "your_bounded_context", "domain", "event"]

def exceptions : List String :=
  ["app", "core", "your_bounded_context", "domain", "exception"]

def interfaces : List String :=
  ["app", "core", "your_bounded_context", "domain", "repository"]

def valueObjects : List String :=
  ["app", "core", "your_bounded_context", "domain", "value_object", "your_aggregate_value_object"]

def useCases : List String :=
  ["app", "core", "your_bounded_context", "use_case", "your_aggregate_use_case"]

def handlers : List String :=
  ["app", "port", "restful", "handler", "your_bounded_context", "your_aggregate_handler"]

def operationId (function : String) : Text :=
  "operationId: ".toList ++ dotted (handlers ++ [function])

def controllerFiles : List TemplateFile :=
  [file ["app", "adapter", "controller", "your_bounded_context", "__init__.py"] [],
   file ["app", "adapter", "controller", "your_bounded_context", "request.py"]
    [fromImport valueObjects ["YourValueObject"],
     classDef "GetYourAggregateRequest" "(RequestBase):",
     classDef "SearchYourAggregatesRequest" "(SearchRequestBase):",
     classDef "CreateYourAggregateRequest" "(RequestBase):",
     classDef "UpdateYourAggregateRequest" "(RequestBase):",
     classDef "DeleteYourAggregateRequest" "(RequestBase):",
     classDef "VoidYourAggregateRequest" "(RequestBase):"],
   file ["app", "adapter", "controller", "your_bounded_context", "response.py"]
    [fromImport entities ["YourAggregate"],
     fromImport interfaces ["SearchResult"],
     fromImport valueObjects ["OperationHistoryType", "YourAggregateStatus", "YourValueObject"],
     classDef "OperationHistoryDataResponse" "(DataclassMixin):",
     classDef "OperationHistoryResponse" "(DataclassMixin):",
     classDef "YourAggregateResponse" "(DataclassMixin):",
     classDef "SearchYourAggregatesResponse" "(DataclassMixin):"],
   file ["app", "adapter", "controller", "your_bounded_context", "your_aggregate_controller.py"]
    [fromImport requests ["CreateYourAggregateRequest", "DeleteYourAggregateRequest",
      "GetYourAggregateRequest", "SearchYourAggregatesRequest", "UpdateYourAggregateRequest",
      "VoidYourAggregateRequest"],
     fromImport responses ["SearchYourAggregatesResponse", "YourAggregateResponse"],
     fromImport repositories ["YourAggregateRepository"],
     fromImport useCases ["YourAggregateUseCase"],
     classDef "YourAggregateController" "(ControllerBase):"]]

def eventHandlerFile : TemplateFile :=
  file ["app", "adapter", "event_handler", "your_aggregate_event_handler.py"]
    [importAs events "your_aggregate_event",
     fromImport repositories ["YourAggregateRepository"],
     fromImport valueObjects ["YourAggregateStatus", "YourValueObject"],
     fromImport useCases ["YourAggregateUseCase"],
     classDef "YourAggregateEventHandlerHelper" "(EventHandlerHelper):",
     classDef "YourAggregateEventHandler" ":"]

def modelFile : TemplateFile :=
  file ["app", "adapter", "repository", "orm", "your_aggregate_model.py"]
    [classDef "YourAggregateMixin" "(BaseMixin):",
     classDef "YourAggregateModel" "(YourAggregateMixin, Base):",
     classDef "YourAggregateArchiveModel" "(ArchiveMixin, YourAggregateMixin, Base):"]

def repositoryFile : TemplateFile :=
  file ["app", "adapter", "repository", "your_aggregate_repository.py"]
    [fromImport entities ["YourAggregate"],
     fromImport interfaces ["SearchDateField", "SearchResult", "YourAggregateRepositoryInterface"],
     fromImport valueObjects ["OperationHistory", "YourAggregateStatus", "YourValueObject"],
     classDef "YourAggregateRepository" "("]

def coreFiles : List TemplateFile :=
  [file ["app", "core", "your_bounded_context", "__init__.py"] [],
   file ["app", "core", "your_bounded_context", "domain", "__init__.py"] [],
   file ["app", "core", "your_bounded_context", "domain", "event.py"]
    [fromImport valueObjects ["YourValueObject"],
     classDef "YourAggregateCreated" "(DomainEvent):",
     classDef "YourAggregateDeleted" "(DomainEvent):",
     classDef "YourAggregateVoided" "(DomainEvent):",
     classDef "YourAggregateUpdated" "(DomainEvent):"],
   file ["app", "core", "your_bounded_context", "domain", "exception.py"]
    [classDef "YourAggregateError" "(DomainError):",
     classDef "YourAggregateStatusNotMatched" "(YourAggregateError):"],
   file ["app", "core", "your_bounded_context", "domain", "repository.py"]
    [fromImport entities ["YourAggregate"],
     classDef "SearchDateField" "(Enum):",
     classDef "SearchResult" ":",
     classDef "YourAggregateRepositoryInterface" "(metaclass=abc.ABCMeta):"],
   file ["app", "core", "your_bounded_context", "domain", "entity", "__init__.py"] [],
   file ["app", "core", "your_bounded_context", "domain", "entity", "your_aggregate.py"]
    [fromImport events ["YourAggregateCreated", "YourAggregateDeleted", "YourAggregateUpdated",
      "YourAggregateVoided"],
     fromImport exceptions ["YourAggregateStatusNotMatched"],
     fromImport valueObjects ["OperationHistory", "OperationHistoryData", "OperationHistoryType",
      "YourAggregateStatus", "YourValueObject"],
     classDef "YourAggregate" "(AggregateRoot):"],
   file ["app", "core", "your_bounded_context", "domain", "value_object", "__init__.py"] [],
   file (["app", "core", "your_bounded_context", "domain"] ++
      ["value_object", "your_aggregate_value_object.py"])
    [classDef "YourAggregateStatus" "(Enum):",
     classDef "OperationHistoryType" "(Enum):",
     classDef "OperationHistoryData" "(DataclassMixin):",
     classDef "OperationHistory" "(DataclassMixin):",
     classDef "YourValueObject" "(DataclassMixin):"],
   file ["app", "core", "your_bounded_context", "use_case", "__init__.py"] [],
   file ["app", "core", "your_bounded_context", "use_case", "your_aggregate_use_case.py"]
    [fromImport entities ["YourAggregate"],
     fromImport interfaces ["YourAggregateRepositoryInterface"],
     fromImport valueObjects ["YourValueObject"],
     classDef "YourAggregateUseCase" "(UseCaseBase):"]]

def handlerFiles : List TemplateFile :=
  [file ["app", "port", "restful", "handler", "your_bounded_context", "__init__.py"] [],
   file ["app", "port", "restful", "handler", "your_bounded_context", "your_aggregate_handler.py"]
    [fromImport requests ["CreateYourAggregateRequest", "DeleteYourAggregateRequest",
      "GetYourAggregateRequest", "SearchYourAggregatesRequest", "UpdateYourAggregateRequest",
      "VoidYourAggregateRequest"],
     asyncDef "get_your_aggregate" "(your_aggregate_id: str, token_info: TokenInfo):",
     asyncDef "search_your_aggregates" "(",
     asyncDef "export_your_aggregates" "(",
     classDef "Command" "(Enum):",
     asyncDef "command" "(body: dict, token_info: TokenInfo):"]]

def openapi : List String := ["app", "port", "restful", "openapi"]

def schemaFile (name : String) : TemplateFile :=
  file (openapi ++ ["components", "schemas", "your_aggregate", name]) []

def openapiFiles : List TemplateFile :=
  [schemaFile "command.yml",
   schemaFile "enum.yml",
   schemaFile "id.yml",
   schemaFile "operation_history.yml",
   file (openapi ++ ["paths", "your_aggregates", "command.yml"]) [operationId "command"],
   file (openapi ++ ["paths", "your_aggregates", "export.yml"])
    [operationId "export_your_aggregates"],
   file (openapi ++ ["paths", "your_aggregates", "id.yml"]) [operationId "get_your_aggregate"],
   file (openapi ++ ["paths", "your_aggregates", "your_aggregates.yml"])
    [operationId "search_your_aggregates"]]

def templateFiles : List TemplateFile :=
  controllerFiles ++ eventHandlerFile :: modelFile :: repositoryFile :: coreFiles ++
    handlerFiles ++ openapiFiles

/-! ## Copying -/

/-- What is in the files, by path; `none` where there is no file. -/
abbrev Files := List Text → Option Text

/-- The template repository at `root`, over the files that are anywhere else. -/
def installed (root : Directory) (files : Files) : Files := fun path =>
  match templateFiles.find? fun file => root.parts ++ file.path = path with
  | some file => some file.content
  | none => files path

/-- `is_dir()` of a path below the template root. -/
def isDir (template : List Text) : Bool :=
  templateFiles.any fun file => template.isPrefixOf file.path && file.path != template

/-- `rglob("*" + suffix)` of a directory below the template root. -/
def rglob (template : List Text) (suffix : Text) : List (List Text) :=
  (templateFiles.map (·.path)).filter fun path =>
    template.isPrefixOf path && suffix.isSuffixOf (path.getLastD [])

/-- The files that `copy_file` copies for a template. -/
def sources (template : List Text) : List (List Text) :=
  if isDir template then rglob template ".py".toList ++ rglob template ".yml".toList
  else [template]

/-- One file copied. `open(dst, "w")` has emptied `dst` by the time `fin.read()` reads `path`,
    also where they are one file. -/
def copyOne (root cwd : Directory) (name : Text) (files : Files) (path : List Text) : Files :=
  let dst := replacePathByName root cwd name (root.parts ++ path)
  let opened := Function.update files dst (some [])
  let content := (opened (root.parts ++ path)).getD []
  Function.update opened dst (some (renameContent name content))

/-- A scan of the directory `template` that meets a file which one of its own copies has
    added: `rglob` goes on into it, and what is copied has no bound. -/
def scansItself (root cwd : Directory) (name : Text) (template : List Text) : Bool :=
  isDir template && (sources template).any fun path =>
    let dst := replacePathByName root cwd name (root.parts ++ path)
    (root.parts ++ template).isPrefixOf dst && dst != root.parts ++ path

def copyFile (root cwd : Directory) (name : Text) (files : Files) (template : List Text) :
    Option Files :=
  if scansItself root cwd name template then none
  else some ((sources template).foldl (copyOne root cwd name) files)

def templates : List (List Text) :=
  [parts ["app", "adapter", "controller", "your_bounded_context"],
   eventHandlerFile.path,
   modelFile.path,
   repositoryFile.path,
   parts ["app", "core", "your_bounded_context"],
   parts ["app", "port", "restful", "handler", "your_bounded_context"],
   parts (openapi ++ ["components", "schemas", "your_aggregate"]),
   parts (openapi ++ ["paths", "your_aggregates"])]

/-- A package and what `add` appends to its `__init__.py`. -/
structure Appended where
  package : List Text
  text : Text

def controllerLines (name : Text) : Text :=
  "from .".toList ++ name ++ ".".toList ++ name ++ "_controller import ".toList ++
    snakeToPascalCase name ++ "Controller\n".toList ++ name ++ "_controller = ".toList ++
    snakeToPascalCase name ++ "Controller()\n".toList

def eventHandlerLines (name : Text) : Text :=
  "from .".toList ++ name ++ "_event_handler import ".toList ++ snakeToPascalCase name ++
    "EventHandler\n__all__.append('".toList ++ snakeToPascalCase name ++
    "EventHandler')\n".toList

def ormLines (name : Text) : Text :=
  "from .".toList ++ name ++ "_model import ".toList ++ snakeToPascalCase name ++
    "Model, ".toList ++ snakeToPascalCase name ++ "ArchiveModel\n".toList

def appended (name : Text) : List Appended :=
  [⟨parts ["app", "adapter", "controller"], controllerLines name⟩,
   ⟨parts ["app", "adapter", "event_handler"], eventHandlerLines name⟩,
   ⟨parts ["app", "adapter", "repository", "orm"], ormLines name⟩]

def appendTo (cwd : Directory) (files : Files) (lines : Appended) : Files :=
  let path := cwd.parts ++ lines.package ++ ["__init__.py".toList]
  Function.update files path (some ((files path).getD [] ++ lines.text))

def add (root cwd : Directory) (name : Text) (files : Files) : Option Files :=
  (templates.foldlM (copyFile root cwd name) files).map fun files =>
    (appended name).foldl (appendTo cwd) files

end CopyTool

end DddService
