import TableExport.Files.Path
import TableExport.Files.Workspace
import TableExport.Json.Reader

/-!
# Configuration

A configuration names the folders of a run. It is a JSON object with known fields, or an array of
their values in order; the last fields may be missing. Folders are relative to the folder of the
configuration.

* `Config.parse?` reads a configuration.
* `Config.load` reads it from a file.
* `Config.requireCodeFolder` is the folder for code, which only some commands need.
-/

namespace TableExport

/-- The folders and names of a run. -/
structure Config where
  schemaFolder : String
  workbookFolder : String
  dataFolder : String
  codeFolder : Option String
  /-- What stands in front of the names of types and code files. -/
  codeLead : String
  sheetName : String
  /-- The pattern for the workbooks in their folder. -/
  workbookPattern : String
  deriving DecidableEq

/-- Why a configuration cannot be used. -/
inductive ConfigError
  | unreadable (path : String)
  | malformed (path : String)
  | missingField (field : String)
  deriving DecidableEq

/-- The failure in words. -/
def ConfigError.message : ConfigError → String
  | .unreadable path => "Cannot read config file '" ++ path ++ "'"
  | .malformed path => "Invalid config file '" ++ path ++ "'"
  | .missingField field => "Config field '" ++ field ++ "' is required for this command"

namespace Config

/-- The names of the fields in order. -/
def fieldNames : List String :=
  ["schema_dir_path", "excel_dir_path", "json_dir_path", "code_dir_path", "code_prefix",
    "data_sheet_name", "file_pattern"]

/-- The rules for the text of a configuration: what stands in a field that is not known does not
count. -/
def rules : Json.Reading.Rules where
  limit := Json.maxDepth
  keepsRepeats := true
  skips frames :=
    match frames.getLast? with
    | some (.object _ name) => !fieldNames.contains name
    | _ => false

/-- The values of the fields, each at most once; `none` when a known field comes twice, or an array
has too many values. -/
def fieldValues? : Json → Option (List (Option Json))
  | .obj members =>
    let known := (members.map Prod.fst).filter fieldNames.contains
    if known.eraseDups.length = known.length then
      some (fieldNames.map fun name => Entries.get? members name)
    else none
  | .arr items =>
    if items.length ≤ fieldNames.length then
      some ((List.range fieldNames.length).map fun i => items[i]?)
    else none
  | _ => none

/-- The text of a field that must be there. -/
def required (value : Option Json) : Option String := value.bind Json.str?

/-- The text of a field that may be missing. -/
def optional (default : String) : Option Json → Option String
  | none => some default
  | some value => value.str?

/-- The text of a field that may be missing or null. -/
def nullable : Option Json → Option (Option String)
  | none | some .null => some none
  | some value => value.str?.map some

/-- Reads a configuration whose folders are relative to `base`. -/
def parse? (text base : String) : Option Config := do
  let values ← (Json.readBy? rules text).bind fieldValues?
  match values with
  | [schemas, workbooks, data, code, lead, sheet, pattern] =>
    return {
      schemaFolder := Path.join base (← required schemas)
      workbookFolder := Path.join base (← required workbooks)
      dataFolder := Path.join base (← required data)
      codeFolder := (← nullable code).map (Path.join base)
      codeLead := ← optional "" lead
      sheetName := ← optional "Data" sheet
      workbookPattern := ← optional "*.xlsx" pattern }
  | _ => none

/-- Reads a configuration from a file. -/
def load (workspace : Workspace) (path : String) : Except ConfigError Config :=
  match workspace.readText? path with
  | none => .error (.unreadable path)
  | some text =>
    match parse? text ((Path.parent? path).getD "") with
    | some config => .ok config
    | none => .error (.malformed path)

/-- The folder for code. -/
def requireCodeFolder (config : Config) : Except ConfigError String :=
  match config.codeFolder with
  | some folder => .ok folder
  | none => .error (.missingField "code_dir_path")

end Config

end TableExport
