/-
# Sources of route tables

A route table as YAML or JSON text, or in a file. A file is JSON if its name says so and YAML
otherwise.
-/
import CypherRoutes.Files
import CypherRoutes.Route.Load
import CypherRoutes.Yaml.Document

namespace CypherRoutes

/-- Why a source gives no table. -/
inductive SourceError where
  | unreadable (error : FileError)
  | notYaml
  | notJson
  | invalid (fault : TableFault)

/-- The reason in words. -/
def SourceError.message : SourceError → String
  | unreadable error => "Failed to read route table: " ++ error.message
  | notYaml => "Failed to parse route table YAML"
  | notJson => "Failed to parse route table JSON"
  | invalid fault => "Invalid route table: " ++ fault.description

/-- What lies behind a reason, in words. -/
def SourceError.cause? : SourceError → Option String
  | unreadable error => some error.message
  | invalid fault => some fault.description
  | notYaml => none
  | notJson => none

/-- The outcome of reading a source, with the warnings given on the way. -/
structure SourceResult where
  warnings : List String
  table : Except SourceError RouteTable

namespace RouteTable

/-- The table of a value that was read, or the reason why there is none. -/
def ofRead (failure : SourceError) : Option Value → SourceResult
  | none => ⟨[], .error failure⟩
  | some value =>
    let loading := ofValue value
    ⟨loading.warnings, loading.outcome.mapError .invalid⟩

/-- The table that a YAML text holds. -/
def ofYaml (text : String) : SourceResult := ofRead .notYaml (Yaml.read text)

/-- The table that a JSON text holds. -/
def ofJson (text : String) : SourceResult := ofRead .notJson (Json.read text)

/-- The table in a file. -/
def ofFile (files : Files) (path : String) : SourceResult :=
  match files.readText path with
  | .error e => ⟨[], .error (.unreadable e)⟩
  | .ok text =>
    if extensionOf? path == some "json".toList then ofJson text else ofYaml text

end RouteTable

end CypherRoutes
