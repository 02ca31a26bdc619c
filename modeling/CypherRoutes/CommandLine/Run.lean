/-
# Running the command line

The program compiles request paths with a route table and prints a statement and its parameters
for each. A path that does not compile is reported on the error output and does not stop the
others. The only patterns that it compiles are keys of routes, for which the engine for keys is
enough.
-/
import CypherRoutes.CommandLine.Arguments
import CypherRoutes.Environment.Assignments
import CypherRoutes.Route.Compiler
import CypherRoutes.Route.KeyPattern
import CypherRoutes.Route.Source
import CypherRoutes.Settings.OfEnvironment
import CypherRoutes.Settings.OfText

namespace CypherRoutes

namespace CommandLine

/-- What a run leaves behind: its exit code and the two outputs. -/
structure Outcome where
  exitCode : Nat
  output : String := ""
  errors : String := ""
deriving DecidableEq

/-! ## Texts -/

/-- A text as a line of output. -/
def line (text : String) : String := text ++ "\n"

/-- The answer to the demand for the version. -/
def versionText : String := "pathcypher 0.1.0"

/-- The answer to the demand for help. -/
def helpText : String :=
  "compile request paths into Cypher statements\n\n" ++
  "Usage: pathcypher [OPTIONS] --routes <ROUTES> [PATHS]...\n\n" ++
  "Arguments:\n" ++
  "  [PATHS]...  Request paths such as /model/ICDC/nodes\n\n" ++
  "Options:\n" ++
  "      --routes <ROUTES>  Route table file (YAML, or JSON with a .json extension)\n" ++
  "      --config <CONFIG>  Settings file (YAML); environment variables are used otherwise\n" ++
  "      --literal          Render property values inline instead of as $parameters\n" ++
  "      --terminate        Append ';' to each statement\n" ++
  "      --inline           Substitute parameter values into the printed statement\n" ++
  "      --list             List every route in the table\n" ++
  "  -h, --help             Print help\n" ++
  "  -V, --version          Print version\n"

/-- The answer to a mistake in the arguments. -/
def usageText : String :=
  "error: invalid arguments\n\n" ++
  "Usage: pathcypher [OPTIONS] --routes <ROUTES> [PATHS]...\n\n" ++
  "For more information, try '--help'.\n"

/-- A failure of the whole run, with what it was about and its causes, the innermost last. -/
def failureText (parts : List String) : String :=
  line ("Error: " ++ String.intercalate ": " parts)

/-- The words about settings that are refused: the failure and its cause. -/
def settingsParts : SettingsError → List String
  | .variable name value reason =>
    ["Parse error for " ++ name ++ ": " ++ value ++ " - " ++ reason, reason]
  | .file reason => ["Parse error for yaml_file: file read failed - " ++ reason, reason]
  | .content text => ["Parse error for yaml_content: " ++ text ++ " - not a settings file"]
  | .noRoom =>
    [SettingsError.noRoomMessage,
      "cache.max_entries: Query cache needs room for at least one entry"]

/-- The words about a source that gives no table: the failure and its cause. -/
def sourceParts (error : SourceError) : List String :=
  error.message :: error.cause?.toList

/-! ## Settings and tables -/

/-- The settings of a run: those of the file, or else of the environment, changed by the
flags. -/
def settingsOf (arguments : Arguments) (environment : Environment) (files : Files) :
    Except (List String) Settings :=
  let read := match arguments.config with
    | some path =>
      (Settings.ofFile files path).mapError fun e => ("reading config " ++ path) :: settingsParts e
    | none =>
      (Settings.ofEnvironment environment).mapError fun e =>
        "reading config from environment" :: settingsParts e
  read.map fun s =>
    { s with
      useParams := s.useParams && !arguments.literal
      terminate := s.terminate || arguments.terminate }

/-- The route table of a run. -/
def tableOf (arguments : Arguments) (files : Files) : Except (List String) RouteTable :=
  (RouteTable.ofFile files arguments.routes).table.mapError fun e =>
    ("loading routes from " ++ arguments.routes) :: sourceParts e

/-! ## Paths -/

/-- The report about a path that does not compile. -/
def report (path : String) (fault : RequestFault) : Value :=
  .object [("path", .string path), ("kind", .string fault.kind.name),
    ("description", .string fault.description), ("offender", .string fault.offender.text)]

/-- The text that is printed for a query. -/
def queryText (inline : Bool) (query : Query) : Except MissingParameter String :=
  if inline then query.statement.inlined query.params else .ok query.statement.text

/-- The outcome of the paths in order, after what was printed so far. Only a parameter without a
value ends the run. -/
def runPaths [PatternEngine] (inline : Bool) (compiler : Compiler) (sofar : Outcome) :
    List String → Outcome
  | [] => sofar
  | path :: rest =>
    match compiler.compile path with
    | (.error fault, compiler) =>
      runPaths inline compiler
        { sofar with
          exitCode := 1
          errors := sofar.errors ++ line (Json.indented 0 (report path fault)) }
        rest
    | (.ok query, compiler) =>
      match queryText inline query with
      | .error missing =>
        { sofar with
          exitCode := 1
          errors := sofar.errors ++ failureText [missing.message] }
      | .ok text =>
        runPaths inline compiler
          { sofar with
            output := sofar.output ++ line text ++ line (Json.write query.params.value) }
          rest

/-- The outcome of a run with the given arguments. -/
def runArguments [PatternEngine] (arguments : Arguments) (environment : Environment)
    (files : Files) : Outcome :=
  let prepared := do
    let settings ← settingsOf arguments environment files
    let table ← tableOf arguments files
    return (settings, table)
  match prepared with
  | .error parts => { exitCode := 1, errors := failureText parts }
  | .ok (settings, table) =>
    let listing := if arguments.list then String.join (table.routes.map line) else ""
    runPaths arguments.inline (.ofTable table settings) { exitCode := 0, output := listing }
      arguments.paths

/-! ## The program -/

/-- The file whose assignments are added to the environment before all else. -/
def assignmentsFile : String := ".env"

/-- The environment with the assignments of the file, if there is one. -/
def environmentOf (environment : Environment) (files : Files) :
    Except Assignments.NullValue Environment :=
  match files assignmentsFile with
  | .ok octets => environment.assign octets
  | .error _ => .ok environment

/-- The outcome of the program. -/
def run [PatternEngine] (arguments : List String) (environment : Environment) (files : Files) :
    Outcome :=
  match environmentOf environment files with
  | .error null =>
    { exitCode := 101, errors := line ("the value of " ++ null.name ++ " holds a null character") }
  | .ok environment =>
    match Arguments.demandOf arguments with
    | .help => { exitCode := 0, output := helpText }
    | .version => { exitCode := 0, output := line versionText }
    | .mistake => { exitCode := 2, errors := usageText }
    | .run arguments => runArguments arguments environment files

end CommandLine

end CypherRoutes
