/-
# The program

Reads the arguments, the environment and the files that the arguments name, and prints the
outcome of the run.
-/
import CypherRoutes.CommandLine.Run

open CypherRoutes

/-- The reason for which a file could not be read. -/
def fileErrorOf (e : IO.Error) : FileError :=
  match e with
  | .noFileOrDirectory .. => .notFound
  | .inappropriateType .. => .isDirectory
  | .illegalOperation .. => .isDirectory
  | e => .other (toString e)

/-- The octets of a file. -/
def readOctets (path : String) : IO (Except FileError ByteArray) := do
  try
    return .ok (← IO.FS.readBinFile path)
  catch e =>
    return .error (fileErrorOf e)

/-- The variables around the program. -/
def readEnvironment : IO Environment := do
  match ← readOctets "/proc/self/environ" with
  | .error _ => return ⟨[]⟩
  | .ok octets =>
    let text := (String.fromUTF8? octets).getD ""
    let entries := (text.splitOn "\x00").filter (!·.isEmpty)
    return ⟨entries.map fun entry =>
      let (name, value) := entry.toList.span (· != '=')
      (String.ofList name, String.ofList (value.drop 1))⟩

/-- The files that a run may read. -/
def readFiles (arguments : List String) : IO Files := do
  let named := match Arguments.demandOf arguments with
    | .run a => a.routes :: a.config.toList
    | _ => []
  let contents ← (CommandLine.assignmentsFile :: named).mapM fun path => do
    return (path, ← readOctets path)
  return fun path => (contents.lookup path).getD (.error .notFound)

/-- Runs the program. -/
def main (arguments : List String) : IO UInt32 := do
  let outcome := CommandLine.run arguments (← readEnvironment) (← readFiles arguments)
  IO.print outcome.output
  IO.eprint outcome.errors
  return outcome.exitCode.toUInt32
