/-
# Command line arguments

Arguments are read from left to right. Options with a value take it behind an equals sign or as
the next argument, every option and flag stands at most once, and what is no option is a request
path. The first mistake, or the first demand for help or for the version, ends the reading.
-/
namespace CypherRoutes

/-- What the arguments ask for. -/
structure Arguments where
  /-- The file of the route table. -/
  routes : String
  /-- The file of the settings. -/
  config : Option String
  literal : Bool
  terminate : Bool
  inline : Bool
  list : Bool
  /-- The request paths, in order. -/
  paths : List String
deriving DecidableEq

/-- What is to be done. -/
inductive Demand where
  | run (arguments : Arguments)
  | help
  | version
  | mistake
deriving DecidableEq

namespace Arguments

/-- The arguments read so far; the request paths are held in reverse. -/
structure Partial where
  routes : Option String := none
  config : Option String := none
  literal : Bool := false
  terminate : Bool := false
  inline : Bool := false
  list : Bool := false
  paths : List String := []

namespace Partial

/-- What is asked for at the end of the arguments; the route table is needed. -/
def finish (p : Partial) : Demand :=
  match p.routes with
  | none => .mistake
  | some routes =>
    .run {
      routes
      config := p.config
      literal := p.literal
      terminate := p.terminate
      inline := p.inline
      list := p.list
      paths := p.paths.reverse }

/-- The arguments with a flag, which stands once. -/
def flag? (p : Partial) (name : String) : Option Partial :=
  match name with
  | "literal" => if p.literal then none else some { p with literal := true }
  | "terminate" => if p.terminate then none else some { p with terminate := true }
  | "inline" => if p.inline then none else some { p with inline := true }
  | "list" => if p.list then none else some { p with list := true }
  | _ => none

/-- Whether an option takes a value. -/
def takesValue (name : String) : Bool := name == "routes" || name == "config"

/-- The arguments with an option's value, which is not empty and stands once. -/
def option? (p : Partial) (name value : String) : Option Partial :=
  if value.isEmpty then none
  else if name == "routes" then
    if p.routes.isSome then none else some { p with routes := some value }
  else if name == "config" then
    if p.config.isSome then none else some { p with config := some value }
  else none

/-- The arguments with a request path. -/
def path (p : Partial) (path : String) : Partial := { p with paths := path :: p.paths }

/-- Whether the next argument may be an option's value: it does not look like an option. -/
def isValue (text : String) : Bool := text == "-" || text.toList.head? != some '-'

/-- What the remaining arguments ask for. -/
def read (p : Partial) : List String → Demand
  | [] => p.finish
  | argument :: rest =>
    match argument.toList with
    | ['-', '-'] => (rest.foldl path p).finish
    | '-' :: '-' :: body =>
      let (name, value) := body.span (· != '=')
      let name := String.ofList name
      match value with
      | _ :: value =>
        if takesValue name then
          match p.option? name (String.ofList value) with
          | some p => read p rest
          | none => .mistake
        else .mistake
      | [] =>
        if takesValue name then
          match rest with
          | value :: rest =>
            if isValue value then
              match p.option? name value with
              | some p => read p rest
              | none => .mistake
            else .mistake
          | [] => .mistake
        else if name == "help" then .help
        else if name == "version" then .version
        else match p.flag? name with
          | some p => read p rest
          | none => .mistake
    | ['-'] => read (p.path argument) rest
    | '-' :: 'h' :: _ => .help
    | '-' :: 'V' :: _ => .version
    | '-' :: _ => .mistake
    | _ => read (p.path argument) rest

end Partial

/-- What a list of arguments asks for. -/
def demandOf (arguments : List String) : Demand := Partial.read {} arguments

end Arguments

end CypherRoutes
