/-
# Compilers

A compiler owns a route table, its settings and a cache. A request path that resolves to a key in
the cache takes the statement from there and only the values from the path. Literal statements
hold their values in the text, so they are never taken from the cache.
-/
import CypherRoutes.Route.Cache
import CypherRoutes.Route.Compile

namespace CypherRoutes

/-- A compiled request with the number of the compile that made it. -/
structure Build where
  serial : Nat
  compiled : Compiled

/-- The answer to a request: a compiled statement, and the values of this request. -/
structure Query where
  build : Build
  params : Params
  cached : Bool

namespace Query

/-- The query of a request that was compiled for it. -/
def fresh (build : Build) : Query :=
  { build, params := build.compiled.statement.params, cached := false }

/-- The values of a statement with those of its bindings taken from captures. -/
def rebindParams (params : Params) (captures : List String) (bindings : List Binding) : Params :=
  bindings.foldl
    (fun params binding =>
      match captures[binding.capture]? with
      | some value => params.insert binding.var (.string value)
      | none => params)
    params

/-- The query of a request that takes its statement from the cache. -/
def rebind (build : Build) (captures : List String) : Query where
  build := build
  params := rebindParams build.compiled.statement.params captures build.compiled.bindings
  cached := true

/-- The statement. -/
def statement (q : Query) : Statement := q.build.compiled.statement

/-- The value of a route's parameter. -/
def param? (q : Query) (name : String) : Option Value := do
  let binding ← q.build.compiled.bindings.find? (·.name == name)
  q.params.get? binding.var

/-- Whether two queries have one statement between them. -/
def sharesStatement (q r : Query) : Bool := q.build.serial == r.build.serial

end Query

/-! ## Paths -/

/-- The tokens of a text between slashes. -/
def splitSlashes : List Char → List (List Char)
  | [] => [[]]
  | c :: rest =>
    if c == '/' then [] :: splitSlashes rest
    else match splitSlashes rest with
      | [] => [[c]]
      | token :: tokens => (c :: token) :: tokens

/-- A path without the slash that it may begin with. -/
def withoutSlash (path : String) : String :=
  match path.toList with
  | '/' :: rest => String.ofList rest
  | _ => path

/-- The tokens of a path without its leading slash; the empty path has none. -/
def tokensOf (path : String) : List String :=
  if path.isEmpty then [] else (splitSlashes path.toList).map String.ofList

/-! ## Compilers -/

/-- A route table with settings, a cache and the number of compiles so far. -/
structure Compiler where
  table : RouteTable
  settings : Settings
  cache : Cache Build
  builds : Nat := 0

namespace Compiler

/-- A compiler with an empty cache. -/
def ofTable (table : RouteTable) (settings : Settings) : Compiler where
  table := table
  settings := settings
  cache := .ofSettings settings.cache

/-- How the compiler writes statements. -/
def options (c : Compiler) : StatementOptions := ⟨c.settings.useParams, c.settings.terminate⟩

/-- Whether the compiler uses its cache. -/
def caching (c : Compiler) : Bool := c.settings.useParams && c.cache.settings.enabled

/-- Looks a path up in the cache, under the key that its tokens resolve to. -/
def lookup (c : Compiler) (path : String) : Option (CacheHit Build) × Compiler :=
  if c.caching then
    match c.table.keyFor (tokensOf path) with
    | none => (none, c)
    | some key =>
      let (hit, cache) := c.cache.get key path
      (hit, { c with cache })
  else (none, c)

/-- The compiler after a compile, which it keeps in its cache. -/
def store [PatternEngine] (c : Compiler) (build : Build) : Compiler :=
  { c with
    cache := if c.caching then c.cache.insert build.compiled.key build else c.cache
    builds := c.builds + 1 }

/-- The query of a request path, whose leading slash may be left out. -/
def compile [PatternEngine] (c : Compiler) (path : String) :
    Except RequestFault Query × Compiler :=
  let path := withoutSlash path
  let (hit, c) := c.lookup path
  match hit with
  | some hit => (.ok (.rebind hit.payload hit.captures), c)
  | none =>
    match c.table.compile c.options (tokensOf path) with
    | .error fault => (.error fault, c)
    | .ok compiled =>
      let build : Build := ⟨c.builds, compiled⟩
      (.ok (.fresh build), c.store build)

/-- The compiler with an empty cache. -/
def clearCache (c : Compiler) : Compiler := { c with cache := c.cache.clear }

end Compiler

end CypherRoutes
