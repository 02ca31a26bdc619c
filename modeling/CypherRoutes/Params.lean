/-
# Parameters

The values of a statement's parameters by name, in the order of their names.
-/
import CypherRoutes.Json.Write

namespace CypherRoutes

/-- Values by name; the entries are ordered by the code points of the names. -/
structure Params where
  entries : List (String × Value)

namespace Params

/-- No parameters. -/
def empty : Params := ⟨[]⟩

/-- The entries with the value of `name` set. -/
def insertEntry (name : String) (value : Value) : List (String × Value) → List (String × Value)
  | [] => [(name, value)]
  | (n, v) :: rest =>
    if name == n then (name, value) :: rest
    else if name < n then (name, value) :: (n, v) :: rest
    else (n, v) :: insertEntry name value rest

/-- The parameters with the value of `name` set. -/
def insert (params : Params) (name : String) (value : Value) : Params :=
  ⟨insertEntry name value params.entries⟩

/-- The parameters with a list of values set one after the other. -/
def insertAll (params : Params) (values : List (String × Value)) : Params :=
  values.foldl (fun params (name, value) => params.insert name value) params

/-- The parameters that a list of values sets; of two values for one name the later counts. -/
def ofList (values : List (String × Value)) : Params := empty.insertAll values

/-- The value of a parameter. -/
def get? (params : Params) (name : String) : Option Value := params.entries.lookup name

/-- The names, in order. -/
def names (params : Params) : List String := params.entries.map Prod.fst

/-- How many parameters there are. -/
def size (params : Params) : Nat := params.entries.length

/-- The parameters as a JSON object. -/
def value (params : Params) : Value := .object params.entries

end Params

end CypherRoutes
