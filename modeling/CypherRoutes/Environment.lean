/-
# The environment

The variables around a program, and the ones that it sets itself.
-/
namespace CypherRoutes

/-- The values of variables by name; each name stands once. -/
structure Environment where
  entries : List (String × String)

namespace Environment

/-- The value of a variable: what follows the name and an equals sign in an entry, which is read as
`name=value`. A name with an equals sign in it thus reaches into a value. No variable has the empty
name. -/
def get? (e : Environment) (name : String) : Option String :=
  if name.isEmpty then none
  else e.entries.findSome? fun (n, value) =>
    ((name.toList ++ ['=']).isPrefixOf? (n.toList ++ '=' :: value.toList)).map String.ofList

/-- The environment with a variable set, unless it is there already. -/
def setDefault (e : Environment) (name value : String) : Environment :=
  if (e.get? name).isSome then e else ⟨e.entries ++ [(name, value)]⟩

end Environment

end CypherRoutes
