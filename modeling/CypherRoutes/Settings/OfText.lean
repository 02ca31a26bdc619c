/-
# Settings from YAML text

Settings as a YAML mapping of named fields. A text or a field without any content leaves the
defaults; unknown fields are passed over, and a known one stands at most once.
-/
import CypherRoutes.Files
import CypherRoutes.Settings
import CypherRoutes.Yaml.Document

namespace CypherRoutes

namespace Settings

open Yaml (Document Follow Scalar ScalarTag)

/-! ## Scalars -/

/-- Whether a scalar may be other than a text: if it is plain, or a literal block with a tag that
asks for it. -/
def isTyped (s : Scalar) (tag : ScalarTag) : Bool :=
  s.style == .plain || (s.style == .literal && s.tag.map ScalarTag.ofText == some tag)

/-- The scalar that a node is or refers to. -/
def scalarOf (d : Document) (n : Yaml.Node) : Follow Scalar := do
  match ← d.follow n with
  | .scalar _ s => return s
  | _ => failure

/-- A boolean field. -/
def boolOf (d : Document) (n : Yaml.Node) : Follow Bool := do
  let s ← scalarOf d n
  if !isTyped s .bool then failure
  Yaml.bool? s.text

/-- A count that fits 64 bits. -/
def countOf (d : Document) (n : Yaml.Node) : Follow Nat := do
  let s ← scalarOf d n
  if !isTyped s .integer then failure
  let count ← Yaml.integer? s.text.toList
  if s.text.toList.head? == some '-' || countBound ≤ count then failure
  return count.toNat

/-! ## Fields -/

/-- Reads the known fields of a mapping into a structure. `seen` holds the names of the fields
read so far. -/
def foldFields {α : Type} (d : Document) (read : String → Option (α → Yaml.Node → Follow α))
    (a : α) (seen : List String) : List (Yaml.Node × Yaml.Node) → Follow α
  | [] => return a
  | (key, value) :: rest => do
    let name ← d.keyText key
    match read name with
    | none => foldFields d read a seen rest
    | some set =>
      if seen.contains name then failure
      let a ← set a value
      foldFields d read a (name :: seen) rest

/-- A structure that is read from a mapping, or from a plain scalar without text. -/
def mappingOf {α : Type} (d : Document) (read : String → Option (α → Yaml.Node → Follow α))
    (start : α) (n : Yaml.Node) : Follow α := do
  match ← d.follow n with
  | .mapping _ _ entries => foldFields d read start [] entries
  | .scalar _ s => if s.style == .plain && s.text.isEmpty then return start else failure
  | _ => failure

/-- The fields of a cache's settings. -/
def cacheField (d : Document) :
    String → Option (CacheSettings → Yaml.Node → Follow CacheSettings)
  | "enabled" => some fun a n => do return { a with enabled := ← boolOf d n }
  | "max_entries" => some fun a n => do return { a with maxEntries := ← countOf d n }
  | _ => none

/-- The fields of the settings. -/
def field (d : Document) : String → Option (Settings → Yaml.Node → Follow Settings)
  | "use_params" => some fun a n => do return { a with useParams := ← boolOf d n }
  | "terminate" => some fun a n => do return { a with terminate := ← boolOf d n }
  | "cache" => some fun a n => do return { a with cache := ← mappingOf d (cacheField d) {} n }
  | _ => none

/-- The settings that a text holds. -/
def ofText? (text : String) : Option Settings := do
  let d ← Yaml.document? text
  match d.root with
  | none => return {}
  | some n => (mappingOf d (field d) {} n).run' 0

/-- The settings in a file. -/
def ofFile (files : Files) (path : String) : Except SettingsError Settings :=
  match files.readText path with
  | .error e => .error (.file e.message)
  | .ok text =>
    match ofText? text with
    | none => .error (.content text)
    | some s => s.validate

end Settings

end CypherRoutes
