/-
# YAML documents

A YAML text with one document, as a value. References are followed; how deep collections nest and
how many references are followed is limited.
-/
import CypherRoutes.Yaml.Scalar
import CypherRoutes.Yaml.Token.Stream

namespace CypherRoutes

namespace Yaml

/-! ## Anchored nodes -/

namespace Node

/-- An anchored node under its number, if the node has an anchor. -/
def anchoredAs (anchor : Option Nat) (n : Node) : List (Nat × Node) :=
  (anchor.map fun number => (number, n)).toList

mutual

/-- All anchored nodes in a node, in the order of their beginnings. -/
def anchored : Node → List (Nat × Node)
  | reference _ => []
  | scalar anchor s => anchoredAs anchor (.scalar anchor s)
  | sequence anchor tag items =>
    anchoredAs anchor (.sequence anchor tag items) ++ anchoredItems items
  | mapping anchor tag entries =>
    anchoredAs anchor (.mapping anchor tag entries) ++ anchoredEntries entries

/-- All anchored nodes in a list of nodes. -/
def anchoredItems : List Node → List (Nat × Node)
  | [] => []
  | item :: rest => anchored item ++ anchoredItems rest

/-- All anchored nodes in a list of entries. -/
def anchoredEntries : List (Node × Node) → List (Nat × Node)
  | [] => []
  | (key, value) :: rest => anchored key ++ anchored value ++ anchoredEntries rest

end

mutual

/-- The size of a node: a scalar or a reference counts once, and a collection twice. -/
def size : Node → Nat
  | reference _ => 1
  | scalar _ _ => 1
  | sequence _ _ items => 2 + itemsSize items
  | mapping _ _ entries => 2 + entriesSize entries

/-- The size of a list of nodes. -/
def itemsSize : List Node → Nat
  | [] => 0
  | item :: rest => size item + itemsSize rest

/-- The size of a list of entries. -/
def entriesSize : List (Node × Node) → Nat
  | [] => 0
  | (key, value) :: rest => size key + size value + entriesSize rest

end

end Node

/-! ## Documents -/

/-- The only document of a text. -/
structure Document where
  /-- Nothing, for a text without content. -/
  root : Option Node
  /-- The anchored nodes, the last to begin first. -/
  anchored : List (Nat × Node)
  /-- How many references may be followed. -/
  greatestJumps : Nat

/-- The document of a node, or of nothing. A hundred references may be followed for each unit of
its size. -/
def Document.ofNode (root : Option Node) : Document where
  root := root
  anchored := ((root.map Node.anchored).getD []).reverse
  greatestJumps := 100 * (root.map Node.size).getD 1

/-- The document that a text holds. -/
def document? (text : String) : Option Document := do
  let tokens ← tokens? text
  let root ← Node.ofTokens? tokens
  return .ofNode root

/-- A step that follows references and counts them. -/
abbrev Follow := StateT Nat Option

namespace Document

/-- The node itself, or the one that it refers to: of several with one number the last. -/
def follow (d : Document) (n : Node) : Follow Node :=
  match n with
  | .reference number => do
    let jumps ← get
    if d.greatestJumps ≤ jumps then failure
    set (jumps + 1)
    let target ← d.anchored.lookup number
    return target
  | n => return n

/-- The text of a key: that of a scalar, whatever its tag. -/
def keyText (d : Document) (n : Node) : Follow String := do
  match ← d.follow n with
  | .scalar _ s => return s.text
  | _ => failure

/-- How deep collections may nest. -/
def greatestDepth : Nat := 128

/-- The value of a node; `depth` bounds the collections still to be entered. A collection with a
tag of the text's own is refused, and other tags of collections are passed over. -/
def valueOf (d : Document) : (depth : Nat) → Node → Follow Value
  | depth, n => do
    match ← d.follow n with
    | .reference _ => failure
    | .scalar _ s => s.value
    | .sequence _ tag items =>
      if hasOwnTag tag then failure
      match depth with
      | 0 => failure
      | depth + 1 => return .array (← items.mapM (valueOf d depth))
    | .mapping _ tag entries =>
      if hasOwnTag tag then failure
      match depth with
      | 0 => failure
      | depth + 1 => do
        let members ← entries.mapM fun (key, value) => do
          let name ← d.keyText key
          let value ← valueOf d depth value
          return (name, value)
        return .ofMembers members

end Document

/-- The value that a text holds; a text without content holds null. -/
def read (text : String) : Option Value := do
  let d ← document? text
  match d.root with
  | none => return .null
  | some n => (d.valueOf Document.greatestDepth n).run' 0

end Yaml

end CypherRoutes
