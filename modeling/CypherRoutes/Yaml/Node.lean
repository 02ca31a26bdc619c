/-
# YAML nodes

The tree that a YAML document is, before its scalars are read as values. Anchored nodes carry the
number of their anchor, and references the number that their name had where they stand.
-/
import CypherRoutes.Yaml.Token

namespace CypherRoutes

namespace Yaml

/-- A scalar with its tag. -/
structure Scalar where
  text : String
  style : Style
  tag : Option TagText

/-- A scalar, a collection, or a reference to an anchored node. -/
inductive Node where
  | reference (anchor : Nat)
  | scalar (anchor : Option Nat) (scalar : Scalar)
  | sequence (anchor : Option Nat) (tag : Option TagText) (items : List Node)
  | mapping (anchor : Option Nat) (tag : Option TagText) (entries : List (Node × Node))

/-- The scalar that stands where a node is left out. -/
def Node.omitted : Node := .scalar none ⟨"", .plain, none⟩

/-! ## Reading state -/

/-- Tokens that are being read as nodes. -/
structure Reading where
  tokens : List Token
  /-- What the tag handles stand for. -/
  handles : List (String × TagText) := []
  /-- The anchors so far, each name with its latest number. -/
  anchors : List (String × Nat) := []

/-- A step that reads tokens and may fail. -/
abbrev Read := StateT Reading Option

namespace Read

/-- The next token; nothing at the end of the text. -/
def peek : Read (Option Token) := do return (← get).tokens.head?

/-- Passes over the next token. -/
def skip : Read Unit := modify fun s => { s with tokens := s.tokens.drop 1 }

/-- The number of a newly anchored name: how many names there are so far. A name that is used
again keeps its place among them. -/
def anchorNumber (name : String) : Read Nat := do
  let s ← get
  let number := s.anchors.length
  set { s with anchors := (name, number) :: s.anchors.filter (·.1 != name) }
  return number

/-- The number that a name has here. -/
def referredNumber (name : String) : Read Nat := do
  let s ← get
  s.anchors.lookup name

/-- A tag's text up to a null character. -/
def untilNull (text : TagText) : TagText := text.takeWhile (· != some '\x00')

/-- The tag with its handle replaced by what it stands for. -/
def fullTag (handle : String) (suffix : TagText) : Read TagText := do
  if handle.isEmpty then return untilNull suffix
  let s ← get
  let start ← s.handles.lookup handle
  return untilNull start ++ untilNull suffix

/-- The anchor and the tag before a node, in either order. -/
def properties : Read (Option Nat × Option TagText) := do
  match ← peek with
  | some (.anchor name) => do
    skip
    let anchor ← anchorNumber name
    match ← peek with
    | some (.tag handle suffix) => do
      skip
      return (some anchor, some (← fullTag handle suffix))
    | _ => return (some anchor, none)
  | some (.tag handle suffix) => do
    skip
    match ← peek with
    | some (.anchor name) => do
      skip
      let tag ← fullTag handle suffix
      return (some (← anchorNumber name), some tag)
    | _ => return (none, some (← fullTag handle suffix))
  | _ => return (none, none)

/-! ## Nodes -/

/-- The kinds of tokens at which a node is left out. -/
inductive Boundary where
  | key
  | value
  | blockEntry
  | blockEnd
  | flowEntry
  | flowSequenceEnd
  | flowMappingEnd
deriving DecidableEq

/-- The boundary that a token is, if it is one. -/
def Boundary.ofToken? : Token → Option Boundary
  | .key => some .key
  | .value => some .value
  | .blockEntry => some .blockEntry
  | .blockEnd => some .blockEnd
  | .flowEntry => some .flowEntry
  | .flowSequenceEnd => some .flowSequenceEnd
  | .flowMappingEnd => some .flowMappingEnd
  | _ => none

/-- The boundary that the next token is. -/
def boundary : Read (Option Boundary) := do return (← peek).bind Boundary.ofToken?

/-- Whether the next token is one of some boundaries. -/
def atBoundary (boundaries : List Boundary) : Read Bool := do
  return (← boundary).any boundaries.contains

mutual

/-- A node. In a block it may be a block collection, and as a key or value of a block mapping also
a sequence without indentation of its own. `fuel` bounds the calls, of which there are at most
three for each token. -/
def node (block unindented : Bool) : (fuel : Nat) → Read Node
  | 0 => failure
  | fuel + 1 => do
    match ← peek with
    | some (.reference name) => do
      skip
      return .reference (← referredNumber name)
    | _ =>
      let (anchor, tag) ← properties
      match ← peek with
      | some (.scalar text style) => do
        skip
        return .scalar anchor ⟨text, style, tag⟩
      | some .flowSequence => do
        skip
        return .sequence anchor tag (← flowItems fuel true)
      | some .flowMapping => do
        skip
        return .mapping anchor tag (← flowEntries fuel true)
      | some .blockSequence =>
        if block then do
          skip
          return .sequence anchor tag (← blockItems fuel)
        else omitted anchor tag
      | some .blockMapping =>
        if block then do
          skip
          return .mapping anchor tag (← blockEntries fuel)
        else omitted anchor tag
      | some .blockEntry =>
        if unindented then return .sequence anchor tag (← unindentedItems fuel)
        else omitted anchor tag
      | _ => omitted anchor tag
where
  /-- The empty scalar behind an anchor or a tag; without either a node has to be there. -/
  omitted (anchor : Option Nat) (tag : Option TagText) : Read Node :=
    if anchor.isNone && tag.isNone then failure
    else return .scalar anchor ⟨"", .plain, tag⟩

/-- A node, unless the next token is one of some boundaries, where it is left out. -/
def nodeUnless (boundaries : List Boundary) (block unindented : Bool) : (fuel : Nat) → Read Node
  | 0 => failure
  | fuel + 1 => do
    if ← atBoundary boundaries then return .omitted else node block unindented fuel

/-- The items of a block sequence up to its end. -/
def blockItems : (fuel : Nat) → Read (List Node)
  | 0 => failure
  | fuel + 1 => do
    match ← boundary with
    | some .blockEntry => do
      skip
      let item ← nodeUnless [.blockEntry, .blockEnd] true false fuel
      return item :: (← blockItems fuel)
    | some .blockEnd => do
      skip
      return []
    | _ => failure

/-- The items of a sequence without indentation of its own. -/
def unindentedItems : (fuel : Nat) → Read (List Node)
  | 0 => failure
  | fuel + 1 => do
    match ← boundary with
    | some .blockEntry => do
      skip
      let item ← nodeUnless [.blockEntry, .key, .value, .blockEnd] true false fuel
      return item :: (← unindentedItems fuel)
    | _ => return []

/-- The entries of a block mapping up to its end. -/
def blockEntries : (fuel : Nat) → Read (List (Node × Node))
  | 0 => failure
  | fuel + 1 => do
    match ← boundary with
    | some .key => do
      skip
      let key ← nodeUnless [.key, .value, .blockEnd] true true fuel
      let value ← blockValue fuel
      return (key, value) :: (← blockEntries fuel)
    | some .blockEnd => do
      skip
      return []
    | _ => failure

/-- The value of a block mapping's entry. -/
def blockValue : (fuel : Nat) → Read Node
  | 0 => failure
  | fuel + 1 => do
    match ← boundary with
    | some .value => do
      skip
      nodeUnless [.key, .value, .blockEnd] true true fuel
    | _ => return .omitted

/-- The items of a flow sequence up to its end; all but the first follow a comma. An item with a
key indicator is a mapping of one entry. -/
def flowItems : (fuel : Nat) → (first : Bool) → Read (List Node)
  | 0, _ => failure
  | fuel + 1, first => do
    if ← atBoundary [.flowSequenceEnd] then
      skip
      return []
    if !first then
      if ← atBoundary [.flowEntry] then skip else failure
    match ← boundary with
    | some .key => do
      skip
      let entry ← flowPair fuel
      return .mapping none none [entry] :: (← flowItems fuel false)
    | some .flowSequenceEnd => do
      skip
      return []
    | _ => do
      let item ← node false false fuel
      return item :: (← flowItems fuel false)

/-- The single entry of a mapping in a flow sequence. Where its key is left out, the token at
which it is left out is passed over. -/
def flowPair : (fuel : Nat) → Read (Node × Node)
  | 0 => failure
  | fuel + 1 => do
    let key ←
      if ← atBoundary [.value, .flowEntry, .flowSequenceEnd] then do
        skip
        pure .omitted
      else node false false fuel
    if ← atBoundary [.value] then
      skip
      return (key, ← nodeUnless [.flowEntry, .flowSequenceEnd] false false fuel)
    return (key, .omitted)

/-- The entries of a flow mapping up to its end; all but the first follow a comma. -/
def flowEntries : (fuel : Nat) → (first : Bool) → Read (List (Node × Node))
  | 0, _ => failure
  | fuel + 1, first => do
    if ← atBoundary [.flowMappingEnd] then
      skip
      return []
    if !first then
      if ← atBoundary [.flowEntry] then skip else failure
    match ← boundary with
    | some .key => do
      skip
      let key ← nodeUnless [.value, .flowEntry, .flowMappingEnd] false false fuel
      let value ← flowValue fuel
      return (key, value) :: (← flowEntries fuel false)
    | some .flowMappingEnd => do
      skip
      return []
    | _ => do
      let key ← node false false fuel
      return (key, .omitted) :: (← flowEntries fuel false)

/-- The value of a flow mapping's entry. -/
def flowValue : (fuel : Nat) → Read Node
  | 0 => failure
  | fuel + 1 => do
    if ← atBoundary [.value] then
      skip
      nodeUnless [.flowEntry, .flowMappingEnd] false false fuel
    else return .omitted

end

/-! ## Documents -/

/-- The directives before a document, with what the handles stand for. A version or a handle is
given once, and the version is 1.1 or 1.2. -/
def directives (version : Bool) (handles : List (String × TagText)) :
    List Token → Option (List (String × TagText) × List Token)
  | .version major minor :: rest =>
    if version || major != 1 || (minor != 1 && minor != 2) then none
    else directives true handles rest
  | .tagDirective handle start :: rest =>
    if handles.any (·.1 == handle) then none
    else directives version ((handle, start) :: handles) rest
  | tokens => some (handles, tokens)

/-- The handles that need no directive. -/
def defaultHandles : List (String × TagText) :=
  [("!", TagText.ofChars ['!']), ("!!", TagText.ofChars "tag:yaml.org,2002:".toList)]

/-- Whether a token stands before a document. -/
def startsDocument : Token → Bool
  | .version _ _ => true
  | .tagDirective _ _ => true
  | .documentStart => true
  | _ => false

/-- Whether a token ends a document without content. -/
def endsDocument (t : Token) : Bool :=
  startsDocument t ||
    match t with
    | .documentEnd => true
    | _ => false

/-- The content of a document after its start. -/
def content (fuel : Nat) : Read Node := do
  match ← peek with
  | none => return .omitted
  | some t => if endsDocument t then return .omitted else node true false fuel

end Read

/-- The node of the only document in a list of tokens; nothing in it if there is no document. -/
def Node.ofTokens? (tokens : List Token) : Option (Option Node) :=
  match tokens with
  | [] => some none
  | first :: _ => do
    let fuel := 3 * tokens.length + 3
    let (handles, rest) ← Read.directives false [] tokens
    let start : Reading := { tokens := rest, handles := handles ++ Read.defaultHandles }
    let (node, s) ←
      if Read.startsDocument first then
        match rest with
        | .documentStart :: rest => (Read.content fuel).run { start with tokens := rest }
        | _ => none
      else (Read.node true false fuel).run start
    let after := s.tokens.dropWhile fun
      | .documentEnd => true
      | _ => false
    if after.isEmpty then some (some node) else none

end Yaml

end CypherRoutes
