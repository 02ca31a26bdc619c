/-
# Quoted literals

A string is written between quotes, with a backslash before each of its quotes and backslashes. The
first quote without a backslash is then the one that closes the literal, whatever the string holds
and whatever stands behind it: a reader gets the string back and goes on right behind the literal
(`Escapes.read_quotedLiteral`), and a scan for placeholders keeps the literal as it is
(`inlineParameters_quotedLiteral`). No part of a string is taken for text of the statement.
-/
import CypherRoutes.Proofs.Cypher.Placeholders

namespace CypherRoutes

/-! ## Reading a literal -/

/-- What the characters behind a backslash stand for. Readers may differ in this, but for the
backslash and the quote, which stand for themselves. -/
structure Escapes where
  /-- The character that is meant; none where a backslash must not stand. -/
  meaning : Char → Option Char
  backslash : meaning '\\' = some '\\'
  quote : meaning '\'' = some '\''

namespace Escapes

/-- The escapes of a query language, with letters for line breaks and other characters that are not
shown. -/
def standard : Escapes where
  meaning
    | '\\' => some '\\'
    | '\'' => some '\''
    | '"' => some '"'
    | 'b' => some '\x08'
    | 'f' => some '\x0c'
    | 'n' => some '\n'
    | 'r' => some '\r'
    | 't' => some '\t'
    | _ => none
  backslash := rfl
  quote := rfl

/-- The string up to the closing quote, and what stands behind the quote. -/
def readInner (escapes : Escapes) : List Char → Option (List Char × List Char)
  | [] => none
  | '\'' :: rest => some ([], rest)
  | ['\\'] => none
  | '\\' :: c :: rest => do
    let meant ← escapes.meaning c
    let (inner, after) ← readInner escapes rest
    return (meant :: inner, after)
  | c :: rest => do
    let (inner, after) ← readInner escapes rest
    return (c :: inner, after)

/-- The string that a text begins with as a quoted literal, and the text behind the literal. -/
def read (escapes : Escapes) (text : String) : Option (String × String) :=
  match text.toList with
  | '\'' :: rest =>
    (escapes.readInner rest).map fun (inner, after) => (String.ofList inner, String.ofList after)
  | _ => none

end Escapes

/-! ## Escaping -/

/-- A text with every occurrence of a character replaced. -/
def replaced (old : Char) (new text : List Char) : List Char :=
  text.flatMap fun c => if c = old then new else [c]

namespace Value

/-- Escaping is replacing the backslashes first, and then the quotes. -/
theorem escaped_eq_replaced (text : List Char) :
    text.flatMap escapedLiteralChar
      = replaced '\'' ['\\', '\''] (replaced '\\' ['\\', '\\'] text) := by
  rw [replaced, replaced, List.flatMap_assoc]
  refine List.flatMap_congr fun c _ => ?_
  rw [escapedLiteralChar]
  by_cases hbackslash : c = '\\'
  · subst hbackslash
    rfl
  · by_cases hquote : c = '\''
    · subst hquote
      rfl
    · simp [hbackslash, hquote]

/-- The characters of a quoted literal. -/
theorem toList_quotedLiteral (s : String) :
    (quotedLiteral s).toList = '\'' :: (s.toList.flatMap escapedLiteralChar ++ ['\'']) := by
  rw [quotedLiteral, String.toList_ofList]

/-- An escaped text has no quote that could close a literal. -/
theorem isQuotable_escaped (text : List Char) : IsQuotable (text.flatMap escapedLiteralChar) := by
  induction text with
  | nil => exact .nil
  | cons c text ih =>
      rw [List.flatMap_cons, escapedLiteralChar]
      split_ifs with hc
      · exact .escaped c ih
      · rw [Bool.or_eq_true, not_or, beq_iff_eq, beq_iff_eq] at hc
        exact .plain hc.2 hc.1 ih

end Value

/-- A reader gets an escaped text back. -/
theorem Escapes.readInner_escaped (escapes : Escapes) (text rest : List Char) :
    escapes.readInner (text.flatMap Value.escapedLiteralChar ++ '\'' :: rest)
      = some (text, rest) := by
  induction text with
  | nil => rfl
  | cons c text ih =>
      rw [List.flatMap_cons, Value.escapedLiteralChar]
      by_cases hbackslash : c = '\\'
      · subst hbackslash
        simp [readInner, escapes.backslash, ih]
      · by_cases hquote : c = '\''
        · subst hquote
          simp [readInner, escapes.quote, ih]
        · simp [hbackslash, hquote, readInner, ih]

/-- A reader gets the string of a literal back, and what stands behind the literal. -/
theorem Escapes.read_quotedLiteral (escapes : Escapes) (s rest : String) :
    escapes.read (Value.quotedLiteral s ++ rest) = some (s, rest) := by
  rw [read, String.toList_append, Value.toList_quotedLiteral, List.cons_append, List.append_assoc,
    List.singleton_append]
  simp only [readInner_escaped, Option.map_some, String.ofList_toList]

/-! ## Scanning a literal -/

/-- A scan keeps all characters of a literal. -/
theorem fragments_quotedLiteral (s : String) (rest : List Char) :
    fragments .outside none ((Value.quotedLiteral s).toList ++ rest)
      = (Value.quotedLiteral s).toList.map (fun c => .kept [c])
        ++ fragments .outside none rest := by
  have hliteral := fragments_literal (Value.isQuotable_escaped s.toList) rest
  rw [Value.toList_quotedLiteral, List.cons_append, List.append_assoc, List.singleton_append]
  exact hliteral

/-- A literal in front of a text stays in front of the inlined text, and adds no failure. -/
theorem inlineParameters_quotedLiteral (s rest : String) (params : Params) :
    inlineParameters (Value.quotedLiteral s ++ rest) params
      = (inlineParameters rest params).map (Value.quotedLiteral s ++ ·) := by
  rw [inlineParameters, String.toList_append, fragments_quotedLiteral, substitute_kept,
    inlineParameters]
  cases substitute params (fragments .outside none rest.toList) with
  | error missing => rfl
  | ok text =>
      refine congrArg Except.ok ?_
      rw [String.ofList_append, String.ofList_toList]

/-! ## Strings among values -/

/-- No string breaks out of its literal. Read from its first quote on, the literal of a string gives
exactly the string back and leaves exactly what stands behind the literal, whichever other escapes
the reader knows. Inlining parameters gives the literal as it is and then what inlining gives for
the rest, or fails as inlining the rest does. -/
theorem Value.read_inline_cypher_string (s rest : String) :
    (∀ escapes : Escapes, escapes.read ((string s).cypher ++ rest) = some (s, rest)) ∧
      ∀ params, inlineParameters ((string s).cypher ++ rest) params
        = (inlineParameters rest params).map ((string s).cypher ++ ·) :=
  ⟨fun escapes => escapes.read_quotedLiteral s rest, inlineParameters_quotedLiteral s rest⟩

/-- The second quote is escaped and the third is not. -/
example : Escapes.standard.read "'a\\\\\\' $x' $y" = some ("a\\' $x", " $y") := by decide

end CypherRoutes
