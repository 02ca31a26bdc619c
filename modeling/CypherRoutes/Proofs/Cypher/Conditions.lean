/-
# Conditions as they are read

The text of a condition is cut into words and signs, and these are put together by a grammar: NOT
binds closer than AND, and AND closer than OR. The operands are comparisons of a property with a
parameter, and properties alone. A list of tokens has one reading at most (`Reads.unique`): a reader
that goes through the tokens once, with a stack of the open parentheses, comes to the formula of
every reading.
-/
import CypherRoutes.Cypher.Clause
import CypherRoutes.Proofs.Cypher.Legible

namespace CypherRoutes

/-- The operation on truth values. -/
def BoolOp.eval : BoolOp → Bool → Bool → Bool
  | .and, a, b => a && b
  | .or, a, b => a || b

/-- What is joined when nothing is. -/
def BoolOp.unit : BoolOp → Bool
  | .and => true
  | .or => false

theorem BoolOp.eval_unit (op : BoolOp) (a : Bool) : op.eval a op.unit = a := by
  cases op with
  | and => exact Bool.and_true a
  | or => exact Bool.or_false a

theorem BoolOp.eval_assoc (op : BoolOp) (a b c : Bool) :
    op.eval (op.eval a b) c = op.eval a (op.eval b c) := by
  cases op with
  | and => exact Bool.and_assoc a b c
  | or => exact Bool.or_assoc a b c

namespace Condition

/-! ## Tokens -/

/-- A word, or a sign between words. -/
inductive Token where
  | word (text : String)
  | sign (c : Char)
deriving DecidableEq

/-- The token of a word whose characters were read backwards, if any were. -/
def wordOf : List Char → List Token
  | [] => []
  | read => [.word (String.ofList read.reverse)]

/-- The token of a character that belongs to no word; a blank has none. -/
def signOf (c : Char) : List Token := if c.isWhitespace then [] else [.sign c]

/-- The tokens of a text, behind the characters of a word. -/
def tokensFrom (read : List Char) : List Char → List Token
  | [] => wordOf read
  | c :: rest =>
    if isNameChar c then tokensFrom (c :: read) rest
    else wordOf read ++ (signOf c ++ tokensFrom [] rest)

/-- The tokens of a text. -/
def tokens (text : String) : List Token := tokensFrom [] text.toList

/-- A character that belongs to no word cuts a text. -/
theorem tokensFrom_append_cons {c : Char} (hc : isNameChar c = false) (read a b : List Char) :
    tokensFrom read (a ++ c :: b) = tokensFrom read a ++ (signOf c ++ tokensFrom [] b) := by
  induction a generalizing read with
  | nil => rw [List.nil_append, tokensFrom, tokensFrom, if_neg (by simp [hc])]
  | cons d rest ih =>
      rw [List.cons_append, tokensFrom, tokensFrom]
      split_ifs with hd
      · exact ih _
      · rw [ih, List.append_assoc, List.append_assoc]

/-- The characters of a name are one word. -/
theorem tokensFrom_name {name : List Char} (h : ∀ c ∈ name, isNameChar c = true)
    (read : List Char) : tokensFrom read name = wordOf (name.reverse ++ read) := by
  induction name generalizing read with
  | nil => rfl
  | cons c rest ih =>
      rw [tokensFrom, if_pos (h c List.mem_cons_self),
        ih (fun d hd => h d (List.mem_cons_of_mem _ hd)), List.reverse_cons, List.append_assoc]
      rfl

theorem tokens_name {name : String} (h : IsName name) : tokens name = [.word name] := by
  rw [tokens, tokensFrom_name h.2, List.append_nil]
  cases hread : name.toList.reverse with
  | nil => exact absurd (List.reverse_eq_nil_iff.mp hread) h.1
  | cons c rest =>
      change [Token.word (String.ofList (c :: rest).reverse)] = _
      rw [← hread, List.reverse_reverse, String.ofList_toList]

/-- A text between blanks is cut off on both sides. -/
theorem tokens_between (a b : String) {word : String} (h : IsName word) :
    tokens (a ++ (" " ++ word ++ " ") ++ b) = tokens a ++ .word word :: tokens b := by
  have hlist : (a ++ (" " ++ word ++ " ") ++ b).toList
      = a.toList ++ ' ' :: (word.toList ++ ' ' :: b.toList) := by
    simp [String.toList_append]
  have hblank : signOf ' ' = [] := by decide
  rw [tokens, hlist, tokensFrom_append_cons (by decide), tokensFrom_append_cons (by decide), hblank,
    List.nil_append, List.nil_append]
  exact congrArg (fun ts => tokens a ++ (ts ++ tokens b)) (tokens_name h)

/-- Parentheses around a text are signs of their own. -/
theorem tokens_parens (text : String) :
    tokens ("(" ++ text ++ ")") = .sign '(' :: (tokens text ++ [.sign ')']) := by
  have hlist : ("(" ++ text ++ ")").toList = [] ++ '(' :: (text.toList ++ ')' :: []) := by
    simp [String.toList_append]
  have hsigns : signOf '(' = [.sign '('] ∧ signOf ')' = [.sign ')'] := by decide
  rw [tokens, hlist, tokensFrom_append_cons (by decide), tokensFrom_append_cons (by decide),
    hsigns.1, hsigns.2]
  rfl

/-- A word in front of a text is cut off by a blank. -/
theorem tokens_word {word : String} (h : IsName word) (text : String) :
    tokens (word ++ " " ++ text) = .word word :: tokens text := by
  have hlist : (word ++ " " ++ text).toList = word.toList ++ ' ' :: text.toList := by
    simp [String.toList_append]
  have hblank : signOf ' ' = [] := by decide
  rw [tokens, hlist, tokensFrom_append_cons (by decide), hblank, List.nil_append]
  exact congrArg (· ++ tokens text) (tokens_name h)

/-! ## Formulas -/

/-- What is true or false by itself: a property compared with a parameter, or a property alone. -/
inductive Operand where
  | comparison (owner handle name : String)
  | property (owner handle : String)
deriving DecidableEq

/-- The variable of the node or relationship. -/
def Operand.owner : Operand → String
  | comparison owner _ _ => owner
  | property owner _ => owner

/-- How an operand is written. -/
def Operand.tokens : Operand → List Token
  | comparison owner handle name =>
    [.word owner, .sign '.', .word handle, .sign '=', .sign '$', .word name]
  | property owner handle => [.word owner, .sign '.', .word handle]

/-- A text with the tokens of a property alone. -/
theorem tokens_property {owner handle : String} (howner : IsName owner) (hhandle : IsName handle) :
    tokens (owner ++ "." ++ handle) = (Operand.property owner handle).tokens := by
  have hlist : (owner ++ "." ++ handle).toList = owner.toList ++ '.' :: handle.toList := by
    simp [String.toList_append]
  have hsign : signOf '.' = [.sign '.'] := by decide
  rw [tokens, hlist, tokensFrom_append_cons (by decide), hsign]
  exact congrArg₂ (fun a b => a ++ (_ ++ b)) (tokens_name howner) (tokens_name hhandle)

/-- A text with the tokens of a comparison. -/
theorem tokens_comparison {owner handle name : String} (howner : IsName owner)
    (hhandle : IsName handle) (hname : IsName name) :
    tokens (owner ++ "." ++ handle ++ " " ++ "=" ++ " " ++ ("$" ++ name))
      = (Operand.comparison owner handle name).tokens := by
  have hlist : (owner ++ "." ++ handle ++ " " ++ "=" ++ " " ++ ("$" ++ name)).toList
      = (owner ++ "." ++ handle).toList ++ ' ' :: ([] ++ '=' :: ([] ++ ' ' :: ([] ++
        '$' :: name.toList))) := by
    simp [String.toList_append]
  have hsigns : signOf ' ' = [] ∧ signOf '=' = [.sign '='] ∧ signOf '$' = [.sign '$'] := by decide
  have hproperty := tokens_property howner hhandle
  have hname := tokens_name hname
  rw [tokens] at hproperty hname
  rw [tokens, hlist, tokensFrom_append_cons (by decide), tokensFrom_append_cons (by decide),
    tokensFrom_append_cons (by decide), tokensFrom_append_cons (by decide), hsigns.1, hsigns.2.1,
    hsigns.2.2, hproperty, hname]
  rfl

/-- What is read from a condition. -/
inductive Formula where
  | operand (o : Operand)
  | not (f : Formula)
  | join (op : BoolOp) (f g : Formula)

namespace Formula

/-- The truth value under the values of the operands. -/
def holds (v : Operand → Bool) : Formula → Bool
  | operand o => v o
  | not f => !f.holds v
  | join op f g => op.eval (f.holds v) (g.holds v)

/-- The operands from left to right. -/
def operands : Formula → List Operand
  | operand o => [o]
  | not f => f.operands
  | join _ f g => f.operands ++ g.operands

/-- Two formulas with the same operands in order and the same truth values. -/
structure Same (f g : Formula) : Prop where
  holds : ∀ v, f.holds v = g.holds v
  operands : f.operands = g.operands

end Formula

/-! ## The grammar -/

/-- A word of the grammar. -/
inductive Keyword where
  | join (op : BoolOp)
  | not
deriving DecidableEq

/-- The keyword that a word is, in capitals or not. -/
def keyword? (word : String) : Option Keyword :=
  match word.toList.map Char.toUpper with
  | ['A', 'N', 'D'] => some (.join .and)
  | ['O', 'R'] => some (.join .or)
  | ['N', 'O', 'T'] => some .not
  | _ => none

/-- How close a condition holds together: as an operand does, or as a list joined by AND or OR. -/
inductive Rank where
  | single
  | joined (op : BoolOp)

/-- The rank of what is joined. -/
def Rank.inside : BoolOp → Rank
  | .and => .single
  | .or => .joined .and

/-- The readings of a list of tokens. -/
inductive Reads : Rank → List Token → Formula → Prop where
  | operand {o : Operand} : keyword? o.owner = none → Reads .single o.tokens (.operand o)
  | parens {ts : List Token} {f : Formula} :
      Reads (.joined .or) ts f → Reads .single (.sign '(' :: (ts ++ [.sign ')'])) f
  | not {word : String} {ts : List Token} {f : Formula} :
      keyword? word = some .not → Reads .single ts f → Reads .single (.word word :: ts) (.not f)
  | inside {op : BoolOp} {ts : List Token} {f : Formula} :
      Reads (Rank.inside op) ts f → Reads (.joined op) ts f
  | join {op : BoolOp} {word : String} {ts us : List Token} {f g : Formula} :
      Reads (.joined op) ts f → keyword? word = some (.join op) → Reads (Rank.inside op) us g →
      Reads (.joined op) (ts ++ .word word :: us) (.join op f g)

/-- Nothing is read from no tokens. -/
theorem Reads.ne_nil {rank : Rank} {ts : List Token} {f : Formula} (h : Reads rank ts f) :
    ts ≠ [] := by
  induction h with
  | @operand o _ => cases o <;> exact List.cons_ne_nil _ _
  | parens => exact List.cons_ne_nil _ _
  | not => exact List.cons_ne_nil _ _
  | inside _ ih => exact ih
  | join => exact List.append_ne_nil_of_right_ne_nil _ (List.cons_ne_nil _ _)

/-- What is read as a single condition is read as any. -/
theorem Reads.of_single {ts : List Token} {f : Formula} (h : Reads .single ts f) (op : BoolOp) :
    Reads (.joined op) ts f := by
  cases op with
  | and => exact .inside h
  | or => exact .inside (.inside h)

/-- Two joined lists are joined by their own word, whatever the order in which they are read. -/
theorem Reads.append {op : BoolOp} {word : String} (hword : keyword? word = some (.join op))
    {ts us : List Token} {f g : Formula} (hts : Reads (.joined op) ts f)
    (hus : Reads (.joined op) us g) :
    ∃ k, Reads (.joined op) (ts ++ .word word :: us) k ∧ k.Same (.join op f g) := by
  generalize hrank : Rank.joined op = rank at hus
  induction hus with
  | operand => cases hrank
  | parens => cases hrank
  | not => cases hrank
  | inside hg _ =>
      obtain rfl := Rank.joined.inj hrank
      exact ⟨_, hts.join hword hg, fun _ => rfl, rfl⟩
  | @join op' word' us₁ us₂ g₁ g₂ _ hword' hg₂ ih _ =>
      obtain rfl := Rank.joined.inj hrank
      -- the first part of the second list joins the first list
      obtain ⟨k, hk, hsame⟩ := ih rfl
      refine ⟨.join op k g₂, ?_, fun v => ?_, ?_⟩
      · have happend := hk.join hword' hg₂
        rwa [List.append_assoc, List.cons_append] at happend
      · rw [Formula.holds, hsame.holds, Formula.holds, Formula.holds, Formula.holds, op.eval_assoc]
      · rw [Formula.operands, hsame.operands, Formula.operands, Formula.operands,
          Formula.operands, List.append_assoc]

/-! ## One reading -/

/-- The formula under a number of negations. -/
def negated : Nat → Formula → Formula
  | 0, f => f
  | n + 1, f => negated n (.not f)

/-- The formula joined to what was read before it, if anything was. -/
def joinedTo (op : BoolOp) : Option Formula → Formula → Formula
  | none, f => f
  | some g, f => .join op g f

/-- What was read of a list joined by OR: its parts up to the last OR, the list joined by AND that
came after it, and the number of NOTs that wait for their operand. -/
structure Frame where
  before : Option Formula := none
  current : Option Formula := none
  nots : Nat := 0

/-- The frame after an operand. -/
def Frame.take (F : Frame) (f : Formula) : Frame :=
  ⟨F.before, some (joinedTo .and F.current (negated F.nots f)), 0⟩

/-- The formula of all that was read. -/
def Frame.formula? (F : Frame) : Option Formula := F.current.map (joinedTo .or F.before)

/-- Where a reader stands in an operand. -/
inductive Phase where
  | waiting
  | owner (owner : String)
  | dot (owner : String)
  | handle (owner handle : String)
  | equals (owner handle : String)
  | dollar (owner handle : String)
  | done

/-- A reader in the midst of a list of tokens, with the frames of the parentheses that are open. -/
structure Reader where
  phase : Phase
  frame : Frame
  outer : List Frame

namespace Reader

/-- The frames behind an operand that is over, or may be. -/
def settled? (r : Reader) : Option (Frame × List Frame) :=
  match r.phase with
  | .handle owner handle => some (r.frame.take (.operand (.property owner handle)), r.outer)
  | .done => some (r.frame, r.outer)
  | _ => none

/-- The reader behind an operand and one more token. -/
def resume (F : Frame) (outer : List Frame) : Token → Option Reader
  | .word word =>
    match keyword? word with
    | some (.join .and) => some ⟨.waiting, F, outer⟩
    | some (.join .or) => F.formula?.map fun f => ⟨.waiting, { before := some f }, outer⟩
    | _ => none
  | .sign ')' =>
    match F.formula?, outer with
    | some f, G :: outer => some ⟨.done, G.take f, outer⟩
    | _, _ => none
  | _ => none

/-- The reader before an operand and one more token. -/
def begin (r : Reader) : Token → Option Reader
  | .sign '(' => some ⟨.waiting, {}, r.frame :: r.outer⟩
  | .word word =>
    match keyword? word with
    | none => some { r with phase := .owner word }
    | some .not => some { r with frame := { r.frame with nots := r.frame.nots + 1 } }
    | _ => none
  | _ => none

/-- The reader after one more token. -/
def step (r : Reader) (token : Token) : Option Reader :=
  match r.phase with
  | .waiting => r.begin token
  | .owner owner => if token = .sign '.' then some { r with phase := .dot owner } else none
  | .dot owner =>
    match token with
    | .word handle => some { r with phase := .handle owner handle }
    | _ => none
  | .handle owner handle =>
    if token = .sign '=' then some { r with phase := .equals owner handle }
    else resume (r.frame.take (.operand (.property owner handle))) r.outer token
  | .equals owner handle =>
    if token = .sign '$' then some { r with phase := .dollar owner handle } else none
  | .dollar owner handle =>
    match token with
    | .word name =>
      some ⟨.done, r.frame.take (.operand (.comparison owner handle name)), r.outer⟩
    | _ => none
  | .done => resume r.frame r.outer token

/-- The reader after a list of tokens. -/
def run (r : Reader) (ts : List Token) : Option Reader := ts.foldlM step r

theorem run_append (r : Reader) (ts us : List Token) :
    r.run (ts ++ us) = (r.run ts).bind fun s => s.run us := List.foldlM_append ..

theorem run_cons (r : Reader) (t : Token) (ts : List Token) :
    r.run (t :: ts) = (r.step t).bind fun s => s.run ts := List.foldlM_cons ..

/-- A reader comes to given frames behind an operand. -/
def Comes (r : Reader) (ts : List Token) (F : Frame) (outer : List Frame) : Prop :=
  ∃ s, r.run ts = some s ∧ s.settled? = some (F, outer)

/-- Behind an operand that may be over, any token but a `=` is read as if it was. -/
theorem step_of_settled {r : Reader} {F : Frame} {outer : List Frame}
    (h : r.settled? = some (F, outer)) {token : Token} (htoken : token ≠ .sign '=') :
    r.step token = resume F outer token := by
  obtain ⟨phase, frame, frames⟩ := r
  cases phase with
  | handle owner handle =>
      obtain ⟨rfl, rfl⟩ := Prod.mk.inj (Option.some.inj h)
      exact if_neg htoken
  | done =>
      obtain ⟨rfl, rfl⟩ := Prod.mk.inj (Option.some.inj h)
      rfl
  | waiting => cases h
  | owner => cases h
  | dot => cases h
  | equals => cases h
  | dollar => cases h

theorem Comes.cons {r s : Reader} {t : Token} {ts : List Token} {F : Frame} {outer : List Frame}
    (ht : r.step t = some s) (h : s.Comes ts F outer) : r.Comes (t :: ts) F outer := by
  rw [Comes, run_cons, ht]
  exact h

/-- Behind an operand a reader goes on with what it resumes. -/
theorem Comes.append {r : Reader} {ts us : List Token} {t : Token} {F G : Frame}
    {outer outer' : List Frame} (h : r.Comes ts F outer) (ht : t ≠ .sign '=')
    (hresume : ∃ s, resume F outer t = some s ∧ s.Comes us G outer') :
    r.Comes (ts ++ t :: us) G outer' := by
  obtain ⟨s, hrun, hsettled⟩ := h
  obtain ⟨s', hs', hcomes⟩ := hresume
  rw [Comes, run_append, hrun, Option.bind_some, run_cons, step_of_settled hsettled ht, hs',
    Option.bind_some]
  exact hcomes

/-- A reader that waits for an operand takes it; of a list joined by AND, the list becomes the last
one of its frame, and one joined by OR becomes the whole frame. -/
def Takes (rank : Rank) (ts : List Token) (f : Formula) : Prop :=
  match rank with
  | .single => ∀ F outer, Comes ⟨.waiting, F, outer⟩ ts (F.take f) outer
  | .joined .and => ∀ before outer,
      Comes ⟨.waiting, { before := before }, outer⟩ ts { before := before, current := some f } outer
  | .joined .or => ∀ outer, ∃ F, Comes ⟨.waiting, {}, outer⟩ ts F outer ∧ F.formula? = some f

theorem takes_of_reads {rank : Rank} {ts : List Token} {f : Formula} (h : Reads rank ts f) :
    Takes rank ts f := by
  induction h with
  | @operand o ho =>
      intro F outer
      have hstart : (Reader.mk .waiting F outer).step (.word o.owner)
          = some ⟨.owner o.owner, F, outer⟩ := by
        simp only [step, begin, ho]
      cases o with
      | comparison => exact .cons hstart ⟨_, rfl, rfl⟩
      | property => exact .cons hstart ⟨_, rfl, rfl⟩
  | @parens ts f _ ih =>
      intro F outer
      obtain ⟨G, hcomes, hformula⟩ := ih (F :: outer)
      refine .cons rfl (hcomes.append (by decide) ⟨⟨.done, F.take f, outer⟩, ?_, _, rfl, rfl⟩)
      simp only [resume, hformula]
  | @not word ts f hword _ ih =>
      intro F outer
      refine .cons (s := ⟨.waiting, { F with nots := F.nots + 1 }, outer⟩) ?_ (ih _ outer)
      simp only [step, begin, hword]
  | @inside op ts f _ ih =>
      cases op with
      | and => exact fun before outer => ih { before := before } outer
      | or => exact fun outer => ⟨_, ih none outer, rfl⟩
  | @join op word ts us f g _ hword _ ihf ihg =>
      cases op with
      | and =>
          intro before outer
          refine (ihf before outer).append (by simp)
            ⟨_, ?_, ihg { before := before, current := some f } outer⟩
          simp only [resume, hword]
      | or =>
          intro outer
          obtain ⟨F, hcomes, hformula⟩ := ihf outer
          refine ⟨_, hcomes.append (by simp) ⟨_, ?_, ihg (some f) outer⟩, rfl⟩
          simp only [resume, hword, hformula, Option.map_some]

end Reader

/-- A list of tokens has one reading at most. -/
theorem Reads.unique {ts : List Token} {f g : Formula} (hf : Reads (.joined .or) ts f)
    (hg : Reads (.joined .or) ts g) : f = g := by
  obtain ⟨F, ⟨r, hr, hF⟩, hf⟩ := Reader.takes_of_reads hf []
  obtain ⟨G, ⟨s, hs, hG⟩, hg⟩ := Reader.takes_of_reads hg []
  obtain rfl := Option.some.inj (hr.symm.trans hs)
  obtain ⟨rfl, -⟩ := Prod.mk.inj (Option.some.inj (hF.symm.trans hG))
  exact Option.some.inj (hf.symm.trans hg)

end Condition

end CypherRoutes
