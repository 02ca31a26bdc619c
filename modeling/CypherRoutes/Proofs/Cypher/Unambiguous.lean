/-
# Unambiguous literals

The literal of a value tells the value, as long as it can be told where the name of each member
ends: names are written as they are, so a name can look like the end of its object, or hold what
looks like another member (`Value.cypher_hidden_member`). Where no name does, literals differ if
their values do (`Value.cypher_eq_iff`). The reason is that a literal says by itself where it ends:
if two literals with something behind them are one text, then they are one literal
(`Value.cypher_append_inj`).
-/
import CypherRoutes.Proofs.Cypher.Quoted

namespace CypherRoutes

/-! ## Values and the names of members -/

/-- A value without decimals whose members have names of a kind, at any depth. -/
inductive Value.Built (P : String → Prop) : Value → Prop where
  | null : Built P .null
  | bool (b : Bool) : Built P (.bool b)
  | integer (n : Int) : Built P (.number (.integer n))
  | string (s : String) : Built P (.string s)
  | array {items : List Value} : (∀ v ∈ items, Built P v) → Built P (.array items)
  | object {members : List (String × Value)} : (∀ m ∈ members, P m.1) →
      (∀ m ∈ members, Built P m.2) → Built P (.object members)

/-- A name behind which the value of its member is found: it does not begin as an object ends, and
no blank stands behind a colon in it. -/
def IsMemberName (name : String) : Prop :=
  name.toList.head? ≠ some '\x7d' ∧ ¬ [':', ' '] <:+: name.toList

instance (name : String) : Decidable (IsMemberName name) :=
  inferInstanceAs (Decidable (_ ∧ _))

/-! ## First characters -/

/-- A character of a whole number. -/
def isNumeral (c : Char) : Bool := c.isDigit || c == '-'

/-- The kinds of values. -/
inductive LiteralKind where
  | null
  | bool
  | number
  | string
  | array
  | object
deriving DecidableEq

/-- The kind of value that a literal with a given first character stands for. -/
def LiteralKind.ofFirst? (c : Char) : Option LiteralKind :=
  if isNumeral c then some number
  else match c with
    | 'n' => some null
    | 't' => some bool
    | 'f' => some bool
    | '\'' => some string
    | '[' => some array
    | '\x7b' => some object
    | _ => none

namespace Value

/-- The kind of a value. -/
def kind : Value → LiteralKind
  | null => .null
  | bool _ => .bool
  | number _ => .number
  | string _ => .string
  | array _ => .array
  | object _ => .object

end Value

/-- A text behind which a whole number ends. -/
def EndsNumeral (text : List Char) : Prop := ∀ c ∈ text.head?, isNumeral c = false

/-- A whole number is written with numerals. -/
theorem isNumeral_of_mem_toString {n : Int} {c : Char} (h : c ∈ (toString n).toList) :
    isNumeral c = true := by
  have hdigits : ∀ m : Nat, ∀ c ∈ m.repr.toList, isNumeral c = true := by
    intro m c hc
    rw [Nat.repr_eq_ofList_toDigits, String.toList_ofList] at hc
    rw [isNumeral, Nat.isDigit_of_mem_toDigits (by decide) (by decide) hc, Bool.true_or]
  rw [Int.toString_eq_repr, Int.repr_eq_if] at h
  split_ifs at h
  · exact hdigits _ c h
  · rw [String.toList_append, List.mem_append] at h
    rcases h with h | h
    · rw [List.mem_singleton.mp h]
      decide
    · exact hdigits _ c h

theorem toString_int_ne_nil (n : Int) : (toString n).toList ≠ [] := by
  have hdigits : ∀ m : Nat, m.repr.toList ≠ [] := by
    intro m
    rw [Nat.repr_eq_ofList_toDigits, String.toList_ofList]
    exact Nat.toDigits_ne_nil
  rw [Int.toString_eq_repr, Int.repr_eq_if]
  split_ifs
  · exact hdigits _
  · rw [String.toList_append]
    exact List.append_ne_nil_of_right_ne_nil _ (hdigits _)

/-- A whole number is read up to its last numeral. -/
theorem toString_append_inj {m n : Int} {r r' : List Char} (hr : EndsNumeral r)
    (hr' : EndsNumeral r') (h : (toString m).toList ++ r = (toString n).toList ++ r') :
    m = n ∧ r = r' := by
  have htext : (toString m).toList = (toString n).toList := by
    rw [← takeWhile_run (fun _ => isNumeral_of_mem_toString) hr, h,
      takeWhile_run (fun _ => isNumeral_of_mem_toString) hr']
  refine ⟨?_, List.append_cancel_left (htext ▸ h)⟩
  rw [String.toList_inj, Int.toString_eq_repr, Int.toString_eq_repr] at htext
  exact Int.repr_inj.mp htext

/-! ## Items between separators -/

section Items

variable {α : Type} (text : α → String) (close : Char) (r : List Char)

/-- What stands behind an item: a separator and the items after it, or the end of the list. -/
def behindItem : List α → List Char
  | [] => close :: r
  | a :: rest => ',' :: ' ' :: ((text a).toList ++ behindItem rest)

/-- The items of a list with what closes it, and what stands behind that. -/
def itemsThen : List α → List Char
  | [] => close :: r
  | a :: rest => (text a).toList ++ behindItem text close r rest

/-- Joined texts are items between separators. -/
theorem intercalate_append_eq (l : List α) :
    (String.intercalate ", " (l.map text)).toList ++ close :: r = itemsThen text close r l := by
  rw [String.toList_intercalate, List.map_map]
  cases l with
  | nil => rfl
  | cons a rest =>
      rw [itemsThen]
      induction rest generalizing a with
      | nil => simp [behindItem]
      | cons b rest ih =>
          simp only [List.map_cons] at ih ⊢
          rw [List.intercalate_cons_cons, List.append_assoc, List.append_assoc, ih, behindItem]
          rfl

variable {text close r} {r' : List Char} {xs ys : List α}

/-- A number that is an item ends with the item. -/
theorem endsNumeral_behindItem (hclose : isNumeral close = false) (l : List α) :
    EndsNumeral (behindItem text close r l) := by
  intro c hc
  cases l with
  | nil => exact Option.some.inj hc ▸ hclose
  | cons a rest => exact Option.some.inj hc ▸ rfl

/-- Items are known by their joined texts if each is known by its own. -/
theorem behindItem_inj (hcomma : close ≠ ',') (hclose : isNumeral close = false)
    (hitem : ∀ x ∈ xs, ∀ y ∈ ys, ∀ s s', EndsNumeral s → EndsNumeral s' →
      (text x).toList ++ s = (text y).toList ++ s' → x = y ∧ s = s')
    (h : behindItem text close r xs = behindItem text close r' ys) : xs = ys ∧ r = r' := by
  induction xs generalizing ys with
  | nil =>
      cases ys with
      | nil => exact ⟨rfl, (List.cons.inj h).2⟩
      | cons y ys => exact absurd (List.cons.inj h).1 hcomma
  | cons x xs ih =>
      cases ys with
      | nil => exact absurd (List.cons.inj h).1.symm hcomma
      | cons y ys =>
          have htail := (List.cons.inj (List.cons.inj h).2).2
          obtain ⟨rfl, hrest⟩ := hitem x List.mem_cons_self y List.mem_cons_self _ _
            (endsNumeral_behindItem hclose xs) (endsNumeral_behindItem hclose ys) htail
          obtain ⟨rfl, rfl⟩ := ih (fun a ha b hb =>
            hitem a (List.mem_cons_of_mem _ ha) b (List.mem_cons_of_mem _ hb)) hrest
          exact ⟨rfl, rfl⟩

/-- So are the items of lists, if no item begins as a list is closed. -/
theorem itemsThen_inj (hcomma : close ≠ ',') (hclose : isNumeral close = false)
    (hfirst : ∀ a, a ∈ xs ∨ a ∈ ys → ∀ s s', (text a).toList ++ s ≠ close :: s')
    (hitem : ∀ x ∈ xs, ∀ y ∈ ys, ∀ s s', EndsNumeral s → EndsNumeral s' →
      (text x).toList ++ s = (text y).toList ++ s' → x = y ∧ s = s')
    (h : itemsThen text close r xs = itemsThen text close r' ys) : xs = ys ∧ r = r' := by
  cases xs with
  | nil =>
      cases ys with
      | nil => exact ⟨rfl, (List.cons.inj h).2⟩
      | cons y ys => exact absurd h.symm (hfirst y (.inr List.mem_cons_self) _ _)
  | cons x xs =>
      cases ys with
      | nil => exact absurd h (hfirst x (.inl List.mem_cons_self) _ _)
      | cons y ys =>
          obtain ⟨rfl, hrest⟩ := hitem x List.mem_cons_self y List.mem_cons_self _ _
            (endsNumeral_behindItem hclose xs) (endsNumeral_behindItem hclose ys) h
          obtain ⟨rfl, rfl⟩ := behindItem_inj hcomma hclose (fun a ha b hb =>
            hitem a (List.mem_cons_of_mem _ ha) b (List.mem_cons_of_mem _ hb)) hrest
          exact ⟨rfl, rfl⟩

end Items

/-! ## Names and values of members -/

/-- A colon and a blank come first behind a text that has none. -/
theorem eq_nil_of_colon {start d s s' : List Char} (hname : ¬ [':', ' '] <:+: start ++ d)
    (h : ':' :: ' ' :: s = d ++ ':' :: ' ' :: s') : d = [] := by
  match d with
  | [] => rfl
  | [c] => exact absurd (List.cons.inj (List.cons.inj h).2).1 (by decide)
  | c :: c' :: rest =>
      simp only [List.cons_append, List.cons.injEq] at h
      obtain ⟨rfl, rfl, -⟩ := h
      exact absurd ⟨start, rest, by simp⟩ hname

/-- The name of a member ends with the first colon that has a blank behind it. -/
theorem name_append_inj {a b s s' : List Char} (ha : ¬ [':', ' '] <:+: a)
    (hb : ¬ [':', ' '] <:+: b) (h : a ++ ':' :: ' ' :: s = b ++ ':' :: ' ' :: s') :
    a = b ∧ s = s' := by
  have hab : a = b := by
    rcases List.append_eq_append_iff.mp h with ⟨d, rfl, hd⟩ | ⟨d, rfl, hd⟩
    · rw [eq_nil_of_colon hb hd, List.append_nil]
    · rw [eq_nil_of_colon ha hd, List.append_nil]
  subst hab
  exact ⟨rfl, (List.cons.inj (List.cons.inj (List.append_cancel_left h)).2).2⟩

namespace Value

/-- A member as it is written. -/
def memberText (m : String × Value) : String := m.1 ++ ": " ++ m.2.cypher

theorem cypherItems_eq_map (items : List Value) : cypherItems items = items.map cypher := by
  induction items with
  | nil => rfl
  | cons v rest ih => rw [cypherItems, ih, List.map_cons]

theorem cypherMembers_eq_map (members : List (String × Value)) :
    cypherMembers members = members.map memberText := by
  induction members with
  | nil => rfl
  | cons m rest ih => rw [cypherMembers, ih, List.map_cons, memberText]

/-- A list and what stands behind it. -/
theorem toList_cypher_array (items : List Value) (r : List Char) :
    (array items).cypher.toList ++ r = '[' :: itemsThen cypher ']' r items := by
  rw [cypher, cypherItems_eq_map, ← intercalate_append_eq, String.toList_append,
    String.toList_append, List.append_assoc, List.append_assoc]
  rfl

/-- An object and what stands behind it. -/
theorem toList_cypher_object (members : List (String × Value)) (r : List Char) :
    (object members).cypher.toList ++ r = '\x7b' :: itemsThen memberText '\x7d' r members := by
  rw [cypher, cypherMembers_eq_map, ← intercalate_append_eq, String.toList_append,
    String.toList_append, List.append_assoc, List.append_assoc]
  rfl

/-- A member and what stands behind it. -/
theorem toList_memberText (m : String × Value) (r : List Char) :
    (memberText m).toList ++ r = m.1.toList ++ ':' :: ' ' :: (m.2.cypher.toList ++ r) := by
  rw [memberText, String.toList_append, String.toList_append, List.append_assoc, List.append_assoc]
  rfl

/-- The literal of a string tells the string and where it ends. -/
theorem quotedLiteral_append_inj {s s' : String} {r r' : List Char}
    (h : (quotedLiteral s).toList ++ r = (quotedLiteral s').toList ++ r') : s = s' ∧ r = r' := by
  have htext : quotedLiteral s ++ String.ofList r = quotedLiteral s' ++ String.ofList r' := by
    rw [← String.toList_inj, String.toList_append, String.toList_append, String.toList_ofList,
      String.toList_ofList, h]
  have hread := Escapes.standard.read_quotedLiteral s (String.ofList r)
  rw [htext, Escapes.read_quotedLiteral] at hread
  obtain ⟨hs, hrest⟩ := Prod.mk.inj (Option.some.inj hread)
  exact ⟨hs.symm, (String.ofList_injective hrest).symm⟩

/-- The first character of a literal tells the kind of its value. -/
theorem exists_first_cypher {P : String → Prop} {v : Value} (hv : v.Built P) :
    ∃ c rest, v.cypher.toList = c :: rest ∧ LiteralKind.ofFirst? c = some v.kind := by
  cases hv with
  | null => exact ⟨_, _, rfl, rfl⟩
  | bool b => cases b <;> exact ⟨_, _, rfl, rfl⟩
  | integer n =>
      obtain ⟨c, rest, htext⟩ := List.exists_cons_of_ne_nil (toString_int_ne_nil n)
      have hc : isNumeral c = true :=
        isNumeral_of_mem_toString (n := n) (htext ▸ List.mem_cons_self)
      exact ⟨c, rest, htext, if_pos hc⟩
  | string s => exact ⟨_, _, toList_quotedLiteral s, rfl⟩
  | @array items _ =>
      have h := toList_cypher_array items []
      rw [List.append_nil] at h
      exact ⟨_, _, h, rfl⟩
  | @object members _ _ =>
      have h := toList_cypher_object members []
      rw [List.append_nil] at h
      exact ⟨_, _, h, rfl⟩

/-- So no literal begins as a list is closed. -/
theorem cypher_append_ne {P : String → Prop} {v : Value} (hv : v.Built P) (s s' : List Char) :
    v.cypher.toList ++ s ≠ ']' :: s' := by
  intro h
  obtain ⟨c, rest, htext, hkind⟩ := exists_first_cypher hv
  rw [htext, List.cons_append] at h
  rw [(List.cons.inj h).1] at hkind
  cases hkind

/-- Literals of values of different kinds are told apart by their first characters. -/
theorem kind_eq_of_append_eq {P : String → Prop} {v w : Value} (hv : v.Built P) (hw : w.Built P)
    {r r' : List Char} (h : v.cypher.toList ++ r = w.cypher.toList ++ r') : v.kind = w.kind := by
  obtain ⟨c, rest, htext, hkind⟩ := exists_first_cypher hv
  obtain ⟨c', rest', htext', hkind'⟩ := exists_first_cypher hw
  rw [htext, htext', List.cons_append, List.cons_append] at h
  rw [(List.cons.inj h).1, hkind'] at hkind
  exact (Option.some.inj hkind).symm

/-- The member that an object's text goes on with is known by its text if its value is. -/
theorem memberText_append_inj {m k : String × Value} (hm : IsMemberName m.1)
    (hk : IsMemberName k.1) {s s' : List Char}
    (hvalue : m.2.cypher.toList ++ s = k.2.cypher.toList ++ s' → m.2 = k.2 ∧ s = s')
    (h : (memberText m).toList ++ s = (memberText k).toList ++ s') : m = k ∧ s = s' := by
  rw [toList_memberText, toList_memberText] at h
  obtain ⟨hname, hrest⟩ := name_append_inj hm.2 hk.2 h
  obtain ⟨hvalue, hrest⟩ := hvalue hrest
  exact ⟨Prod.ext (String.toList_inj.mp hname) hvalue, hrest⟩

/-- A member does not begin as an object is closed. -/
theorem memberText_append_ne {m : String × Value} (hm : IsMemberName m.1) (s s' : List Char) :
    (memberText m).toList ++ s ≠ '\x7d' :: s' := by
  intro h
  rw [toList_memberText] at h
  cases hname : m.1.toList with
  | nil =>
      rw [hname] at h
      exact absurd (List.cons.inj h).1 (by decide)
  | cons c rest =>
      rw [hname, List.cons_append] at h
      refine hm.1 ?_
      rw [hname, (List.cons.inj h).1]
      rfl

/-- A literal says where it ends: if two texts that begin with literals are the same, then so are
the literals' values, and the texts behind the literals. -/
theorem cypher_append_inj {v w : Value} (hv : v.Built IsMemberName) (hw : w.Built IsMemberName)
    {r r' : List Char} (hr : EndsNumeral r) (hr' : EndsNumeral r')
    (h : v.cypher.toList ++ r = w.cypher.toList ++ r') : v = w ∧ r = r' := by
  -- both values are of one kind, and inside a list or an object the claim holds of each part
  have hkind := kind_eq_of_append_eq hv hw h
  induction hv generalizing w r r' with
  | null =>
      cases hw with
      | null => exact ⟨rfl, List.append_cancel_left h⟩
      | _ => cases hkind
  | bool b =>
      cases hw with
      | bool b' =>
          cases b <;> cases b'
          · exact ⟨rfl, List.append_cancel_left h⟩
          · exact absurd (List.cons.inj h).1 (by decide)
          · exact absurd (List.cons.inj h).1 (by decide)
          · exact ⟨rfl, List.append_cancel_left h⟩
      | _ => cases hkind
  | integer n =>
      cases hw with
      | integer n' =>
          obtain ⟨rfl, rfl⟩ := toString_append_inj hr hr' h
          exact ⟨rfl, rfl⟩
      | _ => cases hkind
  | string s =>
      cases hw with
      | string s' =>
          obtain ⟨rfl, hrest⟩ := quotedLiteral_append_inj h
          exact ⟨rfl, hrest⟩
      | _ => cases hkind
  | @array items hitems ih =>
      cases hw with
      | @array items' hitems' =>
          rw [toList_cypher_array, toList_cypher_array] at h
          obtain ⟨rfl, rfl⟩ := itemsThen_inj (by decide) (by decide)
            (fun a ha => cypher_append_ne (ha.elim (hitems a) (hitems' a)))
            (fun x hx y hy s s' hs hs' hxy => ih x hx (hitems' y hy) hs hs' hxy
              (kind_eq_of_append_eq (hitems x hx) (hitems' y hy) hxy))
            (List.cons.inj h).2
          exact ⟨rfl, rfl⟩
      | _ => cases hkind
  | @object members hnames hvalues ih =>
      cases hw with
      | @object members' hnames' hvalues' =>
          rw [toList_cypher_object, toList_cypher_object] at h
          obtain ⟨rfl, rfl⟩ := itemsThen_inj (by decide) (by decide)
            (fun a ha => memberText_append_ne (ha.elim (hnames a) (hnames' a)))
            (fun x hx y hy s s' hs hs' hxy => memberText_append_inj (hnames x hx) (hnames' y hy)
              (fun hvalue => ih x hx (hvalues' y hy) hs hs' hvalue
                (kind_eq_of_append_eq (hvalues x hx) (hvalues' y hy) hvalue)) hxy)
            (List.cons.inj h).2
          exact ⟨rfl, rfl⟩
      | _ => cases hkind

/-! ## Literals and values -/

/-- Different values have different literals. This holds of values made of `null`, booleans, whole
numbers, strings, lists and objects, to any depth, as long as no name of a member begins as an
object ends or has a blank behind a colon. -/
theorem cypher_eq_iff {v w : Value} (hv : v.Built IsMemberName) (hw : w.Built IsMemberName) :
    v.cypher = w.cypher ↔ v = w := by
  refine ⟨fun h => ?_, fun h => h ▸ rfl⟩
  have hends : EndsNumeral [] := fun c hc => nomatch hc
  refine (cypher_append_inj hv hw hends hends ?_).1
  rw [h]

/-- Separators inside a string, and braces inside a name, do not make two values look alike. -/
theorem cypher_eq_iff_separators :
    let v := object [("k", array [string "x', 'y", number (.integer (-1))]), ("a:\x7d", null)]
    let w := object
      [("k", array [string "x", string "y", number (.integer (-1))]), ("a:\x7d", null)]
    v.Built IsMemberName ∧ w.Built IsMemberName ∧ (v.cypher = w.cypher ↔ v = w) := by
  intro v w
  have hv : v.Built IsMemberName := by
    refine .object (by decide) (List.forall_mem_cons.mpr ⟨.array ?_, ?_⟩)
    · exact List.forall_mem_cons.mpr ⟨.string _, List.forall_mem_singleton.mpr (.integer _)⟩
    · exact List.forall_mem_singleton.mpr .null
  have hw : w.Built IsMemberName := by
    refine .object (by decide) (List.forall_mem_cons.mpr ⟨.array ?_, ?_⟩)
    · refine List.forall_mem_cons.mpr ⟨.string _, List.forall_mem_cons.mpr ⟨.string _, ?_⟩⟩
      exact List.forall_mem_singleton.mpr (.integer _)
    · exact List.forall_mem_singleton.mpr .null
  exact ⟨hv, hw, cypher_eq_iff hv hw⟩

/-- A name can hold what looks like another member and its value. -/
theorem cypher_hidden_member (a b : String) (v w : Value) :
    (object [(a ++ ": " ++ v.cypher ++ ", " ++ b, w)]).cypher
      = (object [(a, v), (b, w)]).cypher := by
  rw [cypher, cypherMembers_eq_map, cypher, cypherMembers_eq_map]
  refine congrArg (fun text => "\x7b" ++ text ++ "\x7d") ?_
  rw [← String.toList_inj]
  simp [memberText]

/-- Two objects of whole numbers, one with a single member, that have one literal. -/
theorem cypher_collision :
    let v := object [("a: 1, b", number (.integer 2))]
    let w := object [("a", number (.integer 1)), ("b", number (.integer 2))]
    v.Built (fun _ => True) ∧ w.Built (fun _ => True) ∧ v.cypher = "\x7ba: 1, b: 2\x7d" ∧
      w.cypher = "\x7ba: 1, b: 2\x7d" ∧ v ≠ w := by
  intro v w
  refine ⟨.object (fun _ _ => trivial) ?_, .object (fun _ _ => trivial) ?_, by decide, by decide,
    by simp [v, w]⟩
  · exact List.forall_mem_singleton.mpr (.integer 2)
  · exact List.forall_mem_cons.mpr ⟨.integer 1, List.forall_mem_singleton.mpr (.integer 2)⟩

/-- A name that begins as an object ends, with another that begins like one. -/
example :
    (array [object [("a", object [("\x7d, x", number (.integer 1))]),
      ("\x7bb", number (.integer 2))]]).cypher =
    (array [object [("a", object []), ("x", number (.integer 1))],
      object [("b", number (.integer 2))]]).cypher := by
  decide

end Value

end CypherRoutes
