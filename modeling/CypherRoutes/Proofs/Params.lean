/-
# Laws of parameters

What a lookup and the list of names give after values are set, one or many. Of two values set for
one name the later counts, so the values of a list are found if the list gives each name one value.
-/
import Mathlib
import CypherRoutes.Params

namespace CypherRoutes.Params

/-! ## Setting one value -/

/-- Looking up among entries of which the first is known. -/
theorem lookup_entry (name key : String) (value : Value) (rest : List (String × Value)) :
    ((name, value) :: rest).lookup key = if key = name then some value else rest.lookup key := by
  by_cases h : key = name
  · rw [List.lookup_cons, beq_iff_eq.mpr h, if_pos h]
  · rw [List.lookup_cons, beq_eq_false_iff_ne.mpr h, if_neg h]

/-- Looking up among the entries after one is set. -/
theorem lookup_insertEntry (name key : String) (value : Value)
    (entries : List (String × Value)) :
    (insertEntry name value entries).lookup key
      = if key = name then some value else entries.lookup key := by
  induction entries with
  | nil => rw [insertEntry, lookup_entry]
  | cons entry rest ih =>
      obtain ⟨n, v⟩ := entry
      rw [insertEntry]
      by_cases hn : name = n
      · rw [if_pos (beq_iff_eq.mpr hn), lookup_entry, lookup_entry, hn]
        split_ifs <;> rfl
      · rw [if_neg (by simpa using hn)]
        by_cases hlt : name < n
        · rw [if_pos hlt, lookup_entry]
        · -- the new entry comes later and does not hide this one
          rw [if_neg hlt, lookup_entry, lookup_entry, ih]
          by_cases hk : key = n
          · rw [if_pos hk, if_neg (fun h => hn (h.symm.trans hk)), if_pos hk]
          · rw [if_neg hk, if_neg hk]

/-- The value of a name after one is set. -/
theorem get?_insert (params : Params) (name key : String) (value : Value) :
    (params.insert name value).get? key = if key = name then some value else params.get? key :=
  lookup_insertEntry name key value params.entries

/-- A name has a value exactly if it is among the names. -/
theorem mem_names_iff (params : Params) (key : String) :
    key ∈ params.names ↔ (params.get? key).isSome := by
  obtain ⟨entries⟩ := params
  unfold names get?
  induction entries with
  | nil => simp
  | cons entry rest ih =>
      obtain ⟨n, v⟩ := entry
      rw [List.map_cons, List.mem_cons, ih, lookup_entry]
      by_cases h : key = n <;> simp [h]

/-! ## Setting many values -/

/-- The names after a list of values is set. -/
theorem isSome_get?_insertAll (params : Params) (values : List (String × Value)) (key : String) :
    ((params.insertAll values).get? key).isSome
      ↔ (params.get? key).isSome ∨ key ∈ values.map Prod.fst := by
  induction values generalizing params with
  | nil => simp [insertAll]
  | cons entry rest ih =>
      obtain ⟨n, v⟩ := entry
      show (((params.insert n v).insertAll rest).get? key).isSome ↔ _
      rw [ih, get?_insert, List.map_cons, List.mem_cons]
      by_cases h : key = n <;> simp [h]

/-- A name that a list does not set keeps its value. -/
theorem get?_insertAll_of_not_mem (params : Params) (values : List (String × Value))
    (key : String) (h : key ∉ values.map Prod.fst) :
    (params.insertAll values).get? key = params.get? key := by
  induction values generalizing params with
  | nil => rfl
  | cons entry rest ih =>
      obtain ⟨n, v⟩ := entry
      rw [List.map_cons, List.mem_cons, not_or] at h
      show ((params.insert n v).insertAll rest).get? key = _
      rw [ih _ h.2, get?_insert, if_neg h.1]

/-- A name that a list sets has the value that the list gives it, if the list gives it only
one. -/
theorem get?_insertAll_of_mem (params : Params) (values : List (String × Value))
    (key : String) (value : Value) (hmem : (key, value) ∈ values)
    (honly : ∀ other, (key, other) ∈ values → other = value) :
    (params.insertAll values).get? key = some value := by
  induction values generalizing params with
  | nil => exact absurd hmem List.not_mem_nil
  | cons entry rest ih =>
      obtain ⟨n, v⟩ := entry
      show ((params.insert n v).insertAll rest).get? key = some value
      -- the last value set for the name counts
      by_cases hrest : ∃ other, (key, other) ∈ rest
      · obtain ⟨other, hother⟩ := hrest
        obtain rfl := honly other (List.mem_cons_of_mem _ hother)
        exact ih _ hother fun x hx => honly x (List.mem_cons_of_mem _ hx)
      · have hkey : key ∉ rest.map Prod.fst := by
          rintro hk
          obtain ⟨⟨n', v'⟩, hp, rfl⟩ := List.mem_map.mp hk
          exact hrest ⟨v', hp⟩
        rcases List.mem_cons.mp hmem with heq | hin
        · rw [Prod.mk.injEq] at heq
          rw [get?_insertAll_of_not_mem _ _ _ hkey, get?_insert, if_pos heq.1, heq.2]
        · exact absurd ⟨value, hin⟩ hrest

/-- The names of the parameters that a list of values sets. -/
theorem mem_names_ofList (values : List (String × Value)) (key : String) :
    key ∈ (ofList values).names ↔ key ∈ values.map Prod.fst := by
  rw [mem_names_iff, ofList, isSome_get?_insertAll]
  simp [get?, empty]

end CypherRoutes.Params
