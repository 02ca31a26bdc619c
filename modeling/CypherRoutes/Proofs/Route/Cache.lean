/-
# What a cache holds

A fact about the keys, patterns and payloads of all entries survives every operation of a cache,
if it holds of what is stored; and what a lookup gives was stored under its key.
-/
import Mathlib
import CypherRoutes.Route.Cache

namespace CypherRoutes.Cache

variable {α : Type} {P : String → Pattern → α → Prop} {c : Cache α}

/-- Every entry has the given property of a key, a pattern and a payload. -/
def Holds (P : String → Pattern → α → Prop) (c : Cache α) : Prop :=
  ∀ entry ∈ c.entries, P entry.key entry.pattern entry.payload

/-- An empty cache holds nothing. -/
theorem holds_ofSettings (settings : CacheSettings) : (ofSettings settings : Cache α).Holds P :=
  fun _ h => absurd h List.not_mem_nil

/-- A cleared cache holds nothing. -/
theorem holds_clear (c : Cache α) : c.clear.Holds P := fun _ h => absurd h List.not_mem_nil

/-- The entry of a key is one of the entries. -/
theorem mem_of_find? {key : String} {entry : CacheEntry α} (h : c.find? key = some entry) :
    entry ∈ c.entries ∧ entry.key = key := by
  rw [find?] at h
  have hkey := List.find?_some h
  exact ⟨List.mem_of_find?_eq_some h, by simpa using hkey⟩

/-- A lookup hits if the entry of the key matches the path. -/
theorem get_eq_some {key path : String} {hit : CacheHit α} (h : (c.get key path).1 = some hit) :
    ∃ entry, c.find? key = some entry ∧ entry.pattern.captures path = some hit.captures ∧
      hit.payload = entry.payload := by
  rw [get] at h
  split_ifs at h with henabled
  cases hfind : c.find? key with
  | none => simp [hfind] at h
  | some entry =>
      cases hcaptures : entry.pattern.captures path with
      | none => simp [hfind, hcaptures] at h
      | some values =>
          simp only [hfind, hcaptures, Option.bind_eq_bind, Option.bind_some,
            Option.pure_def, Option.some.injEq] at h
          subst h
          exact ⟨entry, rfl, hcaptures, rfl⟩

/-- A lookup changes no more than the order of the entries and their counts. -/
theorem Holds.get (h : c.Holds P) (key path : String) : (c.get key path).2.Holds P := by
  rw [Cache.get]
  split_ifs
  · cases hfind : c.find? key with
    | none => exact h
    | some entry =>
        cases hcaptures : entry.pattern.captures path with
        | none =>
            simp only [hcaptures, Option.bind_eq_bind, Option.bind_some, Option.bind_none]
            exact h
        | some values =>
            simp only [hcaptures, Option.bind_eq_bind, Option.bind_some, Option.pure_def]
            intro other hother
            rcases List.mem_append.mp hother with hother | hother
            · exact h other (List.mem_of_mem_filter hother)
            · rw [List.mem_singleton.mp hother]
              exact h entry (mem_of_find? hfind).1
  · exact h

/-- Making room only takes an entry away. -/
theorem Holds.makeRoom (h : c.Holds P) (key : String) : (c.makeRoom key).Holds P := by
  rw [Cache.makeRoom]
  split_ifs
  · cases hentries : c.entries with
    | nil => exact h
    | cons first rest =>
        intro entry hentry
        exact h entry (hentries ▸ List.mem_cons_of_mem _ hentry)
  · exact h

/-- A payload is stored with the pattern of its key. -/
theorem Holds.insert [PatternEngine] (h : c.Holds P) {key : String} {payload : α}
    (hstored : ∀ pattern, keyPattern? key = some pattern → P key pattern payload) :
    (c.insert key payload).Holds P := by
  rw [Cache.insert]
  split_ifs
  · cases hpattern : keyPattern? key with
    | none => exact h
    | some pattern =>
        intro entry hentry
        rcases List.mem_append.mp hentry with hentry | hentry
        · exact h.makeRoom key entry (List.mem_of_mem_filter hentry)
        · rw [List.mem_singleton.mp hentry]
          exact hstored pattern hpattern
  · exact h

/-! ## Settings -/

@[simp] theorem settings_get (c : Cache α) (key path : String) :
    (c.get key path).2.settings = c.settings := by
  rw [get]
  split_ifs
  · cases hhit : (do
        let entry ← c.find? key
        let values ← entry.pattern.captures path
        return (entry, values)) <;> rfl
  · rfl

@[simp] theorem settings_makeRoom (c : Cache α) (key : String) :
    (c.makeRoom key).settings = c.settings := by
  rw [makeRoom]
  split_ifs
  · cases c.entries <;> rfl
  · rfl

@[simp] theorem settings_insert [PatternEngine] (c : Cache α) (key : String) (payload : α) :
    (c.insert key payload).settings = c.settings := by
  rw [insert]
  split_ifs
  · cases keyPattern? key with
    | none => rfl
    | some pattern => exact c.settings_makeRoom key
  · rfl

end CypherRoutes.Cache
