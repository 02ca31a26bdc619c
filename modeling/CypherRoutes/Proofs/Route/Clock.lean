/-
# The cache as a map with a clock

Instead of an order of use a cache may mark its entries: a clock counts the uses, every use marks
its entry with the reading of the clock, and a full map loses an entry of the least mark, in
whatever order the map lists what it holds. No two marks are equal, so the order is of no
consequence: such a map follows the cache through every history (`ClockedCache.follows_after`).
The clock is a natural number; a clock of 64 bits reads the same for the first 2^64 uses.
-/
import CypherRoutes.Proofs.Route.Recency
import CypherRoutes.Route.KeyPattern

namespace CypherRoutes

/-! ## Marked entries -/

/-- An entry with the reading of the clock at its last use. -/
structure StampedEntry (α : Type) extends CacheEntry α where
  stamp : ℕ

/-- The entries of a cache, in no order that matters, and a clock. -/
structure ClockedCache (α : Type) where
  settings : CacheSettings
  entries : List (StampedEntry α) := []
  clock : ℕ := 0
  evictions : ℕ := 0

/-- The order in which a map lists its entries, which may depend on all that has happened. -/
structure ListingOrder (α : Type) where
  list : List (CacheCall α) → List (StampedEntry α) → List (StampedEntry α)
  perm : ∀ history entries, (list history entries).Perm entries

namespace ClockedCache

variable {α : Type}

/-- The entry stored under a key. -/
def find? (m : ClockedCache α) (key : String) : Option (StampedEntry α) :=
  m.entries.find? (·.key == key)

/-- The map with an entry put under its key and marked with the reading of the clock. -/
def put (m : ClockedCache α) (entry : CacheEntry α) : ClockedCache α :=
  { m with
    entries := ⟨entry, m.clock⟩ :: m.entries.filter (·.key != entry.key)
    clock := m.clock + 1 }

/-- Looks a path up under a key. A hit marks the entry anew. -/
def get (m : ClockedCache α) (key path : String) : Option (CacheHit α) × ClockedCache α :=
  if m.settings.enabled then
    match m.find? key with
    | none => (none, m)
    | some entry =>
      match entry.pattern.captures path with
      | none => (none, m)
      | some values =>
        (some ⟨key, entry.payload, values⟩,
          m.put { entry.toCacheEntry with accesses := entry.accesses + 1 })
  else (none, m)

/-- The map without the entry of the least mark, of several the one listed first. -/
def evict (m : ClockedCache α) (list : List (StampedEntry α) → List (StampedEntry α)) :
    ClockedCache α :=
  match (list m.entries).argmin StampedEntry.stamp with
  | none => m
  | some oldest =>
    { m with
      entries := m.entries.filter (·.key != oldest.key)
      evictions := m.evictions + 1 }

/-- The map with room for an entry of the given key. -/
def makeRoom (m : ClockedCache α) (list : List (StampedEntry α) → List (StampedEntry α))
    (key : String) : ClockedCache α :=
  if (m.find? key).isNone && m.settings.maxEntries ≤ m.entries.length then m.evict list else m

/-- Stores a payload under a key that is a pattern. -/
def insert [PatternEngine] (m : ClockedCache α)
    (list : List (StampedEntry α) → List (StampedEntry α)) (key : String) (payload : α) :
    ClockedCache α :=
  if m.settings.enabled then
    match keyPattern? key with
    | none => m
    | some pattern => (m.makeRoom list key).put ⟨key, pattern, payload, 0⟩
  else m

/-- The map without entries; the clock goes on. -/
def clear (m : ClockedCache α) : ClockedCache α := { m with entries := [] }

/-- A map after a history of calls, of which the latest stands first. -/
def after [PatternEngine] (order : ListingOrder α) (settings : CacheSettings) :
    List (CacheCall α) → ClockedCache α
  | [] => { settings }
  | .insert key payload :: earlier =>
    (after order settings earlier).insert (order.list earlier) key payload
  | .get key path :: earlier => ((after order settings earlier).get key path).2
  | .clear :: earlier => (after order settings earlier).clear

/-- A map shows what a cache shows: it has the same entries, has evicted as many, and gives every
lookup the same answer. -/
structure Shows (m : ClockedCache α) (c : Cache α) : Prop where
  entries : (m.entries.map StampedEntry.toCacheEntry).Perm c.entries
  evictions : m.evictions = c.evictions
  get : ∀ key path, (m.get key path).1 = (c.get key path).1

/-! ## The order of the marks -/

/-- The entries of a map in the order of their marks, which are all different and in the past, are
those of a cache. -/
structure Sorts (m : ClockedCache α) (c : Cache α) (sorted : List (StampedEntry α)) : Prop where
  perm : sorted.Perm m.entries
  entries_eq : sorted.map StampedEntry.toCacheEntry = c.entries
  increasing : sorted.Pairwise fun a b => a.stamp < b.stamp
  past : ∀ entry ∈ sorted, entry.stamp < m.clock

/-- A map follows a cache whose keys are different. -/
structure Follows (m : ClockedCache α) (c : Cache α) : Prop where
  settings_eq : m.settings = c.settings
  evictions_eq : m.evictions = c.evictions
  nodup : c.keys.Nodup
  sorts : ∃ sorted, m.Sorts c sorted

variable {m : ClockedCache α} {c : Cache α} {sorted : List (StampedEntry α)}

/-- Where keys are different, the entry of a key is the only one. -/
theorem find?_eq_some_iff_of_nodup {entries : List (StampedEntry α)}
    (h : (entries.map fun e => e.key).Nodup) {key : String} {entry : StampedEntry α} :
    entries.find? (·.key == key) = some entry ↔ entry ∈ entries ∧ entry.key = key := by
  constructor
  · intro hfind
    have hkey := List.find?_some hfind
    exact ⟨List.mem_of_find?_eq_some hfind, by simpa using hkey⟩
  · rintro ⟨hmem, rfl⟩
    induction entries with
    | nil => exact absurd hmem List.not_mem_nil
    | cons first rest ih =>
        rw [List.map_cons, List.nodup_cons] at h
        rcases List.mem_cons.mp hmem with rfl | hmem
        · exact List.find?_cons_of_pos (beq_self_eq_true _)
        · have hne : first.key ≠ entry.key := fun hsame => h.1 (by
            rw [hsame]
            exact List.mem_map_of_mem hmem)
          rw [List.find?_cons_of_neg (by simpa using hne)]
          exact ih h.2 hmem

namespace Sorts

/-- The keys of the entries are those of the cache. -/
theorem nodup (h : m.Sorts c sorted) (hnodup : c.keys.Nodup) :
    (sorted.map fun e => e.key).Nodup := by
  rw [Cache.keys, List.nodup_reverse, ← h.entries_eq, List.map_map] at hnodup
  exact hnodup

/-- There are as many entries. -/
theorem length_eq (h : m.Sorts c sorted) : m.entries.length = c.size := by
  rw [← h.perm.length_eq, Cache.size, ← h.entries_eq, List.length_map]

/-- The entry of a key is the same without its mark. -/
theorem find?_eq (h : m.Sorts c sorted) (hnodup : c.keys.Nodup) (key : String) :
    (m.find? key).map StampedEntry.toCacheEntry = c.find? key := by
  have hsorted := h.nodup hnodup
  have hentries : (m.entries.map fun e => e.key).Nodup := (h.perm.map _).nodup_iff.mp hsorted
  have hsame : m.find? key = sorted.find? (·.key == key) := by
    refine Option.ext fun entry => ?_
    rw [find?, find?_eq_some_iff_of_nodup hentries, find?_eq_some_iff_of_nodup hsorted,
      h.perm.mem_iff]
  rw [hsame, Cache.find?, ← h.entries_eq, List.find?_map]
  rfl

/-- An entry that is put under its key has the latest mark. -/
theorem put (h : m.Sorts c sorted) (entry : CacheEntry α) :
    (m.put entry).Sorts { c with entries := c.without entry.key ++ [entry] }
      (sorted.filter (·.key != entry.key) ++ [⟨entry, m.clock⟩]) where
  perm := (List.perm_append_singleton _ _).trans ((h.perm.filter _).cons _)
  entries_eq := by
    rw [List.map_append, Cache.without, ← h.entries_eq, List.filter_map]
    rfl
  increasing := by
    rw [List.pairwise_append]
    refine ⟨h.increasing.filter _, List.pairwise_singleton _ _, fun a ha b hb => ?_⟩
    obtain rfl := List.mem_singleton.mp hb
    exact h.past a (List.mem_of_mem_filter ha)
  past := by
    intro other hother
    show other.stamp < m.clock + 1
    rcases List.mem_append.mp hother with hother | hother
    · have hpast := h.past other (List.mem_of_mem_filter hother)
      omega
    · obtain rfl := List.mem_singleton.mp hother
      exact Nat.lt_succ_self m.clock

/-- Only one entry has the least mark: the least recently used one, wherever it is listed. -/
theorem argmin_eq {first : StampedEntry α} {rest : List (StampedEntry α)}
    (h : m.Sorts c (first :: rest)) {listed : List (StampedEntry α)}
    (hlisted : listed.Perm m.entries) : listed.argmin StampedEntry.stamp = some first := by
  have hmem : ∀ {entry}, entry ∈ listed ↔ entry ∈ first :: rest :=
    (hlisted.trans h.perm.symm).mem_iff
  have hfirst : first ∈ listed := hmem.mpr List.mem_cons_self
  cases hleast : listed.argmin StampedEntry.stamp with
  | none =>
      rw [List.argmin_eq_none] at hleast
      rw [hleast] at hfirst
      exact absurd hfirst List.not_mem_nil
  | some oldest =>
      have hle : oldest.stamp ≤ first.stamp := List.le_of_mem_argmin hfirst hleast
      rcases List.mem_cons.mp (hmem.mp (List.argmin_mem hleast)) with rfl | hrest
      · rfl
      · have hlt := List.rel_of_pairwise_cons h.increasing hrest
        omega

/-- Without the least recently used entry the others keep their order. -/
theorem evict {first : StampedEntry α} {rest : List (StampedEntry α)}
    (h : m.Sorts c (first :: rest)) (hnodup : c.keys.Nodup)
    {list : List (StampedEntry α) → List (StampedEntry α)}
    (hlist : (list m.entries).Perm m.entries) :
    (m.evict list).Sorts
      { c with entries := rest.map StampedEntry.toCacheEntry, evictions := c.evictions + 1 }
      rest := by
  have hkeys := h.nodup hnodup
  rw [List.map_cons, List.nodup_cons] at hkeys
  have hrest : (first :: rest).filter (fun e => e.key != first.key) = rest := by
    rw [List.filter_cons_of_neg (by simp)]
    refine List.filter_eq_self.mpr fun entry hentry => ?_
    rw [bne_iff_ne]
    intro hsame
    exact hkeys.1 (hsame ▸ List.mem_map_of_mem hentry)
  rw [ClockedCache.evict, h.argmin_eq hlist]
  constructor
  · have hperm := h.perm.filter fun e => e.key != first.key
    rwa [hrest] at hperm
  · rfl
  · exact h.increasing.of_cons
  · exact fun entry hentry => h.past entry (List.mem_cons_of_mem _ hentry)

end Sorts

/-! ## What a call does -/

namespace Follows

/-- What a map follows is the entries, the evictions and the settings of a cache. -/
theorem of_entries (h : m.Follows c) {c' : Cache α} (hsettings : c'.settings = c.settings)
    (hevictions : c'.evictions = c.evictions) (hentries : c'.entries = c.entries) :
    m.Follows c' := by
  obtain ⟨sorted, hsorts⟩ := h.sorts
  refine ⟨?_, ?_, ?_, sorted, hsorts.perm, ?_, hsorts.increasing, hsorts.past⟩
  · rw [h.settings_eq, hsettings]
  · rw [h.evictions_eq, hevictions]
  · rw [Cache.keys, hentries]
    exact h.nodup
  · rw [hsorts.entries_eq, hentries]

/-- An entry that is put under its key is the one used last. -/
theorem put (h : m.Follows c) (entry : CacheEntry α) :
    (m.put entry).Follows { c with entries := c.without entry.key ++ [entry] } := by
  obtain ⟨sorted, hsorts⟩ := h.sorts
  refine ⟨h.settings_eq, h.evictions_eq, ?_, _, hsorts.put entry⟩
  rw [Cache.keys, Cache.keys_without_append, List.nodup_cons]
  exact ⟨fun hkey => by simpa using List.of_mem_filter hkey, h.nodup.filter _⟩

/-- A lookup gives the same answer and uses the same entry. -/
theorem get (h : m.Follows c) (key path : String) :
    (m.get key path).1 = (c.get key path).1 ∧ (m.get key path).2.Follows (c.get key path).2 := by
  obtain ⟨sorted, hsorts⟩ := h.sorts
  have hfind := hsorts.find?_eq h.nodup key
  rw [ClockedCache.get, Cache.get, h.settings_eq]
  by_cases henabled : c.settings.enabled = true
  · rw [if_pos henabled, if_pos henabled]
    cases hentry : m.find? key with
    | none =>
        rw [hentry, Option.map_none] at hfind
        rw [← hfind]
        exact ⟨rfl, h.of_entries rfl rfl rfl⟩
    | some entry =>
        rw [hentry, Option.map_some] at hfind
        obtain ⟨-, hkey⟩ := Cache.mem_of_find? hfind.symm
        rw [← hfind]
        cases hcaptures : entry.pattern.captures path with
        | none =>
            simp only [hcaptures, Option.bind_eq_bind, Option.bind_some, Option.bind_none]
            exact ⟨trivial, h.of_entries rfl rfl rfl⟩
        | some values =>
            simp only [hcaptures, Option.bind_eq_bind, Option.bind_some, Option.pure_def]
            subst hkey
            have hput := h.put { entry.toCacheEntry with accesses := entry.accesses + 1 }
            exact ⟨trivial, hput.of_entries rfl rfl rfl⟩
  · rw [if_neg henabled, if_neg henabled]
    exact ⟨rfl, h⟩

/-- The same entry makes way. -/
theorem makeRoom (h : m.Follows c) {list : List (StampedEntry α) → List (StampedEntry α)}
    (hlist : (list m.entries).Perm m.entries) (key : String) :
    (m.makeRoom list key).Follows (c.makeRoom key) := by
  obtain ⟨sorted, hsorts⟩ := h.sorts
  have hnone : (m.find? key).isNone = (c.find? key).isNone := by
    rw [← hsorts.find?_eq h.nodup key, Option.isNone_map]
  rw [ClockedCache.makeRoom, Cache.makeRoom, hnone, h.settings_eq, hsorts.length_eq]
  split_ifs
  · cases sorted with
    | nil =>
        -- an empty map has nothing to lose
        have hempty : m.entries = [] := List.nil_perm.mp hsorts.perm
        have hlisted : list m.entries = [] := by
          rw [hempty, List.perm_nil] at hlist
          rw [hempty, hlist]
        rw [ClockedCache.evict, hlisted, ← hsorts.entries_eq]
        exact h
    | cons first rest =>
        have hnodup := h.nodup
        rw [Cache.keys, List.nodup_reverse, ← hsorts.entries_eq] at hnodup
        rw [← hsorts.entries_eq]
        refine ⟨?_, ?_, ?_, rest, hsorts.evict h.nodup hlist⟩
        · rw [ClockedCache.evict, hsorts.argmin_eq hlist]
          exact h.settings_eq
        · rw [ClockedCache.evict, hsorts.argmin_eq hlist]
          exact congrArg (· + 1) h.evictions_eq
        · rw [Cache.keys, List.nodup_reverse]
          exact hnodup.of_cons
  · exact h

/-- An insert stores the same. -/
theorem insert [PatternEngine] (h : m.Follows c)
    {list : List (StampedEntry α) → List (StampedEntry α)}
    (hlist : (list m.entries).Perm m.entries) (key : String) (payload : α) :
    (m.insert list key payload).Follows (c.insert key payload) := by
  rw [ClockedCache.insert, Cache.insert, h.settings_eq]
  split_ifs
  · cases hpattern : keyPattern? key with
    | none => exact h
    | some pattern => exact (h.makeRoom hlist key).put ⟨key, pattern, payload, 0⟩
  · exact h

/-- So does clearing. -/
theorem clear (h : m.Follows c) : m.clear.Follows c.clear where
  settings_eq := h.settings_eq
  evictions_eq := h.evictions_eq
  nodup := List.nodup_nil
  sorts := ⟨[], .nil, rfl, .nil, fun _ hentry => absurd hentry List.not_mem_nil⟩

/-- A map that follows a cache shows what the cache shows. -/
theorem shows (h : m.Follows c) : m.Shows c := by
  obtain ⟨sorted, hsorts⟩ := h.sorts
  refine ⟨?_, h.evictions_eq, fun key path => (h.get key path).1⟩
  rw [← hsorts.entries_eq]
  exact hsorts.perm.symm.map _

end Follows

/-! ## What a history leaves behind -/

variable {settings : CacheSettings}

/-- A new map follows a new cache. -/
theorem follows_ofSettings (settings : CacheSettings) :
    ({ settings } : ClockedCache α).Follows (.ofSettings settings) where
  settings_eq := rfl
  evictions_eq := rfl
  nodup := List.nodup_nil
  sorts := ⟨[], .nil, rfl, .nil, fun _ hentry => absurd hentry List.not_mem_nil⟩

/-- In whatever order a map lists its entries, it follows the cache through every history. -/
theorem follows_after [PatternEngine] (order : ListingOrder α) (settings : CacheSettings)
    (history : List (CacheCall α)) :
    (after order settings history).Follows (.after settings history) := by
  induction history with
  | nil => exact follows_ofSettings settings
  | cons call earlier ih =>
      cases call with
      | insert key payload => exact ih.insert (order.perm earlier _) key payload
      | get key path => exact (ih.get key path).2
      | clear => exact ih.clear

end ClockedCache

namespace Cache

variable {α : Type} {settings : CacheSettings}

/-- An enabled cache after a history of calls, whatever the engine takes for patterns. It stores the
keys that were used last, as many different ones as it may hold, and each with the payload of its
latest insert; a lookup hits if its key is stored and the key's pattern matches. A further insert
evicts nothing if its key is stored, and at most the least recently used key if it is not. A map
that marks its entries by a clock and evicts by the least mark shows the same, in whatever order it
lists its entries. -/
theorem stores_latest_used [PatternEngine] (henabled : settings.enabled = true)
    (history : List (CacheCall α)) :
    (after settings history).keys = (uses settings history).eraseDups.take settings.capacity ∧
    (∀ entry ∈ (after settings history).entries, keyPattern? entry.key = some entry.pattern ∧
      latestInsert? entry.key history = some entry.payload) ∧
    (∀ key path hit, ((after settings history).get key path).1 = some hit ↔
      key ∈ (after settings history).keys ∧ hit.key = key ∧
        latestInsert? key history = some hit.payload ∧
        ∃ pattern, keyPattern? key = some pattern ∧ pattern.captures path = some hit.captures) ∧
    (∀ key payload,
      ((after settings history).insert key payload).evictions
        = (after settings history).evictions
          + ((after settings history).evictedBy key payload).length ∧
      (key ∈ (after settings history).keys →
        (after settings history).evictedBy key payload = []) ∧
      ((after settings history).evictedBy key payload = [] ∨
        ∃ oldest, (after settings history).keys.getLast? = some oldest ∧
          (after settings history).evictedBy key payload = [oldest])) ∧
    ∀ order : ListingOrder α,
      (ClockedCache.after order settings history).Shows (after settings history) := by
  have hsettings := settings_after settings history
  have hsize := size_after_le henabled history
  refine ⟨keys_after henabled history, holds_after henabled history,
    fun key path hit => get_after_eq_some_iff henabled history, fun key payload => ?_,
    fun order => (ClockedCache.follows_after order settings history).shows⟩
  refine evictedBy_cases ?_ (nodup_keys_after henabled history) ?_ key payload
  · rw [hsettings, henabled]
  · rw [hsettings]
    exact hsize

/-- Room for two entries. -/
def roomForTwo : CacheSettings := ⟨true, 2⟩

/-- Two keys are stored, the first of them is looked up, and a third one is stored. -/
def thirdKey : List (CacheCall ℕ) :=
  [.insert "terms" 2, .get "models" "models", .insert "tags" 1, .insert "models" 0]

/-- The order that is the reverse of the map's own. -/
def reversed : ListingOrder ℕ := ⟨fun _ entries => entries.reverse, fun _ _ => List.reverse_perm _⟩

/-- Where there is room for two keys, the second one makes way, since the first was used later. The
map with a clock agrees when it lists its entries in reverse. -/
theorem stores_latest_used_thirdKey :
    roomForTwo.enabled = true ∧ (after roomForTwo thirdKey).keys = ["terms", "models"] ∧
      (ClockedCache.after reversed roomForTwo thirdKey).Shows (after roomForTwo thirdKey) := by
  have henabled : roomForTwo.enabled = true := rfl
  obtain ⟨hkeys, -, -, -, hclock⟩ := stores_latest_used henabled thirdKey
  have hrecent : (uses roomForTwo thirdKey).eraseDups.take roomForTwo.capacity
      = ["terms", "models"] := by
    decide +kernel
  exact ⟨henabled, hkeys.trans hrecent, hclock reversed⟩

end Cache

end CypherRoutes
