/-
# The counts of a cache

After any history of calls the counts of a cache balance: every lookup is a hit or a miss, every key
that was added is still stored or was evicted or cleared, and the accesses of the stored entries are
the hits that their keys had since they were inserted (`Cache.metrics_after`). A hit and an insert
take an entry from its place, so what they leave is compared with what was there up to the order
(`Cache.perm_without`). Reading the counts changes nothing, so a history has no call for it.
-/
import CypherRoutes.Proofs.Route.Clock

namespace CypherRoutes

/-! ## What a history did -/

/-- Whether a call is a lookup. -/
def CacheCall.isLookup {α : Type} : CacheCall α → Bool
  | .get _ _ => true
  | _ => false

namespace Cache

variable {α : Type}

/-- The number of lookups. -/
def lookups (history : List (CacheCall α)) : ℕ := history.countP CacheCall.isLookup

/-- The number of inserts that added a key: it was not stored before and is stored then. -/
def additions [PatternEngine] (settings : CacheSettings) : List (CacheCall α) → ℕ
  | [] => 0
  | .insert key payload :: earlier =>
    if key ∉ (after settings earlier).keys ∧
        key ∈ ((after settings earlier).insert key payload).keys then
      additions settings earlier + 1
    else additions settings earlier
  | .get _ _ :: earlier => additions settings earlier
  | .clear :: earlier => additions settings earlier

/-- The number of entries that clears dropped. -/
def dropped [PatternEngine] (settings : CacheSettings) : List (CacheCall α) → ℕ
  | [] => 0
  | .insert _ _ :: earlier => dropped settings earlier
  | .get _ _ :: earlier => dropped settings earlier
  | .clear :: earlier => dropped settings earlier + (after settings earlier).size

/-- How many lookups hit a key since its latest insert. -/
def hitsSince [PatternEngine] (settings : CacheSettings) (key : String) : List (CacheCall α) → ℕ
  | [] => 0
  | .insert k _ :: earlier => if k = key then 0 else hitsSince settings key earlier
  | .get k path :: earlier =>
    if k = key ∧ ((after settings earlier).get k path).1.isSome then
      hitsSince settings key earlier + 1
    else hitsSince settings key earlier
  | .clear :: earlier => hitsSince settings key earlier

variable {c : Cache α}

/-! ## Entries and their accesses -/

/-- Where keys are different, the entries are the entry of a key and those under all other keys. -/
theorem perm_without (hnodup : c.keys.Nodup) {key : String} {entry : CacheEntry α}
    (hfind : c.find? key = some entry) : c.entries.Perm (entry :: c.without key) := by
  rw [keys, List.nodup_reverse] at hnodup
  rw [find?] at hfind
  rw [without]
  generalize c.entries = entries at hnodup hfind ⊢
  induction entries with
  | nil => cases hfind
  | cons first rest ih =>
      rw [List.map_cons, List.nodup_cons] at hnodup
      by_cases hkey : first.key = key
      · subst hkey
        rw [List.find?_cons_of_pos (by simp)] at hfind
        obtain rfl := Option.some.inj hfind
        have hrest : rest.filter (·.key != first.key) = rest := by
          refine List.filter_eq_self.mpr fun other hother => bne_iff_ne.mpr fun hsame => ?_
          exact hnodup.1 (hsame ▸ List.mem_map_of_mem hother)
        rw [List.filter_cons_of_neg (by simp), hrest]
      · rw [List.find?_cons_of_neg (by simpa using hkey)] at hfind
        rw [List.filter_cons_of_pos (by simpa using hkey)]
        exact ((ih hnodup.2 hfind).cons first).trans (List.Perm.swap _ _ _)

/-- The accesses of all entries, added up. -/
theorem totalAccesses_eq (c : Cache α) :
    c.totalAccesses = (c.entries.map CacheEntry.accesses).sum := by
  rw [totalAccesses]
  induction c.entries with
  | nil => rfl
  | cons entry rest ih => rw [List.foldr_cons, ih, List.map_cons, List.sum_cons]

/-- A lookup that hits is counted once, as a hit and as an access of an entry. -/
theorem counts_of_hit (hnodup : c.keys.Nodup) {key path : String}
    (hhit : (c.get key path).1.isSome) :
    (c.get key path).2.hits = c.hits + 1 ∧ (c.get key path).2.misses = c.misses ∧
      (c.get key path).2.evictions = c.evictions ∧ (c.get key path).2.size = c.size ∧
      (c.get key path).2.totalAccesses = c.totalAccesses + 1 := by
  rcases c.get_cases key path with ⟨entry, values, -, hfind, -, hget⟩ | ⟨hnone, -, -⟩
  · have hperm := perm_without hnodup hfind
    rw [hget]
    refine ⟨rfl, rfl, rfl, ?_, ?_⟩
    · rw [size, size, hperm.length_eq, List.length_append]
      rfl
    · rw [totalAccesses_eq, totalAccesses_eq, (hperm.map _).sum_eq, List.map_append,
        List.sum_append, List.map_singleton, List.sum_singleton, List.map_cons, List.sum_cons]
      show _ + (entry.accesses + 1) = _
      omega
  · rw [hnone] at hhit
    cases hhit

/-! ## What an insert adds -/

/-- What makes way is counted. -/
theorem size_makeRoom (c : Cache α) (key : String) :
    (c.makeRoom key).size + (c.makeRoom key).evictions = c.size + c.evictions := by
  rw [makeRoom]
  split_ifs
  · cases hentries : c.entries with
    | nil => rfl
    | cons first rest =>
        show rest.length + (c.evictions + 1) = c.size + c.evictions
        rw [size, hentries, List.length_cons]
        omega
  · rfl

/-- Making room counts no lookup. -/
theorem hits_makeRoom (c : Cache α) (key : String) :
    (c.makeRoom key).hits = c.hits ∧ (c.makeRoom key).misses = c.misses := by
  rw [makeRoom]
  split_ifs
  · cases c.entries <;> exact ⟨rfl, rfl⟩
  · exact ⟨rfl, rfl⟩

/-- Making room takes no entry twice. -/
theorem sublist_makeRoom (c : Cache α) (key : String) :
    (c.makeRoom key).entries.Sublist c.entries := by
  rw [makeRoom]
  split_ifs
  · cases hentries : c.entries with
    | nil => rw [hentries]
    | cons first rest => exact List.sublist_cons_self first rest
  · exact List.Sublist.refl _

section Engine

variable [PatternEngine]

/-- An insert counts no lookup, and the accesses of what it takes the place of are gone. -/
theorem counts_insert (c : Cache α) (key : String) (payload : α) :
    (c.insert key payload).hits = c.hits ∧ (c.insert key payload).misses = c.misses ∧
      (c.insert key payload).totalAccesses ≤ c.totalAccesses := by
  rw [insert]
  split_ifs
  · cases keyPattern? key with
    | none => exact ⟨rfl, rfl, le_rfl⟩
    | some pattern =>
        obtain ⟨hhits, hmisses⟩ := c.hits_makeRoom key
        refine ⟨hhits, hmisses, ?_⟩
        have hsublist : ((c.makeRoom key).without key).Sublist c.entries :=
          List.filter_sublist.trans (c.sublist_makeRoom key)
        rw [totalAccesses_eq, totalAccesses_eq, List.map_append, List.sum_append,
          List.map_singleton, List.sum_singleton, Nat.add_zero]
        exact (hsublist.map _).sum_le_sum fun _ _ => Nat.zero_le _
  · exact ⟨rfl, rfl, le_rfl⟩

/-- An insert adds a key that is a pattern and not stored yet. -/
theorem adds_iff (henabled : c.settings.enabled = true) (hsize : c.size ≤ c.settings.capacity)
    (key : String) (payload : α) :
    (key ∉ c.keys ∧ key ∈ (c.insert key payload).keys) ↔
      key ∉ c.keys ∧ (keyPattern? key).isSome := by
  refine and_congr_right fun hkey => ?_
  cases hpattern : keyPattern? key with
  | none =>
      rw [insert_eq_self hpattern]
      simp [hkey]
  | some pattern =>
      rw [keys_insert henabled (by rw [hpattern]; rfl) hsize]
      simp

/-- An insert that adds a key leaves one entry more, be it stored or evicted; any other insert
leaves as many as there were. -/
theorem size_insert (henabled : c.settings.enabled = true) (hnodup : c.keys.Nodup)
    (hsize : c.size ≤ c.settings.capacity) (key : String) (payload : α) :
    (c.insert key payload).size + (c.insert key payload).evictions
      = c.size + c.evictions
        + if key ∉ c.keys ∧ key ∈ (c.insert key payload).keys then 1 else 0 := by
  have hadds := adds_iff henabled hsize key payload
  cases hpattern : keyPattern? key with
  | none =>
      rw [if_neg (by rw [hadds, hpattern]; simp), insert_eq_self hpattern]
      rfl
  | some pattern =>
      have hlength := congrArg List.length
        (keys_insert henabled (by rw [hpattern]; rfl) hsize payload)
      have hevictions : (c.insert key payload).evictions = (c.makeRoom key).evictions := by
        rw [insert_eq henabled hpattern]
      rw [length_keys, List.length_cons] at hlength
      by_cases hkey : key ∈ c.keys
      · have hpos : 0 < c.keys.length := List.length_pos_of_mem hkey
        rw [if_pos hkey, ← hnodup.erase_eq_filter, List.length_erase_of_mem hkey] at hlength
        rw [if_neg fun h => h.1 hkey, hevictions, makeRoom_of_mem hkey, hlength,
          ← length_keys]
        omega
      · have hroom := c.size_makeRoom key
        rw [if_neg hkey, ← keys_makeRoom hkey hsize, length_keys] at hlength
        rw [if_pos (hadds.mpr ⟨hkey, by rw [hpattern]; rfl⟩), hevictions, hlength]
        omega

/-! ## The balance -/

variable {settings : CacheSettings}

/-- A cache that is not enabled stays as it was made. -/
theorem after_of_disabled (hdisabled : settings.enabled = false) (history : List (CacheCall α)) :
    after settings history = ofSettings settings := by
  induction history with
  | nil => rfl
  | cons call earlier ih =>
      rw [after, ih]
      cases call with
      | insert key payload =>
          rw [Cache.call, insert, if_neg (by rw [ofSettings, hdisabled]; exact Bool.false_ne_true)]
      | get key path => rw [Cache.call, get_of_disabled (by rw [ofSettings, hdisabled])]
      | clear => rfl

/-- Every lookup is a hit or a miss. -/
theorem hits_add_misses_after (henabled : settings.enabled = true)
    (history : List (CacheCall α)) :
    (after settings history).hits + (after settings history).misses = lookups history := by
  induction history with
  | nil => rfl
  | cons call earlier ih =>
      rw [after, lookups, List.countP_cons, ← lookups, ← ih]
      cases call with
      | insert key payload =>
          obtain ⟨hhits, hmisses, -⟩ := (after settings earlier).counts_insert key payload
          rw [Cache.call, hhits, hmisses]
          rfl
      | get key path =>
          show ((after settings earlier).get key path).2.hits
            + ((after settings earlier).get key path).2.misses = _ + 1
          cases hhit : ((after settings earlier).get key path).1 with
          | none =>
              rw [get_of_miss (by rw [settings_after, henabled]) hhit]
              exact (Nat.add_assoc _ _ _).symm
          | some hit =>
              obtain ⟨hhits, hmisses, -⟩ :=
                counts_of_hit (nodup_keys_after henabled earlier) (by rw [hhit]; rfl)
              rw [hhits, hmisses]
              omega
      | clear => rfl

/-- Every key that was added is stored, or was evicted, or was dropped by a clear. -/
theorem additions_eq (henabled : settings.enabled = true) (history : List (CacheCall α)) :
    additions settings history = (after settings history).size
      + (after settings history).evictions + dropped settings history := by
  induction history with
  | nil => rfl
  | cons call earlier ih =>
      have hnodup := nodup_keys_after henabled earlier
      have hsettings := settings_after settings earlier
      rw [after]
      cases call with
      | insert key payload =>
          have hstep := size_insert (by rw [hsettings, henabled]) hnodup
            (by rw [hsettings]; exact size_after_le henabled earlier) key payload
          rw [Cache.call, additions, dropped, hstep]
          split_ifs <;> omega
      | get key path =>
          rw [Cache.call, additions, dropped, ih]
          cases hhit : ((after settings earlier).get key path).1 with
          | none => rw [get_of_miss (by rw [hsettings, henabled]) hhit]; rfl
          | some hit =>
              obtain ⟨-, -, hevictions, hsize, -⟩ := counts_of_hit hnodup (by rw [hhit]; rfl)
              rw [hevictions, hsize]
      | clear =>
          rw [additions, dropped, ih, Cache.call]
          show _ = 0 + (after settings earlier).evictions + _
          omega

/-- The accesses of an entry are the hits of its key since the key was inserted. -/
theorem accesses_after (henabled : settings.enabled = true) (history : List (CacheCall α)) :
    ∀ entry ∈ (after settings history).entries,
      entry.accesses = hitsSince settings entry.key history := by
  induction history with
  | nil => exact fun _ h => absurd h List.not_mem_nil
  | cons call earlier ih =>
      have hsettings := settings_after settings earlier
      rw [after]
      cases call with
      | insert key payload =>
          intro entry hentry
          rw [hitsSince]
          cases hpattern : keyPattern? key with
          | none =>
              rw [Cache.call, insert_eq_self hpattern] at hentry
              -- the key is no pattern, so it is not the entry's
              obtain ⟨hparts, -⟩ := holds_after henabled earlier entry hentry
              have hne : key ≠ entry.key := by
                rintro rfl
                rw [hpattern] at hparts
                cases hparts
              rw [if_neg hne, ih entry hentry]
          | some pattern =>
              rw [Cache.call, insert_eq (by rw [hsettings, henabled]) hpattern] at hentry
              rcases List.mem_append.mp hentry with hentry | hentry
              · have hne : entry.key ≠ key := by simpa using List.of_mem_filter hentry
                have hmem := List.mem_of_mem_filter hentry
                rw [if_neg (Ne.symm hne)]
                exact ih entry ((sublist_makeRoom _ key).subset hmem)
              · obtain rfl := List.mem_singleton.mp hentry
                rw [if_pos rfl]
      | get key path =>
          intro entry hentry
          rw [hitsSince]
          rcases (after settings earlier).get_cases key path with
            ⟨found, values, -, hfind, -, hget⟩ | ⟨hnone, hentries, -⟩
          · obtain ⟨hmem, hkey⟩ := mem_of_find? hfind
            rw [Cache.call, hget] at hentry
            rw [hget]
            rcases List.mem_append.mp hentry with hentry | hentry
            · have hne : entry.key ≠ key := by simpa using List.of_mem_filter hentry
              rw [if_neg fun h => hne h.1.symm, ih entry (List.mem_of_mem_filter hentry)]
            · obtain rfl := List.mem_singleton.mp hentry
              rw [if_pos ⟨hkey.symm, rfl⟩, ← ih found hmem]
          · rw [Cache.call, hentries] at hentry
            rw [hnone, if_neg (by simp), ih entry hentry]
      | clear => exact fun _ h => absurd h List.not_mem_nil

/-- The accesses of the entries are never more than the hits. -/
theorem totalAccesses_after_le (henabled : settings.enabled = true)
    (history : List (CacheCall α)) :
    (after settings history).totalAccesses ≤ (after settings history).hits := by
  induction history with
  | nil => exact le_rfl
  | cons call earlier ih =>
      rw [after]
      cases call with
      | insert key payload =>
          obtain ⟨hhits, -, haccesses⟩ := (after settings earlier).counts_insert key payload
          rw [Cache.call, hhits]
          exact haccesses.trans ih
      | get key path =>
          rw [Cache.call]
          cases hhit : ((after settings earlier).get key path).1 with
          | none => rw [get_of_miss (by rw [settings_after, henabled]) hhit]; exact ih
          | some hit =>
              obtain ⟨hhits, -, -, -, haccesses⟩ :=
                counts_of_hit (nodup_keys_after henabled earlier) (by rw [hhit]; rfl)
              rw [hhits, haccesses]
              exact Nat.succ_le_succ ih
      | clear => exact Nat.zero_le _

end Engine

/-- After any history, and whatever the engine takes for patterns, the counts of an enabled cache
balance. Every lookup was a hit or a miss. The inserts that added a key are as many as the entries
that are stored, were evicted and were dropped by clears. The accesses are the hits of the stored
keys, all different, since each was inserted, which are no more than all hits. And no more entries
are stored than there may be. A cache that is not enabled counts and stores nothing. -/
theorem metrics_after [PatternEngine] (settings : CacheSettings) (history : List (CacheCall α)) :
    (settings.enabled = true →
      (after settings history).metrics.hits + (after settings history).metrics.misses
          = lookups history ∧
        additions settings history = (after settings history).metrics.size
          + (after settings history).metrics.evictions + dropped settings history ∧
        (after settings history).keys.Nodup ∧
        (after settings history).metrics.totalAccesses
          = ((after settings history).keys.map fun key => hitsSince settings key history).sum ∧
        (after settings history).metrics.totalAccesses ≤ (after settings history).metrics.hits ∧
        (after settings history).metrics.size ≤ max 1 settings.maxEntries) ∧
      (settings.enabled = false → (after settings history).metrics
        = { hits := 0, misses := 0, evictions := 0, size := 0, maxEntries := settings.maxEntries,
            totalAccesses := 0 }) := by
  constructor
  · intro henabled
    refine ⟨hits_add_misses_after henabled history, additions_eq henabled history,
      nodup_keys_after henabled history, ?_, totalAccesses_after_le henabled history,
      size_after_le henabled history⟩
    show (after settings history).totalAccesses = _
    rw [totalAccesses_eq, keys, List.map_reverse, List.sum_reverse, List.map_map]
    exact congrArg List.sum (List.map_congr_left (accesses_after henabled history))
  · intro hdisabled
    rw [after_of_disabled hdisabled]
    rfl

/-- Two keys are stored and one of them is hit, replaced and hit again. A text that is no pattern is
not stored, and a third key evicts the one that was not hit. After a clear one key is stored and
hit. -/
def refilled : List (CacheCall ℕ) :=
  [.get "b" "b", .get "a" "a", .insert "b" 5, .clear, .insert "c" 4, .insert "x)" 3,
    .get "a" "a", .insert "a" 2, .get "b" "a", .get "a" "a", .insert "b" 1, .insert "a" 0]

/-- Of five lookups two miss, four keys are added of which two are dropped by the clear, and of
three hits one is left as an access of the stored key. -/
theorem metrics_after_refilled :
    roomForTwo.enabled = true ∧
      (after roomForTwo refilled).metrics.hits + (after roomForTwo refilled).metrics.misses = 5 ∧
      (after roomForTwo refilled).metrics.size
        + (after roomForTwo refilled).metrics.evictions + 2 = 4 ∧
      (after roomForTwo refilled).metrics.totalAccesses = 1 := by
  have henabled : roomForTwo.enabled = true := rfl
  obtain ⟨hlookups, hadditions, -, haccesses, -, -⟩ :=
    (metrics_after roomForTwo refilled).1 henabled
  have hadded : additions roomForTwo refilled = 4 := by decide +kernel
  have hdropped : dropped roomForTwo refilled = 2 := by decide +kernel
  have hsum : ((after roomForTwo refilled).keys.map
      fun key => hitsSince roomForTwo key refilled).sum = 1 := by
    decide +kernel
  rw [hadded, hdropped] at hadditions
  exact ⟨henabled, hlookups, hadditions.symm, haccesses.trans hsum⟩

end Cache

end CypherRoutes
