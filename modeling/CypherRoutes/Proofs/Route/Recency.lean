/-
# The order of use

A cache is used by storing under a key that is a pattern, and by a lookup that hits. It stores the
keys that were used last, as many different ones as it has room for, in the order of their last use
(`Cache.keys_after`), each with the payload that it was given last (`Cache.holds_after`). What one
call does is said once, for a lookup in `Cache.get_cases` and for an insert in `Cache.keys_insert`.
Which keys are patterns and what they match is up to the engine; nothing is assumed of it here.
-/
import CypherRoutes.Proofs.Route.Cache

namespace CypherRoutes

/-! ## Distinct keys -/

/-- Of a filtered list the distinct members are those of the list, filtered. -/
theorem eraseDups_filter (p : String → Bool) (keys : List String) :
    (keys.filter p).eraseDups = keys.eraseDups.filter p := by
  -- the induction is on the length, since a step drops all copies of the first member
  induction h : keys.length using Nat.strong_induction_on generalizing keys with
  | _ n ih =>
      cases keys with
      | nil => rfl
      | cons key rest =>
          have hshort : (rest.filter fun k => !k == key).length < n := by
            have hle := List.length_filter_le (fun k => !k == key) rest
            simp only [List.length_cons] at h
            omega
          have hrest := ih _ hshort _ rfl
          rw [List.eraseDups_cons]
          by_cases hkey : p key = true
          · rw [List.filter_cons_of_pos hkey, List.filter_cons_of_pos hkey, List.eraseDups_cons,
              ← hrest, List.filter_comm]
          · -- the copies of a key that is left out are left out anyway
            have hsame : (rest.filter fun k => !k == key).filter p = rest.filter p := by
              rw [List.filter_filter]
              refine List.filter_congr fun k _ => ?_
              by_cases hk : k = key
              · simp [hk, hkey]
              · simp [hk]
            rw [List.filter_cons_of_neg hkey, List.filter_cons_of_neg hkey, ← hrest, hsame]

/-- One more use of a key puts it before all other distinct keys. -/
theorem eraseDups_cons_eq (key : String) (keys : List String) :
    (key :: keys).eraseDups = key :: keys.eraseDups.filter (· != key) := by
  rw [List.eraseDups_cons, eraseDups_filter]
  rfl

theorem nodup_eraseDups (keys : List String) : keys.eraseDups.Nodup := by
  induction keys with
  | nil => exact List.nodup_nil
  | cons key rest ih =>
      rw [eraseDups_cons_eq, List.nodup_cons]
      exact ⟨fun hkey => by simpa using List.of_mem_filter hkey, ih.filter _⟩

/-- Using one of the latest keys changes their order only. -/
theorem take_cons_filter_of_mem {keys : List String} (h : keys.Nodup) {key : String} {n : ℕ}
    (hkey : key ∈ keys.take n) :
    (key :: keys.filter (· != key)).take n = key :: (keys.take n).filter (· != key) := by
  have hnodup : (keys.take n).Nodup := h.sublist (List.take_sublist n keys)
  have hlength : ((keys.take n).filter (· != key)).length = (keys.take n).length - 1 := by
    rw [← hnodup.erase_eq_filter, List.length_erase_of_mem hkey]
  have hpos : 0 < (keys.take n).length := List.length_pos_of_mem hkey
  have hsplit : keys.filter (· != key)
      = (keys.take n).filter (· != key) ++ (keys.drop n).filter (· != key) := by
    rw [← List.filter_append, List.take_append_drop]
  rw [List.length_take] at hlength hpos
  obtain ⟨m, rfl⟩ : ∃ m, n = m + 1 := ⟨n - 1, by omega⟩
  rw [List.take_succ_cons, hsplit]
  congr 1
  by_cases hlong : m + 1 ≤ keys.length
  · exact List.take_left' (by omega)
  · rw [List.drop_of_length_le (by omega), List.filter_nil, List.append_nil]
    exact List.take_of_length_le (by omega)

/-- Using a key that is not one of the latest keys pushes out the last one of them, if there are as
many as there may be. -/
theorem take_cons_filter_of_not_mem {keys : List String} {key : String} {n : ℕ} (hn : 0 < n)
    (hkey : key ∉ keys.take n) :
    (key :: keys.filter (· != key)).take n = key :: (keys.take n).take (n - 1) := by
  have hkept : (keys.take n).filter (· != key) = keys.take n := by
    refine List.filter_eq_self.mpr fun k hk => ?_
    rw [bne_iff_ne]
    rintro rfl
    exact hkey hk
  have hsplit : keys.filter (· != key) = keys.take n ++ (keys.drop n).filter (· != key) := by
    conv_lhs => rw [← List.take_append_drop n keys, List.filter_append, hkept]
  obtain ⟨m, rfl⟩ : ∃ m, n = m + 1 := ⟨n - 1, by omega⟩
  rw [List.take_succ_cons, hsplit, Nat.add_sub_cancel]
  congr 1
  by_cases hlong : m + 1 ≤ keys.length
  · have hlength : (keys.take (m + 1)).length = m + 1 := by rw [List.length_take]; omega
    exact List.take_append_of_le_length (by omega)
  · rw [List.drop_of_length_le (by omega), List.filter_nil, List.append_nil]

/-- How many entries a cache may hold: a single entry is stored even where there is no room. -/
def CacheSettings.capacity (s : CacheSettings) : ℕ := max 1 s.maxEntries

/-! ## Histories -/

/-- A call of a cache. -/
inductive CacheCall (α : Type) where
  | insert (key : String) (payload : α)
  | get (key path : String)
  | clear

namespace Cache

variable {α : Type}

/-- The cache after a call. -/
def call [PatternEngine] (c : Cache α) : CacheCall α → Cache α
  | .insert key payload => c.insert key payload
  | .get key path => (c.get key path).2
  | .clear => c.clear

/-- A cache after a history of calls, of which the latest stands first. -/
def after [PatternEngine] (settings : CacheSettings) : List (CacheCall α) → Cache α
  | [] => ofSettings settings
  | call :: earlier => (after settings earlier).call call

/-- The keys that are stored, the one used last first. -/
def keys (c : Cache α) : List String := (c.entries.map CacheEntry.key).reverse

/-- The keys that a history used since the latest clear, the one used last first: an insert uses
its key if that is a pattern, and a lookup uses its key if it hits. -/
def uses [PatternEngine] (settings : CacheSettings) : List (CacheCall α) → List String
  | [] => []
  | .insert key _ :: earlier =>
    if (keyPattern? key).isSome then key :: uses settings earlier else uses settings earlier
  | .get key path :: earlier =>
    if ((after settings earlier).get key path).1.isSome then key :: uses settings earlier
    else uses settings earlier
  | .clear :: _ => []

/-- What the latest insert of a key gave it. -/
def latestInsert? (key : String) : List (CacheCall α) → Option α
  | [] => none
  | .insert k payload :: earlier => if k = key then some payload else latestInsert? key earlier
  | .get _ _ :: earlier => latestInsert? key earlier
  | .clear :: earlier => latestInsert? key earlier

variable {c : Cache α}

/-! ## Stored keys -/

/-- A key is stored if there is an entry under it. -/
theorem mem_keys_iff {key : String} : key ∈ c.keys ↔ ∃ entry ∈ c.entries, entry.key = key := by
  rw [keys, List.mem_reverse, List.mem_map]

/-- A key is stored if it is found. -/
theorem isSome_find?_iff {key : String} : (c.find? key).isSome ↔ key ∈ c.keys := by
  rw [find?, List.find?_isSome, mem_keys_iff]
  simp only [beq_iff_eq]

/-- There are as many keys as entries. -/
theorem length_keys (c : Cache α) : c.keys.length = c.size := by
  rw [keys, List.length_reverse, List.length_map, size]

/-- The least recently used key is the last one. -/
theorem keys_of_entries {first : CacheEntry α} {rest : List (CacheEntry α)}
    (h : c.entries = first :: rest) :
    c.keys = (rest.map CacheEntry.key).reverse ++ [first.key] := by
  rw [keys, h, List.map_cons, List.reverse_cons]

/-- An entry that takes the place of what was stored under its key, as the latest used one. -/
theorem keys_without_append (c : Cache α) (entry : CacheEntry α) :
    ((c.without entry.key ++ [entry]).map CacheEntry.key).reverse
      = entry.key :: c.keys.filter (· != entry.key) := by
  rw [List.map_append, List.reverse_append, without, keys, List.filter_reverse, List.filter_map]
  rfl

/-! ## What a lookup does -/

/-- A lookup hits an entry, which it uses, or it leaves the entries as they are. -/
theorem get_cases (c : Cache α) (key path : String) :
    (∃ entry values, c.settings.enabled = true ∧ c.find? key = some entry ∧
      entry.pattern.captures path = some values ∧
      c.get key path = (some ⟨key, entry.payload, values⟩,
        { c with
          entries := c.without key ++ [{ entry with accesses := entry.accesses + 1 }]
          hits := c.hits + 1 })) ∨
    ((c.get key path).1 = none ∧ (c.get key path).2.entries = c.entries ∧
      ∀ entry, c.settings.enabled = true → c.find? key = some entry →
        entry.pattern.captures path = none) := by
  rw [get]
  by_cases henabled : c.settings.enabled = true
  · rw [if_pos henabled]
    cases hfind : c.find? key with
    | none => exact .inr ⟨rfl, rfl, fun _ _ h => by cases h⟩
    | some entry =>
        cases hcaptures : entry.pattern.captures path with
        | none =>
            refine .inr ⟨?_, ?_, ?_⟩
            · simp [hcaptures]
            · simp [hcaptures]
            · intro other _ hother
              obtain rfl := Option.some.inj hother
              exact hcaptures
        | some values =>
            refine .inl ⟨entry, values, henabled, rfl, hcaptures, ?_⟩
            simp [hcaptures]
  · rw [if_neg henabled]
    exact .inr ⟨rfl, rfl, fun _ h => absurd h henabled⟩

/-- A lookup that misses is counted, and changes nothing else. -/
theorem get_of_miss (henabled : c.settings.enabled = true) {key path : String}
    (hmiss : (c.get key path).1 = none) :
    (c.get key path).2 = { c with misses := c.misses + 1 } := by
  rw [get, if_pos henabled] at hmiss ⊢
  cases hhit : (do
      let entry ← c.find? key
      let values ← entry.pattern.captures path
      return (entry, values)) with
  | none => rfl
  | some hit =>
      rw [hhit] at hmiss
      cases hmiss

/-- A cache that is not enabled finds nothing and counts nothing. -/
theorem get_of_disabled (hdisabled : c.settings.enabled = false) (key path : String) :
    c.get key path = (none, c) := by
  rw [get, if_neg (by rw [hdisabled]; exact Bool.false_ne_true)]

/-- An enabled cache is hit if the entry of the key matches the path, and only then. -/
theorem get_eq_some_iff (henabled : c.settings.enabled = true) {key path : String}
    {hit : CacheHit α} :
    (c.get key path).1 = some hit ↔
      ∃ entry values, c.find? key = some entry ∧ entry.pattern.captures path = some values ∧
        hit = ⟨key, entry.payload, values⟩ := by
  rcases c.get_cases key path with ⟨entry, values, -, hfind, hvalues, hget⟩ | ⟨hnone, -, hmiss⟩
  · rw [hget]
    constructor
    · intro hhit
      exact ⟨entry, values, hfind, hvalues, (Option.some.inj hhit).symm⟩
    · rintro ⟨entry', values', hfind', hvalues', rfl⟩
      obtain rfl := Option.some.inj (hfind.symm.trans hfind')
      obtain rfl := Option.some.inj (hvalues.symm.trans hvalues')
      rfl
  · rw [hnone]
    constructor
    · intro hhit
      cases hhit
    · rintro ⟨entry, values, hfind, hvalues, -⟩
      rw [hmiss entry henabled hfind] at hvalues
      cases hvalues

/-- Only a stored key is hit. -/
theorem mem_keys_of_hit {key path : String} (h : (c.get key path).1.isSome) : key ∈ c.keys := by
  rcases c.get_cases key path with ⟨entry, values, -, hfind, -, -⟩ | ⟨hnone, -, -⟩
  · exact isSome_find?_iff.mp (by rw [hfind]; rfl)
  · rw [hnone] at h
    exact absurd h (by simp)

/-- A lookup that hits makes its key the latest used one. -/
theorem keys_get (c : Cache α) (key path : String) :
    (c.get key path).2.keys
      = if (c.get key path).1.isSome then key :: c.keys.filter (· != key) else c.keys := by
  rcases c.get_cases key path with ⟨entry, values, -, hfind, -, hget⟩ | ⟨hnone, hentries, -⟩
  · obtain ⟨-, hkey⟩ := mem_of_find? hfind
    subst hkey
    rw [hget]
    exact c.keys_without_append { entry with accesses := entry.accesses + 1 }
  · rw [hnone, if_neg (by simp), keys, keys, hentries]

/-! ## What an insert does -/

/-- For a stored key nothing makes way. -/
theorem makeRoom_of_mem {key : String} (hkey : key ∈ c.keys) : c.makeRoom key = c := by
  have hsome := isSome_find?_iff.mpr hkey
  rw [makeRoom, if_neg]
  rw [Bool.and_eq_true, Option.isNone_iff_eq_none]
  rintro ⟨hnone, -⟩
  rw [hnone] at hsome
  cases hsome

/-- For a new key the least recently used entry makes way, if there are as many entries as there
may be. -/
theorem makeRoom_cases {key : String} (hkey : key ∉ c.keys)
    (hsize : c.size ≤ c.settings.capacity) :
    (c.size < c.settings.capacity ∧ c.makeRoom key = c) ∨
      ∃ first rest, c.entries = first :: rest ∧ c.size = c.settings.capacity ∧
        c.makeRoom key = { c with entries := rest, evictions := c.evictions + 1 } := by
  have hnone : (c.find? key).isNone = true := by
    rw [Option.isNone_iff_eq_none, ← Option.not_isSome_iff_eq_none, isSome_find?_iff]
    exact hkey
  rw [CacheSettings.capacity] at hsize ⊢
  rw [makeRoom, hnone, Bool.true_and]
  by_cases hfull : c.settings.maxEntries ≤ c.size
  · rw [if_pos (decide_eq_true hfull)]
    cases hentries : c.entries with
    | nil =>
        -- the first entry is stored even if there is no room for it
        have hzero : c.size = 0 := by rw [size, hentries, List.length_nil]
        exact .inl ⟨by omega, rfl⟩
    | cons first rest =>
        have hpos : 0 < c.size := by rw [size, hentries, List.length_cons]; omega
        exact .inr ⟨first, rest, rfl, by omega, rfl⟩
  · rw [if_neg (by simpa using hfull)]
    exact .inl ⟨by omega, rfl⟩

/-- The keys for which there is room beside a new one. -/
theorem keys_makeRoom {key : String} (hkey : key ∉ c.keys)
    (hsize : c.size ≤ c.settings.capacity) :
    (c.makeRoom key).keys = c.keys.take (c.settings.capacity - 1) := by
  rcases makeRoom_cases hkey hsize with ⟨hroom, hmake⟩ | ⟨first, rest, hentries, hfull, hmake⟩
  · rw [hmake, List.take_of_length_le (by rw [length_keys]; omega)]
  · have hlength : rest.length + 1 = c.size := by rw [size, hentries, List.length_cons]
    rw [hmake, keys_of_entries hentries, List.take_left']
    · rfl
    · rw [List.length_reverse, List.length_map]
      omega

variable [PatternEngine]

/-- An insert under a key that is a pattern. -/
theorem insert_eq {key : String} {pattern : Pattern} (henabled : c.settings.enabled = true)
    (hpattern : keyPattern? key = some pattern) (payload : α) :
    c.insert key payload =
      { c.makeRoom key with
        entries := (c.makeRoom key).without key ++ [⟨key, pattern, payload, 0⟩] } := by
  rw [insert, if_pos henabled, hpattern]

/-- An insert under a key that is no pattern. -/
theorem insert_eq_self {key : String} (hpattern : keyPattern? key = none) (payload : α) :
    c.insert key payload = c := by
  rw [insert, hpattern]
  split_ifs <;> rfl

/-- An insert makes its key the latest used one; a new key leaves room for one key less. -/
theorem keys_insert {key : String} (henabled : c.settings.enabled = true)
    (hpattern : (keyPattern? key).isSome) (hsize : c.size ≤ c.settings.capacity) (payload : α) :
    (c.insert key payload).keys
      = key :: if key ∈ c.keys then c.keys.filter (· != key)
          else c.keys.take (c.settings.capacity - 1) := by
  obtain ⟨pattern, hpattern⟩ := Option.isSome_iff_exists.mp hpattern
  rw [insert_eq henabled hpattern]
  have hkeys := (c.makeRoom key).keys_without_append ⟨key, pattern, payload, 0⟩
  refine hkeys.trans ?_
  congr 1
  by_cases hkey : key ∈ c.keys
  · rw [if_pos hkey, makeRoom_of_mem hkey]
  · rw [if_neg hkey, keys_makeRoom hkey hsize]
    refine List.filter_eq_self.mpr fun k hk => ?_
    rw [bne_iff_ne]
    rintro rfl
    exact hkey (List.mem_of_mem_take hk)

/-- The keys that an insert evicts: they were stored before it and are not stored after it. -/
def evictedBy (c : Cache α) (key : String) (payload : α) : List String :=
  c.keys.filter fun k => k ∉ (c.insert key payload).keys

/-- An insert that keeps all keys evicts none. -/
theorem evictedBy_eq_nil {key : String} {payload : α}
    (h : ∀ k ∈ c.keys, k ∈ (c.insert key payload).keys) : c.evictedBy key payload = [] := by
  refine List.filter_eq_nil_iff.mpr fun k hk => ?_
  rw [decide_eq_true_eq, not_not]
  exact h k hk

/-- An insert that keeps all keys but the last one evicts that one. -/
theorem evictedBy_eq_singleton {key : String} {payload : α} {kept : List String} {oldest : String}
    (hnodup : c.keys.Nodup) (hkeys : c.keys = kept ++ [oldest]) (hkey : key ∉ c.keys)
    (hinsert : (c.insert key payload).keys = key :: kept) :
    c.evictedBy key payload = [oldest] := by
  have holdest : oldest ∉ key :: kept := by
    rw [hkeys, List.nodup_append] at hnodup
    rw [hkeys] at hkey
    rintro hmem
    rcases List.mem_cons.mp hmem with rfl | hmem
    · exact hkey (List.mem_append_right kept List.mem_cons_self)
    · exact hnodup.2.2 oldest hmem oldest List.mem_cons_self rfl
  have hkept : kept.filter (fun k => k ∉ key :: kept) = [] := by
    refine List.filter_eq_nil_iff.mpr fun k hk => ?_
    rw [decide_eq_true_eq, not_not]
    exact List.mem_cons_of_mem key hk
  rw [evictedBy, hinsert, hkeys, List.filter_append, hkept, List.nil_append,
    List.filter_singleton, decide_eq_true holdest, cond_true]

/-- An insert counts what it evicts. This is nothing if its key is stored, and in any case at most
the least recently used key. -/
theorem evictedBy_cases (henabled : c.settings.enabled = true) (hnodup : c.keys.Nodup)
    (hsize : c.size ≤ c.settings.capacity) (key : String) (payload : α) :
    (c.insert key payload).evictions = c.evictions + (c.evictedBy key payload).length ∧
      (key ∈ c.keys → c.evictedBy key payload = []) ∧
      (c.evictedBy key payload = [] ∨
        ∃ oldest, c.keys.getLast? = some oldest ∧ c.evictedBy key payload = [oldest]) := by
  cases hpattern : keyPattern? key with
  | none =>
      have hsame := c.insert_eq_self hpattern payload
      have hnil : c.evictedBy key payload = [] :=
        evictedBy_eq_nil fun k hk => by rw [hsame]; exact hk
      rw [hsame, hnil]
      exact ⟨rfl, fun _ => rfl, .inl rfl⟩
  | some pattern =>
      have hevictions : (c.insert key payload).evictions = (c.makeRoom key).evictions := by
        rw [insert_eq henabled hpattern]
      have hkeys := keys_insert henabled (by rw [hpattern]; rfl) hsize payload
      by_cases hkey : key ∈ c.keys
      · have hnil : c.evictedBy key payload = [] := by
          refine evictedBy_eq_nil fun k hk => ?_
          rw [hkeys, if_pos hkey, List.mem_cons, List.mem_filter, bne_iff_ne]
          by_cases hsame : k = key
          · exact .inl hsame
          · exact .inr ⟨hk, hsame⟩
        rw [hevictions, makeRoom_of_mem hkey, hnil]
        exact ⟨rfl, fun _ => rfl, .inl rfl⟩
      · rw [if_neg hkey, ← keys_makeRoom hkey hsize] at hkeys
        rw [hevictions]
        rcases makeRoom_cases hkey hsize with ⟨-, hmake⟩ | ⟨first, rest, hentries, -, hmake⟩
        · have hnil : c.evictedBy key payload = [] := by
            refine evictedBy_eq_nil fun k hk => ?_
            rw [hkeys, hmake]
            exact List.mem_cons_of_mem key hk
          rw [hmake, hnil]
          exact ⟨rfl, fun _ => rfl, .inl rfl⟩
        · have hlast := keys_of_entries hentries
          rw [hmake] at hkeys
          have hone := evictedBy_eq_singleton hnodup hlast hkey hkeys
          rw [hmake, hone]
          refine ⟨rfl, fun h => absurd h hkey, .inr ⟨first.key, ?_, rfl⟩⟩
          rw [hlast, List.getLast?_concat]

/-- A fact about the keys, patterns and payloads of all entries changes with an insert, if what is
stored meets the new one and the entries under other keys go on to. -/
theorem Holds.insert_replacing {P Q : String → Pattern → α → Prop} (h : c.Holds P)
    (henabled : c.settings.enabled = true) {key : String} {pattern : Pattern}
    (hpattern : keyPattern? key = some pattern) {payload : α} (hnew : Q key pattern payload)
    (hother : ∀ k parts value, k ≠ key → P k parts value → Q k parts value) :
    (c.insert key payload).Holds Q := by
  rw [insert_eq henabled hpattern]
  intro entry hentry
  rcases List.mem_append.mp hentry with hentry | hentry
  · have hmem : entry ∈ (c.makeRoom key).entries := List.mem_of_mem_filter hentry
    have hne : entry.key ≠ key := by simpa using List.of_mem_filter hentry
    exact hother _ _ _ hne (h.makeRoom key entry hmem)
  · obtain rfl := List.mem_singleton.mp hentry
    exact hnew

/-! ## What a history leaves behind -/

variable {settings : CacheSettings}

/-- No call changes the settings. -/
theorem settings_after (settings : CacheSettings) (history : List (CacheCall α)) :
    (after settings history).settings = settings := by
  induction history with
  | nil => rfl
  | cons call earlier ih =>
      cases call with
      | insert key payload => exact (settings_insert _ key payload).trans ih
      | get key path => exact (settings_get _ key path).trans ih
      | clear => exact ih

/-- The keys that a cache stores are the latest used ones, as many different ones as it may hold. -/
theorem keys_after (henabled : settings.enabled = true) (history : List (CacheCall α)) :
    (after settings history).keys = (uses settings history).eraseDups.take settings.capacity := by
  have hcapacity : 0 < settings.capacity := by rw [CacheSettings.capacity]; omega
  induction history with
  | nil => exact List.take_nil.symm
  | cons call earlier ih =>
      have hsettings := settings_after settings earlier
      have hnodup := nodup_eraseDups (uses settings earlier)
      cases call with
      | clear => exact List.take_nil.symm
      | get key path =>
          show ((after settings earlier).get key path).2.keys = _
          rw [keys_get, uses]
          by_cases hhit : ((after settings earlier).get key path).1.isSome
          · have hkey := mem_keys_of_hit hhit
            rw [ih] at hkey
            rw [if_pos hhit, if_pos hhit, eraseDups_cons_eq, take_cons_filter_of_mem hnodup hkey,
              ih]
          · rw [if_neg hhit, if_neg hhit, ih]
      | insert key payload =>
          show ((after settings earlier).insert key payload).keys = _
          rw [uses]
          by_cases hpattern : (keyPattern? key).isSome
          · have hsize : (after settings earlier).size
                ≤ (after settings earlier).settings.capacity := by
              rw [← length_keys, ih, hsettings]
              exact List.length_take_le _ _
            rw [if_pos hpattern, keys_insert (by rw [hsettings, henabled]) hpattern hsize,
              hsettings, ih, eraseDups_cons_eq]
            split_ifs with hkey
            · rw [take_cons_filter_of_mem hnodup hkey]
            · rw [take_cons_filter_of_not_mem hcapacity hkey]
          · rw [if_neg hpattern, insert_eq_self (by simpa using hpattern), ih]

/-- The keys are different. -/
theorem nodup_keys_after (henabled : settings.enabled = true) (history : List (CacheCall α)) :
    (after settings history).keys.Nodup := by
  rw [keys_after henabled]
  exact (nodup_eraseDups _).sublist (List.take_sublist _ _)

/-- A cache holds no more than it may. -/
theorem size_after_le (henabled : settings.enabled = true) (history : List (CacheCall α)) :
    (after settings history).size ≤ settings.capacity := by
  rw [← length_keys, keys_after henabled]
  exact List.length_take_le _ _

/-- Every entry has the pattern of its key and what the key was given last. -/
theorem holds_after (henabled : settings.enabled = true) (history : List (CacheCall α)) :
    (after settings history).Holds fun key pattern payload =>
      keyPattern? key = some pattern ∧ latestInsert? key history = some payload := by
  induction history with
  | nil => exact holds_ofSettings settings
  | cons call earlier ih =>
      cases call with
      | clear => exact holds_clear _
      | get key path => exact ih.get key path
      | insert key payload =>
          cases hpattern : keyPattern? key with
          | none =>
              show ((after settings earlier).insert key payload).Holds _
              rw [insert_eq_self hpattern]
              intro entry hentry
              obtain ⟨hparts, hlatest⟩ := ih entry hentry
              -- the key is no pattern, so it is not the entry's
              have hne : key ≠ entry.key := by
                rintro rfl
                rw [hpattern] at hparts
                cases hparts
              exact ⟨hparts, by rw [latestInsert?, if_neg hne, hlatest]⟩
          | some pattern =>
              have hsettings := settings_after settings earlier
              refine ih.insert_replacing (by rw [hsettings, henabled]) hpattern
                ⟨hpattern, by rw [latestInsert?, if_pos rfl]⟩ fun k parts value hne hold => ?_
              exact ⟨hold.1, by rw [latestInsert?, if_neg (Ne.symm hne), hold.2]⟩

/-- A lookup hits exactly if its key is stored and the key's pattern matches the path. It gives what
the key was given last and what the pattern captures. -/
theorem get_after_eq_some_iff (henabled : settings.enabled = true)
    (history : List (CacheCall α)) {key path : String} {hit : CacheHit α} :
    ((after settings history).get key path).1 = some hit ↔
      key ∈ (after settings history).keys ∧ hit.key = key ∧
        latestInsert? key history = some hit.payload ∧
        ∃ pattern, keyPattern? key = some pattern ∧ pattern.captures path = some hit.captures := by
  have hholds := holds_after henabled history
  rw [get_eq_some_iff (by rw [settings_after, henabled])]
  constructor
  · rintro ⟨entry, values, hfind, hvalues, rfl⟩
    obtain ⟨hmem, rfl⟩ := mem_of_find? hfind
    obtain ⟨hpattern, hlatest⟩ := hholds entry hmem
    exact ⟨mem_keys_iff.mpr ⟨entry, hmem, rfl⟩, rfl, hlatest, entry.pattern, hpattern, hvalues⟩
  · obtain ⟨key', payload, values⟩ := hit
    rintro ⟨hkey, rfl, hpayload, pattern, hparts, hvalues⟩
    obtain ⟨entry, hfind⟩ := Option.isSome_iff_exists.mp (isSome_find?_iff.mpr hkey)
    obtain ⟨hmem, rfl⟩ := mem_of_find? hfind
    obtain ⟨hpattern, hlatest⟩ := hholds entry hmem
    obtain rfl := Option.some.inj (hpattern.symm.trans hparts)
    obtain rfl := Option.some.inj (hlatest.symm.trans hpayload)
    exact ⟨entry, values, hfind, hvalues, rfl⟩

end Cache

end CypherRoutes
