import VirePortal.Collections.Fifo
import VirePortal.Server.Cache

/-!
# The response cache in the order of insertion

The entries of the cache sorted by their index are the entries of a `Fifo` (`Refines`), and each
method of the cache is the corresponding operation of it. `evictOldest` ranges over a map, whose
order the runtime chooses at each call (`IterationOrder`). The indices are distinct, so the search
for the lowest one finds the same entry in every order (`oldest_eq`), and `Set` does the same
(`setIn_eq_set`).
-/

namespace VirePortal.Server

open Go Auth Collections

/-- The order in which a `range` over the entries of a map visits them. -/
structure IterationOrder where
  visit : List (Sigma fun _ : Str => CacheEntry) → List (Sigma fun _ : Str => CacheEntry)
  perm : ∀ l, (visit l).Perm l

namespace ResponseCache

/-- `evictOldest`, with the order of its loop. -/
def evictOldestIn (order : IterationOrder) (items : Table CacheEntry) : Table CacheEntry :=
  match oldest (order.visit items.entries) none with
  | some (key, _) => if key ≠ [] then items.erase key else items
  | none => items

/-- `Set`, with the order of the loop of `evictOldest`. -/
def setIn (order : IterationOrder) (c : ResponseCache) (key : Str) (resp : CachedResponse)
    (now : Time) :
    ResponseCache :=
  let e : CacheEntry := ⟨resp, now + c.ttl, c.nextIdx⟩
  let items :=
    if key ∈ c.items then c.items
    else if c.maxEntries ≤ c.items.entries.length then evictOldestIn order c.items
    else c.items
  { c with items := items.insert key e, nextIdx := c.nextIdx + 1 }

/-- `es` are the entries of the map, the lowest index first, and `nextIdx` is above them. -/
structure Ordered (items : Table CacheEntry) (nextIdx : ℕ)
    (es : List (Str × CacheEntry)) : Prop where
  mem : ∀ k e, (k, e) ∈ es ↔ items.lookup k = some e
  sorted : es.Pairwise fun a b => a.2.insertIdx < b.2.insertIdx
  below : ∀ a ∈ es, a.2.insertIdx < nextIdx

variable {items items' : Table CacheEntry} {n : ℕ} {es : List (Str × CacheEntry)} {key k : Str}
variable {e : CacheEntry} {resp : CachedResponse} {now : Time} {c : ResponseCache}

/-! ### The search for the lowest index -/

/-- The loop with a best entry so far ends with one whose index is the lowest. -/
theorem oldest_some (l : List (Sigma fun _ : Str => CacheEntry)) (k : Str) (i : ℕ) :
    ∃ k' i', oldest l (some (k, i)) = some (k', i') ∧ i' ≤ i ∧ (∀ a ∈ l, i' ≤ a.2.insertIdx) ∧
      ((k' = k ∧ i' = i) ∨ ∃ e, (⟨k', e⟩ : Sigma fun _ : Str => CacheEntry) ∈ l ∧
        e.insertIdx = i') := by
  induction l generalizing k i with
  | nil => exact ⟨k, i, rfl, le_rfl, nofun, .inl ⟨rfl, rfl⟩⟩
  | cons a l ih =>
    obtain ⟨key, e⟩ := a
    rw [oldest]
    -- The entry is older than the best one so far and takes its place, or it is not.
    split_ifs with hlt
    · obtain ⟨k', i', heq, hle, hall, hfound⟩ := ih key e.insertIdx
      refine ⟨k', i', heq, by omega, fun a ha => ?_, .inr ?_⟩
      · rcases List.mem_cons.1 ha with rfl | ha
        · exact hle
        · exact hall a ha
      · rcases hfound with ⟨rfl, rfl⟩ | ⟨e', he', hidx⟩
        · exact ⟨e, .head _, rfl⟩
        · exact ⟨e', .tail _ he', hidx⟩
    · obtain ⟨k', i', heq, hle, hall, hfound⟩ := ih k i
      refine ⟨k', i', heq, hle, fun a ha => ?_, ?_⟩
      · rcases List.mem_cons.1 ha with rfl | ha
        · show i' ≤ e.insertIdx
          omega
        · exact hall a ha
      · rcases hfound with hsame | ⟨e', he', hidx⟩
        · exact .inl hsame
        · exact .inr ⟨e', .tail _ he', hidx⟩

/-- The loop over some entries finds one of them with the lowest index. -/
theorem oldest_none {l : List (Sigma fun _ : Str => CacheEntry)} (hl : l ≠ []) :
    ∃ k e, oldest l none = some (k, e.insertIdx) ∧ (⟨k, e⟩ : Sigma fun _ : Str => CacheEntry) ∈ l ∧
      ∀ a ∈ l, e.insertIdx ≤ a.2.insertIdx := by
  obtain ⟨⟨key, e⟩, l, rfl⟩ := List.exists_cons_of_ne_nil hl
  obtain ⟨k', i', heq, hle, hall, hfound⟩ := oldest_some l key e.insertIdx
  rcases hfound with ⟨rfl, rfl⟩ | ⟨e', he', rfl⟩
  · refine ⟨k', e, heq, .head _, fun a ha => ?_⟩
    rcases List.mem_cons.1 ha with rfl | ha
    · exact le_rfl
    · exact hall a ha
  · refine ⟨k', e', heq, .tail _ he', fun a ha => ?_⟩
    rcases List.mem_cons.1 ha with rfl | ha
    · exact hle
    · exact hall a ha

/-- The entries of the map. -/
theorem mem_entries {a : Sigma fun _ : Str => CacheEntry} :
    a ∈ items.entries ↔ items.lookup a.1 = some a.2 :=
  AList.mem_lookup_iff.symm

/-- A key of the map has an entry. -/
theorem mem_iff_lookup : key ∈ items ↔ ∃ e, items.lookup key = some e := by
  rw [← AList.lookup_isSome, Option.isSome_iff_exists]

/-- Whatever the order, the search finds the first entry by index. -/
theorem oldest_eq (h : Ordered items n ((k, e) :: es)) {l : List (Sigma fun _ : Str => CacheEntry)}
    (hl : l.Perm items.entries) : oldest l none = some (k, e.insertIdx) := by
  have hmem : ∀ k' e', (⟨k', e'⟩ : Sigma fun _ : Str => CacheEntry) ∈ l ↔
      (k', e') ∈ (k, e) :: es := by
    intro k' e'
    rw [hl.mem_iff, mem_entries, h.mem]
  have hfirst := (hmem k e).2 (.head _)
  obtain ⟨k', e', heq, hfound, hlowest⟩ := oldest_none (List.ne_nil_of_mem hfirst)
  have hle : e'.insertIdx ≤ e.insertIdx := hlowest _ hfirst
  -- The entry that is found is the first one: all others have a higher index.
  rcases List.mem_cons.1 ((hmem k' e').1 hfound) with hsame | hlater
  · obtain ⟨rfl, rfl⟩ := Prod.mk.inj hsame
    exact heq
  · have hlt : e.insertIdx < e'.insertIdx := (List.pairwise_cons.1 h.sorted).1 _ hlater
    omega

/-- Nothing is ordered as nothing. -/
theorem entries_eq_nil (h : Ordered items n []) : items.entries = [] := by
  refine List.eq_nil_iff_forall_not_mem.2 fun a ha => ?_
  exact absurd ((h.mem a.1 a.2).2 (mem_entries.1 ha)) List.not_mem_nil

/-- The eviction does not depend on the iteration order. -/
theorem evictOldestIn_eq (h : Ordered items n es) (order : IterationOrder) :
    evictOldestIn order items = evictOldest items := by
  have hsame : oldest (order.visit items.entries) none = oldest items.entries none := by
    cases es with
    | nil => rw [entries_eq_nil h, List.Perm.eq_nil (order.perm [])]
    | cons a es => rw [oldest_eq h (order.perm _), oldest_eq h (List.Perm.refl _)]
  rw [evictOldestIn, hsame]
  rfl

/-- The order of the iteration does not matter. -/
theorem setIn_eq_set (h : Ordered c.items c.nextIdx es) (order : IterationOrder) (key : Str)
    (resp : CachedResponse) (now : Time) : c.setIn order key resp now = c.set key resp now := by
  unfold setIn set
  rw [evictOldestIn_eq h order]

/-! ### The order of the entries -/

namespace Ordered

section

variable (h : Ordered items n es)
include h

/-- The order is about what the map holds. -/
theorem congr (hitems : ∀ k, items'.lookup k = items.lookup k) :
    Ordered items' n es := by
  refine ⟨fun k e => ?_, h.sorted, h.below⟩
  rw [hitems, h.mem]

/-- One entry has the key. -/
theorem key_unique {a b : Str × CacheEntry} (ha : a ∈ es) (hb : b ∈ es)
    (hkey : a.1 = b.1) : a = b := by
  have hla := (h.mem a.1 a.2).1 ha
  have hlb := (h.mem b.1 b.2).1 hb
  rw [hkey, hlb] at hla
  exact Prod.ext hkey (Option.some.inj hla).symm

/-- An index is the index of one entry. -/
theorem index_unique {a b : Str × CacheEntry} (ha : a ∈ es) (hb : b ∈ es)
    (hidx : a.2.insertIdx = b.2.insertIdx) : a = b := by
  have hnodup : (es.map fun a => a.2.insertIdx).Nodup := by
    rw [List.Nodup, List.pairwise_map]
    exact h.sorted.imp fun hlt => hlt.ne
  exact List.inj_on_of_nodup_map hnodup ha hb hidx

/-- The entries are distinct. -/
theorem nodup : es.Nodup := by
  refine h.sorted.imp ?_
  rintro a b hlt rfl
  exact lt_irrefl _ hlt

/-- There is one entry for each key of the map. -/
theorem length_eq : es.length = items.entries.length := by
  have hperm : es.Perm (items.entries.map fun a => (a.1, a.2)) := by
    refine (List.perm_ext_iff_of_nodup h.nodup ?_).2 fun a => ?_
    · refine (List.Nodup.of_map Sigma.fst items.nodupKeys).map ?_
      rintro ⟨k, e⟩ ⟨k', e'⟩ heq
      obtain ⟨rfl, rfl⟩ := Prod.mk.inj heq
      rfl
    · rw [h.mem a.1 a.2, List.mem_map]
      constructor
      · exact fun ha => ⟨⟨a.1, a.2⟩, mem_entries.2 ha, rfl⟩
      · rintro ⟨b, hb, rfl⟩
        exact mem_entries.1 hb
  rw [hperm.length_eq, List.length_map]

/-- Some entries are removed. -/
theorem filter {p : Str × CacheEntry → Bool}
    (hitems : ∀ k e, items'.lookup k = some e ↔ items.lookup k = some e ∧ p (k, e) = true) :
    Ordered items' n (es.filter p) := by
  refine ⟨fun k e => ?_, h.sorted.sublist List.filter_sublist, fun a ha => ?_⟩
  · rw [List.mem_filter, hitems, h.mem]
  · exact h.below a (List.mem_filter.1 ha).1

/-- A deletion keeps the order. -/
theorem erase (key : Str) :
    Ordered (items.erase key) n (es.filter fun a => a.1 ≠ key) := by
  refine h.filter fun k e => ?_
  rw [Table.lookup_erase]
  split_ifs with hk
  · simp [hk]
  · simp [hk]

/-- A key that the map does not have is set, with the next index. -/
theorem insert (hkey : items.lookup key = none) (resp : CachedResponse)
    (expiry : Time) :
    Ordered (items.insert key ⟨resp, expiry, n⟩) (n + 1) (es ++ [(key, ⟨resp, expiry, n⟩)]) := by
  refine ⟨fun k e => ?_, ?_, fun a ha => ?_⟩
  · rw [Table.lookup_insert, List.mem_append, List.mem_singleton, h.mem]
    split_ifs with hk
    · subst hk
      simp [hkey, eq_comm]
    · simp [hk]
  · rw [List.pairwise_append]
    refine ⟨h.sorted, List.pairwise_singleton _ _, fun a ha b hb => ?_⟩
    rw [List.mem_singleton.1 hb]
    exact h.below a ha
  · rcases List.mem_append.1 ha with ha | ha
    · exact (h.below a ha).trans (Nat.lt_succ_self n)
    · rw [List.mem_singleton.1 ha]
      exact Nat.lt_succ_self n

end

/-- `evictOldest` removes the first entry, unless its key is empty. -/
theorem evictOldest_eq (h : Ordered items n ((k, e) :: es)) (hk : k ≠ []) :
    ResponseCache.evictOldest items = items.erase k := by
  unfold ResponseCache.evictOldest
  rw [oldest_eq h (List.Perm.refl _)]
  exact if_pos hk

/-- The eviction takes the first entry. -/
theorem evictOldest (h : Ordered items n es) (hnamed : ∀ a ∈ es, a.1 ≠ []) :
    Ordered (ResponseCache.evictOldest items) n es.tail := by
  cases es with
  | nil =>
    have hsame : ResponseCache.evictOldest items = items := by
      unfold ResponseCache.evictOldest
      rw [entries_eq_nil h]
      rfl
    rw [hsame]
    exact h
  | cons a es =>
    have htail : (a :: es).filter (fun b => b.1 ≠ a.1) = es := by
      rw [List.filter_cons_of_neg (by simp)]
      refine List.filter_eq_self.2 fun b hb => decide_eq_true fun hkey => ?_
      have hsame : a = b := h.key_unique (.head _) (.tail _ hb) hkey.symm
      exact (List.nodup_cons.1 h.nodup).1 (hsame ▸ hb)
    rw [h.evictOldest_eq (hnamed a (.head _)), List.tail_cons, ← htail]
    exact h.erase a.1

/-- The keys of the order are those of the map. -/
theorem mem_keys_iff (h : Ordered items n es) : key ∈ es.map Prod.fst ↔ key ∈ items := by
  constructor
  · intro hkey
    obtain ⟨a, ha, rfl⟩ := List.mem_map.1 hkey
    exact mem_iff_lookup.2 ⟨a.2, (h.mem a.1 a.2).1 ha⟩
  · intro hkey
    obtain ⟨e, he⟩ := mem_iff_lookup.1 hkey
    exact List.mem_map.2 ⟨(key, e), (h.mem key e).2 he, rfl⟩

/-- `Set` puts the key at the end. If the key is new and the cache is full, the first entry is
removed. -/
theorem set (h : Ordered c.items c.nextIdx es) (hnamed : ∀ a ∈ es, a.1 ≠ []) (key : Str)
    (resp : CachedResponse) (now : Time) :
    Ordered (c.set key resp now).items (c.set key resp now).nextIdx
      (room c.maxEntries.toNat key es ++ [(key, ⟨resp, now + c.ttl, c.nextIdx⟩)]) := by
  have hfull : c.maxEntries ≤ c.items.entries.length ↔ c.maxEntries.toNat ≤ es.length := by
    rw [h.length_eq]
    omega
  unfold ResponseCache.set room
  dsimp only
  by_cases hkey : key ∈ c.items
  · -- The key is removed from its place first.
    rw [if_pos hkey, if_pos (h.mem_keys_iff.2 hkey)]
    have herase := (h.erase key).insert (by rw [Table.lookup_erase, if_pos rfl]) resp (now + c.ttl)
    refine herase.congr fun k => ?_
    rw [Table.lookup_insert, Table.lookup_insert, Table.lookup_erase]
    split_ifs
    · rfl
    · rfl
  · have hnone : c.items.lookup key = none := AList.lookup_eq_none.2 hkey
    rw [if_neg hkey, if_neg (mt h.mem_keys_iff.1 hkey)]
    by_cases hlen : c.maxEntries ≤ c.items.entries.length
    · rw [if_pos hlen, if_pos (hfull.1 hlen)]
      have hevicted := h.evictOldest hnamed
      refine hevicted.insert ?_ resp (now + c.ttl)
      refine Option.eq_none_iff_forall_ne_some.2 fun e he => ?_
      have hmem := List.mem_of_mem_tail ((hevicted.mem key e).2 he)
      rw [(h.mem key e).1 hmem] at hnone
      cases hnone
    · rw [if_neg hlen, if_neg (mt hfull.2 hlen)]
      exact h.insert hnone resp (now + c.ttl)

end Ordered

/-- `Set` of a key that is there, or with space left. -/
theorem lookup_set_kept (hroom : key ∈ c.items ∨ ¬ c.maxEntries ≤ c.items.entries.length) :
    (c.set key resp now).items.lookup k =
      if k = key then some ⟨resp, now + c.ttl, c.nextIdx⟩ else c.items.lookup k := by
  unfold set
  dsimp only
  rw [Table.lookup_insert]
  rcases hroom with hkey | hfull
  · rw [if_pos hkey]
  · rw [if_neg hfull, ite_self]

/-- `Set` of a new key in a full cache removes the first entry and no other. -/
theorem lookup_set_evicted {k0 : Str} {e0 : CacheEntry} (h : Ordered c.items n ((k0, e0) :: es))
    (hnamed : k0 ≠ []) (hkey : key ∉ c.items) (hfull : c.maxEntries ≤ c.items.entries.length) :
    (c.set key resp now).items.lookup k =
      if k = key then some ⟨resp, now + c.ttl, c.nextIdx⟩
      else if k = k0 then none else c.items.lookup k := by
  unfold set
  dsimp only
  rw [Table.lookup_insert, if_neg hkey, if_pos hfull, h.evictOldest_eq hnamed, Table.lookup_erase]

/-- The second section of `Get` only touches the map. -/
theorem removeExpired_eq (c : ResponseCache) (key : Str) (now : Time) :
    c.removeExpired key now = { c with items := (c.removeExpired key now).items } := by
  unfold removeExpired
  split
  · split_ifs
    · rfl
    · rfl
  · rfl

/-- The second section of `Get` removes the entry of its key if it has expired. -/
theorem lookup_removeExpired_iff : (c.removeExpired key now).items.lookup k = some e ↔
    c.items.lookup k = some e ∧ ¬ (k = key ∧ after now e.expiry = true) := by
  unfold removeExpired
  split
  case h_1 e' he' =>
    split_ifs with hexpired
    · show (c.items.erase key).lookup k = some e ↔ _
      rw [Table.lookup_erase]
      split_ifs with hk
      · subst hk
        rw [he', Option.some_inj]
        constructor
        · exact nofun
        · rintro ⟨rfl, h⟩
          exact absurd ⟨rfl, hexpired⟩ h
      · simp [hk]
    · constructor
      · intro h
        refine ⟨h, ?_⟩
        rintro ⟨rfl, hafter⟩
        rw [he', Option.some_inj] at h
        exact hexpired (h ▸ hafter)
      · exact fun h => h.1
  case h_2 hnone =>
    constructor
    · intro h
      refine ⟨h, ?_⟩
      rintro ⟨rfl, -⟩
      rw [hnone] at h
      cases h
    · exact fun h => h.1

/-! ### The cache as a bounded map that forgets the oldest key -/

/-- A response with the time until which it may be used. -/
def stored (e : CacheEntry) : CachedResponse × Time := (e.resp, e.expiry)

/-- The entries of the cache in the order of their indices are those of the map. -/
def Refines {cap : ℕ} (c : ResponseCache) (q : Fifo Str (CachedResponse × Time) cap) : Prop :=
  ∃ es, Ordered c.items c.nextIdx es ∧ q.entries = es.map (Prod.map id stored)

namespace Refines

variable {cap : ℕ} {q : Fifo Str (CachedResponse × Time) cap}

/-- A cache that refines a bounded map is bounded. -/
theorem length_le (h : Refines c q) : c.items.entries.length ≤ cap := by
  obtain ⟨es, hes, hq⟩ := h
  have hlen : q.entries.length = c.items.entries.length := by
    rw [hq, List.length_map, hes.length_eq]
  rw [← hlen]
  exact q.bounded

/-- `Set` refines that of the queue. -/
theorem set (h : Refines c q) (hnamed : ∀ k ∈ c.items, k ≠ []) (hcap : c.maxEntries.toNat = cap)
    (key : Str) (resp : CachedResponse) (now : Time) :
    Refines (c.set key resp now) (q.set key (resp, now + c.ttl)) := by
  obtain ⟨es, hes, hq⟩ := h
  have hset :=
    hes.set (fun a ha => hnamed a.1 (hes.mem_keys_iff.1 (List.mem_map_of_mem ha))) key resp now
  refine ⟨_, hset, ?_⟩
  show room cap key q.entries ++ _ = _
  rw [hq, ← map_room, hcap, List.map_append]
  rfl

/-- Some entries are removed, for reasons that the index has no part in. -/
theorem filter (h : Refines c q) {c' : ResponseCache} (hnext : c'.nextIdx = c.nextIdx)
    {p : Str × (CachedResponse × Time) → Bool}
    (hitems : ∀ k e, c'.items.lookup k = some e ↔ c.items.lookup k = some e ∧
      p (k, stored e) = true) :
    Refines c' (q.filter p) := by
  obtain ⟨es, hes, hq⟩ := h
  refine ⟨es.filter fun a => p (Prod.map id stored a), ?_, ?_⟩
  · rw [hnext]
    exact hes.filter hitems
  · show q.entries.filter p = _
    rw [hq, List.filter_map]
    rfl

/-- The removal refines a filter of the queue. -/
theorem removeExpired (h : Refines c q) (key : Str) (now : Time) :
    Refines (c.removeExpired key now) (q.filter fun a => !(a.1 = key && after now a.2.2)) := by
  refine h.filter (by rw [removeExpired_eq]) fun k e => ?_
  rw [lookup_removeExpired_iff]
  simp [stored, imp_iff_not_or]

/-- The invalidation refines a filter of the queue. -/
theorem invalidatePrefix (h : Refines c q) (path : Str) :
    Refines (c.invalidatePrefix path) (q.filter fun a => !contains a.1 path) := by
  refine h.filter (show (c.invalidatePrefix path).nextIdx = c.nextIdx from rfl) fun k e => ?_
  rw [lookup_invalidatePrefix]
  simp

end Refines

end ResponseCache

end VirePortal.Server
