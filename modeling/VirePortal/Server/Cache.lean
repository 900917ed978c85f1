import VirePortal.Auth.Records

/-!
# The response cache

The methods of `cache.go` as functions on the contents of the cache. `Get` locks twice, the second
time to remove an expired entry, so it is a program over two of these functions (`Server.Proxy`).
The index of an insertion is an `int64` that only counts up by one, so a natural number stands for
it.
-/

namespace VirePortal.Server

open Go Auth

/-- `CachedResponse`. -/
structure CachedResponse where
  statusCode : ℕ
  headers : Header
  body : Str
  deriving DecidableEq

/-- `entry`. -/
structure CacheEntry where
  resp : CachedResponse
  expiry : Time
  insertIdx : ℕ
  deriving DecidableEq

/-- `ResponseCache`. -/
structure ResponseCache where
  items : Table CacheEntry := ∅
  ttl : Time
  maxEntries : ℤ
  /-- An `int64` of the source, which a natural number stands for: it would take 2⁶³ calls of `Set`
  to overflow. -/
  nextIdx : ℕ := 0

/-- `MakeKey`. -/
def makeKey (userID method path : Str) : Str := userID ++ 58 :: method ++ 58 :: path

namespace ResponseCache

/-- The section of `Get` that removes an expired entry, at the time `now`. -/
def removeExpired (c : ResponseCache) (key : Str) (now : Time) : ResponseCache :=
  match c.items.lookup key with
  | some e => if after now e.expiry then { c with items := c.items.erase key } else c
  | none => c

/-- The loop of `evictOldest`: the key with the lowest index so far, with its index, `none` before
the first entry. -/
def oldest : List (Sigma fun _ : Str => CacheEntry) → Option (Str × ℕ) → Option (Str × ℕ)
  | [], best => best
  | ⟨key, e⟩ :: rest, none => oldest rest (some (key, e.insertIdx))
  | ⟨key, e⟩ :: rest, some (k, i) =>
    oldest rest (if e.insertIdx < i then some (key, e.insertIdx) else some (k, i))

/-- `evictOldest`. An empty key is not removed. -/
def evictOldest (items : Table CacheEntry) : Table CacheEntry :=
  match oldest items.entries none with
  | some (key, _) => if key ≠ [] then items.erase key else items
  | none => items

/-- `Set`, at the time `now`. -/
def set (c : ResponseCache) (key : Str) (resp : CachedResponse) (now : Time) : ResponseCache :=
  let e : CacheEntry := ⟨resp, now + c.ttl, c.nextIdx⟩
  let items :=
    if key ∈ c.items then c.items
    else if c.maxEntries ≤ c.items.entries.length then evictOldest c.items
    else c.items
  { c with items := items.insert key e, nextIdx := c.nextIdx + 1 }

/-- `InvalidatePrefix`: the entries whose key contains the path are removed. -/
def invalidatePrefix (c : ResponseCache) (path : Str) : ResponseCache :=
  { c with items := ⟨c.items.entries.filter fun e => !contains e.1 path,
      c.items.nodupKeys.sublist List.filter_sublist⟩ }

/-! ### What the cache holds afterwards -/

variable {c : ResponseCache} {key k : Str} {resp : CachedResponse} {now : Time} {e : CacheEntry}

/-- Removing adds nothing. -/
theorem lookup_removeExpired (h : (c.removeExpired key now).items.lookup k = some e) :
    c.items.lookup k = some e := by
  unfold removeExpired at h
  split at h
  · split_ifs at h
    · exact Table.of_lookup_erase h
    · exact h
  · exact h

/-- Evicting adds nothing. -/
theorem lookup_evictOldest {items : Table CacheEntry} (h : (evictOldest items).lookup k = some e) :
    items.lookup k = some e := by
  unfold evictOldest at h
  split at h
  · split_ifs at h
    · exact Table.of_lookup_erase h
    · exact h
  · exact h

/-- After `Set` the key has the new entry, and the entries of the others were there before. -/
theorem lookup_set (h : (c.set key resp now).items.lookup k = some e) :
    (k = key ∧ e = ⟨resp, now + c.ttl, c.nextIdx⟩) ∨ (k ≠ key ∧ c.items.lookup k = some e) := by
  unfold set at h
  dsimp only at h
  rw [Table.lookup_insert] at h
  split_ifs at h with hk
  · exact .inl ⟨hk, (Option.some.inj h).symm⟩
  · exact .inr ⟨hk, h⟩
  · exact .inr ⟨hk, lookup_evictOldest h⟩
  · exact .inr ⟨hk, h⟩

/-- What is set is there. -/
theorem lookup_set_self :
    (c.set key resp now).items.lookup key = some ⟨resp, now + c.ttl, c.nextIdx⟩ := by
  unfold set
  dsimp only
  rw [Table.lookup_insert, if_pos rfl]

/-- `InvalidatePrefix` leaves the entries whose key does not contain the path. -/
theorem lookup_invalidatePrefix {path : Str} :
    (c.invalidatePrefix path).items.lookup k = some e ↔
      c.items.lookup k = some e ∧ contains k path = false := by
  rw [← Option.mem_def, AList.mem_lookup_iff, ← Option.mem_def, AList.mem_lookup_iff]
  simp [invalidatePrefix]

end ResponseCache

end VirePortal.Server
