import VirePortal.Concurrent.Doings
import VirePortal.Server.CacheOrder
import VirePortal.Server.Proxy

/-!
# The response cache is a bounded map with expiry

Any number of calls of `Get`, `Set` and `InvalidatePrefix` run at once, over the sections that the
lock makes atomic: `Get` has one to read and, when the entry has expired by the time of its check,
another one to remove it. The order in which `evictOldest` iterates is chosen anew at each `Set`.

`contents` is what the events of the log make of an abstract bounded map, and in every run the cache
refines it. What a user of the cache relies on is said in terms of the log: which `Set` of a key was
the last (`LastSet`), whether its value has been evicted or invalidated since (`Dropped`), and which
of two keys was set earlier (`Before`).
-/

namespace VirePortal.Server.CacheFifo

open Go Auth Concurrent Collections ResponseCache

/-- The calls. -/
inductive CacheCall where
  | get (key : Str)
  | set (key : Str) (resp : CachedResponse)
  | invalidatePrefix (path : Str)

/-- What a section does. -/
def cacheExec : (o : ProxyOp) → IterationOrder → ProxyState → ProxyReply o × ProxyState
  | .cacheSet key resp, order, s => ((), { s with cache := s.cache.setIn order key resp s.now })
  | o, _, s => proxyExec o .unavailable s

/-- The program of a call. -/
def cacheProgram : CacheCall → P (Option CachedResponse)
  | .get key => cacheGet key
  | .set key resp => do
    step (.cacheSet key resp)
    return none
  | .invalidatePrefix path => do
    step (.cacheInvalidate path)
    return none

/-- The calls on one cache, with a clock that goes forward. -/
def cacheSystem :
    System ProxyOp ProxyReply ProxyState IterationOrder ℕ CacheCall (Option CachedResponse) :=
  ⟨cacheExec, cacheProgram, fun d s => { s with now := s.now + d }, id⟩

/-- Keys that are set are not empty, and the process does not end. -/
def named :
    Assumption ProxyOp ProxyReply ProxyState IterationOrder ℕ CacheCall
      (Option CachedResponse) where
  call q _ _ := ∀ key resp, q = .set key resp → key ≠ []
  crash _ _ := False

/-- An event with the state that it found. -/
abbrev CacheEvent := Entry ProxyOp ProxyReply ProxyState ℕ CacheCall (Option CachedResponse)

/-- What happened, the last event first. -/
abbrev CacheLog := Log ProxyOp ProxyReply ProxyState ℕ CacheCall (Option CachedResponse)

/-! ### What the log says -/

/-- The event is a `Set` of the key. -/
def SetsKey (key : Str) (e : CacheEvent) : Prop := ∃ w resp, e.event = .op w (.cacheSet key resp) ()

/-- The event is a `Set` of the key with this value, which may be used until `expiry`. -/
def SetsTo (ttl : Time) (key : Str) (v : CachedResponse × Time) (e : CacheEvent) : Prop :=
  (∃ w, e.event = .op w (.cacheSet key v.1) ()) ∧ v.2 = e.pre.now + ttl

/-- The last `Set` of the key had the value `v`. -/
def LastSet (ttl : Time) (key : Str) (v : CachedResponse × Time) (L : CacheLog) : Prop :=
  Latest (SetsTo ttl key v) (SetsKey key) L

/-- The last `Set` of `k` came before the last `Set` of `k'`. -/
def Before (k k' : Str) (L : CacheLog) : Prop :=
  Has (SetsKey k) L ∧ Has (SetsKey k') L ∧ NoneSince (SetsKey k') (SetsKey k) L

/-- Of the keys in the cache it is the one whose last `Set` is oldest. -/
def Oldest (key : Str) (s : ProxyState) (L : CacheLog) : Prop :=
  key ∈ s.cache.items ∧ ∀ k ∈ s.cache.items, k ≠ key → Before key k L

/-- The key is new and the cache is full. -/
def NeedsRoom (key : Str) (s : ProxyState) : Prop :=
  key ∉ s.cache.items ∧ s.cache.maxEntries ≤ s.cache.items.entries.length

/-- The event is a `Set` that needs room when the key is the oldest. -/
def Evicts (key : Str) (e : CacheEvent) (L : CacheLog) : Prop :=
  ∃ w k resp, e.event = .op w (.cacheSet k resp) () ∧ NeedsRoom k e.pre ∧ Oldest key e.pre L

/-- The event invalidates the key. -/
def Invalidates (key : Str) (e : CacheEvent) : Prop :=
  ∃ w path, e.event = .op w (.cacheInvalidate path) () ∧ contains key path = true

/-- Since the last `Set` of the key its value was evicted or invalidated. -/
def Dropped (key : Str) : CacheLog → Prop
  | [] => False
  | e :: L => ¬ SetsKey key e ∧ (Invalidates key e ∨ Evicts key e L ∨ Dropped key L)

/-- The time of the check that a `Get` makes of what it read. If it read nothing it makes none, and
the time of the read stands for it. -/
def Checked (w : Caller CacheCall) (s : ProxyState) (r : Option CacheEntry) (t : Time)
    (later : CacheLog) :
    Prop :=
  (r = none ∧ t = s.now) ∨ Has (fun e => e.event = .op w .now t) later

/-- What `Get` returns: the value of the last `Set` of the key before the read section, exactly when
it has not expired at the time of the check and was not evicted or invalidated before the read
section. -/
def GetSpec (ttl : Time) (w : Caller CacheCall) (key : Str) (a : Option CachedResponse)
    (L : CacheLog) : Prop :=
  ∃ later s r back t, L = later ++ ⟨s, .op w (.cacheLookup key) r⟩ :: back ∧ Checked w s r t later ∧
    ∀ resp, a = some resp ↔
      ∃ expiry, LastSet ttl key (resp, expiry) back ∧ after t expiry = false ∧ ¬ Dropped key back

/-- The abstract map after an event. -/
def applyEvent {cap : ℕ} (ttl : Time) (e : CacheEvent) (q : Fifo Str (CachedResponse × Time) cap) :
    Fifo Str (CachedResponse × Time) cap :=
  match e.event with
  | .op _ (.cacheSet key resp) _ => q.set key (resp, e.pre.now + ttl)
  | .op _ (.cacheInvalidate path) _ => q.filter fun a => !contains a.1 path
  | .op _ (.cacheExpire key) _ => q.filter fun a => !(a.1 = key && after e.pre.now a.2.2)
  | _ => q

/-- The abstract map that the events of the log have made. -/
def contents {cap : ℕ} (hcap : 0 < cap) (ttl : Time) :
    CacheLog → Fifo Str (CachedResponse × Time) cap
  | [] => .empty hcap
  | e :: L => applyEvent ttl e (contents hcap ttl L)

/-! ### Lemmas about the log -/

variable {cap : ℕ} {hcap : 0 < cap} {ttl : Time} {s s' : ProxyState} {L L' : CacheLog}
  {e : CacheEvent}
variable {key k k' : Str} {v v' : CachedResponse × Time} {w : Caller CacheCall}
  {resp : CachedResponse}

/-- The entry sets the key. -/
theorem SetsTo.setsKey (h : SetsTo ttl key v e) : SetsKey key e := by
  obtain ⟨⟨w, hev⟩, -⟩ := h
  exact ⟨w, v.1, hev⟩

/-- A `Set` is of one key. -/
theorem SetsKey.unique (h : SetsKey k e) (h' : SetsKey k' e) : k = k' := by
  obtain ⟨w, resp, hev⟩ := h
  obtain ⟨w', resp', hev'⟩ := h'
  obtain ⟨-, hop, -⟩ := Event.op.inj (hev.symm.trans hev')
  exact (ProxyOp.cacheSet.inj hop).1

/-- One value was set last. -/
theorem LastSet.unique (h : LastSet ttl key v L) (h' : LastSet ttl key v' L) : v = v' := by
  refine Latest.unique (P := SetsTo ttl key) (fun _ _ => SetsTo.setsKey) (fun e he he' => ?_) h h'
  obtain ⟨⟨w, hev⟩, hexpiry⟩ := he
  obtain ⟨⟨w', hev'⟩, hexpiry'⟩ := he'
  obtain ⟨-, hop, -⟩ := Event.op.inj (hev.symm.trans hev')
  exact Prod.ext (ProxyOp.cacheSet.inj hop).2 (hexpiry.trans hexpiry'.symm)

/-- Another entry sets nothing. -/
theorem lastSet_cons (h : ¬ SetsKey key e) : LastSet ttl key v (e :: L) ↔ LastSet ttl key v L := by
  constructor
  · rintro (hsets | ⟨-, hlast⟩)
    · exact absurd hsets.setsKey h
    · exact hlast
  · exact fun hlast => .inr ⟨h, hlast⟩

/-- Another entry drops by invalidation or eviction. -/
theorem dropped_cons (h : ¬ SetsKey key e) :
    Dropped key (e :: L) ↔ Invalidates key e ∨ Evicts key e L ∨ Dropped key L :=
  and_iff_right h

/-- Only `Set` evicts. -/
theorem Evicts.setsKey (h : Evicts key e L) : ∃ k, SetsKey k e := by
  obtain ⟨w, k, resp, hev, -⟩ := h
  exact ⟨k, w, resp, hev⟩

/-- Of two keys one was set last. -/
theorem Before.asymm (h : Before k k' L) (h' : Before k' k L) : k = k' := by
  obtain ⟨hk, -, hnone⟩ := h
  obtain ⟨-, -, hnone'⟩ := h'
  induction L with
  | nil => exact absurd hk (has_nil _)
  | cons e L ih =>
    rcases hnone with he' | ⟨hbad, hnone⟩
    · rcases hnone' with he | ⟨hbad', -⟩
      · exact he.unique he'
      · exact absurd he' hbad'
    · rcases hnone' with he | ⟨-, hnone'⟩
      · exact absurd he hbad
      · exact ih ((has_cons.1 hk).resolve_left hbad) hnone hnone'

/-- An event that does not set the earlier one of the two. -/
theorem Before.cons (hL : Before k k' L) (h : ¬ SetsKey k e) : Before k k' (e :: L) :=
  ⟨has_cons.2 (.inr hL.1), has_cons.2 (.inr hL.2.1), .inr ⟨h, hL.2.2⟩⟩

/-- The event is one that the abstract map does not notice. -/
structure Quiet (e : CacheEvent) : Prop where
  noSet : ∀ w key resp r, e.event ≠ .op w (.cacheSet key resp) r
  noInvalidate : ∀ w path r, e.event ≠ .op w (.cacheInvalidate path) r
  noExpire : ∀ w key r, e.event ≠ .op w (.cacheExpire key) r

/-- A quiet event changes nothing. -/
theorem Quiet.applyEvent (h : Quiet e) (q : Fifo Str (CachedResponse × Time) cap) :
    applyEvent ttl e q = q := by
  unfold CacheFifo.applyEvent
  split
  case h_1 w key resp r hev => exact absurd hev (h.noSet w key resp r)
  case h_2 w path r hev => exact absurd hev (h.noInvalidate w path r)
  case h_3 w key r hev => exact absurd hev (h.noExpire w key r)
  case h_4 => rfl

/-- A quiet event sets nothing. -/
theorem Quiet.not_setsKey (h : Quiet e) : ¬ SetsKey key e := by
  rintro ⟨w, resp, hev⟩
  exact h.noSet _ _ _ _ hev

/-- An event sets a key, or it only removes entries. -/
theorem applyEvent_cases (ttl : Time) (e : CacheEvent) (q : Fifo Str (CachedResponse × Time) cap) :
    (∃ key v, SetsTo ttl key v e ∧ applyEvent ttl e q = q.set key v) ∨
      ((applyEvent ttl e q).entries.Sublist q.entries ∧ ∀ k, ¬ SetsKey k e) := by
  have hnot : ∀ {o : ProxyOp} {r : ProxyReply o} {w : Caller CacheCall}, e.event = .op w o r →
      (∀ key resp, o ≠ .cacheSet key resp) → ∀ k, ¬ SetsKey k e := by
    rintro o r w hev ho k ⟨w', resp, hev'⟩
    obtain ⟨-, hop, -⟩ := Event.op.inj (hev.symm.trans hev')
    exact ho _ _ hop
  unfold CacheFifo.applyEvent
  split
  case h_1 w key resp r hev => exact .inl ⟨key, (resp, e.pre.now + ttl), ⟨⟨w, hev⟩, rfl⟩, rfl⟩
  case h_2 w path r hev => exact .inr ⟨List.filter_sublist, hnot hev (by simp)⟩
  case h_3 w key r hev => exact .inr ⟨List.filter_sublist, hnot hev (by simp)⟩
  case h_4 hset hinvalidate hexpire =>
    refine .inr ⟨List.Sublist.refl _, ?_⟩
    rintro k ⟨w, resp, hev⟩
    exact hset _ _ _ _ hev

/-- The abstract map has its keys in the order of their last `Set`. -/
theorem contents_sorted (hcap : 0 < cap) (ttl : Time) (L : CacheLog) :
    (∀ a ∈ (contents hcap ttl L).entries, Has (SetsKey a.1) L) ∧
      (contents hcap ttl L).entries.Pairwise fun a b => Before a.1 b.1 L := by
  induction L with
  | nil => exact ⟨nofun, List.Pairwise.nil⟩
  | cons e L ih =>
    obtain ⟨hhas, hsorted⟩ := ih
    have hold : ∀ {l : List (Str × (CachedResponse × Time))},
        l.Sublist (contents hcap ttl L).entries → (∀ a ∈ l, ¬ SetsKey a.1 e) →
        (∀ a ∈ l, Has (SetsKey a.1) (e :: L)) ∧ l.Pairwise fun a b => Before a.1 b.1 (e :: L) := by
      intro l hsub hnot
      refine ⟨fun a ha => has_cons.2 (.inr (hhas a (hsub.subset ha))), ?_⟩
      refine (hsorted.sublist hsub).imp_of_mem fun ha _ hbefore => ?_
      exact hbefore.cons (hnot _ ha)
    rcases applyEvent_cases ttl e (contents hcap ttl L) with ⟨key, v, hsets, hset⟩ | ⟨hsub, hnot⟩
    · -- The entries that stay are of other keys, and the one of this event comes after them.
      have hother : ∀ a ∈ room cap key (contents hcap ttl L).entries, ¬ SetsKey a.1 e :=
        fun a ha h => fst_ne_of_mem_room ha (h.unique hsets.setsKey)
      obtain ⟨hhas', hsorted'⟩ := hold room_sublist hother
      rw [contents, hset]
      refine ⟨fun a ha => ?_, List.pairwise_append.2 ⟨hsorted', List.pairwise_singleton _ _, ?_⟩⟩
      · rcases List.mem_append.1 ha with ha | ha
        · exact hhas' a ha
        · rw [List.mem_singleton.1 ha]
          exact has_cons.2 (.inl hsets.setsKey)
      · intro a ha b hb
        rw [List.mem_singleton.1 hb]
        exact ⟨hhas' a ha, has_cons.2 (.inl hsets.setsKey), .inl hsets.setsKey⟩
    · exact hold hsub fun a _ => hnot a.1

/-! ### The invariant -/

/-- What the log says of a key: a value that is in the cache is the one of the last `Set` and was
not dropped, and a value that was not dropped is in the cache or has expired. -/
structure Holds (ttl : Time) (key : Str) (s : ProxyState) (L : CacheLog) : Prop where
  found : ∀ e, s.cache.items.lookup key = some e → LastSet ttl key (stored e) L ∧ ¬ Dropped key L
  kept : ∀ v, LastSet ttl key v L → ¬ Dropped key L →
    (∃ e, s.cache.items.lookup key = some e ∧ stored e = v) ∨ after s.now v.2 = true

/-- The invariant. -/
structure Inv (hcap : 0 < cap) (ttl : Time) (s : ProxyState) (L : CacheLog) : Prop where
  settings : s.cache.ttl = ttl ∧ s.cache.maxEntries = cap
  named : ∀ k ∈ s.cache.items, k ≠ []
  refines : Refines s.cache (contents hcap ttl L)
  clock : ∀ e ∈ L, e.pre.now ≤ s.now
  holds : ∀ key, Holds ttl key s L
  gets : Each (fun e earlier => ∀ w key a, w.call = .get key → e.event = .done w a →
    GetSpec ttl w key a earlier) L

/-- Neither the value of the key nor its history changes. -/
theorem Holds.same (h : Holds ttl key s L)
    (hlookup : s'.cache.items.lookup key = s.cache.items.lookup key) (hnow : s.now ≤ s'.now)
    (hset : ¬ SetsKey key e) (hinvalidates : ¬ Invalidates key e) (hevicts : ¬ Evicts key e L) :
    Holds ttl key s' (e :: L) := by
  have hdropped : Dropped key (e :: L) ↔ Dropped key L := by
    rw [dropped_cons hset]
    simp [hinvalidates, hevicts]
  refine ⟨fun ce hce => ?_, fun v hlast hkept => ?_⟩
  · rw [lastSet_cons hset, hdropped]
    rw [hlookup] at hce
    exact h.found ce hce
  · rw [lastSet_cons hset] at hlast
    rw [hdropped] at hkept
    rw [hlookup]
    rcases h.kept v hlast hkept with hthere | hexpired
    · exact .inl hthere
    · exact .inr (after_mono hnow hexpired)

/-- The value of the key is removed, for a reason that the log knows or because it has expired. -/
theorem Holds.removed (h : Holds ttl key s L) (hlookup : s'.cache.items.lookup key = none)
    (hnow : s.now ≤ s'.now) (hset : ¬ SetsKey key e)
    (hreason : Invalidates key e ∨ Evicts key e L ∨
      ∀ ce, s.cache.items.lookup key = some ce → after s.now ce.expiry = true) :
    Holds ttl key s' (e :: L) := by
  refine ⟨fun ce hce => ?_, fun v hlast hkept => ?_⟩
  · rw [hlookup] at hce
    cases hce
  · rw [lastSet_cons hset] at hlast
    rw [dropped_cons hset, not_or, not_or] at hkept
    obtain ⟨hinvalidates, hevicts, hkept⟩ := hkept
    have hexpired := (hreason.resolve_left hinvalidates).resolve_left hevicts
    rcases h.kept v hlast hkept with ⟨ce, hce, rfl⟩ | hafter
    · exact .inr (after_mono hnow (hexpired ce hce))
    · exact .inr (after_mono hnow hafter)

variable {ce : CacheEntry} {back later : CacheLog}
variable {c : Config ProxyOp ProxyReply ProxyState ℕ CacheCall (Option CachedResponse)}

/-- The key is set. -/
theorem holds_of_setsTo (hlookup : s'.cache.items.lookup key = some ce)
    (hsets : SetsTo ttl key (stored ce) e) : Holds ttl key s' (e :: L) := by
  have hlast : LastSet ttl key (stored ce) (e :: L) := .inl hsets
  refine ⟨fun ce' hce' => ?_, fun v hv _ => .inl ⟨ce, hlookup, hlast.unique hv⟩⟩
  rw [← Option.some.inj (hlookup.symm.trans hce')]
  exact ⟨hlast, fun hdropped => hdropped.1 hsets.setsKey⟩

/-- A cache that needs room has an oldest key, the first one of the order. -/
theorem Inv.oldest (h : Inv hcap ttl s L) (hroom : NeedsRoom key s) :
    ∃ k0 e0 es, Ordered s.cache.items s.cache.nextIdx ((k0, e0) :: es) ∧ Oldest k0 s L := by
  obtain ⟨es, hes, hq⟩ := h.refines
  cases es with
  | nil =>
    have hlen : s.cache.items.entries.length = 0 := hes.length_eq.symm
    have hfull := hroom.2
    rw [h.settings.2, hlen] at hfull
    omega
  | cons a es =>
    refine ⟨a.1, a.2, es, hes, ?_, fun k hk hne => ?_⟩
    · exact hes.mem_keys_iff.1 (.head _)
    · have hsorted := (contents_sorted hcap ttl L).2
      rw [hq, List.pairwise_map, List.pairwise_cons] at hsorted
      obtain ⟨b, hb, rfl⟩ := List.mem_map.1 (hes.mem_keys_iff.2 hk)
      rcases List.mem_cons.1 hb with rfl | hb
      · exact absurd rfl hne
      · exact hsorted.1 b hb

/-- One key is the oldest. -/
theorem Oldest.unique (h : Oldest k s L) (h' : Oldest k' s L) : k = k' := by
  by_contra hne
  exact hne ((h.2 k' h'.1 (Ne.symm hne)).asymm (h'.2 k h.1 hne))

/-! ### The steps -/

/-- An event that leaves the cache as it is. -/
theorem Inv.quiet (h : Inv hcap ttl e.pre L) (he : Quiet e) (hcache : s'.cache = e.pre.cache)
    (hnow : e.pre.now ≤ s'.now)
    (hget : ∀ w key a, w.call = .get key → e.event = .done w a → GetSpec ttl w key a L) :
    Inv hcap ttl s' (e :: L) := by
  refine ⟨?_, ?_, ?_, fun e' he' => ?_, fun key => ?_, ⟨hget, h.gets⟩⟩
  · rw [hcache]
    exact h.settings
  · rw [hcache]
    exact h.named
  · rw [hcache, contents, he.applyEvent]
    exact h.refines
  · rcases List.mem_cons.1 he' with rfl | he'
    · exact hnow
    · exact (h.clock e' he').trans hnow
  · refine (h.holds key).same (by rw [hcache]) hnow he.not_setsKey ?_ ?_
    · rintro ⟨w, path, hev, -⟩
      exact he.noInvalidate _ _ _ hev
    · intro hevicts
      obtain ⟨k, hsets⟩ := hevicts.setsKey
      exact he.not_setsKey hsets

/-- An operation that changes the cache. -/
theorem Inv.op (h : Inv hcap ttl s L) {o : ProxyOp} {r : ProxyReply o} {cache : ResponseCache}
    (hsettings : cache.ttl = s.cache.ttl ∧ cache.maxEntries = s.cache.maxEntries)
    (hnamed : ∀ k ∈ cache.items, k ≠ [])
    (hrefines : Refines cache (contents hcap ttl (⟨s, .op w o r⟩ :: L)))
    (hholds : ∀ key, Holds ttl key { s with cache := cache } (⟨s, .op w o r⟩ :: L)) :
    Inv hcap ttl { s with cache := cache } (⟨s, .op w o r⟩ :: L) := by
  refine ⟨?_, hnamed, hrefines, fun e' he' => ?_, hholds, ⟨?_, h.gets⟩⟩
  · exact ⟨hsettings.1.trans h.settings.1, hsettings.2.trans h.settings.2⟩
  · rcases List.mem_cons.1 he' with rfl | he'
    · exact le_rfl
    · exact h.clock e' he'
  · exact nofun

/-- A `Set` that needs room removes the oldest key and no other. -/
theorem Inv.set_evicts (h : Inv hcap ttl s L) (hroom : NeedsRoom key s) (resp : CachedResponse) :
    ∃ k0, Oldest k0 s L ∧ ∀ k, (s.cache.set key resp s.now).items.lookup k =
      if k = key then some ⟨resp, s.now + ttl, s.cache.nextIdx⟩
      else if k = k0 then none else s.cache.items.lookup k := by
  obtain ⟨k0, e0, es, hes, hk0⟩ := h.oldest hroom
  refine ⟨k0, hk0, fun k => ?_⟩
  rw [lookup_set_evicted hes (h.named k0 hk0.1) hroom.1 hroom.2, h.settings.1]

/-- `Set`. -/
theorem Inv.set (h : Inv hcap ttl s L) (hkey : key ≠ []) (resp : CachedResponse) :
    Inv hcap ttl { s with cache := s.cache.set key resp s.now }
      (⟨s, .op w (.cacheSet key resp) ()⟩ :: L) := by
  have hnew : s.cache.maxEntries.toNat = cap := by
    rw [h.settings.2]
    rfl
  refine h.op ⟨rfl, rfl⟩ (fun k hk => ?_) ?_ fun k => ?_
  · obtain ⟨e, he⟩ := mem_iff_lookup.1 hk
    rcases lookup_set he with ⟨rfl, -⟩ | ⟨-, he⟩
    · exact hkey
    · exact h.named k (mem_iff_lookup.2 ⟨e, he⟩)
  · have hset := h.refines.set h.named hnew key resp s.now
    rw [h.settings.1] at hset
    exact hset
  · have hsets : ∀ k', SetsKey k' (⟨s, .op w (.cacheSet key resp) ()⟩ : CacheEvent) → k' = key :=
      fun k' hk' => hk'.unique ⟨w, resp, rfl⟩
    by_cases hk : k = key
    · subst hk
      refine holds_of_setsTo lookup_set_self ⟨⟨w, rfl⟩, ?_⟩
      show s.now + s.cache.ttl = s.now + ttl
      rw [h.settings.1]
    · have hnotset : ¬ SetsKey k (⟨s, .op w (.cacheSet key resp) ()⟩ : CacheEvent) :=
        mt (hsets k) hk
      have hnotinv : ¬ Invalidates k (⟨s, .op w (.cacheSet key resp) ()⟩ : CacheEvent) := by
        rintro ⟨w', path, hev, -⟩
        cases hev
      by_cases hroom : NeedsRoom key s
      · -- The oldest key makes room, and the others stay.
        obtain ⟨k0, hk0, hlookup⟩ := h.set_evicts hroom resp
        by_cases heq : k = k0
        · refine (h.holds k).removed ?_ le_rfl hnotset (.inr (.inl ?_))
          · show (s.cache.set key resp s.now).items.lookup k = none
            rw [hlookup, if_neg hk, if_pos heq]
          · exact ⟨w, key, resp, rfl, hroom, heq ▸ hk0⟩
        · refine (h.holds k).same ?_ le_rfl hnotset hnotinv ?_
          · show (s.cache.set key resp s.now).items.lookup k = _
            rw [hlookup, if_neg hk, if_neg heq]
          · rintro ⟨-, -, -, -, -, holdest⟩
            exact heq (holdest.unique hk0)
      · refine (h.holds k).same ?_ le_rfl hnotset hnotinv ?_
        · show (s.cache.set key resp s.now).items.lookup k = _
          have hspace : key ∈ s.cache.items ∨ ¬ s.cache.maxEntries ≤
              s.cache.items.entries.length := by
            rw [NeedsRoom, not_and_or, not_not] at hroom
            exact hroom
          rw [lookup_set_kept hspace, if_neg hk]
        · rintro ⟨w', k', resp', hev, hroom', -⟩
          obtain ⟨-, hop, -⟩ := Event.op.inj hev
          rw [← (ProxyOp.cacheSet.inj hop).1] at hroom'
          exact hroom hroom'

/-- An operation that only removes entries, each of them invalidated or expired. -/
theorem Inv.shrinks (h : Inv hcap ttl s L) {o : ProxyOp} {r : ProxyReply o} {cache : ResponseCache}
    (hsettings : cache.ttl = s.cache.ttl ∧ cache.maxEntries = s.cache.maxEntries)
    (hset : ∀ key resp, o ≠ .cacheSet key resp)
    (hrefines : Refines cache (contents hcap ttl (⟨s, .op w o r⟩ :: L)))
    (hsub : ∀ k e, cache.items.lookup k = some e → s.cache.items.lookup k = some e)
    (hstays : ∀ k e, cache.items.lookup k = some e → ¬ Invalidates k ⟨s, .op w o r⟩)
    (hgone : ∀ k e, s.cache.items.lookup k = some e → cache.items.lookup k = none →
      Invalidates k ⟨s, .op w o r⟩ ∨ after s.now e.expiry = true) :
    Inv hcap ttl { s with cache := cache } (⟨s, .op w o r⟩ :: L) := by
  have hnotset : ∀ k, ¬ SetsKey k (⟨s, .op w o r⟩ : CacheEvent) := by
    rintro k ⟨w', resp, hev⟩
    exact hset k resp (Event.op.inj hev).2.1
  refine h.op hsettings (fun k hk => ?_) hrefines fun k => ?_
  · obtain ⟨e, he⟩ := mem_iff_lookup.1 hk
    exact h.named k (mem_iff_lookup.2 ⟨e, hsub k e he⟩)
  · cases hk : cache.items.lookup k with
    | none =>
      refine (h.holds k).removed hk le_rfl (hnotset k) ?_
      cases hold : s.cache.items.lookup k with
      | none => exact .inr (.inr nofun)
      | some e =>
        refine (hgone k e hold hk).imp_right fun hexpired => .inr fun ce hce => ?_
        cases hce
        exact hexpired
    | some e =>
      refine (h.holds k).same (hk.trans (hsub k e hk).symm) le_rfl (hnotset k) (hstays k e hk) ?_
      intro hevicts
      obtain ⟨k', hsets⟩ := hevicts.setsKey
      exact hnotset k' hsets

/-- `InvalidatePrefix`. -/
theorem Inv.invalidate (h : Inv hcap ttl s L) (path : Str) :
    Inv hcap ttl { s with cache := s.cache.invalidatePrefix path }
      (⟨s, .op w (.cacheInvalidate path) ()⟩ :: L) := by
  refine h.shrinks ⟨rfl, rfl⟩ nofun (h.refines.invalidatePrefix path)
    (fun k e he => (lookup_invalidatePrefix.1 he).1) ?_ fun k e he hnone => .inl ⟨w, path, rfl, ?_⟩
  · rintro k e he ⟨w', path', hev, hk⟩
    cases hev
    rw [(lookup_invalidatePrefix.1 he).2] at hk
    cases hk
  · by_contra hk
    rw [lookup_invalidatePrefix.2 ⟨he, Bool.eq_false_iff.2 hk⟩] at hnone
    cases hnone

/-- The second section of `Get`. -/
theorem Inv.expire (h : Inv hcap ttl s L) (key : Str) :
    Inv hcap ttl { s with cache := s.cache.removeExpired key s.now }
      (⟨s, .op w (.cacheExpire key) ()⟩ :: L) := by
  refine h.shrinks ⟨by rw [removeExpired_eq], by rw [removeExpired_eq]⟩ nofun
    (h.refines.removeExpired key s.now) (fun k e he => lookup_removeExpired he) ?_
    fun k e he hnone => .inr ?_
  · rintro k e - ⟨w', path, hev, -⟩
    cases hev
  · by_contra hlive
    rw [lookup_removeExpired_iff.2 ⟨he, fun hk => hlive hk.2⟩] at hnone
    cases hnone

/-! ### The outlines -/

/-- What `Get` knows after its read section. -/
structure Read (ttl : Time) (w : Caller CacheCall) (key : Str) (r : Option CacheEntry)
    (later : CacheLog) (s : ProxyState) (back L : CacheLog) : Prop where
  log : L = later ++ ⟨s, .op w (.cacheLookup key) r⟩ :: back
  lookup : s.cache.items.lookup key = r
  holds : Holds ttl key s back

/-- What was read stays in the log. -/
theorem GetSpec.append {a : Option CachedResponse} (h : GetSpec ttl w key a L) (new : CacheLog) :
    GetSpec ttl w key a (new ++ L) := by
  obtain ⟨later, s, r, back, t, rfl, hchecked, hspec⟩ := h
  refine ⟨new ++ later, s, r, back, t, by simp, ?_, hspec⟩
  rcases hchecked with hnone | ⟨e, he, hev⟩
  · exact .inl hnone
  · exact .inr ⟨e, List.mem_append_right new he, hev⟩

/-- There was no entry: the value of the last `Set` was dropped or has expired. -/
theorem Read.missing (h : Read ttl w key none later s back L) :
    GetSpec ttl w key none L := by
  refine ⟨later, s, none, back, s.now, h.log, .inl ⟨rfl, rfl⟩,
    fun resp => ⟨fun heq => (by cases heq), ?_⟩⟩
  rintro ⟨expiry, hlast, hlive, hkept⟩
  rcases h.holds.kept _ hlast hkept with ⟨e, he, -⟩ | hexpired
  · rw [h.lookup] at he
    cases he
  · rw [hlive] at hexpired
    cases hexpired

/-- There was an entry, and at the time of the check it has expired or not. -/
theorem Read.present {t : Time} (h : Read ttl w key (some ce) later s back L)
    (hchecked : Has (fun e => e.event = .op w .now t) later) :
    GetSpec ttl w key (if after t ce.expiry = true then none else some ce.resp) L := by
  obtain ⟨hlast, hkept⟩ := h.holds.found ce h.lookup
  refine ⟨later, s, some ce, back, t, h.log, .inr hchecked, fun resp => ?_⟩
  split_ifs with hexpired
  · refine ⟨fun heq => (by cases heq), ?_⟩
    rintro ⟨expiry, hlast', hlive, -⟩
    obtain ⟨-, rfl⟩ := Prod.mk.inj (hlast.unique hlast')
    rw [hexpired] at hlive
    cases hlive
  · constructor
    · intro heq
      rw [← Option.some.inj heq]
      exact ⟨ce.expiry, hlast, Bool.eq_false_iff.2 hexpired, hkept⟩
    · rintro ⟨expiry, hlast', -, -⟩
      rw [(Prod.mk.inj (hlast.unique hlast')).1]

/-- The other operations are quiet. -/
theorem quiet_op {o : ProxyOp} {r : ProxyReply o} (hset : ∀ key resp, o ≠ .cacheSet key resp)
    (hinvalidate : ∀ path, o ≠ .cacheInvalidate path) (hexpire : ∀ key, o ≠ .cacheExpire key) :
    Quiet (⟨s, .op w o r⟩ : CacheEvent) := by
  refine ⟨fun w' key resp r' hev => ?_, fun w' path r' hev => ?_, fun w' key r' hev => ?_⟩
  · exact hset _ _ (Event.op.inj hev).2.1
  · exact hinvalidate _ (Event.op.inj hev).2.1
  · exact hexpire _ (Event.op.inj hev).2.1

/-- The outline of the read section. -/
theorem outline_cacheLookup (key : Str) :
    Outline cacheSystem named (Inv hcap ttl) w (fun r L' => ∃ later s back,
      Read ttl w key r later s back L')
      (step (.cacheLookup key)) L := by
  intro s1 L1 order _ hI1 _
  refine ⟨hI1.quiet (quiet_op (by simp) (by simp) (by simp)) rfl le_rfl (by simp), ?_⟩
  exact ⟨[], s1, L1, rfl, rfl, hI1.holds key⟩

/-- The outline of the check. -/
theorem outline_now {r : Option CacheEntry} (h : Read ttl w key r later s back L) :
    Outline cacheSystem named (Inv hcap ttl) w
      (fun t L' => ∃ later, Read ttl w key r later s back L' ∧
        Has (fun e => e.event = .op w .now t) later)
      (step .now) L := by
  intro s1 L1 order hL1 hI1 _
  refine ⟨hI1.quiet (quiet_op (by simp) (by simp) (by simp)) rfl le_rfl (by simp), ?_⟩
  obtain ⟨new, rfl, -⟩ := hL1
  refine ⟨cacheSystem.entry w .now order s1 :: (new ++ later), ⟨?_, h.lookup, h.holds⟩,
    has_cons.2 (.inl rfl)⟩
  rw [h.log, List.cons_append, List.append_assoc]

/-- The outline of the section that removes. -/
theorem outline_cacheExpire {a : Option CachedResponse} (h : GetSpec ttl w key a L) :
    Outline cacheSystem named (Inv hcap ttl) w (fun _ L' => GetSpec ttl w key a L')
      (step (.cacheExpire key)) L := by
  intro s1 L1 order hL1 hI1 _
  refine ⟨hI1.expire key, ?_⟩
  obtain ⟨new, rfl, -⟩ := hL1
  exact h.append (_ :: new)

/-- The outline of `Get`. -/
theorem outline_cacheGet (key : Str) :
    Outline cacheSystem named (Inv hcap ttl) w (fun a L' => GetSpec ttl w key a L')
      (cacheGet key) L := by
  refine outline_bind.2 ((outline_cacheLookup key).imp ?_)
  rintro r L1 - ⟨later, s, back, hread⟩
  cases r with
  | none => exact hread.missing
  | some ce =>
    refine outline_bind.2 ((outline_now hread).imp ?_)
    rintro t L2 - ⟨later', hread', hchecked⟩
    have hspec := hread'.present hchecked
    by_cases hexpired : after t ce.expiry = true
    · simp only [if_pos hexpired] at hspec ⊢
      exact outline_bind.2 ((outline_cacheExpire hspec).imp fun _ L3 _ h => h)
    · simp only [if_neg hexpired] at hspec ⊢
      exact hspec

/-- `Set` does not depend on the iteration order. -/
theorem cacheExec_set (h : Inv hcap ttl s L) (key : Str) (resp : CachedResponse)
    (order : IterationOrder) :
    (cacheExec (.cacheSet key resp) order s).2 =
      { s with cache := s.cache.set key resp s.now } := by
  obtain ⟨es, hes, -⟩ := h.refines
  show ({ s with cache := s.cache.setIn order key resp s.now } : ProxyState) = _
  rw [setIn_eq_set hes]

/-- The outline of a call. -/
theorem outline_cacheProgram (hkey : ∀ key resp, w.call = .set key resp → key ≠ []) :
    Outline cacheSystem named (Inv hcap ttl) w
      (fun a L' => ∀ key, w.call = .get key → GetSpec ttl w key a L') (cacheProgram w.call) L := by
  cases hw : w.call with
  | get key =>
    refine (outline_cacheGet key).imp fun a L' _ hspec key' heq => ?_
    rw [← CacheCall.get.inj heq]
    exact hspec
  | set key resp =>
    intro s1 L1 order _ hI1 _
    refine ⟨?_, nofun⟩
    show Inv hcap ttl (cacheExec (.cacheSet key resp) order s1).2 _
    rw [cacheExec_set hI1]
    exact hI1.set (hkey key resp hw) resp
  | invalidatePrefix path =>
    intro s1 L1 order _ hI1 _
    exact ⟨hI1.invalidate path, nofun⟩

/-- `New`. -/
def newCache (ttl : Time) (maxEntries : ℤ) : ResponseCache :=
  { ttl := ttl, maxEntries := maxEntries }

/-- The cache is verified from the empty one. -/
theorem verified (hcap : 0 < cap) (ttl now : Time) :
    Verified cacheSystem named (Inv hcap ttl) ⟨now, newCache ttl cap⟩ where
  init := by
    refine ⟨⟨rfl, rfl⟩, fun k hk => absurd hk (AList.notMem_empty k), ⟨[], ?_, rfl⟩,
      nofun, fun key => ⟨fun e he => ?_, fun v hv => hv.elim⟩,
        trivial⟩
    · refine ⟨fun k e => ?_, List.Pairwise.nil, nofun⟩
      constructor
      · exact fun h => absurd h List.not_mem_nil
      · exact nofun
    · cases he
  call s L w h _ hcall := by
    refine ⟨h.quiet ⟨by simp, by simp, by simp⟩ rfl le_rfl (by simp), ?_⟩
    refine (outline_cacheProgram hcall).imp fun a L1 _ hspec s2 L2 hL2 hI2 _ => ?_
    refine hI2.quiet ⟨by simp, by simp, by simp⟩ rfl le_rfl fun w' key a' hget heq => ?_
    obtain ⟨rfl, rfl⟩ := Event.done.inj heq
    obtain ⟨new, rfl, -⟩ := hL2
    exact (hspec key hget).append new
  env s L d h _ := by
    refine h.quiet ⟨by simp, by simp, by simp⟩ rfl ?_ (by simp)
    exact le_add_of_nonneg_right (Int.natCast_nonneg d)
  crash s L _ hcrash := hcrash.elim

/-- The operations of `Get`. -/
theorem all_cacheGet (key : Str) :
    (cacheGet key).All fun o => o = .cacheLookup key ∨ o = .now ∨ o = .cacheExpire key := by
  refine ⟨.inl rfl, fun r => ?_⟩
  cases r with
  | none => trivial
  | some e =>
    refine ⟨.inr (.inl rfl), fun t => ?_⟩
    show Prog.All _ (if after t e.expiry = true then _ else _)
    split_ifs
    · exact ⟨.inr (.inr rfl), fun _ => trivial⟩
    · trivial

/-- A step of a running `Get` leaves every entry that has not expired. -/
theorem get_step {s0 : ProxyState} (hc : Reachable cacheSystem named s0 c) {tid : ℕ}
    {p : P (Option CachedResponse)} (hp : c.threads tid = some (.get key, p))
    (order : IterationOrder) (hce : c.state.cache.items.lookup k = some ce)
    (hlive : after c.state.now ce.expiry = false) :
    (cacheSystem.step c (.step tid order)).state.cache.items.lookup k = some ce := by
  -- A `Get` performs its two sections and reads the clock, and nothing else.
  have hall := hc.threads_all (P := fun q o => ∀ key, q = .get key →
    o = .cacheLookup key ∨ o = .now ∨ o = .cacheExpire key) ?_ hp
  · cases p with
    | ret a =>
      simp only [System.step, System.stepThread, hp]
      exact hce
    | op o f =>
      simp only [System.step, System.stepThread, hp]
      rcases hall.1 key rfl with rfl | rfl | rfl
      · exact hce
      · exact hce
      · show (c.state.cache.removeExpired key c.state.now).items.lookup k = some ce
        rw [lookup_removeExpired_iff]
        refine ⟨hce, fun h => ?_⟩
        rw [hlive] at h
        cases h.2
  · intro q
    cases q with
    | get key =>
      refine (all_cacheGet key).imp fun o ho key' heq => ?_
      rw [← CacheCall.get.inj heq]
      exact ho
    | set key resp => exact ⟨fun key' heq => (by cases heq), fun _ => trivial⟩
    | invalidatePrefix path => exact ⟨fun key' heq => (by cases heq), fun _ => trivial⟩

/-- In every run the cache refines a bounded map that forgets the oldest key. So it holds at most
`cap` entries, with distinct indices below the next one. A `Set` of a new key in a full cache
removes the key whose last `Set` is oldest and no other, whatever the order of the iteration. A
`Get` returns the value of the last `Set` of its key exactly when it had not expired at the check
and had not been evicted or invalidated before the read, and it removes no entry that has not
expired. -/
theorem cache_fifo (hcap : 0 < cap) (ttl now : Time)
    (hc : Reachable cacheSystem named ⟨now, newCache ttl cap⟩ c) :
    Refines c.state.cache (contents hcap ttl c.log) ∧
    c.state.cache.items.entries.length ≤ cap ∧
    (∀ k e, c.state.cache.items.lookup k = some e → e.insertIdx < c.state.cache.nextIdx) ∧
    (∀ k k' e e', c.state.cache.items.lookup k = some e → c.state.cache.items.lookup k' = some e' →
      e.insertIdx = e'.insertIdx → k = k') ∧
    (∀ key resp order, NeedsRoom key c.state → ∃ k0, Oldest k0 c.state c.log ∧
      ∀ k, (cacheExec (.cacheSet key resp) order c.state).2.cache.items.lookup k =
        if k = key then some ⟨resp, c.state.now + ttl, c.state.cache.nextIdx⟩
        else if k = k0 then none else c.state.cache.items.lookup k) ∧
    (∀ later earlier s w key a, c.log = later ++ ⟨s, .done w a⟩ :: earlier → w.call = .get key →
      GetSpec ttl w key a earlier) ∧
    ∀ tid key p order, c.threads tid = some (.get key, p) →
      ∀ k e, c.state.cache.items.lookup k = some e → after c.state.now e.expiry = false →
        (cacheSystem.step c (.step tid order)).state.cache.items.lookup k = some e := by
  have hI := hc.invariant (verified hcap ttl now)
  -- The entries in the order of their indices, as the abstract map has them.
  obtain ⟨es, hes, -⟩ := hI.refines
  refine ⟨hI.refines, hI.refines.length_le, fun k e he => ?_, fun k k' e e' he he' hidx => ?_,
    fun key resp order hroom => ?_, fun later earlier s w key a hlog hget => ?_,
    fun tid key p order hp k e he hlive => get_step hc hp order he hlive⟩
  · exact hes.below (k, e) ((hes.mem k e).2 he)
  · exact (Prod.mk.inj (hes.index_unique ((hes.mem k e).2 he) ((hes.mem k' e').2 he') hidx)).1
  · rw [cacheExec_set hI]
    exact hI.set_evicts hroom resp
  · have hgets := hI.gets
    rw [hlog] at hgets
    exact hgets.append.1 w key a hget rfl

/-! ### A cache with one entry -/

/-- The order of the list. -/
def inOrder : IterationOrder := ⟨fun l => l, List.Perm.refl⟩

/-- A response with a body of one byte. -/
def sampleResponse (b : UInt8) : CachedResponse := ⟨200, [], [b]⟩

/-- Two keys are set, and five nanoseconds later the second one is read. -/
def twoSets : Config ProxyOp ProxyReply ProxyState ℕ CacheCall (Option CachedResponse) :=
  cacheSystem.run (.init ⟨0, newCache 10 1⟩)
    [.call (.set "a" (sampleResponse 1)), .step 0 inOrder, .step 0 inOrder,
      .call (.set "b" (sampleResponse 2)), .step 1 inOrder, .step 1 inOrder, .env 5,
      .call (.get "b"), .step 2 inOrder, .step 2 inOrder, .step 2 inOrder]

/-- The run with two sets. -/
theorem twoSets_reachable : Reachable cacheSystem named ⟨0, newCache 10 1⟩ twoSets := by
  have hset : ∀ {b : UInt8} {rest : Str} {resp : CachedResponse} (key resp'),
      CacheCall.set (b :: rest) resp =
      .set key resp' → key ≠ [] := by
    intro b rest resp key resp' heq
    rw [← (CacheCall.set.inj heq).1]
    exact List.cons_ne_nil b rest
  refine Reachable.init.run _ ?_
  repeat' first | exact trivial | exact hset | apply And.intro
  exact nofun

/-- The cache has forgotten the first key, and the second one is found. -/
theorem cache_fifo_twoSets : twoSets.state.cache.items.entries.length ≤ 1 ∧
    GetSpec 10 ⟨2, .get "b"⟩ "b" (some (sampleResponse 2)) twoSets.log.tail := by
  have hfifo := cache_fifo Nat.one_pos 10 0 twoSets_reachable
  exact ⟨hfifo.2.1, hfifo.2.2.2.2.2.1 [] twoSets.log.tail _ ⟨2, .get "b"⟩ "b" _ rfl rfl⟩

end VirePortal.Server.CacheFifo
