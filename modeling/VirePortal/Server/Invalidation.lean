import VirePortal.Server.CacheIsolation
import VirePortal.Server.Sequential

/-!
# Invalidating a path

A write, or a `GET` with `force_refresh=true`, removes the entries whose key contains the path of
its URL. The keys have the URI as the client sent it and the path is decoded, so the key of a path
with escapes need not contain it. Then the entries stay: also the one that a forced `GET` has just
stored, and it answers every later forced `GET` of the URI until it expires
(`refresh_served_from_cache`).

`Clean p` says that no entry is for a `GET` of the path `p` or of one that extends it. `invalidated`
says when this holds after a request that invalidates its path and runs alone, and what follows from
it for the requests that run afterwards.
-/

namespace VirePortal.Server.Invalidation

open Go Auth Concurrent IdentityHeaders CacheIsolation ResponseCache

/-- The path as the directory of those that extend it. -/
def dirOf (p : Str) : Str := if p.getLast? = some 47 then p else p ++ [47]

/-- The path `q` is `p`, or extends it by further segments. -/
def Covers (p q : Str) : Prop := q = p ∨ dirOf p <+: q

/-- The key is that of a user for a `GET` whose path is `p` or extends it. -/
def Under (p key : Str) : Prop :=
  ∃ (u : Str) (url : URL), url.Accepted ∧ key = makeKey u "GET" (requestURI url) ∧ Covers p url.path

/-- The cache has no entry under the path. -/
def Clean (p : Str) (c : ResponseCache) : Prop :=
  ∀ key e, c.items.lookup key = some e → ¬ Under p key

/-- The reply is stored. -/
def Stores (r : Request) (userID : Str) (statusCode : ℕ) (body : Str) : Prop :=
  cacheable r userID statusCode (body.take (maxCacheableBody + 1)) = true

/-- The entry is the one that a new entry of the request takes the place of. -/
def Evicts (r : Request) (userID : Str) (c : ResponseCache) (key : Str) : Prop :=
  c.maxEntries ≤ (c.items.erase (ownKey r userID)).entries.length ∧ key ≠ [] ∧
    ∃ i, oldest (c.items.erase (ownKey r userID)).entries none = some (key, i)

/-- The search for the path finds every entry under it. -/
structure Literal (r : Request) (userID : Str) (c : ResponseCache) (statusCode : ℕ)
    (body : Str) : Prop where
  /-- The entry that the request stores. -/
  own : Stores r userID statusCode body → contains (ownKey r userID) r.url.path = true
  /-- The entries from before that are still there. -/
  others : ∀ key e, c.items.lookup key = some e → Under r.url.path key →
    ¬ (Looks r userID ∧ key = ownKey r userID) →
    ¬ (Stores r userID statusCode body ∧ Evicts r userID c key) → contains key r.url.path = true

/-- There is no entry under the path but an expired one of the request's own key. -/
structure Bare (r : Request) (userID : Str) (c : ResponseCache) (ops : ProxyOps) : Prop where
  own : Looks r userID → ∀ e, c.items.lookup (ownKey r userID) = some e →
    ∃ t, Clocks t ops ∧ after t e.expiry = true
  others : ∀ key e, c.items.lookup key = some e → Under r.url.path key →
    Looks r userID ∧ key = ownKey r userID

/-- The proxy can send the request on: it is configured, the path is not an internal one, and the
URL that it makes is well formed. -/
def Sendable (cfg : ProxySettings) (r : Request) : Prop :=
  (cfg.apiURL ≠ [] ∧ hasPrefix r.url.path "/api/internal/" = false) ∧
    (URL.parse (targetURL cfg r)).isSome = true

/-- The URL of a forced `GET`. -/
def Forced (url : URL) : Prop := url.query.get "force_refresh" = "true"

/-- A separated request that leaves no entry for a `GET` of the class `F` under the path: if it is
one itself, it invalidates its path, and its key contains the path. -/
structure Tame (cfg : ProxySettings) (p : Str) (F : URL → Prop) (r : Request) : Prop where
  separated : Separated cfg r
  literal : r.method = "GET" → Covers p r.url.path → F r.url →
    r.query.get "force_refresh" = "true" ∧
      ∀ now now', contains (ownKey r (userAt cfg r now now')) r.url.path = true

variable {cfg : ProxySettings} {r : Request} {userID : Str} {s s' : ProxyState} {ops : ProxyOps}
variable {c : ResponseCache} {key : Str} {e : CacheEntry} {statusCode : ℕ} {header : Header}
variable {body : Str} {now : Time} {a : ProxyResponse} {p : Str} {F : URL → Prop}

/-! ### The entries after a request -/

/-- A reply is stored for a request that looks. -/
theorem Stores.looks (h : Stores r userID statusCode body) : Looks r userID := by
  unfold Stores cacheable at h
  simp only [Bool.and_eq_true, decide_eq_true_eq] at h
  exact ⟨h.1.1.1.1, h.1.1.1.2⟩

/-- The own key of a `GET` is under its path. -/
theorem under_ownKey (hr : r.url.Accepted) (hget : r.method = "GET") (hp : Covers p r.url.path) :
    Under p (ownKey r userID) := by
  refine ⟨userID, r.url, hr, ?_, hp⟩
  rw [ownKey, hget]

/-- The own entry is dropped. -/
theorem lookup_dropOwn : (dropOwn r userID c).items.lookup key = some e ↔
    c.items.lookup key = some e ∧ ¬ (Looks r userID ∧ key = ownKey r userID) := by
  unfold dropOwn
  split_ifs with hlooks
  · show (c.items.erase (ownKey r userID)).lookup key = some e ↔ _
    rw [Table.lookup_erase]
    split_ifs with hkey <;> simp [hlooks, hkey]
  · simp [hlooks]

/-- The oldest entry is evicted. -/
theorem lookup_evictOldest_iff {items : Table CacheEntry} :
    (evictOldest items).lookup key = some e ↔
      items.lookup key = some e ∧
        ¬ (key ≠ [] ∧ ∃ i, oldest items.entries none = some (key, i)) := by
  unfold evictOldest
  rcases oldest items.entries none with _ | ⟨k, i⟩
  · simp
  · dsimp only
    split_ifs with hk
    · rw [Table.lookup_erase]
      split_ifs with hkey
      · simp [hkey, hk]
      · simp [Ne.symm hkey]
    · rw [not_not] at hk
      subst hk
      -- The empty key is not removed.
      simp

/-- Storing under a new key leaves the other entries, but for the one that makes room. -/
theorem lookup_set_of_new {resp : CachedResponse} {k : Str} (hnew : c.items.lookup k = none)
    (hne : key ≠ k) :
    (c.set k resp now).items.lookup key = some e ↔
      c.items.lookup key = some e ∧ ¬ (c.maxEntries ≤ c.items.entries.length ∧ key ≠ [] ∧
        ∃ i, oldest c.items.entries none = some (key, i)) := by
  have hmem : k ∉ c.items := AList.lookup_eq_none.1 hnew
  unfold ResponseCache.set
  dsimp only
  rw [if_neg hmem, Table.lookup_insert, if_neg hne]
  split_ifs with hfull
  · rw [lookup_evictOldest_iff, and_iff_right hfull]
  · simp [hfull]

/-- What is in the cache when the reply has been stored: the reply, and the entries from before that
neither had the request's key nor made room. -/
theorem lookup_storeReply :
    (∃ e, (storeReply r userID statusCode header body now
      (dropOwn r userID c)).items.lookup key = some e) ↔
    (Stores r userID statusCode body ∧ key = ownKey r userID) ∨
      (∃ e, c.items.lookup key = some e) ∧ ¬ (Looks r userID ∧ key = ownKey r userID) ∧
        ¬ (Stores r userID statusCode body ∧ Evicts r userID c key) := by
  by_cases hstores : Stores r userID statusCode body
  · rw [show storeReply r userID statusCode header body now (dropOwn r userID c) = _ from
      if_pos hstores]
    -- A reply that is stored is one to a `GET`, so the own entry is gone by now and the key is new.
    have hlooks := hstores.looks
    have hdrop : dropOwn r userID c = { c with items := c.items.erase (ownKey r userID) } :=
      if_pos hlooks
    by_cases hkey : key = ownKey r userID
    · subst hkey
      exact iff_of_true ⟨_, lookup_set_self⟩ (.inl ⟨hstores, rfl⟩)
    · have hnew : (dropOwn r userID c).items.lookup (ownKey r userID) = none := by
        rw [hdrop, Table.lookup_erase, if_pos rfl]
      simp only [lookup_set_of_new hnew hkey, lookup_dropOwn]
      rw [hdrop]
      simp [hstores, hkey, Evicts]
  · rw [show storeReply r userID statusCode header body now (dropOwn r userID c) = _ from
      if_neg hstores]
    simp [lookup_dropOwn, hstores]

/-- After a request that invalidates its path, the entries are those whose key does not contain
it. -/
theorem lookup_settle (hinv : Invalidating r userID) :
    (settle r userID statusCode header body now c).items.lookup key = some e ↔
      (storeReply r userID statusCode header body now c).items.lookup key = some e ∧
        contains key r.url.path = false := by
  obtain ⟨huser, hinv⟩ := hinv
  unfold settle
  dsimp only
  split_ifs with hwrite hforce hforce
  · rw [lookup_invalidatePrefix, lookup_invalidatePrefix, and_assoc, and_self]
  · exact lookup_invalidatePrefix
  · exact lookup_invalidatePrefix
  · exfalso
    rcases hinv with hinv | hinv
    · exact hwrite ⟨hinv, huser⟩
    · exact hforce ⟨hinv, huser⟩

/-- What is left was stored. -/
theorem lookup_of_settle
    (h : (settle r userID statusCode header body now c).items.lookup key = some e) :
    (storeReply r userID statusCode header body now c).items.lookup key = some e := by
  unfold settle at h
  dsimp only at h
  split_ifs at h
  · exact (lookup_invalidatePrefix.1 (lookup_invalidatePrefix.1 h).1).1
  · exact (lookup_invalidatePrefix.1 h).1
  · exact (lookup_invalidatePrefix.1 h).1
  · exact h

/-- A reply leaves no entry under the path exactly when the search finds them all. -/
theorem clean_settle_iff (hr : r.url.Accepted) (hinv : Invalidating r userID) :
    Clean r.url.path (settle r userID statusCode header body now (dropOwn r userID c)) ↔
      Literal r userID c statusCode body := by
  constructor
  · intro hclean
    -- An entry that is stored and not found stays.
    have hfound : ∀ key, (∃ e, (storeReply r userID statusCode header body now
        (dropOwn r userID c)).items.lookup key = some e) → Under r.url.path key →
        contains key r.url.path = true := by
      rintro key ⟨e, he⟩ hunder
      by_contra hnot
      rw [Bool.not_eq_true] at hnot
      exact hclean key e ((lookup_settle hinv).2 ⟨he, hnot⟩) hunder
    constructor
    · intro hstores
      exact hfound _ (lookup_storeReply.2 (.inl ⟨hstores, rfl⟩))
        (under_ownKey hr hstores.looks.1 (.inl rfl))
    · intro key e he hunder hown hevicts
      exact hfound key (lookup_storeReply.2 (.inr ⟨⟨e, he⟩, hown, hevicts⟩)) hunder
  · intro hliteral key e he hunder
    obtain ⟨hstored, hnot⟩ := (lookup_settle hinv).1 he
    have hfound : contains key r.url.path = true := by
      rcases lookup_storeReply.1 ⟨e, hstored⟩ with ⟨hstores, rfl⟩ | ⟨⟨e', he'⟩, hown, hevicts⟩
      · exact hliteral.own hstores
      · exact hliteral.others key e' he' hunder hown hevicts
    rw [hnot] at hfound
    cases hfound

/-- When a request that invalidates its path leaves no entry under it: it gets a reply and the
search finds them all, or it gets none and there were none. -/
theorem clean_iff (hr : r.url.Accepted) (hinv : Invalidating r userID)
    (h : Outcome cfg r userID s ops s') :
    Clean r.url.path s'.cache ↔
      (∃ statusCode header body, Gets statusCode header body ops ∧
        Literal r userID s.cache statusCode body) ∨
      (∀ statusCode header body, ¬ Gets statusCode header body ops) ∧
        Bare r userID s.cache ops := by
  cases h with
  | hit e hlooks hfound hcache hlive hquiet =>
    -- The entry that answers the request is one under the path, and it stays.
    have hunder : Under r.url.path (ownKey r userID) := under_ownKey hr hlooks.1 (.inl rfl)
    refine iff_of_false (fun hclean => ?_) ?_
    · rw [hcache] at hclean
      exact hclean _ _ hfound hunder
    · rintro (⟨statusCode, header, body, ⟨req, hgets⟩, -⟩ | ⟨-, hbare⟩)
      · exact hquiet ⟨req, _, hgets⟩
      · obtain ⟨t, ht, hafter⟩ := hbare.own hlooks e hfound
        rw [hlive t ht] at hafter
        cases hafter
  | failed hexpired hcache hnone hreached =>
    rw [hcache]
    constructor
    · intro hclean
      refine .inr ⟨hnone, hexpired, fun key e he hunder => ?_⟩
      by_contra hown
      exact hclean key e (lookup_dropOwn.2 ⟨he, hown⟩) hunder
    · rintro (⟨statusCode, header, body, hgets, -⟩ | ⟨-, hbare⟩)
      · exact absurd hgets (hnone statusCode header body)
      · intro key e he hunder
        obtain ⟨he, hown⟩ := lookup_dropOwn.1 he
        exact hown (hbare.others key e he hunder)
  | replied statusCode header body now hexpired hmade hgets hunique hcache =>
    -- The reply is the only one, so the condition speaks of it.
    rw [hcache, clean_settle_iff hr hinv]
    constructor
    · intro hliteral
      exact .inl ⟨statusCode, header, body, hgets, hliteral⟩
    · rintro (⟨statusCode', header', body', hgets', hliteral⟩ | ⟨hnone, -⟩)
      · obtain ⟨rfl, rfl, rfl⟩ := hunique _ _ _ hgets'
        exact hliteral
      · exact absurd hgets (hnone _ _ _)

/-! ### The requests that follow -/

/-- A request whose key is not in the cache reaches vire-server exactly when it can be sent on. -/
theorem exchanges_iff (hget : r.method = "GET")
    (hnew : ∀ userID, SessionOf cfg r userID ops → userID ≠ [] →
      s.cache.items.lookup (ownKey r userID) = none)
    (h : solo.Runs (handleAPIProxy cfg r) s ops a s') : Exchanges ops ↔ Sendable cfg r := by
  rcases handleAPIProxy_runs h with ⟨-, rfl, hrefused⟩ | ⟨hserved, userID, hsession, houtcome⟩
  · refine iff_of_false (quiet_nil.not_exchanges) ?_
    rintro ⟨⟨hurl, hguard⟩, -⟩
    rcases hrefused with hempty | hinternal
    · exact hurl hempty
    · rw [hguard] at hinternal
      cases hinternal
  · have hmade : (proxyRequest cfg r userID).isSome = (URL.parse (targetURL cfg r)).isSome := by
      refine proxyRequest_isSome ?_ userID
      rw [hget]
      decide
    -- The own key is not in the cache, so the request is not answered from there.
    rw [Sendable, and_iff_right hserved, ← hmade]
    cases houtcome with
    | hit e hlooks hfound hcache hlive hquiet =>
      rw [hnew userID hsession hlooks.2] at hfound
      cases hfound
    | failed hexpired hcache hnone hreached => exact hreached
    | replied statusCode header body now hexpired hmade hgets hunique hcache =>
      obtain ⟨req, hmem⟩ := hgets
      exact iff_of_true ⟨req, _, hmem⟩ hmade

/-- What the URI of an accepted request has in front of the question mark and behind it. -/
theorem cut_requestURI {url : URL} (h : url.Accepted) :
    (cut 63 (requestURI url)).1 = url.escapedPath ∧
      (cut 63 (requestURI url)).2.getD [] = url.rawQuery := by
  rw [requestURI_of_accepted h, cut_append h.not_mem_escapedPath]
  split_ifs with hquery
  · exact ⟨List.append_nil _, rfl⟩
  · rw [not_or, not_not] at hquery
    exact ⟨List.append_nil _, hquery.2.symm⟩

/-- The URI of an accepted request determines its path and its query. -/
theorem requestURI_injective {url url' : URL} (h : url.Accepted) (h' : url'.Accepted)
    (heq : requestURI url = requestURI url') :
    url.path = url'.path ∧ url.rawQuery = url'.rawQuery := by
  obtain ⟨hpath, hquery⟩ := cut_requestURI h
  obtain ⟨hpath', hquery'⟩ := cut_requestURI h'
  rw [heq] at hpath hquery
  constructor
  · have hdecode := h.unescape_escapedPath
    rw [← hpath, hpath', h'.unescape_escapedPath] at hdecode
    exact (Option.some.inj hdecode).symm
  · rw [← hquery, hquery']

/-- The cache has no entry for a `GET` of the class `F` under the path, by a user whose name does
not hold the separator of the keys. -/
def Free (p : Str) (F : URL → Prop) (c : ResponseCache) : Prop :=
  ∀ key e, c.items.lookup key = some e → ∀ (u : Str) (url : URL),
    contains u ":GET:/" = false → url.Accepted →
    key = makeKey u "GET" (requestURI url) → Covers p url.path → ¬ F url

/-- A clean cache is free. -/
theorem Clean.free (h : Clean p c) : Free p F c := by
  intro key e he u url _ hurl hkey hcovers _
  exact h key e he ⟨u, url, hurl, hkey, hcovers⟩

/-- A request keeps the class out of the cache. -/
theorem Free.step (hF : ∀ url url' : URL, url.rawQuery = url'.rawQuery → F url → F url')
    (hfree : Free p F s.cache) (hr : Tame cfg p F r)
    (h : solo.Runs (handleAPIProxy cfg r) s ops a s') :
    Free p F s'.cache := by
  rcases handleAPIProxy_runs h with ⟨hcache, -, -⟩ | ⟨-, userID, hsession, houtcome⟩
  · rw [hcache]
    exact hfree
  · obtain ⟨t, t', rest, -, huser⟩ := hsession
    intro key e he u url hu hurl hkey hcovers hclass
    -- An entry from before does not have such a key.
    have hbefore : ∀ {e}, s.cache.items.lookup key ≠ some e :=
      fun hold => hfree key _ hold u url hu hurl hkey hcovers hclass
    cases houtcome with
    | hit e' hlooks hfound hcache hlive hquiet =>
      rw [hcache] at he
      exact hbefore he
    | failed hexpired hcache hnone hreached =>
      rw [hcache] at he
      exact hbefore (lookup_dropOwn.1 he).1
    | replied statusCode header body now hexpired hmade hgets hunique hcache =>
      rw [hcache] at he
      rcases lookup_storeReply.1 ⟨e, lookup_of_settle he⟩ with ⟨hstores, hown⟩ | ⟨⟨e', hold⟩, -, -⟩
      · -- The entry is the request's own, so its key contains the path that is invalidated.
        have hget := hstores.looks.1
        rw [hown, ownKey, hget] at hkey
        have hsep : contains userID ":GET:/" = false := by
          rw [← huser]
          exact hr.separated.user t t'
        obtain ⟨-, huri⟩ := makeKey_injective hsep hu (head_requestURI hr.separated.accepted)
          (head_requestURI hurl) hkey
        obtain ⟨hpath, hquery⟩ := requestURI_injective hr.separated.accepted hurl huri
        obtain ⟨hforced, hliteral⟩ := hr.literal hget (by rw [hpath]; exact hcovers)
          (hF url r.url hquery.symm hclass)
        have hfound := hliteral t t'
        rw [huser, ← hown] at hfound
        rw [((lookup_settle ⟨hstores.looks.2, .inr hforced⟩).1 he).2] at hfound
        cases hfound
      · exact hbefore hold

/-- A `GET` of a class that is not in the cache reaches vire-server exactly when it can be sent
on. -/
theorem Free.exchanges_iff (hfree : Free p F s.cache) (hr : Separated cfg r)
    (hget : r.method = "GET") (hcovers : Covers p r.url.path) (hclass : F r.url)
    (h : solo.Runs (handleAPIProxy cfg r) s ops a s') : Exchanges ops ↔ Sendable cfg r := by
  refine Invalidation.exchanges_iff hget (fun userID hsession _ => ?_) h
  obtain ⟨t, t', rest, -, rfl⟩ := hsession
  rcases hfound : s.cache.items.lookup (ownKey r (userAt cfg r t t')) with _ | e
  · rfl
  · have hkey : ownKey r (userAt cfg r t t') =
        makeKey (userAt cfg r t t') "GET" (requestURI r.url) := by
      rw [ownKey, hget]
    exact absurd hclass (hfree _ e hfound _ r.url (hr.user t t') hr.accepted hkey hcovers)

/-! ### After an invalidation -/

/-- However the request runs alone from the state, it reaches vire-server exactly when it can be
sent on. -/
def Reaches (cfg : ProxySettings) (s : ProxyState) (r : Request) : Prop :=
  ∀ ops a s', solo.Runs (handleAPIProxy cfg r) s ops a s' → (Exchanges ops ↔ Sendable cfg r)

/-- With a clean cache the request reaches vire-server. -/
theorem Clean.reaches (h : Clean p s.cache) (hr : r.url.Accepted) (hget : r.method = "GET")
    (hcovers : Covers p r.url.path) : Reaches cfg s r := by
  intro ops a s' hrun
  refine exchanges_iff hget (fun userID _ _ => ?_) hrun
  rcases hfound : s.cache.items.lookup (ownKey r userID) with _ | e
  · rfl
  · exact absurd (under_ownKey hr hget hcovers) (h _ e hfound)

/-- The class stays out of the cache while tame requests run one after the other. -/
theorem Free.serial (hF : ∀ url url' : URL, url.rawQuery = url'.rawQuery → F url → F url')
    (hfree : Free p F s.cache) (h : solo.Serial (handleAPIProxy cfg) (Tame cfg p F) s s') :
    Free p F s'.cache :=
  h.keeps (I := fun s => Free p F s.cache) (fun _ _ _ _ _ hfree hr hrun => hfree.step
    hF hr hrun) hfree

/-- A request of a user that invalidates its path and runs alone leaves no entry under the path
exactly when it gets a reply and the search for the path finds every entry under it, or it gets none
and there was no such entry. After that, when requests run one after the other, these reach
vire-server if they can be sent on at all: a `GET` under the path right afterwards; the first `GET`
under the path after other requests; and every later forced `GET` under the path, if those before it
have keys that contain their path. -/
theorem invalidated (hr : r.url.Accepted) (hinv : Invalidating r userID)
    (hrun : solo.Runs (handleAPIProxy cfg r) s ops a s') (hsession : SessionOf cfg r userID ops) :
    (Clean r.url.path s'.cache ↔
      (∃ statusCode header body, Gets statusCode header body ops ∧
        Literal r userID s.cache statusCode body) ∨
      (∀ statusCode header body, ¬ Gets statusCode header body ops) ∧ Bare r userID s.cache ops) ∧
    (Clean r.url.path s'.cache →
      (∀ r' : Request, r'.url.Accepted → r'.method = "GET" → Covers r.url.path r'.url.path →
        Reaches cfg s' r') ∧
      (∀ s1, solo.Serial (handleAPIProxy cfg) (Tame cfg r.url.path fun _ => True) s' s1 →
        ∀ r' : Request, Separated cfg r' → r'.method = "GET" → Covers r.url.path r'.url.path →
          Reaches cfg s1 r') ∧
      ∀ s1, solo.Serial (handleAPIProxy cfg) (Tame cfg r.url.path Forced) s' s1 →
        ∀ r' : Request, Separated cfg r' → r'.method = "GET" → Covers r.url.path r'.url.path →
          Forced r'.url → Reaches cfg s1 r') := by
  constructor
  · rcases handleAPIProxy_runs hrun with ⟨-, rfl, -⟩ | ⟨-, userID', hsession', houtcome⟩
    · obtain ⟨t, t', rest, hops, -⟩ := hsession
      cases hops
    · obtain rfl := hsession.unique hsession'
      exact clean_iff hr hinv houtcome
  · intro hclean
    -- Whether a `GET` is forced is in its query, and so in its key.
    have hforced : ∀ url url' : URL, url.rawQuery = url'.rawQuery → Forced url → Forced url' := by
      intro url url' hquery hurl
      unfold Forced URL.query at hurl ⊢
      rw [← hquery]
      exact hurl
    refine ⟨fun r' hr' hget hcovers => hclean.reaches hr' hget hcovers, ?_, ?_⟩
    · intro s1 hserial r' hr' hget hcovers ops' a' s'' hrun'
      have hfree : Free r.url.path (fun _ => True) s1.cache :=
        hclean.free.serial (fun _ _ _ h => h) hserial
      exact hfree.exchanges_iff hr' hget hcovers trivial hrun'
    · intro s1 hserial r' hr' hget hcovers hclass ops' a' s'' hrun'
      have hfree : Free r.url.path Forced s1.cache := hclean.free.serial hforced hserial
      exact hfree.exchanges_iff hr' hget hcovers hclass hrun'

/-- The request of the user `a` to refresh what is at the path. -/
def refresh (path : Str) : Request :=
  { ofA path with
    url := { path := path, rawQuery := "force_refresh=true" }
    query := parseQuery "force_refresh=true" }

/-- What comes of the operations of a refresh that finds nothing in the cache and gets a reply. -/
def replying (body : Str) : List ExchangeReply :=
  List.replicate 3 .unavailable ++ .reply 200 [] body :: List.replicate 2 .unavailable

/-- The state after it. -/
def refreshed (path body : Str) (s : ProxyState) : ProxyState :=
  let stored := s.cache.set (ownKey (refresh path) "a") ⟨200, [], body⟩ s.now
  { s with cache := stored.invalidatePrefix path }

/-- A cache with the response of another user to a `GET` of `/api/p`. -/
def shared : ProxyState :=
  { cache := emptyCache.cache.set "b:GET:/api/p" ⟨200, [], "old"⟩ 0 }

/-- The shared cache has one entry. -/
theorem lookup_shared {key : Str} {e : CacheEntry} (h : shared.cache.items.lookup key = some e) :
    key = "b:GET:/api/p" := by
  rcases lookup_set h with ⟨hkey, -⟩ | ⟨-, hold⟩
  · exact hkey
  · cases hold

/-- The sample's URL is accepted. -/
theorem accepted_plain : ({ path := "/api/p" } : URL).Accepted :=
  ⟨⟨"/api/p", by decide⟩, by decide⟩

/-- The refresh of a path without escapes removes the response of the other user too, and the next
`GET` reaches vire-server. -/
theorem invalidated_shared : ¬ Clean "/api/p" shared.cache ∧
    Clean "/api/p" (refreshed "/api/p" "new" shared).cache ∧
    Reaches twoUsersSettings (refreshed "/api/p" "new" shared) (ofA "/api/p") := by
  have hrun : ∃ ops, solo.run (handleAPIProxy twoUsersSettings (refresh "/api/p"))
      (replying "new") shared = some (ops, .relay 200 [] "new", refreshed "/api/p" "new" shared) ∧
      SessionOf twoUsersSettings (refresh "/api/p") "a" ops ∧
      Gets 200 [] "new" ops :=
    ⟨_, rfl, ⟨0, 0, _, rfl, rfl⟩, _, .tail _ (.tail _ (.tail _ (.head _)))⟩
  obtain ⟨ops, hrun, hsession, hgets⟩ := hrun
  have hall := invalidated ⟨⟨"/api/p?force_refresh=true", by decide⟩, by decide⟩
    ⟨by decide, .inr rfl⟩ (.of_run (fun _ _ _ => trivial) hrun) hsession
  have hclean : Clean "/api/p" (refreshed "/api/p" "new" shared).cache := by
    refine hall.1.2 (.inl ⟨200, [], "new", hgets, fun _ => by decide, ?_⟩)
    intro key e he _ _ _
    rw [lookup_shared he]
    decide
  refine ⟨fun hold => ?_, hclean, (hall.2 hclean).1 _ accepted_plain rfl (.inl rfl)⟩
  exact hold _ _ lookup_set_self ⟨"b", _, accepted_plain, by decide, .inl rfl⟩

/-- The operations have no exchange. -/
theorem not_exchanges_of_any (h : (ops.any fun op => match op.1 with
    | .exchange _ => true
    | _ => false) = false) : ¬ Exchanges ops := by
  rintro ⟨req, reply, hmem⟩
  exact absurd (List.any_eq_false.1 h _ hmem) (by simp)

/-- The user `a` refreshes the portfolio `a b`. Its reply stays in the cache, under a key with
`a%20b`, and when the user refreshes the portfolio again this reply is the answer, and vire-server
is not asked. -/
theorem refresh_served_from_cache : ∃ ops ops',
    URL.parseRequestURI ("/api/portfolios/" ++ encodeURIComponent "a b" ++
      "?force_refresh=true") = some (refresh "/api/portfolios/a b").url ∧
    (refresh "/api/portfolios/a b").query = (refresh "/api/portfolios/a b").url.query ∧
    Invalidating (refresh "/api/portfolios/a b") "a" ∧
    SessionOf twoUsersSettings (refresh "/api/portfolios/a b") "a" ops ∧
    solo.Runs (handleAPIProxy twoUsersSettings (refresh "/api/portfolios/a b")) emptyCache ops
      (.relay 200 [] "old")
      (refreshed "/api/portfolios/a b" "old" emptyCache) ∧
    ¬ Clean "/api/portfolios/a b" (refreshed "/api/portfolios/a b" "old" emptyCache).cache ∧
    solo.Runs (handleAPIProxy twoUsersSettings (refresh "/api/portfolios/a b"))
      (refreshed "/api/portfolios/a b" "old" emptyCache) ops'
      (.relay 200 [] "old")
      (refreshed "/api/portfolios/a b" "old" emptyCache) ∧
    ¬ Exchanges ops' := by
  have hrun :
      ∃ ops, solo.run (handleAPIProxy twoUsersSettings (refresh "/api/portfolios/a b"))
      (replying "old") emptyCache = some (ops, .relay 200 [] "old",
        refreshed "/api/portfolios/a b" "old" emptyCache) ∧
      SessionOf twoUsersSettings (refresh "/api/portfolios/a b") "a" ops :=
    ⟨_, rfl, 0, 0, _, rfl, rfl⟩
  have hagain :
      ∃ ops, solo.run (handleAPIProxy twoUsersSettings (refresh "/api/portfolios/a b"))
      (List.replicate 4 .unavailable) (refreshed "/api/portfolios/a b" "old" emptyCache) =
        some (ops, .relay 200 [] "old",
          refreshed "/api/portfolios/a b" "old" emptyCache) ∧ ¬ Exchanges ops :=
    ⟨_, rfl, not_exchanges_of_any rfl⟩
  obtain ⟨ops, hrun, hsession⟩ := hrun
  obtain ⟨ops', hagain, hquiet⟩ := hagain
  have haccepted : (refresh "/api/portfolios/a b").url.Accepted :=
    ⟨⟨"/api/portfolios/a%20b?force_refresh=true", by decide⟩, by decide⟩
  -- `InvalidatePrefix` gets the decoded path, which is not part of the key with `%20`.
  obtain ⟨e, he⟩ : ∃ e, (refreshed "/api/portfolios/a b" "old"
      emptyCache).cache.items.lookup (ownKey (refresh "/api/portfolios/a b") "a") = some e :=
    ⟨_, lookup_invalidatePrefix.2 ⟨lookup_set_self, by decide⟩⟩
  refine ⟨ops, ops', by decide, rfl, ⟨by decide, .inr rfl⟩, hsession,
    .of_run (fun _ _ _ => trivial) hrun, fun hclean => ?_, .of_run (fun _ _ _ => trivial) hagain,
      hquiet⟩
  exact hclean _ e he (under_ownKey haccepted rfl (.inl rfl))

end VirePortal.Server.Invalidation
