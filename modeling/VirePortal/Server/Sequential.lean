import VirePortal.Concurrent.Alone
import VirePortal.Server.Proxy

/-!
# A request that runs alone

What one request of the proxy does to the cache when no other request runs at the same time. It is
answered from the cache, or fails, or gets a reply (`Outcome`). In the first case the cache stays as
it is. In the other two an entry of its own key that has expired is removed, and after a reply the
cache is brought up to date (`settle`).
-/

namespace VirePortal.Server

open Go Auth Concurrent

/-- A single request, while the clock goes on. -/
def solo : Setting ProxyOp ProxyReply ProxyState ExchangeReply where
  exec := proxyExec
  between s s' := ∃ d : ℕ, s' = { s with now := s.now + d }
  refl s := ⟨0, by simp⟩

/-- The operations of a request, with their replies. -/
abbrev ProxyOps := List ((o : ProxyOp) × ProxyReply o)

/-- The request reaches vire-server. -/
def Exchanges (ops : ProxyOps) : Prop :=
  ∃ req reply, (⟨.exchange req, reply⟩ : (o : ProxyOp) × ProxyReply o) ∈ ops

/-- The request reads the time. -/
def Clocks (t : Time) (ops : ProxyOps) : Prop := (⟨.now, t⟩ : (o : ProxyOp) × ProxyReply o) ∈ ops

/-- The request gets a reply. -/
def Gets (statusCode : ℕ) (header : Header) (body : Str) (ops : ProxyOps) : Prop :=
  ∃ req, (⟨.exchange req, .reply statusCode header body⟩ : (o : ProxyOp) × ProxyReply o) ∈ ops

/-- The key of a request in the cache. -/
def ownKey (r : Request) (userID : Str) : Str := makeKey userID r.method (requestURI r.url)

/-- The request looks into the cache. -/
def Looks (r : Request) (userID : Str) : Prop := r.method = "GET" ∧ userID ≠ []

instance (r : Request) (userID : Str) : Decidable (Looks r userID) :=
  inferInstanceAs (Decidable (_ ∧ _))

/-- The cache after a lookup that found nothing to use. -/
def dropOwn (r : Request) (userID : Str) (c : ResponseCache) : ResponseCache :=
  if Looks r userID then { c with items := c.items.erase (ownKey r userID) } else c

/-- The cache with the reply stored, if it may be. -/
def storeReply (r : Request) (userID : Str) (statusCode : ℕ) (header : Header) (full : Str)
    (now : Time) (c : ResponseCache) : ResponseCache :=
  if cacheable r userID statusCode (full.take (maxCacheableBody + 1)) then
    c.set (ownKey r userID) ⟨statusCode, header, full.take (maxCacheableBody + 1)⟩ now
  else c

/-- The request invalidates its path once it has a reply. -/
def Invalidating (r : Request) (userID : Str) : Prop :=
  userID ≠ [] ∧ (r.method ≠ "GET" ∨ r.query.get "force_refresh" = "true")

instance (r : Request) (userID : Str) : Decidable (Invalidating r userID) :=
  inferInstanceAs (Decidable (_ ∧ (_ ∨ _)))

/-- The cache after a reply. -/
def settle (r : Request) (userID : Str) (statusCode : ℕ) (header : Header) (full : Str) (now : Time)
    (c : ResponseCache) : ResponseCache :=
  let c := storeReply r userID statusCode header full now c
  let c := if r.query.get "force_refresh" = "true" ∧ userID ≠ [] then
      c.invalidatePrefix r.url.path else c
  if r.method ≠ "GET" ∧ userID ≠ [] then c.invalidatePrefix r.url.path else c

variable {cfg : ProxySettings} {r : Request} {userID : Str} {s s' : ProxyState} {ops : ProxyOps}

/-- What a request of a user does when it runs alone. -/
inductive Outcome (cfg : ProxySettings) (r : Request) (userID : Str) (s : ProxyState)
    (ops : ProxyOps) (s' : ProxyState) : Prop
  /-- It is answered from the cache. -/
  | hit (e : CacheEntry) (hlooks : Looks r userID)
      (hfound : s.cache.items.lookup (ownKey r userID) = some e) (hcache : s'.cache = s.cache)
      (hlive : ∀ t, Clocks t ops → after t e.expiry = false) (hquiet : ¬ Exchanges ops)
  /-- It gets no reply. -/
  | failed (hexpired : Looks r userID → ∀ e, s.cache.items.lookup (ownKey r userID) = some e →
        ∃ t, Clocks t ops ∧ after t e.expiry = true)
      (hcache : s'.cache = dropOwn r userID s.cache)
      (hnone : ∀ statusCode header body, ¬ Gets statusCode header body ops)
      (hreached : Exchanges ops ↔ (proxyRequest cfg r userID).isSome = true)
  /-- It gets a reply. -/
  | replied (statusCode : ℕ) (header : Header) (body : Str) (now : Time)
      (hexpired : Looks r userID → ∀ e, s.cache.items.lookup (ownKey r userID) = some e →
        ∃ t, Clocks t ops ∧ after t e.expiry = true)
      (hmade : (proxyRequest cfg r userID).isSome = true)
      (hgets : Gets statusCode header body ops)
      (hunique : ∀ statusCode' header' body', Gets statusCode' header' body' ops →
        statusCode' = statusCode ∧ header' = header ∧ body' = body)
      (hcache : s'.cache = settle r userID statusCode header body now (dropOwn r userID s.cache))

/-! ### The parts of a request -/

/-- Operations without an exchange. -/
def Quiet (ops : ProxyOps) : Prop := ∀ op ∈ ops, ∀ req, op.1 ≠ .exchange req

/-- What is quiet exchanges nothing. -/
theorem Quiet.not_exchanges (h : Quiet ops) : ¬ Exchanges ops := by
  rintro ⟨req, reply, hmem⟩
  exact h _ hmem req rfl

/-- Nothing is quiet. -/
theorem quiet_nil : Quiet [] := by simp [Quiet]

/-- The first operation and the rest. -/
theorem quiet_cons {o : ProxyOp} {reply : ProxyReply o} :
    Quiet (⟨o, reply⟩ :: ops) ↔ (∀ req, o ≠ .exchange req) ∧ Quiet ops := by
  simp [Quiet]

/-- An entry that is not there need not be removed. -/
theorem erase_of_lookup_none {items : Table CacheEntry} {key : Str} (h : items.lookup key = none) :
    items.erase key = items := by
  have hmem : key ∉ items.keys := AList.lookup_eq_none.1 h
  exact AList.ext (List.kerase_of_notMem_keys hmem)

/-- Without an own entry nothing is dropped. -/
theorem dropOwn_of_lookup_none {c : ResponseCache}
    (h : c.items.lookup (ownKey r userID) = none) : dropOwn r userID c = c := by
  unfold dropOwn
  split_ifs
  · rw [erase_of_lookup_none h]
  · rfl

/-- An entry that has expired is removed. -/
theorem removeExpired_own {c : ResponseCache} {e : CacheEntry} {now : Time}
    (hlooks : Looks r userID) (hfound : c.items.lookup (ownKey r userID) = some e)
    (hafter : after now e.expiry = true) :
    c.removeExpired (ownKey r userID) now = dropOwn r userID c := by
  unfold ResponseCache.removeExpired dropOwn
  rw [hfound, if_pos hlooks]
  exact if_pos hafter

/-- Time passes. -/
theorem le_add_natCast (t : Time) (d : ℕ) : t ≤ t + d :=
  le_add_of_nonneg_right (Int.natCast_nonneg d)

/-- What a lookup finds: nothing to use, or an entry that has not expired. -/
theorem lookup_runs {cached : Option CachedResponse}
    (h : solo.Runs (lookup r userID) s ops cached s') :
    Quiet ops ∧
      ((cached = none ∧ s'.cache = dropOwn r userID s.cache ∧
        (Looks r userID → ∀ e, s.cache.items.lookup (ownKey r userID) = some e →
          ∃ t, Clocks t ops ∧ after t e.expiry = true)) ∨
      ∃ e t, Looks r userID ∧ s.cache.items.lookup (ownKey r userID) = some e ∧
        cached = some e.resp ∧
        s'.cache = s.cache ∧ s.now ≤ t ∧ after t e.expiry = false ∧ ∀ t', Clocks t' ops →
          t' = t) := by
  unfold lookup at h
  split_ifs at h with hlooks
  · obtain ⟨s1, x1, rest1, ⟨d1, rfl⟩, -, rfl, h⟩ := h
    rcases hfound : s.cache.items.lookup (ownKey r userID) with _ | e
    · -- Nothing is stored under the key.
      have hreply : (solo.exec (.cacheLookup (makeKey userID r.method (requestURI r.url))) x1
          { s with now := s.now + d1 }).1 = none := hfound
      rw [hreply] at h ⊢
      obtain ⟨rfl, rfl, d2, rfl⟩ := h
      refine ⟨quiet_cons.2 ⟨by simp, quiet_nil⟩, .inl ⟨rfl, ?_, fun _ e he => absurd he (by simp)⟩⟩
      exact (dropOwn_of_lookup_none hfound).symm
    · have hreply : (solo.exec (.cacheLookup (makeKey userID r.method (requestURI r.url))) x1
          { s with now := s.now + d1 }).1 = some e := hfound
      rw [hreply] at h ⊢
      obtain ⟨s2, x2, rest2, ⟨d2, rfl⟩, -, rfl, h⟩ := h
      change solo.Runs (if after (s.now + d1 + d2) e.expiry then _ else _) _ _ _ _ at h
      split_ifs at h with hafter
      · -- The entry has expired.
        obtain ⟨s3, x3, rest3, ⟨d3, rfl⟩, -, rfl, h⟩ := h
        obtain ⟨rfl, rfl, d4, rfl⟩ := h
        have hquiet : Quiet [⟨.cacheLookup (makeKey userID r.method (requestURI r.url)), some e⟩,
            ⟨.now, s.now + d1 + d2⟩,
            ⟨.cacheExpire (makeKey userID r.method (requestURI r.url)), ()⟩] := by
          simp [Quiet]
        refine ⟨hquiet, .inl ⟨rfl, ?_, fun _ e' he' => ?_⟩⟩
        · refine removeExpired_own hlooks hfound (after_mono ?_ hafter)
          exact le_add_natCast _ d3
        · rw [← Option.some.inj he']
          exact ⟨s.now + d1 + d2, .tail _ (.head _), hafter⟩
      · obtain ⟨rfl, rfl, d3, rfl⟩ := h
        have hquiet : Quiet [⟨.cacheLookup (makeKey userID r.method (requestURI r.url)), some e⟩,
            ⟨.now, s.now + d1 + d2⟩] := by
          simp [Quiet]
        refine ⟨hquiet, .inr ⟨e, s.now + d1 + d2, hlooks, rfl, rfl, rfl, ?_, ?_, ?_⟩⟩
        · exact (le_add_natCast s.now d1).trans (le_add_natCast _ d2)
        · rw [Bool.not_eq_true] at hafter
          exact hafter
        · intro t' ht'
          rcases List.mem_cons.1 ht' with heq | hmem
          · cases heq
          · cases List.mem_singleton.1 hmem
            rfl
  · obtain ⟨rfl, rfl, d, rfl⟩ := h
    refine ⟨quiet_nil, .inl ⟨rfl, ?_, fun h => absurd h hlooks⟩⟩
    exact (if_neg hlooks).symm

/-- The stages of `relayReply`. -/
theorem relayReply_eq (r : Request) (userID : Str) (statusCode : ℕ) (header : Header) (full : Str) :
    relayReply r userID statusCode header full = (do
      (if cacheable r userID statusCode (full.take (maxCacheableBody + 1)) then
        step (.cacheSet (ownKey r userID) ⟨statusCode, header, full.take (maxCacheableBody + 1)⟩)
      else pure ())
      (if r.query.get "force_refresh" = "true" ∧ userID ≠ [] then
        step (.cacheInvalidate r.url.path) else pure ())
      (if r.method ≠ "GET" ∧ userID ≠ [] then step (.cacheInvalidate r.url.path) else pure ())
      pure (.relay statusCode (Header.addAll [] header) (full.take (maxCacheableBody + 1)))) := by
  unfold relayReply
  dsimp only
  split_ifs
  all_goals rfl

/-- What `Set` does, if it is called. -/
theorem set_runs {c : Prop} [Decidable c] {key : Str} {resp : CachedResponse} {u : Unit}
    (h : solo.Runs (if c then step (.cacheSet key resp) else pure ()) s ops u s') :
    Quiet ops ∧ ∃ now, s'.cache = if c then s.cache.set key resp now else s.cache := by
  split_ifs at h ⊢
  · obtain ⟨s1, x, rest, ⟨d, rfl⟩, -, rfl, rfl, -, d', rfl⟩ := h
    exact ⟨quiet_cons.2 ⟨by simp, quiet_nil⟩, s.now + d, rfl⟩
  · obtain ⟨rfl, -, d, rfl⟩ := h
    exact ⟨quiet_nil, s.now, rfl⟩

/-- What the invalidation does, if it is called. -/
theorem invalidate_runs {c : Prop} [Decidable c] {path : Str} {u : Unit}
    (h : solo.Runs (if c then step (.cacheInvalidate path) else pure ()) s ops u s') :
    Quiet ops ∧ s'.cache = if c then s.cache.invalidatePrefix path else s.cache := by
  split_ifs at h ⊢
  · obtain ⟨s1, x, rest, ⟨d, rfl⟩, -, rfl, rfl, -, d', rfl⟩ := h
    exact ⟨quiet_cons.2 ⟨by simp, quiet_nil⟩, rfl⟩
  · obtain ⟨rfl, -, d, rfl⟩ := h
    exact ⟨quiet_nil, rfl⟩

/-- Two quiet parts. -/
theorem quiet_append {ops' : ProxyOps} (h : Quiet ops) (h' : Quiet ops') : Quiet (ops ++ ops') := by
  intro op hop
  rcases List.mem_append.1 hop with hop | hop
  · exact h op hop
  · exact h' op hop

variable {header : Header} {a : ProxyResponse} {statusCode : ℕ}

/-- What follows a reply brings the cache up to date. -/
theorem relayReply_runs {full : Str}
    (h : solo.Runs (relayReply r userID statusCode header full) s ops a s') :
    Quiet ops ∧ ∃ now, s'.cache = settle r userID statusCode header full now s.cache := by
  rw [relayReply_eq] at h
  obtain ⟨u1, s1, ops1, rest1, rfl, hset, h⟩ := h.bind
  obtain ⟨u2, s2, ops2, rest2, rfl, hforce, h⟩ := h.bind
  obtain ⟨u3, s3, ops3, rest3, rfl, hwrite, rfl, -, d, rfl⟩ := h.bind
  obtain ⟨hquiet1, now, hcache1⟩ := set_runs hset
  obtain ⟨hquiet2, hcache2⟩ := invalidate_runs hforce
  obtain ⟨hquiet3, hcache3⟩ := invalidate_runs hwrite
  refine ⟨quiet_append hquiet1 (quiet_append hquiet2 (quiet_append hquiet3 quiet_nil)), now, ?_⟩
  show s3.cache = _
  rw [hcache3, hcache2, hcache1]
  rfl

/-- What is quiet gets no reply. -/
theorem Quiet.not_gets (h : Quiet ops) {body : Str} :
    ¬ Gets statusCode header body ops := by
  rintro ⟨req, hmem⟩
  exact h _ hmem req rfl

/-- What follows a lookup that found nothing to use. -/
theorem forward_runs (h : solo.Runs (forward cfg r userID) s ops a s') :
    (proxyRequest cfg r userID = none ∧ Quiet ops ∧ s'.cache = s.cache) ∨
    (∃ req reply, proxyRequest cfg r userID = some req ∧ ops = [⟨.exchange req, reply⟩] ∧
      s'.cache = s.cache ∧ ∀ statusCode header body, reply ≠ .reply statusCode header body) ∨
    ∃ req statusCode header body rest now, proxyRequest cfg r userID = some req ∧
      ops = ⟨.exchange req, .reply statusCode header body⟩ :: rest ∧ Quiet rest ∧
        s'.cache = settle r userID statusCode header body now s.cache := by
  unfold forward at h
  rcases hreq : proxyRequest cfg r userID with _ | req
  · rw [hreq] at h
    obtain ⟨rfl, -, d, rfl⟩ := h
    exact .inl ⟨rfl, quiet_nil, rfl⟩
  · rw [hreq] at h
    obtain ⟨s1, reply, rest, ⟨d, rfl⟩, -, rfl, h⟩ := h
    right
    -- Without a reply the request ends here.
    rcases reply with _ | _ | ⟨statusCode, header, body⟩
    · obtain ⟨rfl, -, d', rfl⟩ := h
      exact .inl ⟨req, .unavailable, rfl, rfl, rfl, by simp⟩
    · obtain ⟨rfl, -, d', rfl⟩ := h
      exact .inl ⟨req, .unreadable, rfl, rfl, rfl, by simp⟩
    · obtain ⟨hquiet, now, hcache⟩ := relayReply_runs h
      exact .inr ⟨req, statusCode, header, body, rest, now, rfl, rfl, hquiet, hcache⟩

/-- The request is one of the user, at the first two times that it reads. -/
def SessionOf (cfg : ProxySettings) (r : Request) (userID : Str) (ops : ProxyOps) : Prop :=
  ∃ t t' rest, ops = ⟨.now, t⟩ :: ⟨.now, t'⟩ :: rest ∧ userAt cfg r t t' = userID

/-- A request has one session. -/
theorem SessionOf.unique {userID' : Str} (h : SessionOf cfg r userID ops)
    (h' : SessionOf cfg r userID' ops) : userID = userID' := by
  obtain ⟨t1, t2, rest, rfl, rfl⟩ := h
  obtain ⟨t1', t2', rest', hops, rfl⟩ := h'
  cases hops
  rfl

/-- The reply comes after the quiet part. -/
theorem gets_append_of_quiet {ops' : ProxyOps} (h : Quiet ops) {body : Str} :
    Gets statusCode header body (ops ++ ops') ↔ Gets statusCode header body ops' := by
  constructor
  · rintro ⟨req, hmem⟩
    rcases List.mem_append.1 hmem with hmem | hmem
    · exact absurd rfl (h _ hmem req)
    · exact ⟨req, hmem⟩
  · rintro ⟨req, hmem⟩
    exact ⟨req, List.mem_append_right _ hmem⟩

/-- The reply of the only exchange. -/
theorem gets_cons_of_quiet (h : Quiet ops) {req : ProxyRequest} {reply : ExchangeReply}
    {body : Str} :
    Gets statusCode header body (⟨.exchange req, reply⟩ :: ops) ↔
      reply = .reply statusCode header body := by
  constructor
  · rintro ⟨req', hmem⟩
    rcases List.mem_cons.1 hmem with heq | hmem
    · cases heq
      rfl
    · exact absurd rfl (h _ hmem req')
  · rintro rfl
    exact ⟨req, .head _⟩

/-- The part of `handleAPIProxy` after the session. -/
def serve (cfg : ProxySettings) (r : Request) (userID : Str) : P ProxyResponse := do
  match ← lookup r userID with
  | some cached => return .relay cached.statusCode (Header.addAll [] cached.headers) cached.body
  | none => forward cfg r userID

/-- What a request does after its session, when the operations before it only read the clock. -/
theorem serve_runs {s0 : ProxyState} {before : ProxyOps}
    (h : solo.Runs (serve cfg r userID) s ops a s') (hcache0 : s.cache = s0.cache)
    (hquiet : Quiet before) (hclocks : ∀ t, Clocks t before → t ≤ s.now) :
    Outcome cfg r userID s0 (before ++ ops) s' := by
  obtain ⟨cached, s1, ops1, ops2, rfl, hlookup, h⟩ := h.bind
  obtain ⟨hquiet1, hlooked⟩ := lookup_runs hlookup
  have hquiet' : Quiet (before ++ ops1) := quiet_append hquiet hquiet1
  rw [hcache0] at hlooked
  rw [← List.append_assoc]
  rcases hlooked with ⟨rfl, hcache, hexpired⟩ | ⟨e, t, hlooks, hfound, rfl, hcache, ht, hlive,
    hread⟩
  · have hexpired' : Looks r userID → ∀ e, s0.cache.items.lookup (ownKey r userID) = some e →
        ∃ t, Clocks t (before ++ ops1 ++ ops2) ∧ after t e.expiry = true := by
      intro hlooks e he
      obtain ⟨t, ht, hafter⟩ := hexpired hlooks e he
      exact ⟨t, List.mem_append_left _ (List.mem_append_right _ ht), hafter⟩
    rcases forward_runs h with ⟨hreq, hquiet2, hcache2⟩ | ⟨req, reply, hreq, rfl, hcache2, hreply⟩ |
      ⟨req, statusCode, header, body, rest, now, hreq, rfl, hquiet2, hcache2⟩
    · have hall := quiet_append hquiet' hquiet2
      refine .failed hexpired' (hcache2.trans hcache) (fun _ _ _ => hall.not_gets) ?_
      rw [hreq]
      exact iff_of_false hall.not_exchanges (by simp)
    · refine .failed hexpired' (hcache2.trans hcache) (fun statusCode header body hgets => ?_)
        (iff_of_true ⟨req, reply, by simp⟩ (by rw [hreq]; rfl))
      rw [gets_append_of_quiet hquiet', gets_cons_of_quiet quiet_nil] at hgets
      exact hreply _ _ _ hgets
    · refine .replied statusCode header body now hexpired' (by rw [hreq]; rfl) ⟨req, by simp⟩
        (fun statusCode' header' body' hgets => ?_) ?_
      · rw [gets_append_of_quiet hquiet', gets_cons_of_quiet hquiet2] at hgets
        obtain ⟨rfl, rfl, rfl⟩ := ExchangeReply.reply.inj hgets
        exact ⟨rfl, rfl, rfl⟩
      · rw [hcache2, hcache]
  · obtain ⟨rfl, -, d, rfl⟩ := h
    rw [List.append_nil]
    refine .hit e hlooks hfound hcache (fun t' ht' => ?_) hquiet'.not_exchanges
    -- The other times are before the one at which the entry was found alive.
    have hle : t' ≤ t := by
      rcases List.mem_append.1 ht' with ht' | ht'
      · exact (hclocks t' ht').trans ht
      · exact (hread t' ht').le
    by_contra hafter
    rw [Bool.not_eq_false] at hafter
    rw [after_mono hle hafter] at hlive
    cases hlive

/-- What a request does when it runs alone. -/
theorem handleAPIProxy_runs (h : solo.Runs (handleAPIProxy cfg r) s ops a s') :
    (s'.cache = s.cache ∧ ops = [] ∧
      (cfg.apiURL = [] ∨ hasPrefix r.url.path "/api/internal/" = true)) ∨
    (cfg.apiURL ≠ [] ∧ hasPrefix r.url.path "/api/internal/" = false) ∧
      ∃ userID, SessionOf cfg r userID ops ∧ Outcome cfg r userID s ops s' := by
  unfold handleAPIProxy at h
  split_ifs at h with hurl hguard
  · obtain ⟨rfl, -, d, rfl⟩ := h
    exact .inl ⟨rfl, rfl, .inl hurl⟩
  · obtain ⟨rfl, -, d, rfl⟩ := h
    exact .inl ⟨rfl, rfl, .inr hguard⟩
  · obtain ⟨s1, x1, rest1, ⟨d1, rfl⟩, -, rfl, h⟩ := h
    obtain ⟨s2, x2, rest2, ⟨d2, rfl⟩, -, rfl, h⟩ := h
    change solo.Runs (serve cfg r (userAt cfg r (s.now + d1) (s.now + d1 + d2))) _ _ _ _ at h
    rw [Bool.not_eq_true] at hguard
    refine .inr ⟨⟨hurl, hguard⟩, userAt cfg r (s.now + d1) (s.now + d1 + d2),
      ⟨_, _, _, rfl, rfl⟩, ?_⟩
    -- The session reads the clock twice.
    show Outcome cfg r _ s ([⟨.now, s.now + d1⟩, ⟨.now, s.now + d1 + d2⟩] ++ rest2) s'
    refine serve_runs h rfl (by simp [Quiet]) fun t ht => ?_
    rcases List.mem_cons.1 ht with heq | ht
    · cases heq
      exact le_add_natCast _ d2
    · cases List.mem_singleton.1 ht
      exact le_rfl

/-! ### The answer -/

/-- What the proxy answers to the reply of vire-server. -/
def relayed : ExchangeReply → ProxyResponse
  | .unavailable => .error "\x7b\"error\":\"API server unavailable\"\x7d" 503
  | .unreadable => .error "\x7b\"error\":\"Failed to read API response\"\x7d" 502
  | .reply statusCode header body =>
    .relay statusCode (Header.addAll [] header) (body.take (maxCacheableBody + 1))

/-- A request that is not answered from the cache is answered with what vire-server replies, if it
can be made. -/
theorem forward_answer (h : solo.Runs (forward cfg r userID) s ops a s') :
    (proxyRequest cfg r userID = none ∧ a = failedRequest) ∨
      ∃ req reply, proxyRequest cfg r userID = some req ∧
        (⟨.exchange req, reply⟩ : (o : ProxyOp) × ProxyReply o) ∈ ops ∧ a = relayed reply := by
  unfold forward at h
  rcases hreq : proxyRequest cfg r userID with _ | req
  · rw [hreq] at h
    obtain ⟨-, rfl, -⟩ := h
    exact .inl ⟨rfl, rfl⟩
  · rw [hreq] at h
    obtain ⟨s1, reply, rest, -, -, rfl, h⟩ := h
    refine .inr ⟨req, reply, rfl, .head _, ?_⟩
    rcases reply with _ | _ | ⟨statusCode, header, body⟩
    · exact h.2.1
    · exact h.2.1
    · change solo.Runs (relayReply r userID statusCode header body) _ _ _ _ at h
      rw [relayReply_eq] at h
      obtain ⟨-, _, _, _, -, -, h⟩ := h.bind
      obtain ⟨-, _, _, _, -, -, h⟩ := h.bind
      obtain ⟨-, _, _, _, -, -, h⟩ := h.bind
      exact h.2.1

/-- What a request of a user is answered with: a response of the cache that has not expired, or what
vire-server replies. -/
theorem handleAPIProxy_answer (h : solo.Runs (handleAPIProxy cfg r) s ops a s')
    (hsession : SessionOf cfg r userID ops) :
    (∃ e t, Looks r userID ∧ s.cache.items.lookup (ownKey r userID) = some e ∧ s.now ≤ t ∧
      after t e.expiry = false ∧
      a = .relay e.resp.statusCode (Header.addAll [] e.resp.headers) e.resp.body) ∨
    (proxyRequest cfg r userID = none ∧ a = failedRequest) ∨
    ∃ req reply, proxyRequest cfg r userID = some req ∧
      (⟨.exchange req, reply⟩ : (o : ProxyOp) × ProxyReply o) ∈ ops ∧ a = relayed reply := by
  have hne : ops ≠ [] := by
    obtain ⟨t, t', rest, rfl, -⟩ := hsession
    exact List.cons_ne_nil _ _
  unfold handleAPIProxy at h
  split_ifs at h
  · exact absurd h.1 hne
  · exact absurd h.1 hne
  · obtain ⟨s1, x1, rest1, ⟨d1, rfl⟩, -, rfl, h⟩ := h
    obtain ⟨s2, x2, rest2, ⟨d2, rfl⟩, -, rfl, h⟩ := h
    change solo.Runs (serve cfg r (userAt cfg r (s.now + d1) (s.now + d1 + d2))) _ _ _ _ at h
    have huser : userAt cfg r (s.now + d1) (s.now + d1 + d2) = userID :=
      SessionOf.unique ⟨s.now + d1, s.now + d1 + d2, _, rfl, rfl⟩ hsession
    rw [huser] at h
    obtain ⟨cached, s3, ops1, ops2, rfl, hlookup, h⟩ := h.bind
    -- The cache has no answer and the request is forwarded, or it has one.
    obtain ⟨-, ⟨rfl, -, -⟩ | ⟨e, t, hlooks, hfound, rfl, -, ht, hlive, -⟩⟩ := lookup_runs hlookup
    · obtain hnone | ⟨req, reply, hreq, hmem, ha⟩ := forward_answer h
      · exact .inr (.inl hnone)
      · refine .inr (.inr ⟨req, reply, hreq, ?_, ha⟩)
        exact List.mem_cons_of_mem _ (.tail _ (List.mem_append_right _ hmem))
    · have hle : s.now ≤ t := ((le_add_natCast _ d1).trans (le_add_natCast _ d2)).trans ht
      exact .inl ⟨e, t, hlooks, hfound, hle, hlive, h.2.1⟩

end VirePortal.Server
