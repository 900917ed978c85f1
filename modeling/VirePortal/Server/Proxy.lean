import VirePortal.Auth.Jwt
import VirePortal.Server.Cache

/-!
# The API proxy

`handleAPIProxy` of `routes.go` as a program over atomic operations: the clock, the critical
sections of the response cache, and the exchange with vire-server. The pool of its requests is
`proxy`.

A request is forwarded with its headers as they are, and with the identity of a validated session on
top (`forwardedHeader`).
-/

namespace VirePortal.Server

open Go Auth Concurrent

/-- The request that goes to vire-server. Its body is the one of the incoming request. -/
structure ProxyRequest where
  method : Str
  url : Str
  header : Header
  deriving DecidableEq

/-- What comes of an exchange: no reply, a reply whose body cannot be read, or a reply. -/
inductive ExchangeReply where
  | unavailable
  | unreadable
  | reply (statusCode : ℕ) (header : Header) (body : Str)
  deriving DecidableEq

/-- The atomic operations. -/
inductive ProxyOp where
  /-- `time.Now`. -/
  | now
  /-- `ResponseCache.Get`, the section under the read lock. -/
  | cacheLookup (key : Str)
  /-- `ResponseCache.Get`, the section that removes an expired entry. -/
  | cacheExpire (key : Str)
  /-- `ResponseCache.Set`. -/
  | cacheSet (key : Str) (resp : CachedResponse)
  /-- `ResponseCache.InvalidatePrefix`. -/
  | cacheInvalidate (path : Str)
  /-- `client.Do` and the read of the reply. -/
  | exchange (req : ProxyRequest)

/-- What a program receives from an operation. -/
@[reducible]
def ProxyReply : ProxyOp → Type
  | .now => Time
  | .cacheLookup _ => Option CacheEntry
  | .cacheExpire _ => Unit
  | .cacheSet _ _ => Unit
  | .cacheInvalidate _ => Unit
  | .exchange _ => ExchangeReply

/-- The state that the requests share. -/
structure ProxyState where
  now : Time := 0
  cache : ResponseCache

/-- What an operation replies and does. The environment decides the reply of vire-server. -/
def proxyExec : (o : ProxyOp) → ExchangeReply → ProxyState → ProxyReply o × ProxyState
  | .now, _, s => (s.now, s)
  | .cacheLookup key, _, s => (s.cache.items.lookup key, s)
  | .cacheExpire key, _, s => ((), { s with cache := s.cache.removeExpired key s.now })
  | .cacheSet key resp, _, s => ((), { s with cache := s.cache.set key resp s.now })
  | .cacheInvalidate path, _, s => ((), { s with cache := s.cache.invalidatePrefix path })
  | .exchange _, reply, s => (reply, s)

/-- A program over the operations. -/
abbrev P := Prog ProxyOp ProxyReply

/-- The program of one operation. -/
def step (o : ProxyOp) : P (ProxyReply o) := .call o

/-- What the proxy answers. -/
inductive ProxyResponse where
  /-- `http.Error`. -/
  | error (text : Str) (code : ℕ)
  /-- A reply of vire-server, from the cache or just received. -/
  | relay (statusCode : ℕ) (header : Header) (body : Str)
  deriving DecidableEq

/-- What the proxy is configured with. -/
structure ProxySettings where
  /-- `Config.API.URL`. -/
  apiURL : Str
  /-- `Config.Auth.JWTSecret`. -/
  secret : Str
  /-- The functions of the standard library. -/
  codec : Codec

/-- `ResponseCache.Get`. -/
def cacheGet (key : Str) : P (Option CachedResponse) := do
  match ← step (.cacheLookup key) with
  | none => return none
  | some e => do
    let now ← step .now
    if after now e.expiry then do
      step (.cacheExpire key)
      return none
    else return some e.resp

/-- `URL.RequestURI`. -/
def requestURI (u : URL) : Str :=
  let path := u.escapedPath
  let result :=
    if u.opaqueData = [] then (if path = [] then [47] else path)
    else if hasPrefix u.opaqueData "//" then u.scheme ++ 58 :: u.opaqueData
    else u.opaqueData
  result ++ if u.forceQuery ∨ u.rawQuery ≠ [] then 63 :: u.rawQuery else []

/-- `userID`: the `sub` of the session. -/
def sessionUser : Option JWTClaims → Str
  | some claims => claims.sub
  | none => []

/-- `targetURL`. -/
def targetURL (cfg : ProxySettings) (r : Request) : Str :=
  cfg.apiURL ++ r.url.path ++ if r.url.rawQuery ≠ [] then 63 :: r.url.rawQuery else []

/-- The headers of the forwarded request: those of the client, and the user of the session. -/
def forwardedHeader (r : Request) (userID : Str) : Header :=
  let copied := Header.addAll [] r.header
  if userID ≠ [] then copied.set "X-Vire-User-ID" userID else copied

/-- `http.NewRequestWithContext` and the headers, `none` when it returns an error. -/
def proxyRequest (cfg : ProxySettings) (r : Request) (userID : Str) : Option ProxyRequest :=
  let method := if r.method = [] then ascii "GET" else r.method
  if validMethod method && (URL.parse (targetURL cfg r)).isSome then
    some ⟨method, targetURL cfg r, forwardedHeader r userID⟩
  else none

/-- `maxCacheableBody`. -/
def maxCacheableBody : ℕ := 5 * 1024 * 1024

/-- Whether a reply is cached. -/
def cacheable (r : Request) (userID : Str) (statusCode : ℕ) (body : Str) : Bool :=
  r.method = "GET" && userID ≠ [] && 200 ≤ statusCode && statusCode < 300 &&
    body.length ≤ maxCacheableBody

/-- The part of `handleAPIProxy` after a reply: the cache is brought up to date, and the reply goes
to the client, up to the limit of its length. -/
def relayReply (r : Request) (userID : Str) (statusCode : ℕ) (header : Header) (full : Str) :
    P ProxyResponse := do
  let body := full.take (maxCacheableBody + 1)
  if cacheable r userID statusCode body then
    step (.cacheSet (makeKey userID r.method (requestURI r.url)) ⟨statusCode, header, body⟩)
  if r.query.get "force_refresh" = "true" ∧ userID ≠ [] then
    step (.cacheInvalidate r.url.path)
  if r.method ≠ "GET" ∧ userID ≠ [] then
    step (.cacheInvalidate r.url.path)
  return .relay statusCode (Header.addAll [] header) body

/-- The part of `handleAPIProxy` after the cache. -/
def forward (cfg : ProxySettings) (r : Request) (userID : Str) : P ProxyResponse :=
  match proxyRequest cfg r userID with
  | none => return .error "\x7b\"error\":\"Failed to create proxy request\"\x7d" 500
  | some req => do
    match ← step (.exchange req) with
    | .unavailable => return .error "\x7b\"error\":\"API server unavailable\"\x7d" 503
    | .unreadable => return .error "\x7b\"error\":\"Failed to read API response\"\x7d" 502
    | .reply statusCode header body => relayReply r userID statusCode header body

/-- The lookup of `handleAPIProxy` in the cache, for a `GET` request with a session. -/
def lookup (r : Request) (userID : Str) : P (Option CachedResponse) :=
  if r.method = "GET" ∧ userID ≠ [] then cacheGet (makeKey userID r.method (requestURI r.url))
  else return none

/-- `handleAPIProxy`. -/
def handleAPIProxy (cfg : ProxySettings) (r : Request) : P ProxyResponse :=
  if cfg.apiURL = [] then
    return .error "\x7b\"error\":\"API server not configured\"\x7d" 503
  else if hasPrefix r.url.path "/api/internal/" then
    return .error "\x7b\"error\":\"Not Found\"\x7d" 404
  else do
    let now ← step .now
    let now' ← step .now
    let userID := sessionUser (isLoggedIn cfg.codec r cfg.secret now now')
    match ← lookup r userID with
    | some cached => return .relay cached.statusCode (Header.addAll [] cached.headers) cached.body
    | none => forward cfg r userID

/-- The pool of the requests that the proxy serves: their programs, the clock, and restarts, which
empty the cache. -/
def proxy (cfg : ProxySettings) :
    System ProxyOp ProxyReply ProxyState ExchangeReply ℕ Request ProxyResponse :=
  ⟨proxyExec, handleAPIProxy cfg, fun d s => { s with now := s.now + d },
    fun s => { s with cache := { s.cache with items := ∅, nextIdx := 0 } }⟩

/-- An entry of the proxy's log. -/
abbrev ProxyEntry := Entry ProxyOp ProxyReply ProxyState ℕ Request ProxyResponse

/-! ### The operations of `handleAPIProxy` -/

variable {cfg : ProxySettings} {r : Request}

/-- The request that is made, and when it is. -/
theorem proxyRequest_eq_some {userID : Str} {req : ProxyRequest}
    (h : proxyRequest cfg r userID = some req) :
    req.url = targetURL cfg r ∧ req.header = forwardedHeader r userID := by
  unfold proxyRequest at h
  dsimp only at h
  split_ifs at h
  all_goals
    rw [← Option.some.inj h]
    exact ⟨rfl, rfl⟩

/-- The request of a valid method is made exactly when its URL is well formed. -/
theorem proxyRequest_isSome (hmethod : validMethod r.method = true) (userID : Str) :
    (proxyRequest cfg r userID).isSome = (URL.parse (targetURL cfg r)).isSome := by
  have hne : r.method ≠ [] := by
    rintro hnil
    rw [hnil] at hmethod
    exact absurd hmethod (by decide)
  unfold proxyRequest
  dsimp only
  rw [if_neg hne, hmethod, Bool.true_and]
  split_ifs with hurl
  · exact hurl.symm
  · rw [Bool.not_eq_true] at hurl
    exact hurl.symm

/-- The lookup sends nothing. -/
theorem quiet_lookup (r : Request) (userID : Str) :
    (lookup r userID).All fun o => ∀ req, o ≠ .exchange req := by
  unfold lookup
  split_ifs
  · refine ⟨by simp, fun e => ?_⟩
    rcases e with _ | e
    · trivial
    · refine ⟨by simp, fun now => ?_⟩
      show Prog.All _ (if after now e.expiry then _ else _)
      split_ifs
      · exact ⟨by simp, fun _ => trivial⟩
      · trivial
  · trivial

/-- Relaying sends nothing. -/
theorem quiet_relayReply (r : Request) (userID : Str) (statusCode : ℕ) (header : Header)
    (full : Str) :
    (relayReply r userID statusCode header full).All fun o => ∀ req, o ≠ .exchange req := by
  unfold relayReply
  dsimp only
  split_ifs
  all_goals repeat' first | trivial | refine ⟨by simp, fun _ => ?_⟩

/-- The answer to a request that cannot be made. -/
def failedRequest : ProxyResponse :=
  .error "\x7b\"error\":\"Failed to create proxy request\"\x7d" 500

/-- The user of the session of a request that reads the clock at `now` and `now'`. -/
def userAt (cfg : ProxySettings) (r : Request) (now now' : Time) : Str :=
  sessionUser (isLoggedIn cfg.codec r cfg.secret now now')

/-- A reply is relayed. -/
theorem relayReply_results (r : Request) (userID : Str) (statusCode : ℕ) (header : Header)
    (full : Str) :
    (relayReply r userID statusCode header full).Results fun a => a ≠ failedRequest := by
  have hrelay : ∀ body, ProxyResponse.relay statusCode (Header.addAll [] header) body ≠
      failedRequest :=
    nofun
  unfold relayReply
  dsimp only
  split_ifs
  all_goals repeat' first | exact hrelay _ | refine fun _ => ?_

/-- A lookup may miss, so what follows it happens. -/
theorem all_of_lookup {α : Type} {Q : ProxyOp → Prop} {userID : Str}
    {f : Option CachedResponse → P α} (h : (lookup r userID >>= f).All Q) : (f none).All Q := by
  unfold lookup at h
  split_ifs at h
  · exact h.2 none
  · exact h

/-- The results without a cached reply. -/
theorem results_of_lookup {α : Type} {Q : α → Prop} {userID : Str} {f : Option CachedResponse → P α}
    (h : (lookup r userID >>= f).Results Q) : (f none).Results Q := by
  unfold lookup at h
  split_ifs at h
  · exact h none
  · exact h

/-- The results with any cached reply. -/
theorem results_lookup {α : Type} {Q : α → Prop} {userID : Str} {f : Option CachedResponse → P α}
    (h : ∀ cached, (f cached).Results Q) : (lookup r userID >>= f).Results Q := by
  unfold lookup
  split_ifs
  · intro e
    rcases e with _ | e
    · exact h none
    · intro now
      show ((if after now e.expiry then _ else _ : P (Option CachedResponse)) >>= f).Results Q
      split_ifs
      · exact fun _ => h none
      · exact h _
  · exact h none

/-- The requests that `handleAPIProxy` can come to send to vire-server. -/
theorem handleAPIProxy_sends {Q : ProxyRequest → Prop} :
    ((handleAPIProxy cfg r).All fun o => ∀ req, o = .exchange req → Q req) ↔
      cfg.apiURL = [] ∨ hasPrefix r.url.path "/api/internal/" = true ∨
        ∀ now now' req, proxyRequest cfg r (userAt cfg r now now') = some req → Q req := by
  have hquiet : ∀ o : ProxyOp, (∀ req, o ≠ .exchange req) → ∀ req, o = .exchange req → Q req :=
    fun o ho req hreq => absurd hreq (ho req)
  unfold handleAPIProxy
  split_ifs with hurl hguard
  · exact iff_of_true trivial (.inl hurl)
  · exact iff_of_true trivial (.inr (.inl hguard))
  · rw [or_iff_right hurl, or_iff_right hguard]
    constructor
    · intro h now now' req hreq
      have hforward := all_of_lookup ((h.2 now).2 now')
      change (forward cfg r (userAt cfg r now now')).All _ at hforward
      rw [forward, hreq] at hforward
      exact hforward.1 req rfl
    · intro h
      refine ⟨hquiet _ (by simp), fun now => ⟨hquiet _ (by simp), fun now' => ?_⟩⟩
      show (lookup r (userAt cfg r now now') >>= _).All _
      refine Prog.all_bind ((quiet_lookup _ _).imp hquiet) fun cached => ?_
      rcases cached with _ | cached
      · show (forward cfg r (userAt cfg r now now')).All _
        unfold forward
        rcases hreq : proxyRequest cfg r (userAt cfg r now now') with _ | req
        · trivial
        · refine ⟨fun req' hreq' => ?_, fun reply => ?_⟩
          · cases hreq'
            exact h now now' req hreq
          · rcases reply with _ | _ | ⟨statusCode, header, body⟩
            · trivial
            · trivial
            · exact (quiet_relayReply _ _ _ _ _).imp hquiet
      · trivial

/-- When `handleAPIProxy` can make its request. -/
theorem handleAPIProxy_created :
    (handleAPIProxy cfg r).Results (fun a => a ≠ failedRequest) ↔
      cfg.apiURL = [] ∨ hasPrefix r.url.path "/api/internal/" = true ∨
        ∀ now now', (proxyRequest cfg r (userAt cfg r now now')).isSome = true := by
  unfold handleAPIProxy
  split_ifs with hurl hguard
  · refine iff_of_true ?_ (.inl hurl)
    show ProxyResponse.error _ _ ≠ failedRequest
    decide
  · refine iff_of_true ?_ (.inr (.inl hguard))
    show ProxyResponse.error _ _ ≠ failedRequest
    decide
  · rw [or_iff_right hurl, or_iff_right hguard]
    constructor
    · intro h now now'
      have hforward := results_of_lookup (h now now')
      change (forward cfg r (userAt cfg r now now')).Results _ at hforward
      rcases hreq : proxyRequest cfg r (userAt cfg r now now') with _ | req
      · rw [forward, hreq] at hforward
        exact absurd rfl hforward
      · rfl
    · intro h now now'
      show (lookup r (userAt cfg r now now') >>= _).Results _
      refine results_lookup fun cached => ?_
      rcases cached with _ | cached
      · show (forward cfg r (userAt cfg r now now')).Results _
        obtain ⟨req, hreq⟩ := Option.isSome_iff_exists.1 (h now now')
        rw [forward, hreq]
        intro reply
        rcases reply with _ | _ | ⟨statusCode, header, body⟩
        · show ProxyResponse.error _ _ ≠ failedRequest
          decide
        · show ProxyResponse.error _ _ ≠ failedRequest
          decide
        · exact relayReply_results _ _ _ _ _
      · exact nofun

end VirePortal.Server
