import VirePortal.Pages.VireStore
import VirePortal.Server.CacheIsolation
import VirePortal.Server.Sequential

/-!
# The default portfolio behind two caches

`toggleDefault` of `common.js` sends `PUT /api/portfolios/default` and then invalidates
`/api/portfolios` in the store of the page. The list of the portfolios, which names the default,
comes through two caches: the store, and the response cache of the portal. The store drops the list,
since it removes the URLs that start with the path. The portal does not: it removes the entries
whose key contains the path of the request that it has forwarded, and `/api/portfolios/default` is
not part of the key of the list.

So the first request for the list after a change is answered by vire-server if the portal has no
entry of the list, or an expired one (`list_after_toggle`), and an entry that is still fresh is
served instead (`list_after_toggle_fails`). The requests run one after the other; vire-server is any
relation between its state, a request, its reply and its next state.
-/

namespace VirePortal.Pages.DefaultPortfolio

open Go Auth Concurrent Server VireStore CacheIsolation IdentityHeaders
open Dashboard (Response)

/-! ### The requests -/

/-- The path of the list. -/
def listPath : Str := "/api/portfolios"

/-- `GET /api/portfolios`. -/
def IsList (r : Request) : Prop := r.method = "GET" ∧ r.url = { path := listPath }

/-- `PUT /api/portfolios/default`. -/
def IsPut (r : Request) : Prop :=
  r.method = "PUT" ∧ r.url = { path := "/api/portfolios/default" }

/-- The response that the browser gets. -/
def toResponse : ProxyResponse → Response Str
  | .error text code => ⟨200 ≤ code ∧ code < 300, some text⟩
  | .relay statusCode _ body => ⟨200 ≤ statusCode ∧ statusCode < 300, some body⟩

/-- How vire-server replies to a request in a state, and the state after it. -/
abbrev Backend (σ : Type) := σ → ProxyRequest → ExchangeReply → σ → Prop

/-- The page of a user, the portal and vire-server. -/
structure World (σ : Type) where
  browser : Store Str
  proxy : ProxyState
  server : σ

variable {σ : Type} {cfg : ProxySettings} {backend : Backend σ} {user : Str}

/-- A request of the user at the portal, with its operations and its answer. -/
structure Portal (cfg : ProxySettings) (backend : Backend σ) (user : Str) (r : Request)
    (w : World σ) (ops : ProxyOps) (a : ProxyResponse) (proxy : ProxyState) (server : σ) :
    Prop where
  runs : solo.Runs (handleAPIProxy cfg r) w.proxy ops a proxy
  session : SessionOf cfg r user ops
  /-- Its exchange is one with vire-server in its current state. -/
  exchange {req : ProxyRequest} {reply : ExchangeReply}
    (h : (⟨.exchange req, reply⟩ : (o : ProxyOp) × ProxyReply o) ∈ ops) :
      backend w.server req reply server
  quiet (h : ¬ Exchanges ops) : server = w.server

/-! ### The steps -/

/-- `vireStore.fetch('/api/portfolios')` finds a response in the store. -/
def Hits (s : Store Str) (resp : Response Str) : Prop :=
  ∃ e, s.cache listPath = some e ∧ s.now < e.expiry ∧ e.resp = resp

/-- `vireStore.fetch('/api/portfolios')`, with its outcome. -/
inductive Listed (cfg : ProxySettings) (backend : Backend σ) (user : Str) (w : World σ) :
    Option (Response Str) → World σ → Prop where
  /-- It is served by the store. -/
  | hit {resp : Response Str} (h : Hits w.browser resp) :
      Listed cfg backend user w (some resp) { w with browser := w.browser.fetch listPath }
  /-- It sends a request, which the portal answers. -/
  | sent {r : Request} {ops : ProxyOps} {a : ProxyResponse} {proxy : ProxyState} {server : σ}
      (hmiss : ∀ resp, ¬ Hits w.browser resp) (hr : IsList r)
      (hportal : Portal cfg backend user r w ops a proxy server) :
      Listed cfg backend user w (some (toResponse a))
        ⟨(w.browser.fetch listPath).settle ⟨w.browser.nextId, listPath⟩ (some (toResponse a)),
          proxy, server⟩
  /-- It sends a request that does not reach the portal. -/
  | rejected (hmiss : ∀ resp, ¬ Hits w.browser resp) :
      Listed cfg backend user w none
        { w with browser := (w.browser.fetch listPath).settle ⟨w.browser.nextId, listPath⟩ none }

/-- `toggleDefault`: its request has been answered, and it has called `invalidate`. -/
structure Toggled (cfg : ProxySettings) (backend : Backend σ) (user : Str) (w w' : World σ)
    (a : ProxyResponse) :
    Prop where
  sent : ∃ r ops, IsPut r ∧ Portal cfg backend user r w ops a w'.proxy w'.server
  browser_eq : w'.browser = w.browser.invalidate listPath

/-- Time passes. -/
structure Waited (w w' : World σ) : Prop where
  browser_eq : ∃ ms, w'.browser = { w.browser with now := w.browser.now + ms }
  proxy_eq : ∃ d : ℕ, w'.proxy = { w.proxy with now := w.proxy.now + d }
  server_eq : w'.server = w.server

/-- The requests of the page so far, one after the other. -/
inductive History (cfg : ProxySettings) (backend : Backend σ) (user : Str) : World σ → Prop where
  | start (proxy : ProxyState) (server : σ) : History cfg backend user ⟨.start, proxy, server⟩
  | listed {w w' : World σ} {outcome : Option (Response Str)} (h : History cfg backend user w)
      (hstep : Listed cfg backend user w outcome w') : History cfg backend user w'
  | toggled {w w' : World σ} {a : ProxyResponse} (h : History cfg backend user w)
      (hstep : Toggled cfg backend user w w' a) : History cfg backend user w'
  | waited {w w' : World σ} (h : History cfg backend user w) (hstep : Waited w w') :
    History cfg backend user w'

/-! ### The store of the page -/

variable {w w' w1 w2 w3 : World σ} {s : Store Str}

/-- Without a response in the store and a request under way, `fetch` sends one. -/
theorem fetch_of_miss (hmiss : ∀ resp, ¬ Hits s resp) (hidle : s.inflight listPath = none) :
    s.fetch listPath = s.send listPath := by
  have hsend : s.miss listPath = s.send listPath := by
    unfold Store.miss
    rw [hidle]
  unfold Store.fetch
  cases he : s.cache listPath with
  | none => exact hsend
  | some e =>
    have hexpired : ¬ s.now < e.expiry := fun hlt => hmiss e.resp ⟨e, he, hlt, rfl⟩
    simp only [if_neg hexpired]
    exact hsend

/-- A call that hits the cache sends nothing. -/
theorem fetch_of_hit {resp : Response Str} (hhit : Hits s resp) :
    (s.fetch listPath).inflight = s.inflight := by
  obtain ⟨e, he, hlt, -⟩ := hhit
  unfold Store.fetch
  rw [he]
  simp only [if_pos hlt]
  rfl

/-- Between the requests of the page none is under way. -/
theorem History.idle (h : History cfg backend user w) : w.browser.inflight listPath = none := by
  induction h with
  | start => rfl
  | listed _ hstep ih =>
    cases hstep with
    | hit hhit => rw [fetch_of_hit hhit, ih]
    | sent _ _ _ => exact Store.inflight_settle _ ⟨_, listPath⟩ (some _)
    | rejected _ => exact Store.inflight_settle _ ⟨_, listPath⟩ none
  | toggled _ hstep ih =>
    rw [hstep.browser_eq]
    exact ih
  | waited _ hstep ih =>
    obtain ⟨ms, heq⟩ := hstep.browser_eq
    rw [heq]
    exact ih

/-- The store has dropped the list. -/
theorem not_hits_of_toggled {a : ProxyResponse} (htoggled : Toggled cfg backend user w w1 a)
    (hwaited : Waited w1 w2) (resp : Response Str) : ¬ Hits w2.browser resp := by
  rintro ⟨e, he, -, -⟩
  obtain ⟨ms, hbrowser⟩ := hwaited.browser_eq
  have hprefix : hasPrefix listPath listPath = true := by decide
  have hnone : w2.browser.cache listPath = none := by
    rw [hbrowser, htoggled.browser_eq]
    exact Store.cache_invalidate w.browser hprefix
  rw [hnone] at he
  exact absurd he (Option.some_ne_none e).symm

/-! ### The cache of the portal -/

/-- The portal has no response for the list that it could still use. -/
def Cold (user : Str) (w : World σ) : Prop :=
  ∀ e, w.proxy.cache.items.lookup (makeKey user "GET" listPath) = some e →
    after w.proxy.now e.expiry = true

/-- The list has one key for each user. -/
theorem ownKey_of_isList {r : Request} (hr : IsList r) :
    ownKey r user = makeKey user "GET" listPath := by
  obtain ⟨hmethod, hurl⟩ := hr
  have huri : requestURI { path := listPath } = listPath := by decide
  rw [ownKey, hmethod, hurl, huri]

/-- The answer is the reply of vire-server in the state `server`, or the error that no request could
be made. -/
def FromServer (cfg : ProxySettings) (backend : Backend σ) (user : Str) (server server' : σ)
    (a : ProxyResponse) :
    Prop :=
  ∃ r, IsList r ∧ ((proxyRequest cfg r user = none ∧ a = failedRequest) ∨
    ∃ req reply, proxyRequest cfg r user = some req ∧ backend server req reply server' ∧
      a = relayed reply)

/-- With a cold cache the list comes from vire-server. -/
theorem Portal.fromServer {r : Request} {ops : ProxyOps} {a : ProxyResponse} {proxy : ProxyState}
    {server : σ} (hr : IsList r) (hcold : Cold user w)
    (h : Portal cfg backend user r w ops a proxy server) :
    FromServer cfg backend user w.server server a := by
  refine ⟨r, hr, ?_⟩
  obtain ⟨e, t, -, hfound, hle, hlive, -⟩ | hnone | ⟨req, reply, hreq, hmem, ha⟩ :=
    handleAPIProxy_answer h.runs h.session
  · -- what the portal has for the list has expired
    rw [ownKey_of_isList hr] at hfound
    rw [after_mono hle (hcold e hfound)] at hlive
    exact absurd hlive Bool.noConfusion
  · exact .inl hnone
  · exact .inr ⟨req, reply, hreq, h.exchange hmem, ha⟩

/-- The first request for the list after a change, if the portal has no response that it could still
use: it is sent, and if it gets a response, then one that vire-server has made in its state after
the change. -/
theorem list_after_toggle {a : ProxyResponse} {outcome : Option (Response Str)}
    (h : History cfg backend user w) (htoggled : Toggled cfg backend user w w1 a)
    (hwaited : Waited w1 w2) (hcold : Cold user w2)
    (hlisted : Listed cfg backend user w2 outcome w3) :
    w2.browser.fetch listPath = w2.browser.send listPath ∧
      (outcome = none ∨ ∃ answer, outcome = some (toResponse answer) ∧
        FromServer cfg backend user w1.server w3.server answer) := by
  have hmiss := not_hits_of_toggled htoggled hwaited
  refine ⟨fetch_of_miss hmiss ((h.toggled htoggled).waited hwaited).idle, ?_⟩
  cases hlisted with
  | hit hhit => exact absurd hhit (hmiss _)
  | rejected _ => exact .inl rfl
  | sent _ hr hportal =>
    refine .inr ⟨_, rfl, ?_⟩
    rw [← hwaited.server_eq]
    exact hportal.fromServer hr hcold

/-! ### Two pages -/

/-- A vire-server that tells whether the default has been changed. -/
def sampleBackend : Backend Bool := fun changed req reply changed' =>
  if req.method = "GET" then
    reply = .reply 200 [] (if changed then "new" else "old") ∧ changed' = changed
  else reply = .reply 200 [] [] ∧ changed' = true

/-- The request for the list. -/
def sampleList : Request := ofA listPath

/-- The request of `toggleDefault`. -/
def samplePut : Request := { ofA "/api/portfolios/default" with method := "PUT" }

/-- The exchanges of a request. -/
def exchanges (ops : ProxyOps) : List (ProxyRequest × ExchangeReply) :=
  ops.filterMap fun
    | ⟨.exchange req, reply⟩ => some (req, reply)
    | _ => none

/-- An exchange of a request is one of its exchanges. -/
theorem mem_exchanges {ops : ProxyOps} {req : ProxyRequest} {reply : ExchangeReply}
    (h : (⟨.exchange req, reply⟩ : (o : ProxyOp) × ProxyReply o) ∈ ops) :
    (req, reply) ∈ exchanges ops :=
  List.mem_filterMap.2 ⟨_, h, rfl⟩

/-- A request that exchanges once. -/
theorem portal_of_exchange {r : Request} {es : List ExchangeReply} {ops : ProxyOps}
    {a : ProxyResponse} {proxy : ProxyState} {server : σ} {req : ProxyRequest}
    {reply : ExchangeReply}
    (hrun : solo.run (handleAPIProxy cfg r) es w.proxy = some (ops, a, proxy))
    (hsession : SessionOf cfg r user ops) (hops : exchanges ops = [(req, reply)])
    (hreply : backend w.server req reply server) :
    Portal cfg backend user r w ops a proxy server where
  runs := .of_run (fun _ _ _ => trivial) hrun
  session := hsession
  exchange h := by
    have hmem := mem_exchanges h
    rw [hops, List.mem_singleton] at hmem
    obtain ⟨rfl, rfl⟩ := Prod.mk.inj hmem
    exact hreply
  quiet h := by
    refine absurd ?_ h
    have hmem : (req, reply) ∈ exchanges ops := hops ▸ List.mem_cons_self
    obtain ⟨⟨o, x⟩, hop, heq⟩ := List.mem_filterMap.1 hmem
    cases o <;> cases heq
    exact ⟨req, reply, hop⟩

/-- The user changes the default. -/
theorem toggled_sample (browser : Store Str) (c : ResponseCache) :
    Toggled twoUsersSettings sampleBackend "a" ⟨browser, { cache := c }, false⟩
      ⟨browser.invalidate listPath, { cache := c.invalidatePrefix "/api/portfolios/default" }, true⟩
      (.relay 200 [] []) := by
  have hrun : ∃ ops, solo.run (handleAPIProxy twoUsersSettings samplePut)
      [.unavailable, .unavailable, .reply 200 [] [], .unavailable] { cache := c } =
        some (ops, .relay 200 [] [], { cache := c.invalidatePrefix "/api/portfolios/default" }) ∧
      SessionOf twoUsersSettings samplePut "a" ops ∧
      exchanges ops = [(⟨"PUT", "http://v/api/portfolios/default",
        [("X-Vire-User-Id", ["a"])]⟩, .reply 200 [] [])] :=
    ⟨_, rfl, ⟨0, 0, _, rfl, rfl⟩, rfl⟩
  obtain ⟨ops, hrun, hsession, hops⟩ := hrun
  refine ⟨⟨samplePut, ops, ⟨rfl, rfl⟩, portal_of_exchange hrun hsession hops ?_⟩, rfl⟩
  rw [sampleBackend, if_neg (by decide)]
  exact ⟨rfl, rfl⟩

/-- The key of the list. -/
def listKey : Str := makeKey "a" "GET" listPath

/-- The world after the list has come from vire-server. -/
def listedWorld (browser : Store Str) (proxy : ProxyState) (changed : Bool) (body : Str) :
    World Bool where
  browser := (browser.fetch listPath).settle ⟨browser.nextId, listPath⟩ (some ⟨true, some body⟩)
  proxy := proxy
  server := changed

/-- The user asks for the list, which neither cache has. -/
theorem listed_sample {w : World Bool} (es : List ExchangeReply) {proxy : ProxyState} {body : Str}
    (hmiss : ∀ resp, ¬ Hits w.browser resp)
    (hbody : body = if w.server then ascii "new" else ascii "old")
    (hruns : ∃ ops, solo.run (handleAPIProxy twoUsersSettings sampleList) es w.proxy =
        some (ops, .relay 200 [] body, proxy) ∧
      SessionOf twoUsersSettings sampleList (ascii "a") ops ∧
      exchanges ops = [(⟨ascii "GET", ascii "http://v/api/portfolios",
        [(ascii "X-Vire-User-Id", [ascii "a"])]⟩, .reply 200 [] body)]) :
    Listed twoUsersSettings sampleBackend (ascii "a") w (some ⟨true, some body⟩)
      (listedWorld w.browser proxy w.server body) := by
  obtain ⟨ops, hrun, hsession, hops⟩ := hruns
  have hreply : sampleBackend w.server ⟨ascii "GET", ascii "http://v/api/portfolios",
      [(ascii "X-Vire-User-Id", [ascii "a"])]⟩ (.reply 200 [] body) w.server := by
    rw [sampleBackend, if_pos rfl, hbody]
    exact ⟨rfl, rfl⟩
  exact .sent hmiss ⟨rfl, rfl⟩ (portal_of_exchange hrun hsession hops hreply)

/-- The store of a new page has nothing. -/
theorem not_hits_start (resp : Response Str) : ¬ Hits Store.start resp := by
  rintro ⟨e, he, -⟩
  exact absurd he (Option.some_ne_none e).symm

/-- The page of a user who has seen the list. -/
def cached : World Bool :=
  listedWorld .start { cache := emptyCache.cache.set listKey ⟨200, [], "old"⟩ 0 } false "old"

/-- The same after a change of the default. -/
def cachedChanged : World Bool :=
  ⟨cached.browser.invalidate listPath,
    { cache := cached.proxy.cache.invalidatePrefix "/api/portfolios/default" }, true⟩

/-- The list has come from vire-server. -/
theorem cached_history : History twoUsersSettings sampleBackend "a" cached := by
  have hlisted : Listed twoUsersSettings sampleBackend "a" ⟨.start, emptyCache, false⟩
      (some ⟨true, some "old"⟩) cached :=
    listed_sample [.unavailable, .unavailable, .unavailable, .reply 200 [] "old", .unavailable]
      not_hits_start rfl ⟨_, rfl, ⟨0, 0, _, rfl, rfl⟩, rfl⟩
  exact (History.start emptyCache false).listed hlisted

/-- The same 31 seconds later. -/
def cachedLate : World Bool :=
  { cachedChanged with
    browser := { cachedChanged.browser with now := cachedChanged.browser.now + 31000 }
    proxy := { cachedChanged.proxy with now := cachedChanged.proxy.now + (31000000000 : ℕ) } }

/-- The user has seen the list and changes the default. Once the response of the portal has expired,
the user sees the new one. -/
theorem list_after_toggle_late :
    cachedLate.proxy.cache.items.lookup listKey = some ⟨⟨200, [], "old"⟩, seconds 30, 0⟩ ∧
      Cold "a" cachedLate ∧ ∃ w3, Listed twoUsersSettings sampleBackend "a" cachedLate
        (some ⟨true, some "new"⟩) w3 ∧ ∃ answer, toResponse answer = ⟨true, some "new"⟩ ∧
      FromServer twoUsersSettings sampleBackend "a" true w3.server answer := by
  have htoggled := toggled_sample cached.browser cached.proxy.cache
  have hwaited : Waited cachedChanged cachedLate := ⟨⟨31000, rfl⟩, ⟨31000000000, rfl⟩, rfl⟩
  have hcold : Cold "a" cachedLate := by
    rintro e ⟨⟩
    decide
  have hlisted : Listed twoUsersSettings sampleBackend "a" cachedLate (some ⟨true, some "new"⟩)
      (listedWorld cachedLate.browser { cachedLate.proxy with
        cache := (cachedLate.proxy.cache.removeExpired listKey (seconds 31)).set listKey
          ⟨200, [], "new"⟩ (seconds 31) } true "new") :=
    listed_sample (List.replicate 5 .unavailable ++ [.reply 200 [] "new", .unavailable])
      (not_hits_of_toggled htoggled hwaited) rfl ⟨_, rfl, ⟨seconds 31, seconds 31, _, rfl, rfl⟩,
        rfl⟩
  refine ⟨rfl, hcold, _, hlisted, ?_⟩
  obtain ⟨-, hnone | ⟨answer, houtcome, hanswer⟩⟩ :=
    list_after_toggle cached_history htoggled hwaited hcold hlisted
  · exact absurd hnone (Option.some_ne_none _)
  · exact ⟨answer, (Option.some.inj houtcome).symm, hanswer⟩

/-- The portal answers from its cache. -/
theorem cachedChanged_listed :
    ∃ w, Listed twoUsersSettings sampleBackend "a" cachedChanged (some ⟨true, some "old"⟩) w := by
  have hrun : ∃ ops, solo.run (handleAPIProxy twoUsersSettings sampleList)
      (List.replicate 4 .unavailable)
      cachedChanged.proxy = some (ops, .relay 200 [] "old", cachedChanged.proxy) ∧
      SessionOf twoUsersSettings sampleList "a" ops ∧ exchanges ops = [] :=
    ⟨_, rfl, ⟨0, 0, _, rfl, rfl⟩, rfl⟩
  obtain ⟨ops, hrun, hsession, hops⟩ := hrun
  have hportal : Portal twoUsersSettings sampleBackend "a" sampleList cachedChanged ops
      (.relay 200 [] "old") cachedChanged.proxy true := by
    refine ⟨.of_run (fun _ _ _ => trivial) hrun, hsession, fun {req reply} h => ?_, fun _ => rfl⟩
    have hmem := mem_exchanges h
    rw [hops] at hmem
    exact absurd hmem List.not_mem_nil
  have hmiss (resp : Response Str) : ¬ Hits cachedChanged.browser resp := by
    rintro ⟨e, he, -⟩
    exact absurd he (Option.some_ne_none e).symm
  exact ⟨_, .sent hmiss ⟨rfl, rfl⟩ hportal⟩

/-- After the change the sample server replies to a request for the list with the new one only. -/
theorem ne_old_of_fromServer {changed : Bool} {answer : ProxyResponse}
    (h : FromServer twoUsersSettings sampleBackend "a" true changed answer) :
    toResponse answer ≠ ⟨true, some "old"⟩ := by
  obtain ⟨r, ⟨hmethod, -⟩, ⟨-, rfl⟩ | ⟨req, reply, hreq, hreply, rfl⟩⟩ := h
  · intro heq
    exact absurd (congrArg Response.ok heq) (by decide)
  · have hne : r.method ≠ [] := by
      rw [hmethod]
      decide
    have hget : req.method = "GET" := by
      simp only [proxyRequest, if_neg hne] at hreq
      split_ifs at hreq
      rw [← Option.some.inj hreq]
      exact hmethod
    rw [sampleBackend, if_pos hget] at hreply
    rw [hreply.1]
    intro heq
    exact absurd (congrArg Response.body heq) (by decide)

/-- The user has seen the list within the last thirty seconds and changes the default. The next
request for the list is sent to the portal, and gets the list from before the change. -/
theorem list_after_toggle_fails : ∃ w w1 w2 : World Bool,
    History twoUsersSettings sampleBackend "a" w ∧
      Toggled twoUsersSettings sampleBackend "a" w w1 (.relay 200 [] []) ∧
      Listed twoUsersSettings sampleBackend "a" w1 (some ⟨true, some "old"⟩) w2 ∧
      ∀ answer changed, FromServer twoUsersSettings sampleBackend "a" w1.server changed answer →
        toResponse answer ≠ ⟨true, some "old"⟩ := by
  obtain ⟨w, hlisted⟩ := cachedChanged_listed
  exact ⟨cached, cachedChanged, w, cached_history, toggled_sample cached.browser cached.proxy.cache,
    hlisted, fun _ _ => ne_old_of_fromServer⟩

end VirePortal.Pages.DefaultPortfolio
