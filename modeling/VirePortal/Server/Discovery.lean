import VirePortal.Auth.Server
import VirePortal.Mcp.Gate
import VirePortal.Server.Routes

/-!
# The discovery of the authorization server

A client that the MCP endpoint refuses is told where the metadata of the resource is, from there it
learns of the authorization server, and from its metadata of the endpoints (`discovery.go`). Every
URL on this way is put together from the host of the request that was answered, and leads to the
handler that it is given for (`discovery_closed`).
-/

namespace VirePortal.Server.Discovery

open Go Go.ServeMux Auth Concurrent Routes Mcp

/-- The metadata of `handleAuthorizationServer`. -/
structure ServerMetadata where
  issuer : Str
  authorizationEndpoint : Str
  tokenEndpoint : Str
  registrationEndpoint : Str
  responseTypesSupported : List Str := ["code"]
  grantTypesSupported : List Str := ["authorization_code", "refresh_token"]
  codeChallengeMethodsSupported : List Str := ["S256"]
  tokenEndpointAuthMethodsSupported : List Str := ["client_secret_post", "none"]
  scopesSupported : List Str := ["openid", "portfolio:read", "portfolio:write", "tools:invoke"]

/-- The metadata of `handleProtectedResource`. -/
structure ResourceMetadata where
  resource : Str
  authorizationServers : List Str
  scopesSupported : List Str := ["portfolio:read", "portfolio:write", "tools:invoke"]
  bearerMethodsSupported : List Str := ["header"]

/-- The metadata for a request, `none` for the status 405. -/
def metadata {M : Type} (document : Str → M) (r : Request) : Option M :=
  if r.method ≠ "GET" ∧ r.method ≠ "HEAD" then none
    else some (document (baseURLFromRequest r))

/-- `handleAuthorizationServer`. -/
def handleAuthorizationServer : Request → Option ServerMetadata := metadata fun baseURL =>
  { issuer := baseURL, authorizationEndpoint := baseURL ++ "/authorize",
    tokenEndpoint := baseURL ++ "/token", registrationEndpoint := baseURL ++ "/register" }

/-- `handleProtectedResource`. -/
def handleProtectedResource : Request → Option ResourceMetadata := metadata fun baseURL =>
  { resource := baseURL, authorizationServers := [baseURL] }

/-- A URL of the origin whose requests by the method are served by the handler. -/
def Leads (o : Origin) (method url : Str) (t : Target) : Prop :=
  ∃ u, URL.parse url = some u ∧ u.scheme = o.scheme.map toLower ∧ u.host = o.host ∧
    findHandler (routes true true) method u = .served t

/-- A path that needs no escapes. -/
def plainPath (path : Str) : Bool :=
  path.head? = some 47 && !containsCTL path && 35 ∉ path && 63 ∉ path && unescape .path path =
    some path &&
    escape .path path = path

/-- What the multiplexer does with the paths of the discovery. -/
theorem findHandler_discovery :
    ∀ x ∈ [("GET", "/.well-known/oauth-protected-resource", Target.protectedResource),
    ("GET", "/.well-known/oauth-authorization-server", .authorizationServer),
      ("GET", "/authorize", .authorize),
    ("POST", "/token", .token), ("POST", "/register", .register)],
    plainPath (ascii x.2.1) = true ∧
      findHandler (routes true true) (ascii x.1) { path := ascii x.2.1 } = .served x.2.2 := by
  decide +kernel

/-- A plain path at the origin leads to its handler. -/
theorem leads_of_plainPath {o : Origin} {method path : Str} {t : Target}
    (hplain : plainPath path = true)
    (hserved : findHandler (routes true true) method { path := path } = .served t) :
    Leads o method (o.string ++ path) t := by
  simp only [plainPath, Bool.and_eq_true, decide_eq_true_eq, Bool.not_eq_true'] at hplain
  obtain ⟨⟨⟨⟨⟨hhead, hctl⟩, hhash⟩, hmark⟩, hunescape⟩, hescape⟩ := hplain
  refine ⟨{ o.start ([], false) with path := path }, ?_, rfl, rfl, hserved⟩
  have hquery : splitQuery path = (path, [], false) := by rw [splitQuery, cut_of_not_mem hmark]
  rw [o.parse_append hhead, Origin.url, cut_of_not_mem hhash]
  dsimp only
  rw [if_neg (by simp [hctl]), hquery, URL.setPath]
  simp only [hunescape, hescape, Option.bind_eq_bind, Option.bind_some, Option.pure_def, if_true]
  rfl

/-- Where the MCP endpoint sends a client that it refuses. -/
theorem unauthorized_eq {r : Request} (hhost : 10 ∉ r.host ∧ 13 ∉ r.host ∧ 34 ∉ r.host) :
    ∃ header body, unauthorized r = .reply 401 header body ∧ header.get "WWW-Authenticate" =
      "Bearer resource_metadata=\"" ++
        (baseURLFromRequest r ++ "/.well-known/oauth-protected-resource") ++
        "\"" := by
  have hkeep : ∀ c : UInt8, c ∉ r.host → r.host.filter (· ≠ c) = r.host := fun c hc =>
    List.filter_eq_self.2 fun b hb => decide_eq_true fun heq => hc (heq ▸ hb)
  have hsanitize : sanitizeHost r.host = r.host := by
    unfold sanitizeHost
    dsimp only
    rw [hkeep 13 hhost.2.1, hkeep 10 hhost.1, hkeep 34 hhost.2.2]
  refine ⟨_, _, rfl, ?_⟩
  rw [Header.get_set_of_ne _ (by decide), Header.get_set_self, hsanitize, baseURLFromRequest]

/-- A request with a user is answered by the streamable server, so the other answers are
refusals. -/
theorem reply_eq_unauthorized {h : McpHandler} {r : Request} {code : ℕ} {header : Header}
    {body : Str} {ops : List ((o : McpOp) × McpReply o)}
    (hrun : (h.serveHTTP r).Does ops (.reply code header body)) :
    unauthorized r = .reply code header body := by
  obtain ⟨before, user, rest, rfl, -, hrest⟩ := Prog.does_bind.1 hrun
  cases user with
  | some userID =>
    obtain ⟨_, calls, _, _, _, hstreamed⟩ := Prog.does_bind.1 hrest
    obtain ⟨_, results, _, _, _, _, hreply⟩ := Prog.does_bind.1 hstreamed
    cases hreply
  | none => exact hrest.2.symm

/-- The documents are made from the base URL of their requests. -/
theorem documents_eq {r1 r2 : Request} {resource : ResourceMetadata} {server : ServerMetadata}
    (hresource : handleProtectedResource r1 = some resource)
    (hserver : handleAuthorizationServer r2 = some server) :
    resource.authorizationServers = [baseURLFromRequest r1] ∧
      server.issuer = baseURLFromRequest r2 ∧
      server.authorizationEndpoint = baseURLFromRequest r2 ++ "/authorize" ∧
      server.tokenEndpoint = baseURLFromRequest r2 ++ "/token" ∧
      server.registrationEndpoint = baseURLFromRequest r2 ++ "/register" := by
  unfold handleProtectedResource metadata at hresource
  unfold handleAuthorizationServer metadata at hserver
  split_ifs at hresource hserver
  cases hresource
  cases hserver
  exact ⟨rfl, rfl, rfl, rfl, rfl⟩

/-- The client of a portal at the origin `o` is refused and reads the two documents, by requests for
that origin. Every URL that it is given leads to the handler that it is given for, at the same
origin, and the server is the one that issues the tokens of the resource. -/
theorem discovery_closed {h : McpHandler} {o : Origin} {r r1 r2 : Request} {code : ℕ}
    {header : Header} {body : Str} {ops : List ((o : McpOp) × McpReply o)}
    {resource : ResourceMetadata} {server : ServerMetadata}
    (hhost : 10 ∉ r.host ∧ 13 ∉ r.host ∧ 34 ∉ r.host) (hr : baseURLFromRequest r = o.string)
    (hr1 : baseURLFromRequest r1 = o.string) (hr2 : baseURLFromRequest r2 = o.string)
    (hrun : (h.serveHTTP r).Does ops (.reply code header body))
    (hresource : handleProtectedResource r1 = some resource)
    (hserver : handleAuthorizationServer r2 = some server) :
    code = 401 ∧
    (∃ url, header.get "WWW-Authenticate" = "Bearer resource_metadata=\"" ++ url ++ "\"" ∧
      Leads o "GET" url .protectedResource) ∧
    resource.authorizationServers = [server.issuer] ∧
    Leads o "GET" (server.issuer ++ "/.well-known/oauth-authorization-server")
      .authorizationServer ∧
    Leads o "GET" server.authorizationEndpoint .authorize ∧
    Leads o "POST" server.tokenEndpoint .token ∧
    Leads o "POST" server.registrationEndpoint .register := by
  have hleads := fun x hx => leads_of_plainPath (o := o) (findHandler_discovery x hx).1
    (findHandler_discovery x hx).2
  simp only [List.forall_mem_cons] at hleads
  obtain ⟨hprotected, hauthorization, hauthorize, htoken, hregister, -⟩ := hleads
  -- All three answers are built from the same base URL.
  obtain ⟨hlist, hissuer, heauthorize, hetoken, heregister⟩ := documents_eq hresource hserver
  obtain ⟨header', body', hrefused, hmetadata⟩ := unauthorized_eq hhost
  rw [reply_eq_unauthorized hrun] at hrefused
  cases hrefused
  rw [hr] at hmetadata
  rw [hlist, hissuer, heauthorize, hetoken, heregister, hr1, hr2]
  exact ⟨rfl, ⟨_, hmetadata, hprotected⟩, rfl, hauthorization, hauthorize, htoken, hregister⟩

/-- The origin `http://p`. -/
def portalOrigin : Origin where
  scheme := "http"
  authority := "p"
  user := none
  host := "p"
  scheme_head := http_head
  scheme_bytes := http_bytes
  authority_plain := by decide
  authority_parses := by decide

/-- A client without a token at `http://p`. -/
theorem discovery_closed_portal : ∃ header body,
    (sampleHandler.serveHTTP { host := "p" }).Does [] (.reply 401 header body) ∧
      ∃ url, header.get "WWW-Authenticate" = "Bearer resource_metadata=\"" ++ url ++
        "\"" ∧ Leads portalOrigin "GET" url .protectedResource := by
  have hrun : ∃ header body,
      (sampleHandler.serveHTTP { host := "p" }).Does [] (.reply 401 header body) :=
    ⟨_, _, rfl, rfl⟩
  obtain ⟨header, body, hrun⟩ := hrun
  have hresource : ∃ resource, handleProtectedResource { host := "p" } = some resource := ⟨_, rfl⟩
  have hserver : ∃ server, handleAuthorizationServer { host := "p" } = some server := ⟨_, rfl⟩
  obtain ⟨resource, hresource⟩ := hresource
  obtain ⟨server, hserver⟩ := hserver
  have hbase : baseURLFromRequest { host := "p" } = portalOrigin.string := rfl
  obtain ⟨-, hurl, -⟩ := discovery_closed (by decide) hbase hbase hbase hrun hresource hserver
  exact ⟨header, body, hrun, hurl⟩

end VirePortal.Server.Discovery
