import VirePortal.Auth.Completion
import VirePortal.Mcp.Gate
import VirePortal.Mcp.MintValidate

/-!
# From the authorization request to the tools

The whole flow of a client: `GET /authorize`, the login in the browser that was sent to the login
page, the exchange of the code at `/token`, and the requests to `/mcp` with the access token. The
four handlers agree only through what is stored and through what the browser and the client carry
from one answer to the next request: the id in the cookie, the code in the URL of the redirect, the
token in the `Authorization` header. `flow_opens` says that these fit together: for an hour every
request with the token reaches the tools as the user that logged in, whatever other requests are
under way.
-/

namespace VirePortal.Mcp.Flow

open Go Auth Concurrent Auth.Provenance Auth.Redemption Auth.Completion

variable {cfg : Settings} {s0 s s' : State} {cf : Config Op Reply State ℕ Call Response}
variable {L L' before within after : List PortalEntry} {w : Caller Call} {a : Response}

/-! ### Answers in a run -/

/-- The request was answered. The call found the log `before`, the answer found the log `within`,
and `after` goes on from the answer. -/
structure Answered (w : Caller Call) (a : Response) (s' s : State)
    (before within after : List PortalEntry) :
    Prop where
  call : ∃ mid, within = mid ++ ⟨s', .call w⟩ :: before
  done : ∃ later, after = later ++ ⟨s, .done w a⟩ :: within

/-- The log before the call is part of the later one. -/
theorem Answered.before_suffix (h : Answered w a s' s before within after) : before <:+ after := by
  obtain ⟨⟨mid, rfl⟩, later, rfl⟩ := h
  exact ⟨later ++ ⟨s, .done w a⟩ :: (mid ++ [⟨s', .call w⟩]), by simp⟩

/-- The log before the answer is part of the later one. -/
theorem Answered.within_suffix (h : Answered w a s' s before within after) : within <:+ after := by
  obtain ⟨-, later, rfl⟩ := h
  exact ⟨later ++ [⟨s, .done w a⟩], by simp⟩

/-- The call and the answer in a later log. -/
theorem Answered.log (h : Answered w a s' s before within after) (hL : after <:+ L) : ∃ later mid,
    within = mid ++ ⟨s', .call w⟩ :: before ∧ L = later ++ ⟨s, .done w a⟩ ::
      (mid ++ ⟨s', .call w⟩ :: before) := by
  obtain ⟨⟨mid, rfl⟩, later, rfl⟩ := h
  obtain ⟨front, rfl⟩ := hL
  exact ⟨front ++ later, mid, rfl, by simp⟩

/-- The clock does not go back. -/
theorem clock_le (hmem : s0.mem = {}) (hc : Reachable (portal cfg) fresh s0 cf)
    {later earlier : List PortalEntry} {e : PortalEntry} (hlog : cf.log = later ++ e :: earlier) :
    ∀ e' ∈ earlier, e'.pre.now ≤ e.pre.now := by
  have hanswers : Answers (portal cfg) (informed cfg) Held (fun _ _ _ _ => True) s0 :=
    answers fun _ _ _ _ => outline_any _
  exact ((hc.knowing fun c hc => known hmem hc).invariant_before hanswers.verified hlog).1.past

/-- What a request reads from the clock lies between its call and its answer. -/
theorem Answered.read_between (h : Answered w a s' s before within after) (hmem : s0.mem = {})
    (hc : Reachable (portal cfg) fresh s0 cf) (hafter : after <:+ cf.log) {t : Time}
    (hread : Has (fun e => e.event = .op w .now t) within) : s'.now ≤ t ∧ t ≤ s.now := by
  obtain ⟨later, mid, rfl, hlog⟩ := h.log hafter
  obtain ⟨e, he, hev⟩ := hread
  -- The reply of the operation is the clock of the entry.
  have ht : t = e.pre.now := by
    have heach := hc.each_op
    rw [hlog] at heach
    obtain ⟨front, back, hsplit⟩ := List.append_of_mem he
    rw [hsplit] at heach
    obtain ⟨x, -, hreply⟩ := heach.append.2.append.1 w .now t hev
    exact hreply
  -- The entry is behind the call, since the request has no entry before it.
  have hmid : e ∈ mid := by
    have hsplit : cf.log = (later ++ ⟨s, .done w a⟩ :: mid) ++ ⟨s', .call w⟩ :: before := by
      rw [hlog]
      simp
    have hfresh : Fresh w.tid before := hc.fresh_call hsplit
    rcases List.mem_append.1 he with he | he
    · exact he
    · rcases List.mem_cons.1 he with rfl | he
      · cases hev
      · refine absurd ?_ (hfresh e he)
        rw [hev]
        rfl
  obtain ⟨front, back, rfl⟩ := List.append_of_mem hmid
  rw [ht]
  constructor
  · have hsplit : cf.log = (later ++ ⟨s, .done w a⟩ :: front) ++ e ::
        (back ++ ⟨s', .call w⟩ :: before) := by
      rw [hlog]
      simp
    exact clock_le hmem hc hsplit ⟨s', .call w⟩ (by simp)
  · exact clock_le hmem hc hlog e (by simp)

/-! ### The authorization request -/

/-- The request stored a session with the parameters under the id, at a time that it read from the
clock. -/
def Pending (w : Caller Call) (p : AuthorizeParams) (id : Str) (L : List PortalEntry) : Prop :=
  ∃ now, Has (fun e => e.event = .op w .now now) L ∧
    Has (SavesSession w (pendingSession p id now)) L

/-- A stored session is in every later log. -/
theorem Pending.extends {p : AuthorizeParams} {id : Str} (h : Pending w p id L)
    (hL : Extends L L') :
    Pending w p id L' := by
  obtain ⟨now, hread, hsaved⟩ := h
  exact ⟨now, hread.extends hL, hsaved.extends hL⟩

/-- The session that is made is stored. -/
theorem outline_createAuthSession (p : AuthorizeParams) (L : List PortalEntry) :
    HeldOutline cfg w (fun res L' => ∀ id, res = .ok id → Pending w p id L')
      (createAuthSession cfg.backend p) L := by
  unfold createAuthSession
  refine (outline_any _).bind fun client L1 _ _ => ?_
  split_ifs
  · refine (keeps_held w _).bind fun s2 L2 e2 _ _ _ => ?_
    cases ((portal cfg).exec (.generateRandomHex 16) e2 s2).1 with
    | error err => exact fun id h => by cases h
    | ok sessionID =>
      refine (keeps_held w _).bind fun s3 L3 e3 _ _ _ => ?_
      have hread : Has (fun e => e.event = .op w .now ((portal cfg).exec .now e3 s3).1)
          ((portal cfg).entry w .now e3 s3 :: L3) := has_cons.2 (.inl rfl)
      generalize ((portal cfg).exec .now e3 s3).1 = now at hread
      refine (keeps_held w _).bind fun s4 L4 e4 hL4 _ _ => ?_
      intro id h
      cases h
      exact ⟨now, has_cons.2 (.inr (hread.extends hL4.extends)), has_cons.2 (.inl rfl)⟩
  · exact nofun

/-- The page that `setSessionCookieAndRedirect` sends the browser to is that of the session. -/
theorem results_setSessionCookieAndRedirect (cfg : Settings) (r : Request) (sessionID : Str) :
    (setSessionCookieAndRedirect cfg r sessionID).Results fun a => ∀ id, a = landing id →
      id = sessionID := by
  have hlanding : ∀ id, landing sessionID = landing id → id = sessionID := by
    intro id h
    simp only [landing, mcpSessionCookie, Response.redirect.injEq, List.append_cancel_left_eq] at h
    exact h.1.symm
  unfold setSessionCookieAndRedirect
  refine Prog.results_bind (fun userID => ?_) _
  split_ifs
  · exact hlanding
  · refine Prog.results_bind (fun res => ?_) _
    cases res with
    | error err => exact hlanding
    | ok url => exact fun id h => by simp [landing] at h

/-- The authorization request of a client, with its parameters. -/
structure Asks (r : Request) (p : AuthorizeParams) : Prop where
  method : r.method = "GET"
  params : AuthorizeParams.of r.query = p
  redirectURI : p.redirectURI ≠ []

/-- The request that is answered with the login page has stored the session of its parameters. -/
theorem outline_handleAuthorizeGET {r : Request} {p : AuthorizeParams} (hr : Asks r p)
    (L : List PortalEntry) :
    HeldOutline cfg w (fun a L' => ∀ id, a = landing id → Pending w p id L' ∧ p.incomplete = false)
      (handleAuthorizeGET cfg r) L := by
  have hredirect : ∀ {uri code text state id : Str}, redirectWithError uri code text state ≠
      landing id := by
    intro uri code text state id
    unfold redirectWithError landing
    cases URL.parse uri with
    | none => simp
    | some u => simp
  unfold handleAuthorizeGET
  rw [hr.params]
  dsimp only
  rw [if_neg hr.redirectURI]
  -- Every check that fails answers with an error, which is no redirect to the login page.
  split_ifs with _ hincomplete
  · exact nofun
  · exact fun id h => absurd h hredirect
  · exact fun id h => absurd h hredirect
  · exact fun id h => absurd h hredirect
  · refine (outline_createAuthSession _ _).bind fun res L1 _ hres => ?_
    cases res with
    | error err => exact nofun
    | ok sessionID =>
      refine ((outline_knowing (fun hL h => h.extends hL) (hres sessionID rfl) _).and_results
        (results_setSessionCookieAndRedirect cfg r sessionID)).imp fun a L' _ ha id hid => ?_
      obtain ⟨hpending, hsame⟩ := ha
      obtain rfl := hsame id hid
      exact ⟨hpending, by simpa using hincomplete⟩

/-- Every request, as to the login page. -/
theorem outline_authorization (r : Request) (p : AuthorizeParams) (s : State) :
    HeldOutline cfg w
      (fun a L' => (w.call = .authorize r ∧ Asks r p) → ∀ id, a = landing id →
        Pending w p id L' ∧ p.incomplete = false)
      (handle cfg w.call) (⟨s, .call w⟩ :: before) := by
  refine outline_if fun h => ?_
  obtain ⟨hcall, hr⟩ := h
  rw [hcall]
  show HeldOutline cfg w _ (handleAuthorize cfg r) _
  unfold handleAuthorize
  rw [if_pos hr.method]
  exact outline_handleAuthorizeGET hr _

/-! ### The access token -/

/-- The token opens the endpoint up to the second `exp`: a request that bears it reaches the tools
as the user and as no other, and what they send to vire-server names the user, without the line
breaks of the name. -/
def Opens (h : McpHandler) (token u : Str) (exp : ℤ) : Prop :=
  ∀ r ops resp, bearerToken r = some token → (h.serveHTTP r).Does ops resp →
    unix ((readings ops).headD 0) ≤ exp →
    (∀ u', Reached u' ops ↔ u' = u) ∧
      ∀ req reply, ⟨.exchange req, reply⟩ ∈ ops → req.header.received userIDHeader =
        [sanitizeHeaderValue u]

/-- A token that is validated opens the endpoint. -/
theorem opens_of_validateJWT {h : McpHandler} (hsecret : h.jwtSecret ≠ []) {token u : Str} {exp : ℤ}
    (hu : u ≠ [])
    (hvalid : ∀ now, unix now ≤ exp → ∃ claims, validateJWT h.lib.codec h.jwtSecret token now =
      .ok claims ∧
      claims.sub = u) : Opens h token u exp := by
  intro r ops resp htoken hdoes hnow
  obtain ⟨ts, ⟨rfl, -, hno⟩ | ⟨u', calls, rest, rfl, -, hrest, huser⟩⟩ :=
    does_serveHTTP hsecret hdoes
  · -- The Bearer token passes the check, so the request has a user.
    rw [← List.append_nil (nows ts), readings_nows ts rfl] at hnow
    obtain ⟨claims, hclaims, hsub⟩ := hvalid _ hnow
    exact absurd (.inl ⟨token, htoken, claims, hclaims, hsub, hu⟩) (hno u)
  · rw [readings_nows ts rfl] at hnow
    obtain ⟨claims, hclaims, hsub⟩ := hvalid _ hnow
    obtain rfl : u = u' := (huser u).1 (.inl ⟨token, htoken, claims, hclaims, hsub, hu⟩)
    exact ⟨fun u' => reached_iff hrest, fun req reply => received_of_mem hrest⟩

/-- An access token that was minted at the time `t` opens the endpoint for an hour. -/
theorem opens_signToken {h : McpHandler} (hsecret : h.jwtSecret ≠ [])
    (hjson : MintValidate.JSONRoundTrips h.lib.codec h.lib.marshalLoopback) {c : AccessClaims}
    (hsub : c.sub ≠ [])
    (hutf8 : validUTF8 c.sub ∧ validUTF8 c.scope ∧ validUTF8 c.clientID ∧ validUTF8 c.iss)
    {t : Time} (hiat : c.iat = unix t) (hexp : c.exp = unix (t + seconds 3600)) (ht : 0 < unix t)
    (hmax : unix t ≤ MintValidate.maxUnix) :
    Opens h (signToken h.lib.codec h.jwtSecret c) c.sub (unix t + 3600) := by
  rw [MintValidate.unix_add_hour] at hexp
  have hint : MintValidate.IsInt64 c.iat ∧ MintValidate.IsInt64 c.exp := by
    rw [hiat, hexp]
    unfold MintValidate.IsInt64 MintValidate.maxUnix at *
    omega
  obtain ⟨hbrowser, hmcp⟩ := MintValidate.decode_accessMembers hint.1 hint.2
  have htext := hjson.access c hutf8.1 hutf8.2.1 hutf8.2.2.1 hutf8.2.2.2 hint.1 hint.2
  have hvalidated : MintValidate.Validated h.lib.codec h.jwtSecret
      (signToken h.lib.codec h.jwtSecret c) c.sub c.iss
      c.scope c.clientID c.exp := MintValidate.validated_signText htext hbrowser hmcp (by omega)
  rw [← hexp]
  exact opens_of_validateJWT hsecret hsub fun now hnow => ⟨_, hvalidated.mcp now hnow, rfl⟩

/-! ### The flow -/

/-- The answer that sends the browser back to the client. -/
def backToClient (url : Str) : Response :=
  .redirect url [{ name := "mcp_session_id", value := [], maxAge := -1 }]

/-- The exchange of the client that asked with the parameters and that was sent the URL: the code is
read in the query of the URL, and the verifier is that of the challenge. -/
structure Redeems (codec : Codec) (r : Request) (p : AuthorizeParams) (url : Str) : Prop where
  method : r.method = "POST"
  form : r.formError = false
  grantType : r.form.get "grant_type" = "authorization_code"
  code : r.form.get "code" = (parseQuery (rawQueryOf url)).get "code"
  code_ne : r.form.get "code" ≠ []
  clientID : r.form.get "client_id" = p.clientID
  redirectURI : r.form.get "redirect_uri" = p.redirectURI
  verifier : p.codeChallenge = base64Encode (codec.sha256 (r.form.get "code_verifier"))
  verifier_ne : r.form.get "code_verifier" ≠ []

/-- The value that is read first is the first one. -/
theorem get_of_values {v : Values} {key value : Str} (h : v.values key = [value]) :
    v.get key = value := by
  unfold Values.values at h
  unfold Values.get
  cases hfind : v.find? fun e => e.1 = key with
  | none => simp [hfind] at h
  | some e =>
    obtain ⟨k, values⟩ := e
    rw [hfind] at h
    obtain rfl : values = [value] := h
    rfl

/-- The code that the client reads in the URL is the one that was stored. -/
theorem code_of_redirects {x : AuthSession} {u url : Str} (hx : validRedirect x.redirectURI = true)
    (h : Redirects w x u url L) : ∃ now, Has (fun e => e.event = .op w .now now) L ∧
      Has (SavesCode w (issueCode x u ((parseQuery (rawQueryOf url)).get "code") now)) L := by
  obtain ⟨code, now, uri, huri, rfl, hread, hsaved⟩ := h
  obtain ⟨uri', huri', hhost⟩ := CompleteAtomic.parse_of_validRedirect hx
  obtain rfl : uri = uri' := Option.some.inj (huri.symm.trans huri')
  obtain ⟨_, _, _, hvalues⟩ := CompleteAtomic.returns_codeRedirect huri hhost code x.state
  have hcode : (parseQuery (rawQueryOf (codeRedirect uri code x.state))).get "code" = code :=
    get_of_values (hvalues "code")
  rw [hcode]
  exact ⟨now, hread, hsaved⟩

section Legs

variable (hmem : s0.mem = {}) (hc : Reachable (portal cfg) fresh s0 cf)
include hmem hc

/-- The first leg: the session of a request that was answered with the login page is stored, and it
is good for ten minutes from the call. -/
theorem Answered.pending {r : Request} {p : AuthorizeParams} {id : Str}
    (h : Answered w (landing id) s' s before within after) (hafter : after <:+ cf.log)
    (hcall : w.call = .authorize r) (hr : Asks r p) :
    p.incomplete = false ∧ ∃ created, s'.now ≤ created ∧
      Has (SavesSession w (pendingSession p id created)) within := by
  obtain ⟨later, mid, rfl, hlog⟩ := h.log hafter
  obtain ⟨-, L, hL, hpost⟩ := (hc.knowing fun c hc => known hmem hc).result
    (answers fun s _ _ _ => outline_authorization r p s) hlog
  obtain ⟨⟨now, hread, hsaved⟩, hcomplete⟩ := hpost ⟨hcall, hr⟩ id rfl
  exact ⟨hcomplete, now, (h.read_between hmem hc hafter (hread.extends hL.extends)).1,
    hsaved.extends hL.extends⟩

/-- The second leg: a login that sends the browser back to the client has stored a code for its
user, and the code is good for five minutes from the call. -/
theorem Answered.redirected {r : Request} {x : AuthSession} {url : Str} {w0 : Caller Call}
    (h : Answered w (backToClient url) s' s before within after) (hafter : after <:+ cf.log)
    (hcall : w.call = .login r ∨ w.call = .callback r) (hr : Resumes r x)
    (hsaved : Has (SavesSession w0 x) before)
    (hfirst : ∀ i, Has (Uses i .sessions x.sessionID) within → i = w.tid)
    (hnow : s.now ≤ expiry x) :
    ∃ token, Brings w token within ∧ extractJWTSubFromToken cfg.codec token ≠ [] ∧
      ∃ now, s'.now ≤ now ∧
      Has (SavesCode w (issueCode x (extractJWTSubFromToken cfg.codec token)
        ((parseQuery (rawQueryOf url)).get "code") now)) within := by
  have hvalid : validRedirect x.redirectURI = true :=
    saved_valid hc (hsaved.mono fun e he => (h.before_suffix.trans hafter).subset he)
  obtain ⟨uri, huri, -⟩ := CompleteAtomic.parse_of_validRedirect hvalid
  obtain ⟨later, mid, rfl, hlog⟩ := h.log hafter
  obtain ⟨L, hL, husable, hfinished⟩ :=
    usable_result hmem hc (fun s L w hfresh => outline_pending r huri w0 s hfresh)
    hlog hfirst hnow
  rcases hfinished ⟨hcall, hr, hsaved⟩ husable with
    ⟨⟨reason, ha⟩, -⟩ | ⟨token, hbrings, ⟨ha, -⟩ | ⟨hsub, url', ha, hredirects⟩⟩
  · simp [backToClient, errorPage] at ha
  · simp [backToClient, dashboard, ascii] at ha
  · obtain rfl : url = url' := (Response.redirect.inj ha).1
    obtain ⟨now, hread, hcode⟩ := code_of_redirects hvalid (hredirects.extends hL)
    exact ⟨token, hbrings.extends hL, hsub, now, (h.read_between hmem hc hafter hread).1, hcode⟩

/-- The third leg: the first exchange of a code in time is served. -/
theorem Answered.served {r : Request} {c : AuthCode} {w0 : Caller Call}
    (h : Answered w a s' s before within after) (hafter : after <:+ cf.log)
    (hcall : w.call = .token r) (hr : Exchanges cfg.codec r c)
    (hsaved : Has (SavesCode w0 c) before)
    (hfirst : ∀ i, Has (Uses i .codes c.code) within → i = w.tid) (hnow : s.now ≤ c.expiresAt) :
    Served cfg w r c.userID c.clientID c.scope a within := by
  obtain ⟨later, mid, rfl, hlog⟩ := h.log hafter
  obtain ⟨L, hL, husable, hserved⟩ :=
    usable_result hmem hc (fun s L w hfresh => outline_exchange r w0 c s hfresh)
    hlog hfirst hnow
  exact (hserved ⟨hcall, hr, hsaved⟩ husable).extends hL

end Legs

/-- The code of the session of an authorization is redeemed by the client that asked for it. -/
theorem Redeems.exchanges {codec : Codec} {r : Request} {p : AuthorizeParams} {url : Str}
    (h : Redeems codec r p url) (hcomplete : p.incomplete = false) (huri : p.redirectURI ≠ [])
    (id u : Str) (created now : Time) :
    Exchanges codec r (issueCode (pendingSession p id created) u
      ((parseQuery (rawQueryOf url)).get "code")
      now) where
  method := h.method
  form := h.form
  grantType := h.grantType
  code := h.code
  clientID := h.clientID
  redirectURI := h.redirectURI
  verifier := by
    show verifyPKCE codec _ p.codeChallenge = true
    rw [verifyPKCE, h.verifier, decide_eq_true_eq]
  complete := by
    have hclient : p.clientID ≠ [] := by
      unfold AuthorizeParams.incomplete at hcomplete
      simp only [Bool.or_eq_false_iff, decide_eq_false_iff_not] at hcomplete
      exact hcomplete.1.1.1.1
    exact ⟨h.code ▸ h.code_ne, hclient, huri, h.verifier_ne⟩

/-- Whatever other requests are under way: a client asks for an authorization, the browser that is
shown the login page logs in and is sent back to the client, and the client exchanges the code of
the URL with its verifier. If the login comes in ten minutes, the exchange in five, and neither the
session nor the code is used by another request, then the client gets an access token, and for an
hour the token opens the MCP endpoint as the user of the login. -/
theorem flow_opens {h : McpHandler} (hsecret : cfg.secret ≠ []) (hkey : h.jwtSecret = cfg.secret)
    (hcodec : h.lib.codec = cfg.codec)
    (hjson : MintValidate.JSONRoundTrips cfg.codec h.lib.marshalLoopback) (hmem : s0.mem = {})
    (hc : Reachable (portal cfg) fresh s0 cf) {w1 w2 w3 : Caller Call}
    {s1 s1' s2 s2' s3 s3' : State} {L0 L1 B1 L2 B2 L3 : List PortalEntry} {r1 r2 r3 : Request}
    {p : AuthorizeParams} {id url : Str} (h1 : Answered w1 (landing id) s1' s1 L0 L1 B1)
    (h2 : Answered w2 (backToClient url) s2' s2 B1 L2 B2) (h3 : Answered w3 a s3' s3 B2 L3 cf.log)
    (hcall1 : w1.call = .authorize r1) (hr1 : Asks r1 p)
    (hcall2 : w2.call = .login r2 ∨ w2.call = .callback r2)
    (hcookie : r2.cookie "mcp_session_id" = some id ∧ id ≠ [])
    (hfirst2 : ∀ i, Has (Uses i .sessions id) L2 → i = w2.tid)
    (hnow2 : s2.now ≤ s1'.now + sessionTTL) (hcall3 : w3.call = .token r3)
    (hr3 : Redeems cfg.codec r3 p url)
    (hfirst3 : ∀ i, Has (Uses i .codes (r3.form.get "code")) L3 → i = w3.tid)
    (hnow3 : s3.now ≤ s2'.now + seconds 300) (hepoch : 0 < unix s3'.now)
    (hmax : unix s3.now ≤ MintValidate.maxUnix)
    (hutf8 : validUTF8 (scopeOf p) ∧ validUTF8 p.clientID ∧ validUTF8 (baseURLFromRequest r3))
    (hsub : ∀ token, Brings w2 token L2 → validUTF8 (extractJWTSubFromToken cfg.codec token)) :
    ∃ token, Brings w2 token L2 ∧
      (IssueFailed w3 a L3 ∨ ∃ access refresh, a = .tokens access refresh (scopeOf p) ∧
      Opens h access (extractJWTSubFromToken cfg.codec token) (unix s3'.now + 3600)) := by
  have hB2 : B2 <:+ cf.log := h3.before_suffix
  have hB1 : B1 <:+ cf.log := h2.before_suffix.trans hB2
  obtain ⟨hcomplete, created, hcreated, hsession⟩ := h1.pending hmem hc hB1 hcall1 hr1
  obtain ⟨token, hbrings, hne, issued, hissued, hcode⟩ := h2.redirected hmem hc hB2 hcall2
    (x := pendingSession p id created) hcookie
      (hsession.mono fun e he => h1.within_suffix.subset he) hfirst2
    (hnow2.trans (add_le_add_left hcreated _))
  rw [hr3.code] at hfirst3
  have hserved := h3.served hmem hc List.suffix_rfl hcall3
    (hr3.exchanges hcomplete hr1.redirectURI id _ created issued)
    (hcode.mono fun e he => h2.within_suffix.subset he) hfirst3
      (hnow3.trans (add_le_add_left hissued _))
  refine ⟨token, hbrings, ?_⟩
  rcases hserved with ⟨minted, refresh, now, ha, hread, -⟩ | hfailed
  · -- The token is minted between the call of the exchange and its answer.
    obtain ⟨hlow, hhigh⟩ := h3.read_between hmem hc List.suffix_rfl hread
    have hunix : unix s3'.now ≤ unix minted ∧ unix minted ≤ unix s3.now :=
      ⟨Int.ediv_le_ediv (by decide) hlow, Int.ediv_le_ediv (by decide) hhigh⟩
    refine .inr ⟨_, refresh, ha, fun r ops resp hbearer hdoes hnow => ?_⟩
    have hopens := opens_signToken (h := h) (hkey ▸ hsecret) (hcodec ▸ hjson) (t := minted)
      (c := ⟨extractJWTSubFromToken cfg.codec token, scopeOf p, p.clientID, baseURLFromRequest r3,
        unix minted,
        unix (minted + seconds 3600)⟩) hne ⟨hsub token hbrings, hutf8⟩ rfl rfl (by omega) (by omega)
    rw [hkey, hcodec] at hopens
    exact hopens r ops resp hbearer hdoes (by omega)
  · exact .inl hfailed

/-! ### A flow -/

/-- A portal with the plain codec. -/
def plainSettings : Settings := ⟨false, "k", MintValidate.plainCodec⟩

/-- The MCP handler of this portal. -/
def plainHandler : McpHandler :=
  { sampleHandler with
    lib := { sampleLib with
      codec := MintValidate.plainCodec, marshalLoopback := MintValidate.plainMarshal }
    jwtSecret := "k" }

/-- The authorization request of the client `m`, with the challenge of the verifier `v`. -/
def authorizationRequest : Request :=
  { query := sampleQuery "https://m/cb" "dg" "x" }

/-- The token that vire-server replies to Alice's login. -/
def aliceToken : Str :=
  "x." ++ base64Encode (3 :: MintValidate.putStrings ["alice", [], [], []]) ++ ".x"

/-- An authorization, the login that completes it, and the exchange of its code. -/
def plainFlow : List (Label Env ℕ Call) :=
  [.call (.authorize authorizationRequest), .step 0 {}, .step 0 {}, .step 0 {},
    .step 0 { random := .ok "s" }, .step 0 {}, .step 0 {}, .step 0 {}, .call login,
    .step 1 { login := .reply 200 (some aliceToken) }, .step 1 {}, .step 1 {}, .step 1 {},
    .step 1 { random := .ok "c" }, .step 1 {}, .step 1 {}, .step 1 {}, .step 1 {},
    .call Provenance.exchange, .step 2 {}, .step 2 {}, .step 2 {}, .step 2 { random := .ok "t" },
    .step 2 {}, .step 2 {}, .step 2 {}]

/-- The log of the flow, which begins a minute after the epoch. -/
def plainLog : List PortalEntry :=
  ((portal plainSettings).run (.init { now := seconds 60 }) plainFlow).log

/-- The users of the tokens that a login got are in valid UTF-8. -/
def namesValid (L : List PortalEntry) : Bool := L.all fun e =>
  match e.event with
  | .op _ (.postLogin _ _) (.reply _ (some token)) =>
      validUTF8 (extractJWTSubFromToken plainSettings.codec token)
  | _ => true

/-- The token of alice's flow opens the endpoint. -/
theorem flow_opens_alice : ∃ a token, Brings ⟨1, login⟩ token (plainLog.drop 9) ∧
    (IssueFailed ⟨2, Provenance.exchange⟩ a plainLog.tail ∨ ∃ access refresh,
      a = .tokens access refresh defaultScope ∧
      Opens plainHandler access (extractJWTSubFromToken plainSettings.codec token)
        (60 + 3600)) := by
  have hrun : Reachable (portal plainSettings) fresh { now := seconds 60 }
      ((portal plainSettings).run (.init { now := seconds 60 }) plainFlow) :=
    reachable_of_storesNew (by decide)
  -- The three requests of the flow, with the parts of the log before and during each.
  have hlegs : ∃ s1' s1 s2' s2 s3' s3 r2 r3 a url, s1'.now = seconds 60 ∧ s2.now = seconds 60 ∧
      s2'.now = seconds 60 ∧ s3.now = seconds 60 ∧ s3'.now = seconds 60 ∧ login = .login r2 ∧
      r2.cookie "mcp_session_id" = some "s" ∧ Provenance.exchange = .token r3 ∧
      Redeems plainSettings.codec r3 (AuthorizeParams.of authorizationRequest.query) url ∧
      r3.form.get "code" = "c" ∧ baseURLFromRequest r3 = "http://p" ∧
      Answered ⟨0, .authorize authorizationRequest⟩ (landing "s") s1' s1 [] (plainLog.drop 19)
        (plainLog.drop 18) ∧
      Answered ⟨1, login⟩ (backToClient url) s2' s2 (plainLog.drop 18) (plainLog.drop 9)
        (plainLog.drop 8) ∧
      Answered ⟨2, Provenance.exchange⟩ a s3' s3 (plainLog.drop 8) plainLog.tail plainLog := by
    refine ⟨_, _, _, _, _, _, _, _, _, "https://m/cb?code=c&state=x", rfl, rfl, rfl, rfl, rfl,
      rfl, rfl, rfl, ?_,
      rfl, rfl, ⟨⟨(plainLog.drop 19).take 6, rfl⟩, [], rfl⟩,
        ⟨⟨(plainLog.drop 9).take 8, rfl⟩, [], rfl⟩,
      ⟨⟨plainLog.tail.take 6, rfl⟩, [], rfl⟩⟩
    exact ⟨rfl, rfl, rfl, by decide, by decide, rfl, rfl, by decide, by decide⟩
  obtain ⟨s1', s1, s2', s2, s3', s3, r2, r3, a, url, hs1', hs2, hs2', hs3, hs3', hr2, hcookie, hr3,
    hredeems, hcode, hbase, h1, h2, h3⟩ := hlegs
  have hsub : ∀ token, Brings ⟨1, login⟩ token (plainLog.drop 9) →
      validUTF8 (extractJWTSubFromToken plainSettings.codec token) = true := by
    have hvalid : namesValid (plainLog.drop 9) = true := by decide
    rintro token (⟨_, _, e, he, hev⟩ | ⟨r, hr, -⟩)
    · simpa [namesValid, hev] using List.all_eq_true.1 hvalid e he
    · cases hr
  obtain ⟨token, hbrings, hopens⟩ := flow_opens (h := plainHandler) (by decide) rfl rfl
    MintValidate.plainCodec_roundTrips rfl hrun h1 h2 h3 rfl ⟨rfl, rfl, by decide⟩ (.inl hr2)
      ⟨hcookie, by decide⟩
    (fun i hi => eq_of_usedOnlyBy (by decide) hi) (by rw [hs2, hs1']; decide) hr3 hredeems
    (fun i hi => eq_of_usedOnlyBy (by decide) (hcode ▸ hi)) (by rw [hs3, hs2']; decide)
      (by rw [hs3']; decide)
    (by rw [hs3]; decide) ⟨by decide, by decide, by rw [hbase]; decide⟩ hsub
  rw [hs3'] at hopens
  exact ⟨a, token, hbrings, hopens⟩

end VirePortal.Mcp.Flow
