import VirePortal.Auth.Jwt

/-!
# The request handlers of the OAuth flow

The handlers of `authorize.go`, `token.go`, `dcr.go` and `server.go`, and the two handlers of
`handlers/auth.go` that complete a pending session, as programs over the atomic operations. `Call`
is a request to one of the routes, and `portal` the pool of all of them.
-/

namespace VirePortal.Auth

open Go Concurrent

/-- What a handler answers. -/
inductive Response where
  /-- `w.WriteHeader` with no body. -/
  | status (code : ℕ)
  /-- `http.Error`. -/
  | error (text : Str) (code : ℕ)
  /-- `http.Redirect` with status 302 to `url`, and the cookies set before. -/
  | redirect (url : Str) (cookies : List SetCookie)
  /-- `writeJSON`. -/
  | json (code : ℕ) (fields : List (Str × Str))
  /-- The token response, with `token_type` Bearer and `expires_in` 3600. -/
  | tokens (accessToken refreshToken scope : Str)
  /-- The client of a registration, with status 201. -/
  | registered (client : OAuthClient)
  deriving DecidableEq

/-- What the handlers are configured with. -/
structure Settings where
  /-- Whether the stores have a backend. -/
  backend : Bool
  /-- `jwtSecret`. -/
  secret : Str
  /-- The functions of the standard library. -/
  codec : Codec

/-- `writeOAuthError`. -/
def writeOAuthError (status : ℕ) (code description : Str) : Response :=
  .json status [("error", code), ("error_description", description)]

/-- The errors of `CompleteAuthorization`. -/
inductive CompleteError where
  | sessionNotFound
  | codeGeneration (err : Str)
  | invalidRedirectURI
  deriving DecidableEq

/-- The URL with a query in place of its own. -/
def withQuery (u : URL) (q : Values) : Str := { u with rawQuery := q.encode }.string

/-- The URL that sends the code of a session back to its client. -/
def codeRedirect (u : URL) (code state : Str) : Str :=
  withQuery u ((u.query.set "code" code).set "state" state)

/-- The code that `CompleteAuthorization` issues for a session. -/
def issueCode (sess : AuthSession) (userID code : Str) (now : Time) : AuthCode :=
  { code := code
    clientID := sess.clientID
    userID := userID
    redirectURI := sess.redirectURI
    codeChallenge := sess.codeChallenge
    scope := sess.scope
    expiresAt := now + seconds 300 }

/-- The part of `CompleteAuthorization` after the session was found. -/
def completeSession (sessionID userID : Str) (sess : AuthSession) : M (Except CompleteError Str) :=
  do
  match ← perform (.generateRandomHex 16) with
  | .error err => return .error (.codeGeneration err)
  | .ok code => do
    let now ← perform .now
    CodeStore.put (issueCode sess userID code now)
    SessionStore.delete sessionID
    match URL.parse sess.redirectURI with
    | none => return .error .invalidRedirectURI
    | some u => return .ok (codeRedirect u code sess.state)

/-- `OAuthServer.CompleteAuthorization`. -/
def completeAuthorization (backend : Bool) (sessionID userID : Str) :
    M (Except CompleteError Str) := do
  perform (.completing sessionID userID)
  match ← SessionStore.get backend sessionID with
  | none => return .error .sessionNotFound
  | some sess => completeSession sessionID userID sess

/-- The parameters of an authorization request. -/
structure AuthorizeParams where
  clientID : Str
  redirectURI : Str
  responseType : Str
  codeChallenge : Str
  codeChallengeMethod : Str
  state : Str
  scope : Str
  deriving DecidableEq

/-- The parameters as the values of a query or a form. -/
def AuthorizeParams.of (v : Values) : AuthorizeParams :=
  { clientID := v.get "client_id"
    redirectURI := v.get "redirect_uri"
    responseType := v.get "response_type"
    codeChallenge := v.get "code_challenge"
    codeChallengeMethod := v.get "code_challenge_method"
    state := v.get "state"
    scope := v.get "scope" }

/-- Whether a required parameter is missing. -/
def AuthorizeParams.incomplete (p : AuthorizeParams) : Bool :=
  p.clientID = [] || p.responseType = [] || p.codeChallenge = [] || p.codeChallengeMethod = [] ||
    p.state = []

/-- `defaultScope`. -/
def defaultScope : Str := "openid portfolio:read tools:invoke"

/-- The client that `createAuthSession` registers when it finds none. -/
def autoRegistered (p : AuthorizeParams) (now : Time) : OAuthClient :=
  { clientID := p.clientID
    clientName := "auto-registered"
    redirectURIs := [p.redirectURI]
    grantTypes := ["authorization_code", "refresh_token"]
    responseTypes := ["code"]
    tokenEndpointAuthMethod := "none"
    createdAt := unix now }

/-- The lookup of `createAuthSession`: the client, registered when there is none. -/
def findOrRegister (backend : Bool) (p : AuthorizeParams) : M OAuthClient := do
  match ← ClientStore.get backend p.clientID with
  | some client => return client
  | none => do
    let now ← perform .now
    ClientStore.put (autoRegistered p now)
    return autoRegistered p now

/-- The session that `createAuthSession` stores. -/
def pendingSession (p : AuthorizeParams) (sessionID : Str) (now : Time) : AuthSession :=
  { sessionID := sessionID
    clientID := p.clientID
    redirectURI := p.redirectURI
    state := p.state
    codeChallenge := p.codeChallenge
    codeMethod := p.codeChallengeMethod
    scope := if p.scope = [] then defaultScope else p.scope
    createdAt := now }

/-- `OAuthServer.createAuthSession`: the session id, or the text of the error. -/
def createAuthSession (backend : Bool) (p : AuthorizeParams) : M (Except Str Str) := do
  let client ← findOrRegister backend p
  if p.redirectURI ∈ client.redirectURIs then
    match ← perform (.generateRandomHex 16) with
    | .error err => return .error err
    | .ok sessionID => do
      let now ← perform .now
      SessionStore.put (pendingSession p sessionID now)
      return .ok sessionID
  else return .error "redirect_uri does not match registered URI"

/-- The cookie that keeps the id of the pending session. -/
def mcpSessionCookie (sessionID : Str) : SetCookie :=
  { name := "mcp_session_id", value := sessionID, maxAge := 600 }

/-- The redirect to the landing page. -/
def landing (sessionID : Str) : Response :=
  .redirect ("/?mcp_session=" ++ sessionID) [mcpSessionCookie sessionID]

/-- `OAuthServer.setSessionCookieAndRedirect`. -/
def setSessionCookieAndRedirect (cfg : Settings) (r : Request) (sessionID : Str) : M Response := do
  let userID ← extractSessionUserID cfg.codec cfg.secret r
  if userID = [] then return landing sessionID
  else match ← completeAuthorization cfg.backend sessionID userID with
    | .ok redirectURL => return .redirect redirectURL []
    | .error _ => return landing sessionID

/-- `redirectWithError`. -/
def redirectWithError (redirectURI errorCode description state : Str) : Response :=
  match URL.parse redirectURI with
  | none => .error "invalid redirect_uri" 400
  | some u =>
    let q := (u.query.set "error" errorCode).set "error_description" description
    .redirect (withQuery u (if state = [] then q else q.set "state" state)) []

/-- Whether a redirect URI parses to a URL with a host. -/
def validRedirect (redirectURI : Str) : Bool :=
  match URL.parse redirectURI with
  | none => false
  | some u => u.host ≠ []

/-- `OAuthServer.handleAuthorizeGET`. -/
def handleAuthorizeGET (cfg : Settings) (r : Request) : M Response :=
  let p := AuthorizeParams.of r.query
  if p.redirectURI = [] then
    if p.clientID = [] then return .error "missing redirect_uri" 400
    else do
      match ← SessionStore.getByClientID cfg.backend p.clientID with
      | some sess => setSessionCookieAndRedirect cfg r sess.sessionID
      | none => return .error "missing redirect_uri" 400
  else if !validRedirect p.redirectURI then return .error "invalid redirect_uri" 400
  else if p.incomplete then
    return redirectWithError p.redirectURI "invalid_request" "missing required parameters" p.state
  else if p.responseType ≠ "code" then
    return redirectWithError p.redirectURI "unsupported_response_type"
      "only code is supported" p.state
  else if p.codeChallengeMethod ≠ "S256" then
    return redirectWithError p.redirectURI "invalid_request"
      "only S256 code_challenge_method is supported" p.state
  else do
    match ← createAuthSession cfg.backend p with
    | .error err => return .error err 400
    | .ok sessionID => setSessionCookieAndRedirect cfg r sessionID

/-- The JSON error of `handleAuthorizePOST`. -/
def postError (text : Str) : Response := .json 400 [("error", text)]

/-- `OAuthServer.handleAuthorizePOST`. -/
def handleAuthorizePOST (cfg : Settings) (r : Request) : M Response :=
  let p := AuthorizeParams.of r.form
  if r.formError then return .error "invalid form data" 400
  else if p.redirectURI = [] then return postError "missing redirect_uri"
  else if !validRedirect p.redirectURI then return postError "invalid redirect_uri"
  else if p.incomplete then return postError "missing required parameters"
  else if p.responseType ≠ "code" then return postError "unsupported response_type"
  else if p.codeChallengeMethod ≠ "S256" then
    return postError "only S256 code_challenge_method supported"
  else do
    match ← createAuthSession cfg.backend p with
    | .error err => return postError err
    | .ok sessionID => return .json 200 [("session_id", sessionID)]

/-- `OAuthServer.HandleAuthorize`. -/
def handleAuthorize (cfg : Settings) (r : Request) : M Response :=
  if r.method = "GET" then handleAuthorizeGET cfg r
  else if r.method = "POST" then handleAuthorizePOST cfg r
  else return .status 405

/-- `OAuthServer.HandleAuthorizeResume`. -/
def handleAuthorizeResume (cfg : Settings) (r : Request) : M Response :=
  let sessionID := r.query.get "s"
  if r.method ≠ "GET" then return .status 405
  else if sessionID = [] then return .error "missing session parameter" 400
  else do
    match ← SessionStore.get cfg.backend sessionID with
    | none => return .error "invalid or expired session" 400
    | some _ => setSessionCookieAndRedirect cfg r sessionID

/-- `baseURLFromRequest`. -/
def baseURLFromRequest (r : Request) : Str :=
  let https := r.tls || foldName (r.header.get "X-Forwarded-Proto") = foldName "https"
  (if https then ascii "https" else ascii "http") ++ "://" ++ r.host

/-- The end of both grants: an access token and a stored refresh token for the same user, client and
scope. -/
def issueTokens (cfg : Settings) (r : Request) (userID clientID scope : Str) : M Response := do
  match ← mintAccessToken cfg.codec cfg.secret userID scope clientID (baseURLFromRequest r) with
  | none =>
    return writeOAuthError 500 "server_error" "failed to mint access token"
  | some accessToken => do
    match ← perform .generateUUID with
    | .error _ =>
      return writeOAuthError 500 "server_error" "failed to generate refresh token"
    | .ok token => do
      let now ← perform .now
      TokenStore.put ⟨token, userID, clientID, scope, now + seconds 604800⟩
      return .tokens accessToken token scope

/-- `OAuthServer.handleAuthCodeGrant`. -/
def handleAuthCodeGrant (cfg : Settings) (r : Request) : M Response :=
  let code := r.form.get "code"
  let clientID := r.form.get "client_id"
  let redirectURI := r.form.get "redirect_uri"
  let codeVerifier := r.form.get "code_verifier"
  if code = [] ∨ clientID = [] ∨ redirectURI = [] ∨ codeVerifier = [] then
    return writeOAuthError 400 "invalid_request" "missing required parameters"
  else do
    match ← CodeStore.consumeCode cfg.backend code with
    | none =>
      return writeOAuthError 400 "invalid_grant"
        "authorization code not found, expired, or already used"
    | some authCode =>
      if authCode.clientID ≠ clientID then
        return writeOAuthError 400 "invalid_grant" "client_id mismatch"
      else if authCode.redirectURI ≠ redirectURI then
        return writeOAuthError 400 "invalid_grant" "redirect_uri mismatch"
      else if !verifyPKCE cfg.codec codeVerifier authCode.codeChallenge then
        return writeOAuthError 400 "invalid_grant" "PKCE verification failed"
      else issueTokens cfg r authCode.userID authCode.clientID authCode.scope

/-- `OAuthServer.handleRefreshTokenGrant`. -/
def handleRefreshTokenGrant (cfg : Settings) (r : Request) : M Response :=
  let refreshToken := r.form.get "refresh_token"
  let clientID := r.form.get "client_id"
  if refreshToken = [] ∨ clientID = [] then
    return writeOAuthError 400 "invalid_request" "missing required parameters"
  else do
    match ← TokenStore.get cfg.backend refreshToken with
    | none =>
      return writeOAuthError 400 "invalid_grant" "refresh token not found or expired"
    | some t =>
      if t.clientID ≠ clientID then
        return writeOAuthError 400 "invalid_grant" "client_id mismatch"
      else do
        TokenStore.delete refreshToken
        issueTokens cfg r t.userID t.clientID t.scope

/-- `OAuthServer.HandleToken`. -/
def handleToken (cfg : Settings) (r : Request) : M Response :=
  if r.method ≠ "POST" then return .status 405
  else if r.formError then
    return writeOAuthError 400 "invalid_request" "invalid form body"
  else if r.form.get "grant_type" = "authorization_code" then
    handleAuthCodeGrant cfg r
  else if r.form.get "grant_type" = "refresh_token" then
    handleRefreshTokenGrant cfg r
  else
    return writeOAuthError 400 "unsupported_grant_type"
      "grant_type must be authorization_code or refresh_token"

/-- `dcrRequest`. -/
structure DcrRequest where
  clientName : Str
  redirectURIs : List Str
  grantTypes : List Str
  responseTypes : List Str
  tokenEndpointAuthMethod : Str
  deriving DecidableEq

/-- The body of a registration stored into a `dcrRequest`. -/
def decodeDcr (body : Json) : Option DcrRequest := do
  let members ← structMembers body
  let clientName ← stringField "client_name" members
  let redirectURIs ← stringsField "redirect_uris" members
  let grantTypes ← stringsField "grant_types" members
  let responseTypes ← stringsField "response_types" members
  let authMethod ← stringField "token_endpoint_auth_method" members
  return ⟨clientName, redirectURIs, grantTypes, responseTypes, authMethod⟩

/-- The client of a registration, with the defaults applied. -/
def registeredClient (req : DcrRequest) (clientID clientSecret : Str) (now : Time) : OAuthClient :=
  { clientID := clientID
    clientSecret := clientSecret
    clientName := req.clientName
    redirectURIs := req.redirectURIs
    grantTypes := if req.grantTypes = [] then ["authorization_code", "refresh_token"]
      else req.grantTypes
    responseTypes := if req.responseTypes = [] then ["code"] else req.responseTypes
    tokenEndpointAuthMethod :=
      if req.tokenEndpointAuthMethod = [] then "none" else req.tokenEndpointAuthMethod
    createdAt := unix now }

/-- `OAuthServer.HandleRegister`. `body` is the JSON document of the request, `none` for a syntax
error. -/
def handleRegister (r : Request) (body : Option Json) : M Response :=
  if r.method ≠ "POST" then return .status 405
  else match body.bind decodeDcr with
    | none => return writeOAuthError 400 "invalid_request" "invalid JSON body"
    | some req =>
      if req.redirectURIs = [] then
        return writeOAuthError 400 "invalid_request" "redirect_uris is required"
      else do
        match ← perform .generateUUID with
        | .error _ =>
          return writeOAuthError 500 "server_error" "failed to generate client_id"
        | .ok clientID => do
          match ← perform (.generateRandomHex 32) with
          | .error _ =>
            return writeOAuthError 500 "server_error" "failed to generate client_secret"
          | .ok clientSecret => do
            let now ← perform .now
            ClientStore.put (registeredClient req clientID clientSecret now)
            return .registered (registeredClient req clientID clientSecret now)

/-- The redirect to the error page. -/
def errorPage (reason : Str) : Response := .redirect ("/error?reason=" ++ reason) []

/-- The login that a browser session gets. -/
def dashboard (token : Str) : Response :=
  .redirect "/dashboard" [{ name := "vire_session", value := token }]

/-- `AuthHandler.tryCompleteMCPSession`: the response that it wrote, `none` when it returns the
empty string. A redirect URL has a query, so it is not empty. -/
def tryCompleteMCPSession (cfg : Settings) (r : Request) (token : Str) : M (Option Response) :=
  match r.cookie "mcp_session_id" with
  | none => return none
  | some sessionID =>
    if sessionID = [] then return none
    else if extractJWTSubFromToken cfg.codec token = [] then return none
    else do
      match ← completeAuthorization cfg.backend sessionID
          (extractJWTSubFromToken cfg.codec token) with
      | .error _ => return none
      | .ok redirectURL => return some (.redirect redirectURL
          [{ name := "mcp_session_id", value := [], maxAge := -1 }])

/-- The end of the login and of the callback: a pending session is completed, or else the token
becomes the browser session. -/
def finishLogin (cfg : Settings) (r : Request) (token : Str) : M Response := do
  match ← tryCompleteMCPSession cfg r token with
  | some response => return response
  | none => return dashboard token

/-- `AuthHandler.HandleLogin`. -/
def handleLogin (cfg : Settings) (r : Request) : M Response :=
  let username := trimSpace (r.form.get "username")
  let password := r.form.get "password"
  if r.formError then return errorPage "bad_request"
  else if username = [] ∨ password = [] then return errorPage "missing_credentials"
  else do
    match ← perform (.postLogin username password) with
    | .unreachable => return errorPage "server_unavailable"
    | .unreadable => return errorPage "auth_failed"
    | .reply status token =>
      if status ≠ 200 then return errorPage "invalid_credentials"
      else match token with
        | none => return errorPage "auth_failed"
        | some token =>
          if token = [] then return errorPage "auth_failed"
          else finishLogin cfg r token

/-- `AuthHandler.HandleOAuthCallback`. -/
def handleOAuthCallback (cfg : Settings) (r : Request) : M Response :=
  if r.query.get "token" = [] then return errorPage "auth_failed"
  else finishLogin cfg r (r.query.get "token")

/-- A request to one of the routes. -/
inductive Call where
  | authorize (r : Request)
  | resume (r : Request)
  | token (r : Request)
  | register (r : Request) (body : Option Json)
  | login (r : Request)
  | callback (r : Request)

/-- The handler of a route. -/
def handle (cfg : Settings) : Call → M Response
  | .authorize r => handleAuthorize cfg r
  | .resume r => handleAuthorizeResume cfg r
  | .token r => handleToken cfg r
  | .register r body => handleRegister r body
  | .login r => handleLogin cfg r
  | .callback r => handleOAuthCallback cfg r

/-- The pool of the requests that the portal serves. -/
abbrev portal (cfg : Settings) : System Op Reply State Env ℕ Call Response :=
  server cfg.backend (handle cfg)

/-- An entry of the portal's log. -/
abbrev PortalEntry := Entry Op Reply State ℕ Call Response

/-- The query of an authorization request of the client `m`. -/
def sampleQuery (redirectURI codeChallenge state : Str) : Values :=
  [("client_id", ["m"]), ("redirect_uri", [redirectURI]),
    ("response_type", ["code"]), ("code_challenge", [codeChallenge]),
    ("code_challenge_method", ["S256"]), ("state", [state])]

end VirePortal.Auth
