import VirePortal.Mcp.Proxy

/-!
# Serving an MCP request

`Handler.ServeHTTP` (`handler.go`): the user of a request is that of its Bearer token, or else that
of its session cookie. A request without a user is answered here, and any other goes to the
streamable server of mcp-go, which passes the request's context to the handlers of the tools that it
calls.
-/

namespace VirePortal.Mcp

open Go Auth Concurrent

/-- `Handler`, the fields that it serves requests with. -/
structure McpHandler where
  lib : Lib
  proxy : MCPProxy
  jwtSecret : Str
  portalBaseURL : Str
  /-- What `GetVersion`, `GetBuild` and `GetGitCommit` return. -/
  version : VersionInfo

/-- What an MCP request is answered with: a reply of the handler itself, or the results of the tools
that mcp-go called for it. -/
inductive McpResponse where
  | reply (statusCode : ℕ) (header : Header) (body : Str)
  | streamed (results : List CallToolResult)
  deriving DecidableEq

/-- The token of the `Authorization` header. -/
def bearerToken (r : Request) : Option Str :=
  let authHeader := r.header.get "Authorization"
  if hasPrefix authHeader "Bearer " then some (authHeader.drop 7) else none

/-- `extractJWTSub`, which is `extractJWTSubFromToken` of the auth handlers. -/
def extractJWTSub (codec : Codec) (token : Str) : Str := extractJWTSubFromToken codec token

/-- `sanitizeHost`. -/
def sanitizeHost (host : Str) : Str :=
  let host := host.filter (· ≠ 13)
  let host := host.filter (· ≠ 10)
  host.filter (· ≠ 34)

/-- The answer to a request without a user. -/
def unauthorized (r : Request) : McpResponse :=
  let scheme := if r.tls || foldName (r.header.get "X-Forwarded-Proto") = foldName "https" then
      ascii "https"
    else ascii "http"
  let resourceMetadata :=
    scheme ++ "://" ++ sanitizeHost r.host ++ "/.well-known/oauth-protected-resource"
  let header := Header.set [] "WWW-Authenticate"
    ("Bearer resource_metadata=\"" ++ resourceMetadata ++ "\"")
  .reply 401 (header.set "Content-Type" "application/json")
    (ascii ("\x7b\"error\":\"unauthorized\",\"error_description\":" ++
      "\"Authentication required to access MCP endpoint\"\x7d\n"))

namespace McpHandler

variable (h : McpHandler)

/-- The `sub` of a token that `validateJWT` accepts at the time `t`, unless it is empty. -/
def subAt (token : Str) (t : Time) : Option Str :=
  match validateJWT h.lib.codec h.jwtSecret token t with
  | .ok claims => if claims.sub ≠ [] then some claims.sub else none
  | .error _ => none

/-- `validateJWT` with the clock, and the check of the `sub`. -/
def validated (token : Str) : McpProg (Option Str) := do
  let t ← now
  return h.subAt token t

/-- The part of `withUserContext` that reads the `Authorization` header. -/
def bearerUser (r : Request) : McpProg (Option Str) :=
  match bearerToken r with
  | some token => h.validated token
  | none => return none

/-- The part of `withUserContext` that reads the cookie. -/
def cookieUser (r : Request) : McpProg (Option Str) :=
  match r.cookie "vire_session" with
  | none => return none
  | some value =>
    if value = [] then return none
    else do
      match ← h.validated value with
      | some sub => return some sub
      | none =>
        -- without a secret the token's `sub` is taken as it is
        if h.jwtSecret.length = 0 then
          let sub := extractJWTSub h.lib.codec value
          return if sub ≠ [] then some sub else none
        else return none

/-- `withUserContext`, with the user that it attaches to the context. -/
def withUserContext (r : Request) : McpProg (Option Str) := do
  match ← h.bearerUser r with
  | some sub => return some sub
  | none => h.cookieUser r

/-- A tool's handler, called with the context of the request. -/
def callTool (user : Option Str) (call : ToolCall) : McpProg CallToolResult :=
  match call.handler with
  | .generic ct => genericToolHandler h.lib h.proxy user ct call.arguments
  | .version => versionToolHandler h.lib h.proxy user h.version
  | .getPage => getPageToolHandler h.lib user h.portalBaseURL h.jwtSecret call.arguments

/-- The tools that mcp-go calls for a request, one after the other. -/
def callTools (user : Option Str) : List ToolCall → McpProg (List CallToolResult)
  | [] => return []
  | call :: calls => do
    let result ← h.callTool user call
    let results ← callTools user calls
    return result :: results

/-- `ServeHTTP`. -/
def serveHTTP (r : Request) : McpProg McpResponse := do
  match ← h.withUserContext r with
  | none => return unauthorized r
  | some userID => do
    let calls ← streamable userID
    let results ← h.callTools (some userID) calls
    return .streamed results

end McpHandler

end VirePortal.Mcp
