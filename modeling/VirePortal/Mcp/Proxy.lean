import VirePortal.Concurrent.Dialogue
import VirePortal.Go.Http
import VirePortal.Go.Placeholders
import VirePortal.Go.RoundTrip
import VirePortal.Mcp.Catalog
import VirePortal.Mcp.Jwt

/-!
# The MCP proxy and the tool handlers

`MCPProxy` (`proxy.go`) and the handlers of the tools (`catalog.go`, `version.go`, `get_page.go`) as
programs over the clock and the requests that they make. What runs a handler is mcp-go, which gets
the request with its user and calls handlers (`McpOp.streamable`).

`interface{}` is a JSON document, with `null` for `nil`. The texts of errors of the standard library
are parameters, as is how it prints a value.
-/

namespace VirePortal.Mcp

open Go Auth Concurrent

/-- `versionInfo`. -/
structure VersionInfo where
  version : Str
  build : Str
  commit : Str
  deriving DecidableEq

/-- What the handlers use of the standard library. -/
structure Lib where
  codec : Codec
  /-- `fmt.Sprint` of a value that is neither `nil` nor a string. -/
  format : Json → Str
  /-- The verb `%q`. -/
  quote : Str → Str
  /-- The text of the error of `http.NewRequestWithContext` for a URL that it refuses. -/
  urlError : Str → Str
  /-- `json.Marshal` of a map, with the text of its error. -/
  marshalMap : Table Json → Except Str Str
  /-- `json.Marshal` of the payload of a loopback token. -/
  marshalLoopback : LoopbackClaims → Option Str
  /-- `json.Marshal` of the result of `get_version`. -/
  marshalVersions : List (Str × VersionInfo) → Option Str

/-- `fmt.Sprint`. -/
def Lib.sprint (lib : Lib) : Json → Str
  | .null => "<nil>"
  | .string s => s
  | v => lib.format v

/-- The configuration that `NewMCPProxy` reads, with what `GetVersion`, `GetBuild` and
`GetGitCommit` return. -/
structure ProxyConfig where
  portfolios : List Str := []
  displayCurrency : Str := []
  version : VersionInfo

/-- `MCPProxy`. -/
structure MCPProxy where
  serverURL : Str
  userHeaders : Header

/-- `NewMCPProxy`. -/
def newMCPProxy (serverURL : Str) (cfg : ProxyConfig) : MCPProxy :=
  let headers : Header := []
  let headers := if 0 < cfg.portfolios.length then
      headers.set "X-Vire-Portfolios" ((cfg.portfolios.intersperse [44]).flatten)
    else headers
  let headers := if cfg.displayCurrency ≠ [] then
      headers.set "X-Vire-Display-Currency" cfg.displayCurrency
    else headers
  let headers := headers.set "X-Vire-Portal-Version" cfg.version.version
  let headers := headers.set "X-Vire-Portal-Build" cfg.version.build
  let headers := headers.set "X-Vire-Portal-Commit" cfg.version.commit
  ⟨serverURL, headers⟩

/-- `sanitizeHeaderValue`. -/
def sanitizeHeaderValue (s : Str) : Str := s.filter fun b => b ≠ 13 && b ≠ 10

/-- `applyUserHeaders`, with the user of the context. -/
def applyUserHeaders (p : MCPProxy) (user : Option Str) (h : Header) : Header :=
  let h := h.setAll p.userHeaders
  match user with
  | some userID => if userID ≠ [] then h.set "X-Vire-User-ID"
      (sanitizeHeaderValue userID) else h
  | none => h

/-- A request that the portal makes. -/
structure OutRequest where
  method : Str
  url : URL
  header : Header
  body : Option Str := none

/-- What comes of `client.Do` and the read of the body, with the texts of their errors. -/
inductive OutReply where
  | failed (text : Str)
  | unreadable (text : Str)
  | reply (statusCode : ℕ) (body : Str)

/-- A call of a tool that mcp-go makes. Arguments that are missing are an empty table. -/
structure ToolCall where
  handler : ToolHandler
  arguments : Table Json

/-- The operations. -/
inductive McpOp where
  /-- `time.Now`. -/
  | now
  /-- A request to vire-server. -/
  | exchange (req : OutRequest)
  /-- A request to the portal itself. -/
  | loopback (req : OutRequest)
  /-- `h.streamable.ServeHTTP`, with the user of the request's context. -/
  | streamable (userID : Str)

/-- What a program receives from an operation: from `streamable` the calls of tools that mcp-go
makes for the request. -/
@[reducible]
def McpReply : McpOp → Type
  | .now => Time
  | .exchange _ => OutReply
  | .loopback _ => OutReply
  | .streamable _ => List ToolCall

/-- A program over the operations. -/
abbrev McpProg := Prog McpOp McpReply

def now : McpProg Time := .call McpOp.now

def exchange (req : OutRequest) : McpProg OutReply := .call (McpOp.exchange req)

def loopback (req : OutRequest) : McpProg OutReply := .call (McpOp.loopback req)

def streamable (userID : Str) : McpProg (List ToolCall) := .call (McpOp.streamable userID)

/-- `maxResponseSize`. -/
def maxResponseSize : ℕ := 50 * 2 ^ 20

/-- `mcp.CallToolResult` with one text. -/
structure CallToolResult where
  text : Str
  isError : Bool := false
  deriving DecidableEq

/-- `errorResult`. -/
def errorResult (message : Str) : CallToolResult := ⟨message, true⟩

/-- A string field of a JSON text that is stored into a struct, `none` for an error. -/
def Lib.stringOf (lib : Lib) (name body : Str) : Option Str :=
  ((lib.codec.unmarshal body).bind structMembers).bind (stringField name)

/-- `parseErrorResponse`, the text of the error. -/
def parseErrorResponse (lib : Lib) (statusCode : ℕ) (body : Str) : Str :=
  let other := "server returned " ++ formatNat statusCode ++ ": " ++ body
  match lib.stringOf "error" body with
  | some text => if text ≠ [] then text else other
  | none => other

section Handlers

variable (lib : Lib) (p : MCPProxy) (user : Option Str)

/-- What `get`, `del` and `doJSON` have in common: the request with its headers, and what becomes of
its reply. -/
def send (method path : Str) (header : Header) (body : Option Str) : McpProg (Except Str Str) :=
  match URL.parse (p.serverURL ++ path) with
  | none => return .error (lib.urlError (p.serverURL ++ path))
  | some url => do
    match ← exchange ⟨method, url, applyUserHeaders p user header, body⟩ with
    | .failed text => return .error ("server request failed: " ++ text)
    | .unreadable text => return .error ("failed to read response: " ++ text)
    | .reply statusCode body =>
      let body := body.take maxResponseSize
      if 400 ≤ statusCode then return .error (parseErrorResponse lib statusCode body)
      else return .ok body

/-- The header that `del` and `doJSON` set. -/
def jsonHeader : Header := Header.set [] "Content-Type" "application/json"

/-- `get`. -/
def get (path : Str) : McpProg (Except Str Str) := send lib p user "GET" path [] none

/-- `del`. -/
def del (path : Str) : McpProg (Except Str Str) :=
  send lib p user "DELETE" path jsonHeader none

/-- `doJSON`. -/
def doJSON (method path : Str) (data : Option (Table Json)) : McpProg (Except Str Str) :=
  match data with
  | none => send lib p user method path jsonHeader none
  | some data =>
    match lib.marshalMap data with
    | .error text => return .error ("failed to marshal request: " ++ text)
    | .ok jsonData => send lib p user method path jsonHeader (some jsonData)

/-- `post`. -/
def post := doJSON lib p user "POST"

/-- `put`. -/
def put := doJSON lib p user "PUT"

/-- `patch`. -/
def patch := doJSON lib p user "PATCH"

/-- `resolveDefaultPortfolio`. -/
def resolveDefaultPortfolio : McpProg Str :=
  let portfolios := p.userHeaders.get "X-Vire-Portfolios"
  if portfolios ≠ [] then return (cut 44 portfolios).1
  else do
    match ← get lib p user "/api/portfolios/default" with
    | .error _ => return []
    | .ok body => return (lib.stringOf "default" body).getD []

/-- `resolveDefaultValue`. -/
def resolveDefaultValue (defaultFrom : Str) : McpProg Json :=
  if defaultFrom = "user_config.default_portfolio" then do
    let portfolio ← resolveDefaultPortfolio lib p user
    return .string portfolio
  else return .null

/-- `CallToolRequest.GetString`, with the empty string as its default. -/
def getString (args : Table Json) (name : Str) : Str :=
  match args.lookup name with
  | some (.string s) => s
  | _ => []

/-- The value that the arguments of a call give a parameter. -/
def givenValue (args : Table Json) (param : CatalogParam) : Option Json :=
  if param.type ∈ [ascii "number", ascii "boolean", ascii "array", ascii "object"] then
    args.lookup param.name
  else
    let val := getString args param.name
    if val ≠ [] then some (.string val) else none

/-- `resolveParamValue`. -/
def resolveParamValue (args : Table Json) (param : CatalogParam) : McpProg Json :=
  match givenValue args param with
  | some v => return v
  | none =>
    if param.defaultFrom ≠ [] then resolveDefaultValue lib p user param.defaultFrom
    else return .null

/-- The variables of `GenericToolHandler`. -/
structure Parts where
  path : Str
  bodyParams : Table Json := ∅
  queryParams : Values := []

/-- The text of a value that is not `nil`, `none` for an empty one. -/
def Lib.textOf (v : Json) : Option Str :=
  match v with
  | .null => none
  | v => if lib.sprint v = [] then none else some (lib.sprint v)

/-- One turn of the loop of `GenericToolHandler`, with the parameter's value. The error is the text
of the result. -/
def applyParam (param : CatalogParam) (val : Json) (parts : Parts) : Except Str Parts :=
  if param.location = "path" then
    match lib.textOf val with
    | none =>
      if param.required
        then .error ("Error: " ++ param.name ++ " parameter is required")
      else .ok parts
    | some strVal =>
      .ok { parts with path := replaceAll parts.path (placeholder param.name) (pathEscape strVal) }
  else if param.location = "query" then
    match lib.textOf val with
    | none => .ok parts
    | some strVal => .ok { parts with queryParams := parts.queryParams.set param.name strVal }
  else if param.location = "body" then
    match val with
    | .null => .ok parts
    | val => .ok { parts with bodyParams := parts.bodyParams.insert param.name val }
  else .ok parts

/-- The loop of `GenericToolHandler`. -/
def resolveParams (args : Table Json) : List CatalogParam → Parts → McpProg (Except Str Parts)
  | [], parts => return .ok parts
  | param :: params, parts => do
    let val ← resolveParamValue lib p user args param
    match applyParam lib param val parts with
    | .error text => return .error text
    | .ok parts => resolveParams args params parts

/-- `bodyOrNil`. -/
def bodyOrNil (body : Table Json) : Option (Table Json) :=
  if body.entries.length = 0 then none else some body

/-- The path of the request with its query. -/
def Parts.target (parts : Parts) : Str :=
  if 0 < parts.queryParams.length then parts.path ++ 63 :: parts.queryParams.encode else parts.path

/-- The request that `GenericToolHandler` makes of the parts. -/
def sendParts (method : Str) (parts : Parts) : McpProg (Except Str Str) :=
  let method' := upperASCII method
  if method' = "GET" then get lib p user parts.target
  else if method' = "POST" then post lib p user parts.target (bodyOrNil parts.bodyParams)
  else if method' = "PUT" then put lib p user parts.target (bodyOrNil parts.bodyParams)
  else if method' = "PATCH" then patch lib p user parts.target (bodyOrNil parts.bodyParams)
  else if method' = "DELETE" then del lib p user parts.target
  else return .error ("unsupported method " ++ method)

/-- `GenericToolHandler`. -/
def genericToolHandler (ct : CatalogTool) (args : Table Json) : McpProg CallToolResult := do
  match ← resolveParams lib p user args ct.params { path := ct.path } with
  | .error text => return errorResult text
  | .ok parts =>
    match ← sendParts lib p user ct.method parts with
    | .error text => return errorResult ("Error: " ++ text)
    | .ok respBody => return ⟨respBody, false⟩

/-- A JSON text that is stored into a `map[string]string`, `none` for an error. -/
def Lib.stringMap (body : Str) : Option (List (Str × Str)) :=
  ((lib.codec.unmarshal body).bind structMembers).bind fun members =>
    members.mapM fun m => (storeString [] m.2).map (m.1, ·)

/-- A value of such a map: that of the last member of the name. -/
def lastMember (members : List (Str × Str)) (name : Str) : Str :=
  ((members.reverse.find? fun m => m.1 = name).map Prod.snd).getD []

/-- The version of vire-server in the reply of `/api/version`. -/
def Lib.serverVersion (body : Str) : Option VersionInfo :=
  (lib.stringMap body).map fun serverResp =>
    ⟨lastMember serverResp "version", lastMember serverResp "build",
      lastMember serverResp "git_commit"⟩

/-- The variable `result` of `VersionToolHandler`, by what `get` returns. -/
def Lib.versions (version : VersionInfo) (fetched : Except Str Str) : List (Str × VersionInfo) :=
  let portal := (ascii "vire_portal", version)
  match fetched with
  | .error _ => [portal]
  | .ok body =>
    match lib.serverVersion body with
    | none => [portal]
    | some v => [portal, (ascii "vire_server", v)]

/-- `VersionToolHandler`, with the version of the portal. -/
def versionToolHandler (version : VersionInfo) : McpProg CallToolResult := do
  let fetched ← get lib p user "/api/version"
  match lib.marshalVersions (lib.versions version fetched) with
  | none => return errorResult "failed to marshal version info"
  | some out => return ⟨out, false⟩

/-- `allowedPages`. -/
def allowedPages : List (Str × Str) :=
  [("dashboard", "/dashboard"), ("strategy", "/strategy"),
   ("cash", "/cash"), ("glossary", "/glossary"),
   ("changelog", "/changelog"), ("help", "/help"),
   ("mcp-info", "/mcp-info"), ("profile", "/profile"),
   ("docs", "/docs")]

/-- `maxPageResponseSize`. -/
def maxPageResponseSize : ℕ := 5 * 2 ^ 20

/-- The last part of `GetPageToolHandler`: the request to the portal, with the minted token. -/
def fetchPage (url token : Str) : McpProg CallToolResult :=
  match URL.parse url with
  | none => return errorResult ("Error: failed to build request: " ++ lib.urlError url)
  | some u => do
    let header := Header.set [] "Cookie" ("vire_session=" ++ token)
    match ← loopback ⟨"GET", u, header, none⟩ with
    | .failed text => return errorResult ("Error: portal request failed: " ++ text)
    | .unreadable text => return errorResult ("Error: failed to read response: " ++ text)
    | .reply statusCode body =>
      let body := body.take maxPageResponseSize
      if statusCode ≠ 200 then
        return errorResult
          ("Error: portal returned status " ++ formatNat statusCode ++ ": " ++ body)
      else return ⟨body, false⟩

/-- `GetPageToolHandler`. The text of an error of `json.Marshal` is left out. -/
def getPageToolHandler (portalBaseURL jwtSecret : Str) (args : Table Json) :
    McpProg CallToolResult :=
  let page := getString args "page"
  match allowedPages.lookup page with
  | none => return errorResult ("Error: " ++ lib.quote page ++
      ascii (" is not a valid page. Choose one of: dashboard, strategy, cash, glossary, " ++
        "changelog, help, mcp-info, profile, docs"))
  | some path =>
    match user with
    | none => return errorResult "Error: authentication required"
    | some userID => do
      let time ← now
      match mintLoopbackJWT lib.codec lib.marshalLoopback userID jwtSecret time with
      | none => return errorResult "Error: failed to mint loopback token: marshal payload: "
      | some token => fetchPage lib (portalBaseURL ++ path) token

end Handlers

/-! ### What is sent -/

section Sent

/-- A request to the server under this path, whose headers are those of its method with the static
ones and the user. -/
def SentTo (p : MCPProxy) (user : Option Str) (path : Str) : McpOp → Prop
  | .exchange req => URL.parse (p.serverURL ++ path) = some req.url ∧
      ∃ header ∈ [[], jsonHeader], req.header = applyUserHeaders p user header
  | _ => False

variable {lib : Lib} {p : MCPProxy} {user : Option Str}

/-- `send` sends one request. -/
theorem all_send (method path : Str) {header : Header} (hheader : header ∈ [[], jsonHeader])
    (body : Option Str) : (send lib p user method path header body).All (SentTo p user path) := by
  unfold send
  cases hurl : URL.parse (p.serverURL ++ path) with
  | none => trivial
  | some url =>
    refine Prog.all_bind ?_ fun reply => ?_
    · exact (Prog.all_call ..).2 ⟨hurl, header, hheader, rfl⟩
    · cases reply with
      | failed text => trivial
      | unreadable text => trivial
      | reply statusCode body =>
        dsimp only
        split_ifs
        · trivial
        · trivial

/-- `get` sends one request. -/
theorem all_get (path : Str) : (get lib p user path).All (SentTo p user path) :=
  all_send _ path (.head _) none

/-- `del` sends one request. -/
theorem all_del (path : Str) : (del lib p user path).All (SentTo p user path) :=
  all_send _ path (.tail _ (List.mem_singleton.2 rfl)) none

/-- `doJSON` sends one request. -/
theorem all_doJSON (method path : Str) (data : Option (Table Json)) :
    (doJSON lib p user method path data).All (SentTo p user path) := by
  have hheader : jsonHeader ∈ [[], jsonHeader] := List.mem_cons_of_mem _ (List.mem_singleton.2 rfl)
  unfold doJSON
  cases data with
  | none => exact all_send method path hheader none
  | some data =>
    dsimp only
    cases lib.marshalMap data with
    | error text => trivial
    | ok jsonData => exact all_send method path hheader _

/-- All methods send to the same path. -/
theorem all_sendParts (method : Str) (parts : Parts) :
    (sendParts lib p user method parts).All (SentTo p user parts.target) := by
  unfold sendParts
  dsimp only
  split_ifs
  · exact all_get _
  · exact all_doJSON ..
  · exact all_doJSON ..
  · exact all_doJSON ..
  · exact all_del _
  · trivial

end Sent

end VirePortal.Mcp
