import VirePortal.Mcp.Serve

/-!
# Who passes the MCP endpoint

With a secret, a request comes to the streamable server exactly when its Bearer token or else its
session cookie passes `validateJWT` with a `sub` that is not empty (`UserOf`), and what the tools
then send to vire-server names that user and nobody else. Both are statements about every dialogue
of `serveHTTP`, so about every clock, every choice of tools by mcp-go and every reply.

The static headers of the proxy may hold anything, the name of the user header in any case included:
`applyUserHeaders` goes through `Header.Set`, which brings all these keys to one form, and sets the
user last.
-/

namespace VirePortal.Mcp

open Go Auth Concurrent

/-- The header that names the user. -/
def userIDHeader : Str := "X-Vire-User-ID"

/-- What a request does: its operations with their replies. -/
abbrev McpOps := List ((o : McpOp) × McpReply o)

/-- The streamable server gets the request with the user `u`. -/
def Reached (u : Str) (ops : McpOps) : Prop := ∃ calls, ⟨.streamable u, calls⟩ ∈ ops

/-- The clock readings that a request starts with, which are those of its checks. -/
def readings : McpOps → List Time
  | ⟨.now, t⟩ :: ops => t :: readings ops
  | _ => []

namespace McpHandler

variable (h : McpHandler) (r : Request)

/-- The token passes `validateJWT` at the time `t`, with the `sub` `u`. -/
def Passes (token : Str) (t : Time) (u : Str) : Prop :=
  ∃ claims, validateJWT h.lib.codec h.jwtSecret token t = .ok claims ∧ claims.sub = u ∧ u ≠ []

/-- The Bearer token of the request passes. -/
def BearerSub (t : Time) (u : Str) : Prop :=
  ∃ token, bearerToken r = some token ∧ h.Passes token t u

/-- The session cookie of the request passes. -/
def CookieSub (t : Time) (u : Str) : Prop :=
  ∃ value, r.cookie "vire_session" = some value ∧ h.Passes value t u

/-- The user of a request whose checks read the clock at the times `ts`: that of the Bearer token
when it passes, and otherwise that of the cookie. The check of the Bearer token is the first one,
and the check of the cookie is the last one. -/
def UserOf (ts : List Time) (u : Str) : Prop :=
  h.BearerSub r (ts.headD 0) u ∨
    (∀ u', ¬ h.BearerSub r (ts.headD 0) u') ∧ h.CookieSub r (ts.getLastD 0) u

end McpHandler

/-- An operation that a tool may come to: a request to vire-server names the user, in what
`sanitizeHeaderValue` leaves of the name. -/
def Identified (u : Str) : McpOp → Prop
  | .now => True
  | .exchange req => req.header.received userIDHeader = [sanitizeHeaderValue u]
  | .loopback _ => True
  | .streamable _ => False

section Tools

variable {lib : Lib} {p : MCPProxy} {u : Str} {h : McpHandler}

/-- A name without line breaks is sent as it is. -/
theorem sanitizeHeaderValue_eq (hcr : 13 ∉ u) (hlf : 10 ∉ u) : sanitizeHeaderValue u = u := by
  apply List.filter_eq_self.2
  intro b hb
  have hb13 : b ≠ 13 := fun heq => hcr (heq ▸ hb)
  have hb10 : b ≠ 10 := fun heq => hlf (heq ▸ hb)
  simp [hb13, hb10]

/-- The name of the header is valid. -/
theorem userIDHeader_valid : userIDHeader.all validHeaderFieldByte = true := by decide

/-- Whatever the static headers are, a request carries the user of its context and no other. -/
theorem received_applyUserHeaders (p : MCPProxy) {header : Header}
    (hcanon : Header.CanonicalFor userIDHeader header) (hu : u ≠ []) :
    (applyUserHeaders p (some u) header).received userIDHeader = [sanitizeHeaderValue u] := by
  have hstatic : Header.CanonicalFor userIDHeader (header.setAll p.userHeaders) :=
    hcanon.setAll userIDHeader_valid
  calc (applyUserHeaders p (some u) header).received userIDHeader
      = ((header.setAll p.userHeaders).set userIDHeader (sanitizeHeaderValue u)).received
        userIDHeader :=
        congrArg (Header.received · userIDHeader) (if_pos hu)
    _ = [sanitizeHeaderValue u] := Header.received_set hstatic

/-- The header of a JSON request names no user. -/
theorem canonicalFor_jsonHeader : Header.CanonicalFor userIDHeader jsonHeader :=
  Header.CanonicalFor.set nofun userIDHeader_valid

/-- What the proxy sends for a user names the user. -/
theorem SentTo.identified (hu : u ≠ []) {path : Str} {o : McpOp} (ho : SentTo p (some u) path o) :
    Identified u o := by
  cases o with
  | exchange req =>
    obtain ⟨-, header, hmem, hheader⟩ := ho
    have hcanon : Header.CanonicalFor userIDHeader header := by
      rcases List.mem_cons.1 hmem with rfl | hmem
      · exact nofun
      · rw [List.mem_singleton.1 hmem]
        exact canonicalFor_jsonHeader
    show req.header.received userIDHeader = _
    rw [hheader]
    exact received_applyUserHeaders p hcanon hu
  | now | loopback _ | streamable _ => exact ho.elim

/-- What is sent by a user is identified. -/
theorem all_identified {α : Type} (hu : u ≠ []) {path : Str} {m : McpProg α}
    (hm : m.All (SentTo p (some u) path)) :
    m.All (Identified u) :=
  Prog.All.imp (fun _ => SentTo.identified hu) hm

/-- The default portfolio is asked for by the user. -/
theorem all_resolveDefaultPortfolio (hu : u ≠ []) :
    (resolveDefaultPortfolio lib p (some u)).All (Identified u) := by
  unfold resolveDefaultPortfolio
  dsimp only
  split_ifs
  · trivial
  · refine Prog.all_bind (all_identified hu (all_get _)) fun reply => ?_
    cases reply with
    | error text => trivial
    | ok body => trivial

/-- The value of a parameter is asked for by the user. -/
theorem all_resolveParamValue (hu : u ≠ []) (args : Table Json) (param : CatalogParam) :
    (resolveParamValue lib p (some u) args param).All (Identified u) := by
  unfold resolveParamValue
  cases givenValue args param with
  | some v => trivial
  | none =>
    dsimp only [resolveDefaultValue]
    split_ifs
    · exact Prog.all_bind (all_resolveDefaultPortfolio hu) fun _ => trivial
    · trivial
    · trivial

/-- The parameters are asked for by the user. -/
theorem all_resolveParams (hu : u ≠ []) (args : Table Json) (params : List CatalogParam)
    (parts : Parts) :
    (resolveParams lib p (some u) args params parts).All (Identified u) := by
  induction params generalizing parts with
  | nil => trivial
  | cons param params ih =>
    refine Prog.all_bind (all_resolveParamValue hu args param) fun val => ?_
    cases applyParam lib param val parts with
    | error text => trivial
    | ok parts => exact ih parts

/-- A tool acts for the user. -/
theorem all_genericToolHandler (hu : u ≠ []) (ct : CatalogTool) (args : Table Json) :
    (genericToolHandler lib p (some u) ct args).All (Identified u) := by
  refine Prog.all_bind (all_resolveParams hu args ct.params _) fun parts => ?_
  cases parts with
  | error text => trivial
  | ok parts =>
    refine Prog.all_bind (all_identified hu (all_sendParts ct.method parts)) fun reply => ?_
    cases reply with
    | error text => trivial
    | ok body => trivial

/-- The version is asked for by the user. -/
theorem all_versionToolHandler (hu : u ≠ []) (version : VersionInfo) :
    (versionToolHandler lib p (some u) version).All (Identified u) := by
  refine Prog.all_bind (all_identified hu (all_get _)) fun fetched => ?_
  cases lib.marshalVersions (lib.versions version fetched) with
  | none => trivial
  | some out => trivial

/-- A page is fetched from the portal itself, so no request goes to vire-server. -/
theorem all_getPageToolHandler (user : Option Str) (portalBaseURL jwtSecret : Str)
    (args : Table Json) :
    (getPageToolHandler lib user portalBaseURL jwtSecret args).All (Identified u) := by
  unfold getPageToolHandler
  dsimp only
  cases allowedPages.lookup (getString args "page") with
  | none => trivial
  | some path =>
    cases user with
    | none => trivial
    | some userID =>
      refine Prog.all_bind ((Prog.all_call ..).2 trivial) fun time => ?_
      cases mintLoopbackJWT lib.codec lib.marshalLoopback userID jwtSecret time with
      | none => trivial
      | some token =>
        dsimp only [fetchPage]
        cases URL.parse (portalBaseURL ++ path) with
        | none => trivial
        | some url =>
          refine Prog.all_bind ((Prog.all_call ..).2 trivial) fun reply => ?_
          cases reply with
          | failed text => trivial
          | unreadable text => trivial
          | reply statusCode body =>
            dsimp only
            split_ifs
            · trivial
            · trivial

/-- All tools act for the user. -/
theorem all_callTools (hu : u ≠ []) (calls : List ToolCall) :
    (h.callTools (some u) calls).All (Identified u) := by
  induction calls with
  | nil => trivial
  | cons call calls ih =>
    refine Prog.all_bind ?_ fun result => Prog.all_bind ih fun results => trivial
    unfold McpHandler.callTool
    cases call.handler with
    | generic ct => exact all_genericToolHandler hu ct call.arguments
    | version => exact all_versionToolHandler hu h.version
    | getPage => exact all_getPageToolHandler ..

end Tools

section Checks

variable {h : McpHandler} {r : Request} {ops : McpOps} {user : Option Str}
  {u token : Str} {t : Time}

/-- The user of a token that passes. -/
theorem subAt_eq_some : h.subAt token t = some u ↔ h.Passes token t u := by
  unfold McpHandler.subAt McpHandler.Passes
  cases validateJWT h.lib.codec h.jwtSecret token t with
  | error err => simp
  | ok claims =>
    by_cases hsub : claims.sub = []
    · simp only [hsub, ne_eq, not_true_eq_false, if_false, reduceCtorEq, Except.ok.injEq, false_iff]
      rintro ⟨claims', rfl, hu, hne⟩
      exact hne (hu ▸ hsub)
    · simp only [ne_eq, hsub, not_false_eq_true, if_true, Option.some.injEq, Except.ok.injEq]
      constructor
      · rintro rfl
        exact ⟨claims, rfl, rfl, hsub⟩
      · rintro ⟨claims', rfl, hu, -⟩
        exact hu

/-- The empty string is not a token. -/
theorem not_passes_nil : ¬ h.Passes [] t u := by
  rintro ⟨claims, hclaims, -⟩
  cases hclaims

/-- The check reads the clock once. -/
theorem does_validated :
    (h.validated token).Does ops user ↔ ∃ t, ops = [⟨.now, t⟩] ∧ user = h.subAt token t := by
  constructor
  · rintro ⟨t, rest, rfl, rfl, rfl⟩
    exact ⟨t, rfl, rfl⟩
  · rintro ⟨t, rfl, rfl⟩
    exact ⟨t, [], rfl, rfl, rfl⟩

/-- The clock readings of some checks. -/
def nows (ts : List Time) : McpOps := ts.map fun t => ⟨.now, t⟩

/-- What the first part of `withUserContext` does. -/
theorem does_bearerUser (hdoes : (h.bearerUser r).Does ops user) :
    ∃ ts, ops = nows ts ∧ ∀ t u, user = some u ↔ h.BearerSub r (ts.headD t) u := by
  unfold McpHandler.bearerUser at hdoes
  cases htoken : bearerToken r with
  | none =>
    rw [htoken] at hdoes
    obtain ⟨rfl, rfl⟩ := hdoes
    refine ⟨[], rfl, fun t u => ⟨fun hu => (by cases hu), ?_⟩⟩
    rintro ⟨token, htoken', -⟩
    rw [htoken] at htoken'
    cases htoken'
  | some token =>
    rw [htoken] at hdoes
    obtain ⟨t, rfl, rfl⟩ := does_validated.1 hdoes
    refine ⟨[t], rfl, fun _ u => subAt_eq_some.trans ⟨fun hu => ⟨token, htoken, hu⟩, ?_⟩⟩
    rintro ⟨token', htoken', hu⟩
    rw [htoken] at htoken'
    cases htoken'
    exact hu

/-- What the second part of `withUserContext` does. With a secret nothing is left of the
fallback. -/
theorem does_cookieUser (hsecret : h.jwtSecret ≠ []) (hdoes : (h.cookieUser r).Does ops user) :
    ∃ ts, ops = nows ts ∧ ∀ t u, user = some u ↔ h.CookieSub r (ts.getLastD t) u := by
  have hlength : h.jwtSecret.length ≠ 0 := fun h0 => hsecret (List.length_eq_zero_iff.1 h0)
  unfold McpHandler.cookieUser at hdoes
  cases hcookie : r.cookie "vire_session" with
  | none =>
    rw [hcookie] at hdoes
    obtain ⟨rfl, rfl⟩ := hdoes
    refine ⟨[], rfl, fun t u => ⟨fun hu => (by cases hu), ?_⟩⟩
    rintro ⟨value, hvalue, -⟩
    rw [hcookie] at hvalue
    cases hvalue
  | some value =>
    have hvalue : ∀ {t u}, h.CookieSub r t u ↔ h.Passes value t u := by
      intro t u
      constructor
      · rintro ⟨value', hvalue', hu⟩
        rw [hcookie] at hvalue'
        cases hvalue'
        exact hu
      · exact fun hu => ⟨value, hcookie, hu⟩
    rw [hcookie] at hdoes
    dsimp only at hdoes
    by_cases hnil : value = []
    · rw [if_pos hnil] at hdoes
      obtain ⟨rfl, rfl⟩ := hdoes
      refine ⟨[], rfl, fun t u => ⟨fun hu => (by cases hu), fun hu => ?_⟩⟩
      rw [hvalue, hnil] at hu
      exact absurd hu not_passes_nil
    · rw [if_neg hnil] at hdoes
      obtain ⟨ops1, sub, ops2, rfl, hcheck, hrest⟩ := Prog.does_bind.1 hdoes
      obtain ⟨t, rfl, rfl⟩ := does_validated.1 hcheck
      -- The fallback for a token that fails is only there without a secret.
      have huser : ops2 = [] ∧ user = h.subAt value t := by
        cases hsub : h.subAt value t with
        | some sub =>
          rw [hsub] at hrest
          exact hrest
        | none =>
          rw [hsub] at hrest
          dsimp only at hrest
          rw [if_neg hlength] at hrest
          exact hrest
      obtain ⟨rfl, rfl⟩ := huser
      exact ⟨[t], rfl, fun _ u => subAt_eq_some.trans hvalue.symm⟩

/-- The user that `withUserContext` attaches. -/
theorem does_withUserContext (hsecret : h.jwtSecret ≠ [])
    (hdoes : (h.withUserContext r).Does ops user) :
    ∃ ts, ops = nows ts ∧ ∀ u, user = some u ↔ h.UserOf r ts u := by
  obtain ⟨ops1, bearer, ops2, rfl, hbearer, hrest⟩ := Prog.does_bind.1 hdoes
  obtain ⟨ts1, rfl, hsub⟩ := does_bearerUser hbearer
  cases bearer with
  | some sub =>
    obtain ⟨rfl, rfl⟩ := hrest
    have hpasses : h.BearerSub r (ts1.headD 0) sub := (hsub 0 sub).1 rfl
    refine ⟨ts1, List.append_nil _, fun u => (hsub 0 u).trans ⟨Or.inl, ?_⟩⟩
    rintro (hu | ⟨hno, -⟩)
    · exact hu
    · exact absurd hpasses (hno sub)
  -- No Bearer token passes, so the cookie decides, at a later reading of the clock.
  | none =>
    obtain ⟨ts2, rfl, hcookie⟩ := does_cookieUser hsecret hrest
    have hhead : (ts1 ++ ts2).headD 0 = ts1.headD (ts2.headD 0) := by
      cases ts1 with
      | nil => rfl
      | cons t ts1 => rfl
    have hlast : (ts1 ++ ts2).getLastD 0 = ts2.getLastD (ts1.getLastD 0) := by
      simp [List.getLastD_eq_getLast?, List.getLast?_append]
    have hno : ∀ u, ¬ h.BearerSub r (ts1.headD (ts2.headD 0)) u :=
      fun u hu => by cases (hsub _ u).2 hu
    refine ⟨ts1 ++ ts2, (List.map_append ..).symm, fun u => (hcookie (ts1.getLastD 0) u).trans ?_⟩
    rw [McpHandler.UserOf, hhead, hlast]
    constructor
    · exact fun hu => .inr ⟨hno, hu⟩
    · rintro (hu | ⟨-, hu⟩)
      · exact absurd hu (hno u)
      · exact hu

end Checks

variable {h : McpHandler} {r : Request} {ops : McpOps} {resp : McpResponse}

/-- The readings of the checks. -/
theorem readings_nows (ts : List Time) {ops : McpOps} (hops : readings ops = []) :
    readings (nows ts ++ ops) = ts := by
  induction ts with
  | nil => exact hops
  | cons t ts ih => exact congrArg (t :: ·) ih

/-- The checks read the clock only. -/
theorem mem_nows {x : (o : McpOp) × McpReply o} {ts : List Time} (hx : x ∈ nows ts) :
    ∃ t, x = ⟨.now, t⟩ := by
  obtain ⟨t, -, rfl⟩ := List.mem_map.1 hx
  exact ⟨t, rfl⟩

/-- What a request does: the checks, and then either nothing or the call of the streamable server
and what the tools do. -/
theorem does_serveHTTP (hsecret : h.jwtSecret ≠ []) (hdoes : (h.serveHTTP r).Does ops resp) :
    ∃ ts, (ops = nows ts ∧ resp = unauthorized r ∧ ∀ u, ¬ h.UserOf r ts u) ∨
      ∃ u calls rest, ops = nows ts ++ ⟨.streamable u, calls⟩ :: rest ∧ u ≠ [] ∧
        (∀ x ∈ rest, Identified u x.1) ∧ ∀ u', h.UserOf r ts u' ↔ u' = u := by
  obtain ⟨ops1, user, ops2, rfl, huser, hrest⟩ := Prog.does_bind.1 hdoes
  obtain ⟨ts, rfl, hsub⟩ := does_withUserContext hsecret huser
  refine ⟨ts, ?_⟩
  cases user with
  | none =>
    obtain ⟨rfl, rfl⟩ := hrest
    exact .inl ⟨List.append_nil _, rfl, fun u hu => by cases (hsub u).2 hu⟩
  | some u =>
    obtain ⟨ops3, calls, ops4, rfl, hcall, htools⟩ := Prog.does_bind.1 hrest
    obtain ⟨ops5, results, ops6, rfl, hresults, rfl, rfl⟩ := Prog.does_bind.1 htools
    obtain rfl := Prog.does_call.1 hcall
    have hu : u ≠ [] := by
      rcases (hsub u).1 rfl with ⟨token, -, claims, -, -, hne⟩ | ⟨-, value, -, claims, -, -, hne⟩
      · exact hne
      · exact hne
    refine .inr ⟨u, calls, ops5, by simp, hu, hresults.all (all_callTools hu calls), fun u' => ?_⟩
    rw [← hsub u', Option.some.injEq]
    exact eq_comm

section Served

variable {u u' : Str} {ts : List Time} {calls : List ToolCall}
variable {rest : List ((o : McpOp) × McpReply o)}
variable (hrest : ∀ x ∈ rest, Identified u x.1)
include hrest

/-- The tools do not come back to the streamable server. -/
theorem reached_iff : Reached u' (nows ts ++ ⟨.streamable u, calls⟩ :: rest) ↔ u' = u := by
  constructor
  · rintro ⟨calls', hcalls'⟩
    rcases List.mem_append.1 hcalls' with hmem | hmem
    · obtain ⟨t, ht⟩ := mem_nows hmem
      cases ht
    · rcases List.mem_cons.1 hmem with heq | hmem
      · cases heq
        rfl
      · exact absurd (hrest _ hmem) not_false
  · rintro rfl
    exact ⟨calls, List.mem_append_right _ (.head _)⟩

/-- Every request to vire-server is one of the tools. -/
theorem received_of_mem {req : OutRequest} {reply : OutReply}
    (hreq : ⟨.exchange req, reply⟩ ∈ nows ts ++ ⟨.streamable u, calls⟩ :: rest) :
    req.header.received userIDHeader = [sanitizeHeaderValue u] := by
  rcases List.mem_append.1 hreq with hmem | hmem
  · obtain ⟨t, ht⟩ := mem_nows hmem
    cases ht
  · rcases List.mem_cons.1 hmem with heq | hmem
    · cases heq
    · exact hrest _ hmem

end Served

/-- With a secret, for every request, every clock, every choice of tools and every reply: the
streamable server is reached with the user `u` exactly when `u` is the `sub` of the Bearer token
that passes, or else that of the cookie. Then every request that goes to vire-server carries `u`,
and `u` alone, under `X-Vire-User-ID`, whatever the static headers of the proxy are. Otherwise
nothing is sent, and the request is answered with the demand to authenticate. -/
theorem mcp_gate (hsecret : h.jwtSecret ≠ []) (hdoes : (h.serveHTTP r).Does ops resp) :
    (∀ u, Reached u ops ↔ h.UserOf r (readings ops) u) ∧
    (∀ u, Reached u ops → 13 ∉ u → 10 ∉ u → ∀ req reply, ⟨.exchange req, reply⟩ ∈ ops →
      req.header.received userIDHeader = [u]) ∧
    ((∀ u, ¬ Reached u ops) → (∀ req reply, ⟨.exchange req, reply⟩ ∉ ops) ∧
      resp = unauthorized r) := by
  obtain ⟨ts, ⟨rfl, rfl, hno⟩ | ⟨u, calls, rest, rfl, hu, hrest, huser⟩⟩ :=
    does_serveHTTP hsecret hdoes
  · -- Refused: the clock was read, and nothing else happened.
    have hts : readings (nows ts) = ts := by
      rw [← List.append_nil (nows ts)]
      exact readings_nows ts rfl
    have hunreached : ∀ u, ¬ Reached u (nows ts) := by
      rintro u ⟨calls, hcalls⟩
      obtain ⟨t, ht⟩ := mem_nows hcalls
      cases ht
    refine ⟨fun u => ?_, fun u hu => absurd hu (hunreached u),
      fun _ => ⟨fun req reply hreq => ?_, rfl⟩⟩
    · rw [hts]
      exact iff_of_false (hunreached u) (hno u)
    · obtain ⟨t, ht⟩ := mem_nows hreq
      cases ht
  · -- Accepted: after the last reading come the calls of the streamable server.
    have hts : readings (nows ts ++ ⟨.streamable u, calls⟩ :: rest) = ts := readings_nows ts rfl
    refine ⟨fun u' => ?_, fun u' hu' hcr hlf req reply hreq => ?_,
      fun hno => absurd ((reached_iff hrest).2 rfl) (hno u)⟩
    · rw [hts, huser]
      exact reached_iff hrest
    · obtain rfl := (reached_iff hrest).1 hu'
      rw [received_of_mem hrest hreq, sanitizeHeaderValue_eq hcr hlf]

/-! ### A request with a Bearer token -/

/-- A library in which every payload has the `sub` `alice` and every signature is empty. -/
def sampleLib : Lib where
  codec :=
    { sha256 := fun s => s
      hmacSHA256 := fun _ _ => []
      unmarshal := fun _ => some (.object [("sub", .string "alice")])
      marshalClaims := fun _ => [] }
  format := fun _ => []
  quote := fun s => s
  urlError := fun _ => []
  marshalMap := fun _ => .ok []
  marshalLoopback := fun _ => some []
  marshalVersions := fun _ => some []

/-- A handler whose static headers name another user. -/
def sampleHandler : McpHandler where
  lib := sampleLib
  proxy := ⟨"http://vire:8080", [("x-vire-user-id", ["mallory"])]⟩
  jwtSecret := "secret"
  portalBaseURL := "http://portal"
  version := ⟨"1", "2", "3"⟩

/-- The operations of a request with a Bearer token, for which mcp-go calls `get_version`. -/
def sampleOps : McpOps :=
  (sampleHandler.serveHTTP { header := [("Authorization", ["Bearer .."])] }).asked fun
    | .now => (0 : Time)
    | .exchange _ => OutReply.reply 200 []
    | .loopback _ => OutReply.failed []
    | .streamable _ => [⟨.version, ∅⟩]

/-- The tools act for alice. -/
theorem mcp_gate_alice : Reached "alice" sampleOps ∧ ∃ req reply,
    ⟨.exchange req, reply⟩ ∈ sampleOps ∧ req.header.received userIDHeader = [ascii "alice"] := by
  obtain ⟨-, hheaders, -⟩ := mcp_gate (h := sampleHandler) (by decide) (Prog.does_answer _ _)
  have hreached : Reached (ascii "alice") sampleOps := ⟨_, .tail _ (.head _)⟩
  exact ⟨hreached, _, _, .tail _ (.tail _ (.head _)),
    hheaders "alice" hreached (by decide) (by decide) _ _ (.tail _ (.tail _ (.head _)))⟩

end VirePortal.Mcp
