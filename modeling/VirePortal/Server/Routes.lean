import VirePortal.Go.Dispatch
import VirePortal.Server.Middleware

/-!
# The routes of the portal

`setupRoutes` (`routes.go`): the patterns that the portal registers, with their handlers, and the
router behind the middleware. The patterns can be registered, since no two of them conflict, and the
pattern `/` takes every request that no other one takes (`routes_dispatch`).

The CSRF check skips paths by their text, and the router looks at the segments of the escaped path.
The two agree on what is behind the check: a handler that is not open is reached by a safe method or
with the token (`csrf_gate`), however the path is escaped.
-/

namespace VirePortal.Server.Routes

open Go Go.ServeMux Concurrent Middleware

/-- The handlers that `setupRoutes` registers. -/
inductive Target where
  | authorizationServer
  | protectedResource
  | wellKnownNotFound
  | register
  | authorize
  | authorizeResume
  | token
  | dashboard
  | mobileDashboard
  | strategy
  | cash
  | mcpPage
  | help
  | changelog
  | glossary
  | docs
  | error
  | landing
  | staticFile
  | mcp
  | mcpDev
  | profile
  | saveProfile
  | adminUsers
  | login
  | testLogin
  | logout
  | googleLogin
  | githubLogin
  | oauthCallback
  | googleCallback
  | githubCallback
  | health
  | serverHealth
  | version
  | shutdown
  | apiProxy
  deriving DecidableEq

/-- `parsePattern`, of a pattern without a host and without wildcards but at its end. -/
def parsePattern (text : String) : Pattern Str :=
  let (first, rest) := cut 32 (ascii text)
  let method := rest.map fun _ => first
  let segments := split 47 ((rest.getD first).drop 1)
  -- The last segment is empty behind a slash, and a wildcard starts with a brace.
  if (segments.getLastD []).head?.getD 123 = 123 then ⟨method, segments.dropLast, true⟩
  else ⟨method, segments, false⟩

/-- `mux.HandleFunc`. -/
def handleFunc (text : String) (t : Target) : Pattern Str × Target := (parsePattern text, t)

/-- `setupRoutes`, with whether the two handlers of the MCP endpoint are there. -/
def routes (mcpHandler mcpDevHandler : Bool) : List (Pattern Str × Target) :=
  [handleFunc "GET /.well-known/oauth-authorization-server" .authorizationServer,
    handleFunc "GET /.well-known/oauth-authorization-server/mcp" .authorizationServer,
    handleFunc "GET /.well-known/oauth-protected-resource" .protectedResource,
    handleFunc "GET /.well-known/oauth-protected-resource/mcp" .protectedResource,
    handleFunc "/.well-known/" .wellKnownNotFound,
    handleFunc "POST /register" .register,
    handleFunc "GET /authorize" .authorize,
    handleFunc "POST /authorize" .authorize,
    handleFunc "GET /authorize/resume" .authorizeResume,
    handleFunc "POST /token" .token,
    handleFunc "GET /dashboard" .dashboard,
    handleFunc "GET /dashboard/\x7bportfolio...\x7d" .dashboard,
    handleFunc "GET /m" .mobileDashboard,
    handleFunc "GET /m/\x7bportfolio...\x7d" .mobileDashboard,
    handleFunc "GET /strategy" .strategy,
    handleFunc "GET /cash" .cash,
    handleFunc "GET /mcp-info" .mcpPage,
    handleFunc "GET /help" .help,
    handleFunc "GET /changelog" .changelog,
    handleFunc "GET /glossary" .glossary,
    handleFunc "GET /docs" .docs,
    handleFunc "GET /error" .error,
    handleFunc "/" .landing,
    handleFunc "/static/" .staticFile] ++
  (if mcpHandler then [handleFunc "/mcp" .mcp] else []) ++
  (if mcpDevHandler then [handleFunc "/mcp/" .mcpDev] else []) ++
  [handleFunc "GET /profile" .profile,
    handleFunc "POST /profile" .saveProfile,
    handleFunc "GET /admin/users" .adminUsers,
    handleFunc "POST /api/auth/login" .login,
    handleFunc "POST /api/auth/test-login" .testLogin,
    handleFunc "POST /api/auth/logout" .logout,
    handleFunc "GET /api/auth/login/google" .googleLogin,
    handleFunc "GET /api/auth/login/github" .githubLogin,
    handleFunc "GET /auth/callback" .oauthCallback,
    handleFunc "GET /api/auth/callback/google" .googleCallback,
    handleFunc "GET /api/auth/callback/github" .githubCallback,
    handleFunc "/api/health" .health,
    handleFunc "/api/server-health" .serverHealth,
    handleFunc "/api/version" .version,
    handleFunc "POST /api/shutdown" .shutdown,
    handleFunc "/api/" .apiProxy]

/-- No two patterns conflict. -/
def registersAll (table : List (Pattern Str × Target)) : Bool :=
  match table with
  | [] => true
  | e :: table => table.all (fun e' => !e.1.conflict e'.1) && registersAll table

variable {table : List (Pattern Str × Target)} {mcpHandler mcpDevHandler : Bool} {handler : Handler}
variable {r : Incoming} {ops : Served}

/-- The check of the table. -/
theorem registers_of_registersAll (h : registersAll table = true) :
    Registers table := by
  induction table with
  | nil => exact List.Pairwise.nil
  | cons e table ih =>
    obtain ⟨hhead, htail⟩ := Bool.and_eq_true_iff.1 h
    refine List.Pairwise.cons (fun e' he' => ?_) (ih htail)
    simpa using List.all_eq_true.1 hhead e' he'

/-- What is registered without one of the MCP handlers is registered with both. -/
theorem routes_sublist (mcpHandler mcpDevHandler : Bool) :
    (routes mcpHandler mcpDevHandler).Sublist (routes true true) := by
  have hif : ∀ (b : Bool) (l : List (Pattern Str × Target)),
      (if b then l else []).Sublist (if true then l else []) := by
    intro b l
    cases b with
    | true => exact List.Sublist.refl _
    | false => exact List.nil_sublist _
  unfold routes
  refine List.Sublist.append (List.Sublist.append (List.Sublist.append ?_ (hif _ _)) (hif _ _)) ?_
  · exact List.Sublist.refl _
  · exact List.Sublist.refl _

/-- The patterns can be registered. -/
theorem registers_routes (mcpHandler mcpDevHandler : Bool) :
    Registers (routes mcpHandler mcpDevHandler) := by
  have hall : registersAll (routes true true) = true := by decide +kernel
  exact List.Pairwise.sublist (routes_sublist mcpHandler mcpDevHandler)
    (registers_of_registersAll hall)

/-- Every path has a handler. -/
theorem exists_lookup_routes (mcpHandler mcpDevHandler : Bool) (method : Str) {path : List Str}
    (hpath : path ≠ []) :
    ∃ e, ServeMux.lookup (routes mcpHandler mcpDevHandler) method path = some e := by
  cases hfound : ServeMux.lookup (routes mcpHandler mcpDevHandler) method path with
  | some e => exact ⟨e, rfl⟩
  | none =>
    -- The landing page takes what nothing else takes.
    have hlanding : handleFunc "/" .landing ∈ routes mcpHandler mcpDevHandler := by simp [routes]
    obtain ⟨s, rest, rfl⟩ := List.exists_cons_of_ne_nil hpath
    exact absurd ⟨.inl rfl, s, rest, rfl⟩ (not_matches_of_lookup hfound hlanding)

/-! ### The router -/

/-- `htmlEscape` of `net/http`. -/
def htmlEscape (s : Str) : Str :=
  s.flatMap fun c =>
    if c = 38 then "&amp;" else if c = 60 then "&lt;" else if c = 62 then "&gt;"
    else if c = 34 then "&#34;" else if c = 39 then "&#39;" else [c]

/-- The redirect that the multiplexer sends with the status 301. -/
def movedPermanently (w : Writer) (method url : Str) : Writer :=
  let hadContentType := w.header.any fun e => e.1 = "Content-Type"
  let w := w.set "Location" (redirectLocation url)
  let w := if !hadContentType && (method = "GET" || method = "HEAD") then
    w.set "Content-Type" "text/html; charset=utf-8" else w
  let w := w.writeHeader 301
  if !hadContentType && method = "GET" then
    let link := "<a href=\"" ++ htmlEscape (cleanedURL url) ++ "\">Moved Permanently</a>.\n"
    { w with body := w.body ++ link ++ [10] }
  else w

/-- `ServeMux.ServeHTTP`, with what each handler does. -/
def router (table : List (Pattern Str × Target)) (serve : Target → Handler) : Handler := fun w r =>
  match findHandler table r.method r.url with
  | .moved location => return ⟨movedPermanently w r.method location, false⟩
  | .served t => serve t w r
  | .notFound => return ⟨httpError w "404 page not found" 404, false⟩

/-- The multiplexer redirects a request, or serves it with the pattern that the lookup finds. -/
theorem findHandler_routes (mcpHandler mcpDevHandler : Bool) (method : Str) (u : URL) :
    (∃ location, findHandler (routes mcpHandler mcpDevHandler) method u = .moved location) ∨
      ∃ e, ServeMux.lookup (routes mcpHandler mcpDevHandler) method
        (pathSegments u.escapedPath) = some e ∧
        findHandler (routes mcpHandler mcpDevHandler) method u = .served e.2 := by
  refine (findHandler_cases _ method u).imp_right fun hrouting => ?_
  obtain ⟨e, hfound⟩ := exists_lookup_routes mcpHandler mcpDevHandler method
    (pathSegments_ne_nil u.escapedPath)
  exact ⟨e, hfound, by rw [hrouting, hfound, Routing.of]⟩

/-- In whatever order the patterns are registered, there is no panic, and the multiplexer redirects
a request or serves it with the most specific pattern that matches, which there always is: its
requests are requests of every pattern that matches. -/
theorem routes_dispatch (hperm : (routes mcpHandler mcpDevHandler).Perm table)
    (method : Str) (u : URL) :
    Registers table ∧
      findHandler table method u = findHandler (routes mcpHandler mcpDevHandler) method u ∧
      ((∃ location, findHandler table method u = .moved location) ∨
        ∃ e ∈ table, findHandler table method u = .served e.2 ∧
          e.1.Matches method (pathSegments u.escapedPath) ∧
          ∀ e' ∈ table, e'.1.Matches method (pathSegments u.escapedPath) →
            ∀ m path, e.1.Matches m path → e'.1.Matches m path) := by
  have hregisters := registers_routes mcpHandler mcpDevHandler
  have htable : Registers table := hregisters.perm hperm
  -- No two patterns conflict, so the order of the table does not matter.
  have hlookup : ∀ path, ServeMux.lookup table method path =
      ServeMux.lookup (routes mcpHandler mcpDevHandler) method path :=
    fun path => lookup_perm hregisters hperm
  have hsame : findHandler table method u =
      findHandler (routes mcpHandler mcpDevHandler) method u := by
    simp only [findHandler, hlookup]
  refine ⟨htable, hsame, ?_⟩
  rw [hsame]
  refine (findHandler_routes mcpHandler mcpDevHandler method u).imp_right ?_
  rintro ⟨e, hfound, hserved⟩
  rw [← hlookup] at hfound
  obtain ⟨hmem, hmatches, hbest⟩ := (lookup_eq_some_iff htable).1 hfound
  exact ⟨e, hmem, hserved, hmatches, fun e' he' hmatches' m path hm => hm.within
    (hbest e' he' hmatches')⟩

/-- The other way round. -/
theorem routes_dispatch_reverse :
    findHandler (routes true true).reverse "POST" { path := "/api/auth/login" } = .served .login ∧
      Registers (routes true true).reverse := by
  obtain ⟨hregisters, heq, -⟩ := routes_dispatch (List.reverse_perm (routes true true)).symm "POST"
    { path := "/api/auth/login" }
  refine ⟨heq.trans ?_, hregisters⟩
  decide +kernel

/-! ### The CSRF check and the routes -/

/-- The handlers that a request may reach without a token, by any method. -/
def openTargets : List Target :=
  [.apiProxy, .login, .testLogin, .logout, .health, .serverHealth, .version, .shutdown, .mcp,
    .mcpDev, .authorize, .register, .token, .landing]

/-- The first bytes of the paths that the CSRF check skips, behind the slash. -/
def skippedBytes : Str := "amrt"

/-- An entry is open, or only for safe methods, or for paths that the CSRF check does not skip. -/
def guardedEntry (e : Pattern Str × Target) : Bool :=
  e.2 ∈ openTargets || e.1.method = some methodGet ||
    (e.1.segments.head?.bind List.head?).any fun c => c ∉ skippedBytes

/-- Every route is guarded. -/
theorem guardedEntry_of_mem {e : Pattern Str × Target} (he : e ∈ routes mcpHandler mcpDevHandler) :
    guardedEntry e = true := by
  have hall : (routes true true).all guardedEntry = true := by decide +kernel
  exact List.all_eq_true.1 hall e ((routes_sublist mcpHandler mcpDevHandler).subset he)

/-- Another byte is not skipped. -/
theorem skipped_eq_false {c : UInt8} {rest : Str} (hc : c ∉ skippedBytes) :
    skipped (47 :: c :: rest) = false := by
  have hne : ∀ {d : UInt8}, d ∈ skippedBytes → d ≠ c := by
    rintro d hd rfl
    exact hc hd
  have hprefix : ∀ {d : UInt8} {text : Str}, d ∈ skippedBytes →
      hasPrefix (47 :: c :: rest) (47 :: d :: text) = false := by
    intro d text hd
    simp [hasPrefix, List.isPrefixOf, hne hd]
  have htext : ∀ {d : UInt8} {text : Str}, d ∈ skippedBytes →
      47 :: c :: rest ≠ 47 :: d :: text := by
    intro d text hd heq
    exact hne hd (List.cons.inj (List.cons.inj heq).2).1.symm
  have hapi : hasPrefix (47 :: c :: rest) "/api/" = false := hprefix (d := 97) (by decide)
  have hmcp : hasPrefix (47 :: c :: rest) "/mcp" = false := hprefix (d := 109) (by decide)
  have hauthorize : 47 :: c :: rest ≠ "/authorize" := htext (d := 97) (by decide)
  have hregister : 47 :: c :: rest ≠ "/register" := htext (d := 114) (by decide)
  have htoken : 47 :: c :: rest ≠ "/token" := htext (d := 116) (by decide)
  unfold skipped
  simp only [hapi, hmcp, hauthorize, hregister, htoken, decide_false, Bool.or_self]

/-- A request by another method that the CSRF check skips goes to an open handler, or nowhere. -/
theorem skipped_open {method : Str} {u : URL} (hurl : u.Accepted)
    (hsafe : safeMethod method = false) (hskip : skipped u.path = true) :
    (∃ location, findHandler (routes mcpHandler mcpDevHandler) method u = .moved location) ∨
      ∃ t ∈ openTargets, findHandler (routes mcpHandler mcpDevHandler) method u = .served t := by
  rcases findHandler_routes mcpHandler mcpDevHandler method u with hmoved | ⟨e, hfound, hserved⟩
  · exact .inl hmoved
  obtain ⟨hmem, ⟨hmethod, hfits⟩, -⟩ := lookup_sound hfound
  have hguarded := guardedEntry_of_mem hmem
  simp only [guardedEntry, Bool.or_eq_true, decide_eq_true_eq] at hguarded
  rcases hguarded with (hopen | hget) | hbyte
  · exact .inr ⟨e.2, hopen, hserved⟩
  · -- A pattern for GET matches no method that is not safe.
    rcases hmethod with hnone | hsome | ⟨-, rfl⟩
    · rw [hget] at hnone
      cases hnone
    · rw [hget] at hsome
      rw [← Option.some.inj hsome] at hsafe
      exact absurd hsafe (by decide)
    · exact absurd hsafe (by decide)
  · -- The path starts with the first segment of the pattern, so it is not skipped.
    obtain ⟨c, hc, hbyte⟩ := (Option.any_eq_true _ _).1 hbyte
    obtain ⟨segment, hsegment, hhead⟩ := Option.bind_eq_some_iff.1 hc
    obtain ⟨bytes, rfl⟩ := List.head?_eq_some_iff.1 hhead
    obtain ⟨segments, hsegments⟩ := List.head?_eq_some_iff.1 hsegment
    obtain ⟨rest, hrest⟩ := hfits.isPrefix
    rw [hurl.path_eq, ← hrest, hsegments] at hskip
    rw [List.cons_append, slashed_cons, List.cons_append, skipped_eq_false
      (by simpa using hbyte)] at hskip
    cases hskip

/-- A part of the operations is what it takes to read the token of the request, and it is that of
the cookie. -/
def Presents (lib : FormLib) (r : Incoming) (ops : Served) : Prop :=
  csrfCookie r ≠ [] ∧ ∃ before taken after r', ops = before ++ taken ++ after ∧
    (presentedToken lib r).Does taken (csrfCookie r, r')

/-- The chain passed the request on to the handler, and this is its response. -/
def PassedOn (handler : Handler) (r : Incoming) (a : Outcome) : Prop :=
  ∃ w form inner outcome, (handler w { r with form := form }).Does inner outcome ∧
    a = outcome.recovered

/-- The CSRF check or the answer to a preflight keeps the request from the handlers: the answer is
theirs, and whatever handler is behind the chain, the same operations lead to the same answer. -/
def Kept (lib : FormLib) (w : Writer) (r : Incoming) (ops : Served) (a : Outcome) : Prop :=
  ((∃ w' text, a = ⟨httpError w' ("Forbidden: " ++ text) 403, false⟩) ∨
    r.method = "OPTIONS" ∧ ∃ w', a = ⟨Writer.writeHeader w' 200, false⟩) ∧
  ∀ handler, (withMiddleware lib handler w r).Does ops a

/-- What comes behind the limit on the body is the handler. -/
theorem passedOn_of_does {maxBytes : ℕ} {w : Writer} {form : Option Values} {a : Outcome}
    (hfits : Go.Fits ops)
    (h : (maxBodySizeMiddleware maxBytes (recoveryMiddleware handler) w
      { r with form := form }).Does ops a) :
    PassedOn handler r a := by
  obtain ⟨u, rest, rfl, hrest⟩ := h
  obtain ⟨⟨inner, hinner, -⟩, -⟩ := MaxBytesReader.does_through hrest hfits.tail
  obtain ⟨served, outcome, ops', rfl, hserved, rfl, rfl⟩ := Prog.does_bind.1 hinner
  exact ⟨w, form, served, outcome, hserved, rfl⟩

/-- Reading the token changes nothing of the request but its form. -/
theorem exists_form_of_presentedToken {lib : FormLib} {x : Str × Incoming}
    (h : (presentedToken lib r).Does ops x) : ∃ form, x.2 = { r with form := form } := by
  unfold presentedToken at h
  dsimp only at h
  split_ifs at h
  · unfold formValue at h
    cases hform : r.form with
    | some form =>
      rw [hform] at h
      obtain ⟨rfl, rfl⟩ := h
      exact ⟨r.form, rfl⟩
    | none =>
      rw [hform] at h
      obtain ⟨taken, form, ops', rfl, -, rfl, rfl⟩ := Prog.does_bind.1 h
      exact ⟨some form, rfl⟩
  · obtain ⟨rfl, rfl⟩ := h
    exact ⟨r.form, rfl⟩

/-- What the CSRF check does with a request: it refuses it without running what is behind it, or
passes it on since the method is safe, the path is skipped or the token is presented. -/
theorem does_csrfMiddleware {lib : FormLib} {maxBytes : ℕ} {w : Writer} {a : Outcome}
    (hfits : Go.Fits ops)
    (h : (csrfMiddleware lib (maxBodySizeMiddleware maxBytes (recoveryMiddleware handler)) w
      r).Does ops a) :
    (∃ text, a = ⟨httpError w ("Forbidden: " ++ text) 403, false⟩) ∧
        (∀ next, (csrfMiddleware lib next w r).Does ops a) ∨
      PassedOn handler r a ∧
        (safeMethod r.method = true ∨ skipped r.url.path = true ∨ Presents lib r ops) := by
  unfold csrfMiddleware at h ⊢
  by_cases hsafe : safeMethod r.method = true
  · rw [if_pos hsafe] at h
    refine .inr ⟨?_, .inl hsafe⟩
    split_ifs at h
    · obtain ⟨drawn, token, rest, rfl, -, hrest⟩ := Prog.does_bind.1 h
      exact passedOn_of_does (fun x hx => hfits x (List.mem_append_right _ hx)) hrest
    · exact passedOn_of_does hfits h
  rw [if_neg hsafe] at h
  by_cases hskip : skipped r.url.path = true
  · rw [if_pos hskip] at h
    exact .inr ⟨passedOn_of_does hfits h, .inr (.inl hskip)⟩
  rw [if_neg hskip] at h
  by_cases hcookie : csrfCookie r = []
  · rw [if_pos hcookie] at h
    obtain ⟨rfl, rfl⟩ := h
    refine .inl ⟨⟨"missing CSRF token", rfl⟩, fun next => ?_⟩
    rw [if_neg hsafe, if_neg hskip, if_pos hcookie]
    exact ⟨rfl, rfl⟩
  rw [if_neg hcookie] at h
  obtain ⟨taken, ⟨token, r'⟩, rest, rfl, htaken, hrest⟩ := Prog.does_bind.1 h
  obtain ⟨form, rfl⟩ := exists_form_of_presentedToken htaken
  dsimp only at hrest
  split_ifs at hrest with hrefused
  · obtain ⟨rfl, rfl⟩ := hrest
    refine .inl ⟨⟨"invalid CSRF token", rfl⟩, fun next => ?_⟩
    rw [if_neg hsafe, if_neg hskip, if_neg hcookie]
    refine Prog.does_bind.2 ⟨taken, _, [], rfl, htaken, ?_⟩
    dsimp only
    rw [if_pos hrefused]
    exact ⟨rfl, rfl⟩
  · -- What was presented is the value of the cookie.
    rw [not_or, not_not] at hrefused
    obtain ⟨-, rfl⟩ := hrefused
    refine .inr ⟨passedOn_of_does (fun x hx => hfits x (List.mem_append_right _ hx)) hrest,
      .inr (.inr ?_)⟩
    exact ⟨hcookie, [], taken, rest, _, rfl, htaken⟩

/-- For every request with a URL that the server accepts, however its path is escaped and its body
arrives, and whatever the handlers do: the request is kept from them, and they are not run, or it
comes to the router by a safe method, with the token of its cookie, or for a redirect or an open
handler. -/
theorem csrf_gate {lib : FormLib} {serve : Target → Handler} {w : Writer} {a : Outcome}
    (hurl : r.url.Accepted) (hfits : Go.Fits ops)
    (hrun : (withMiddleware lib (router (routes mcpHandler mcpDevHandler) serve) w r).Does ops a) :
    Kept lib w r ops a ∨ PassedOn (router (routes mcpHandler mcpDevHandler) serve) r a ∧
      (safeMethod r.method = true ∨ Presents lib r ops ∨
        (∃ location, findHandler (routes mcpHandler mcpDevHandler) r.method r.url =
          .moved location) ∨
        ∃ t ∈ openTargets, findHandler (routes mcpHandler mcpDevHandler) r.method r.url =
          .served t) := by
  rw [withMiddleware_eq] at hrun
  obtain ⟨before, id, rest, rfl, hid, hrest⟩ := Prog.does_bind.1 hrun
  have hfits' : Go.Fits rest := fun x hx => hfits x (List.mem_append_right _ hx)
  -- The chain up to the CSRF check is the same for every handler.
  have hsame : ∀ handler, _ → (withMiddleware lib handler w r).Does (before ++ rest) a :=
    fun handler h => withMiddleware_eq lib handler w r ▸ Prog.does_bind.2
      ⟨before, id, rest, rfl, hid, h⟩
  unfold corsMiddleware at hrest hsame
  dsimp only at hrest hsame
  split_ifs at hrest hsame with hoptions
  · obtain ⟨rfl, rfl⟩ := hrest
    exact .inl ⟨.inr ⟨hoptions, _, rfl⟩, fun handler => hsame handler ⟨rfl, rfl⟩⟩
  rcases does_csrfMiddleware hfits' hrest with ⟨⟨text, ha⟩, hkept⟩ | ⟨hpassed, hwhy⟩
  · exact .inl ⟨.inl ⟨_, text, ha⟩, fun handler => hsame handler (hkept _)⟩
  refine .inr ⟨hpassed, ?_⟩
  by_cases hsafe : safeMethod r.method = true
  · exact .inl hsafe
  rcases hwhy with hwhy | hskip | ⟨hcookie, before', taken, after, r', rfl, htaken⟩
  · exact absurd hwhy hsafe
  · exact .inr (.inr (skipped_open hurl (eq_false_of_ne_true hsafe) hskip))
  · refine .inr (.inl ⟨hcookie, before ++ before', taken, after, r', ?_, htaken⟩)
    simp only [List.append_assoc]

/-- Handlers that all answer alike. -/
def answering : Target → Handler := fun _ _ _ => pure ⟨{ status := 200 }, false⟩

/-- `POST /profile` with its token in the header. -/
def tokenPost : Incoming := profilePost [("X-Csrf-Token", ["t"])]

/-- The chain passes the request on. -/
theorem does_tokenPost {outcome : Outcome} (h : ∀ w, handler w tokenPost = pure outcome) :
    (withMiddleware plainLib handler {} tokenPost).Does [⟨.wrap (2 ^ 20), ()⟩]
      outcome.recovered := by
  refine ⟨(), [], rfl, ?_⟩
  show (MaxBytesReader.through ⟨2 ^ 20, none⟩
    (handler _ tokenPost >>= fun outcome => pure outcome.recovered)).Does [] _
  rw [h]
  exact ⟨rfl, rfl⟩

/-- A form that saves a profile has to present its token. -/
theorem csrf_gate_profile :
    ∃ ops a, (withMiddleware plainLib (router (routes true true) answering)
      {} tokenPost).Does ops a ∧
      findHandler (routes true true) tokenPost.method tokenPost.url = .served .saveProfile ∧
      Presents plainLib tokenPost ops := by
  have hroute : findHandler (routes true true) tokenPost.method tokenPost.url =
      .served .saveProfile := by
    decide +kernel
  have hanswer : ∀ w, router (routes true true) answering w tokenPost =
      pure ⟨{ status := 200 }, false⟩ := by
    intro w
    rw [router, hroute]
    rfl
  have hrun := does_tokenPost hanswer
  have hurl : tokenPost.url.Accepted := ⟨⟨"/profile", by decide⟩, by decide⟩
  have hfits : Go.Fits [⟨.wrap (2 ^ 20), ()⟩] := by
    intro x hx all n c heq
    rw [List.mem_singleton.1 hx] at heq
    cases heq
  refine ⟨_, _, hrun, hroute, ?_⟩
  rcases csrf_gate hurl hfits hrun with hkept | ⟨-, hsafe | hpresents | ⟨location, hmoved⟩ |
    ⟨t, ht, hserved⟩⟩
  · -- The answer has no text, so it is none of those of the check.
    rcases hkept.1 with ⟨w, text, ha⟩ | ⟨hoptions, -⟩
    · have hbody : [] = (httpError w ("Forbidden: " ++ text) 403).body :=
        congrArg (fun a : Outcome => a.writer.body) ha
      exact absurd hbody.symm (List.append_ne_nil_of_right_ne_nil _ (List.cons_ne_nil _ _))
    · exact absurd hoptions (by decide)
  · exact absurd hsafe (by decide)
  · exact hpresents
  · rw [hroute] at hmoved
    cases hmoved
  · rw [hroute] at hserved
    cases hserved
    exact absurd ht (by decide)

end VirePortal.Server.Routes
