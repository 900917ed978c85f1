import VirePortal.Auth.CompleteAtomic
import VirePortal.Auth.Redemption

/-!
# A login completes the pending authorization

`GET /authorize` leaves a session and a cookie with its id in the browser, and the login page that
follows is answered by a redirect to the client with a code. Between the two, other requests may
come in any interleaving. The login finds the session as long as it is in time and no other request
has taken it, so a login that succeeds ends at the client (`Finished`): only an empty `sub` in the
token of vire-server, or a failure of `crypto/rand`, makes it end at the dashboard with the
authorization still pending.

The authorize endpoint parses the redirect URI before it stores a session, so the last error of
`CompleteAuthorization` does not come (`saved_valid`).
-/

namespace VirePortal.Auth.Completion

open Go Concurrent Provenance Redemption

variable {cfg : Settings} {s s' : State} {L L' before : List PortalEntry} {w w0 : Caller Call}
variable {x : AuthSession} {u : Str}

/-! ### The redirect URI of a session parses -/

/-- The operation stores no session, except one whose redirect URI parses to a URL with a host. -/
def Valid (o : Op) : Prop := ∀ x, o = .sessionsPut x → validRedirect x.redirectURI = true

/-- A program that stores no session. -/
theorem all_valid {α : Type} {p : M α} {l : List Effect} (hp : Performs l p)
    (hl : .putsSession ∉ l) :
    p.All Valid := by
  refine Prog.All.imp (fun o ho x hx => ?_) hp
  rw [hx] at ho
  exact absurd ho hl

/-- The session of a valid redirect URI. -/
theorem all_valid_createAuthSession (backend : Bool) {p : AuthorizeParams}
    (hp : validRedirect p.redirectURI = true) : (createAuthSession backend p).All Valid :=
  Prog.All.imp (fun _ ho => ho.2) (CompleteAtomic.createAuthSession_checked backend hp)

/-- No session is stored. -/
theorem all_valid_setSessionCookieAndRedirect (cfg : Settings) (r : Request) (sessionID : Str) :
    (setSessionCookieAndRedirect cfg r sessionID).All Valid :=
  all_valid (performs_setSessionCookieAndRedirect cfg r sessionID) (by simp)

/-- The URI is validated before the session is stored. -/
theorem all_valid_handleAuthorizeGET (cfg : Settings) (r : Request) :
    (handleAuthorizeGET cfg r).All Valid := by
  unfold handleAuthorizeGET
  dsimp only
  split_ifs with _ _ hvalid
  · trivial
  · refine Prog.all_bind (all_valid (SessionStore.performs_getByClientID _ _) (by simp))
      fun found => ?_
    cases found with
    | none => trivial
    | some x => exact all_valid_setSessionCookieAndRedirect cfg r _
  · trivial
  · trivial
  · trivial
  · trivial
  · -- The session is made after the URI of the request was parsed.
    refine Prog.all_bind (all_valid_createAuthSession _ (by simpa using hvalid)) fun created => ?_
    cases created with
    | error err => trivial
    | ok sessionID => exact all_valid_setSessionCookieAndRedirect cfg r _

/-- Every handler stores sessions with valid URIs. -/
theorem all_valid_handle (cfg : Settings) (q : Call) : (handle cfg q).All Valid := by
  cases q with
  | authorize r =>
    show (handleAuthorize cfg r).All Valid
    unfold handleAuthorize
    split_ifs
    · exact all_valid_handleAuthorizeGET cfg r
    · exact Prog.All.imp (fun _ ho => ho.2) (CompleteAtomic.handleAuthorizePOST_checked cfg r)
    · trivial
  | resume r => exact all_valid (performs_handleAuthorizeResume cfg r) (by simp)
  | token r => exact all_valid (performs_handleToken cfg r) (by simp)
  | register r body => exact all_valid (performs_handleRegister r body) (by simp)
  | login r => exact all_valid (performs_handleLogin cfg r) (by simp)
  | callback r => exact all_valid (performs_handleOAuthCallback cfg r) (by simp)

/-- The redirect URI of every session that was stored parses to a URL with a host. -/
theorem saved_valid {A : Assumption Op Reply State Env ℕ Call Response} {s0 : State}
    {c : Config Op Reply State ℕ Call Response} (hc : Reachable (portal cfg) A s0 c)
    (hx : Has (SavesSession w x) c.log) : validRedirect x.redirectURI = true := by
  obtain ⟨e, he, hsaves⟩ := hx
  exact hc.ops_all (P := fun _ => Valid) (all_valid_handle cfg) e he w _ _ hsaves x rfl

/-! ### The completion of a session that is held -/

/-- When a session ends. -/
def expiry (x : AuthSession) : Time := x.createdAt + sessionTTL

/-- A session is good up to its end. -/
theorem expired_eq_false_iff {now : Time} : x.expired now = false ↔ now ≤ expiry x := by
  simp [AuthSession.expired, after, expiry]

/-- No code could be drawn. -/
def DrawFailed (w : Caller Call) (L : List PortalEntry) : Prop :=
  ∃ err, Has (fun e => e.event = .op w (.generateRandomHex 16) (.error err)) L

/-- The call of `CompleteAuthorization` returned the URL of the client with a code that it stored
for the user, and that is good for five minutes from a time that it read from the clock. -/
def Redirects (w : Caller Call) (x : AuthSession) (u url : Str) (L : List PortalEntry) : Prop :=
  ∃ code now uri, URL.parse x.redirectURI = some uri ∧ url = codeRedirect uri code x.state ∧
    Has (fun e => e.event = .op w .now now) L ∧ Has (SavesCode w (issueCode x u code now)) L

/-- The outcome of `CompleteAuthorization`, as to a session that may be usable. -/
def Outcome (w : Caller Call) (x : AuthSession) (u : Str) (r : Except CompleteError Str)
    (L : List PortalEntry) :
    Prop :=
  (∃ url, r = .ok url ∧ Redirects w x u url L) ∨ (∃ err, r = .error err) ∧ DrawFailed w L ∨
    ¬ Usable w .sessions x.sessionID (expiry x) L

/-- The part of `CompleteAuthorization` after the session was found. -/
theorem outline_completeSession {uri : URL} (huri : URL.parse x.redirectURI = some uri)
    (L : List PortalEntry) :
    HeldOutline cfg w (Outcome w x u) (completeSession x.sessionID u x) L := by
  unfold completeSession
  refine (keeps_held w _).bind fun s1 L1 e1 _ _ _ => ?_
  cases hdraw : ((portal cfg).exec (.generateRandomHex 16) e1 s1).1 with
  | error err =>
    refine .inr (.inl ⟨⟨_, rfl⟩, err, has_cons.2 (.inl ?_)⟩)
    rw [System.entry, hdraw]
  | ok code =>
    refine (keeps_held w _).bind fun s2 L2 e2 _ _ _ => ?_
    have hread : Has (fun e => e.event = .op w .now ((portal cfg).exec .now e2 s2).1)
        ((portal cfg).entry w .now e2 s2 :: L2) := has_cons.2 (.inl rfl)
    generalize ((portal cfg).exec .now e2 s2).1 = now at hread
    refine (keeps_held w _).bind fun s3 L3 e3 hL3 _ _ => ?_
    have hread3 :=
      hread.extends ((portal cfg).entry_extends hL3 (.codesPut (issueCode x u code now)) e3 s3)
    have hsaves : Has (SavesCode w (issueCode x u code now))
        ((portal cfg).entry w (.codesPut (issueCode x u code now)) e3 s3 :: L3) :=
      has_cons.2 (.inl rfl)
    refine (keeps_held w _).bind fun s4 L4 e4 hL4 _ _ => ?_
    have hL : Extends _ ((portal cfg).entry w (.sessionsDelete x.sessionID) e4 s4 :: L4) :=
      (portal cfg).entry_extends hL4 (.sessionsDelete x.sessionID) e4 s4
    -- The URI of the session parses, so the redirect carries the code.
    rw [huri]
    exact .inl ⟨_, rfl, code, now, uri, huri, rfl, hread3.extends hL, hsaves.extends hL⟩

/-- `SessionStore.Get` by a request that has not taken the session yet returns it. -/
theorem outline_getSession (hsaved : Has (SavesSession w0 x) L)
    (hnot : ¬ Has (Uses w.tid .sessions x.sessionID) L) :
    HeldOutline cfg w (fun r L' => r = some x ∨ ¬ Usable w .sessions x.sessionID (expiry x) L')
      (SessionStore.get cfg.backend x.sessionID) L := by
  unfold SessionStore.get
  refine outline_unused hnot fun s1 L1 e1 hL1 hheld hknown huntouched hnow => ?_
  have hsaved1 := hsaved.extends hL1
  obtain ⟨y, hy⟩ := Option.ne_none_iff_exists'.1
    (hheld.sessions w0 x hsaved1 huntouched (expired_eq_false_iff.2 hnow))
  obtain rfl := hknown.session_eq hsaved1 hy
  rw [show ((portal cfg).exec (.sessionsLookup y.sessionID) e1 s1).1 = some y from hy]
  exact outline_live fun now => expired_eq_false_iff.2

/-- `CompleteAuthorization` by the first request that takes the session. -/
theorem outline_completeAuthorization {uri : URL} (huri : URL.parse x.redirectURI = some uri)
    (hsaved : Has (SavesSession w0 x) L) (hnot : ¬ Has (Uses w.tid .sessions x.sessionID) L)
    (u : Str) :
    HeldOutline cfg w (Outcome w x u)
      (completeAuthorization cfg.backend x.sessionID u) L := by
  unfold completeAuthorization
  refine (keeps_held w _).bind fun s1 L1 e1 hL1 _ _ => ?_
  have hnot1 : ¬ Has (Uses w.tid .sessions x.sessionID)
      ((portal cfg).entry w (.completing x.sessionID u) e1 s1 :: L1) :=
    not_uses_op rfl (not_uses_others hnot hL1)
  have hsaved1 := hsaved.extends ((portal cfg).entry_extends hL1 (.completing x.sessionID u) e1 s1)
  refine (outline_getSession hsaved1 hnot1).bind fun r L2 _ hr => ?_
  rcases hr with rfl | hdead
  · exact outline_completeSession huri L2
  · exact (outline_knowing not_usable_extends hdead _).imp fun _ _ _ h => .inr (.inr h)

/-! ### The login -/

/-- The token that the request brings: that of vire-server's reply to the login, or that of the
callback. -/
def Brings (w : Caller Call) (token : Str) (L : List PortalEntry) : Prop :=
  (∃ username password, Has (fun e => e.event = .op w (.postLogin username password)
    (.reply 200 (some token))) L) ∨ ∃ r, w.call = .callback r ∧ r.query.get "token" = token

/-- Why the request ends at the error page: the form of the login cannot be read or lacks a
credential, vire-server was not reached or did not answer with status 200 and a token, or the
callback has no token. -/
inductive Refused (w : Caller Call) (L : List PortalEntry) : Prop
  | form (r : Request) (hcall : w.call = .login r) (hform : r.formError = true ∨
      trimSpace (r.form.get "username") = [] ∨ r.form.get "password" = [])
  | server (username password : Str) (reply : LoginReply)
      (hpost : Has (fun e => e.event = .op w (.postLogin username password) reply) L)
      (hreply : ∀ token, token ≠ [] → reply ≠ .reply 200 (some token))
  | callback (r : Request) (hcall : w.call = .callback r)
    (htoken : r.query.get "token" = [])

/-- What refused a request is still in a later log. -/
theorem Refused.extends (h : Refused w L) (hL : Extends L L') : Refused w L' := by
  cases h with
  | form r hcall hform => exact .form r hcall hform
  | server username password reply hpost hreply =>
    exact .server username password reply (hpost.extends hL) hreply
  | callback r hcall htoken => exact .callback r hcall htoken

/-- The token that a request brought is still in a later log. -/
theorem Brings.extends {token : Str} (h : Brings w token L) (hL : Extends L L') :
    Brings w token L' := by
  rcases h with ⟨username, password, hop⟩ | h
  · exact .inl ⟨username, password, hop.extends hL⟩
  · exact .inr h

/-- A stored code is in every later log. -/
theorem Redirects.extends {url : Str} (h : Redirects w x u url L) (hL : Extends L L') :
    Redirects w x u url L' := by
  obtain ⟨code, now, uri, huri, hurl, hread, hsaved⟩ := h
  exact ⟨code, now, uri, huri, hurl, hread.extends hL, hsaved.extends hL⟩

/-- How a login ends that may complete the session: at the error page when it was refused, at the
dashboard when the token of the login names no user or no code could be drawn, or else at the
client, with a code for the user of the token. -/
def Finished (cfg : Settings) (w : Caller Call) (x : AuthSession) (a : Response)
    (L : List PortalEntry) : Prop :=
  (∃ reason, a = errorPage reason) ∧ Refused w L ∨ ∃ token, Brings w token L ∧
    (a = dashboard token ∧ (extractJWTSubFromToken cfg.codec token = [] ∨ DrawFailed w L) ∨
      extractJWTSubFromToken cfg.codec token ≠ [] ∧
        ∃ url, a = .redirect url [{ name := "mcp_session_id", value := [], maxAge := -1 }] ∧
          Redirects w x (extractJWTSubFromToken cfg.codec token) url L)

/-- A login that is finished stays so. -/
theorem Finished.extends {a : Response} (h : Finished cfg w x a L) (hL : Extends L L') :
    Finished cfg w x a L' := by
  rcases h with ⟨ha, hrefused⟩ | ⟨token, hbrings, ⟨ha, hsub | ⟨err, hdraw⟩⟩ |
    ⟨hsub, url, ha, hredirects⟩⟩
  · exact .inl ⟨ha, hrefused.extends hL⟩
  · exact .inr ⟨token, hbrings.extends hL, .inl ⟨ha, .inl hsub⟩⟩
  · exact .inr ⟨token, hbrings.extends hL, .inl ⟨ha, .inr ⟨err, hdraw.extends hL⟩⟩⟩
  · exact .inr ⟨token, hbrings.extends hL, .inr ⟨hsub, url, ha, hredirects.extends hL⟩⟩

/-- The request is a login or a callback in the browser that holds the session. -/
def Resumes (r : Request) (x : AuthSession) : Prop :=
  r.cookie "mcp_session_id" = some x.sessionID ∧ x.sessionID ≠ []

/-- The end of the login and of the callback. -/
theorem outline_finishLogin {uri : URL} (huri : URL.parse x.redirectURI = some uri)
    (hsaved : Has (SavesSession w0 x) L) (hnot : ¬ Has (Uses w.tid .sessions x.sessionID) L)
    {r : Request} (hr : Resumes r x) {token : Str} (hbrings : Brings w token L) :
    HeldOutline cfg w
      (fun a L' => Usable w .sessions x.sessionID (expiry x) L' → Finished cfg w x a L')
      (finishLogin cfg r token) L := by
  unfold finishLogin tryCompleteMCPSession
  rw [hr.1]
  dsimp only
  rw [if_neg hr.2]
  refine outline_bind.2 ?_
  split_ifs with hsub
  · exact fun _ => .inr ⟨token, hbrings, .inl ⟨rfl, .inl hsub⟩⟩
  · refine (outline_completeAuthorization huri hsaved hnot _).bind fun res L1 hL1 hres => ?_
    have hbrings1 := hbrings.extends hL1
    rcases hres with ⟨url, rfl, hredirects⟩ | ⟨⟨err, rfl⟩, hdraw⟩ | hdead
    · exact fun _ => .inr ⟨token, hbrings1, .inr ⟨hsub, url, rfl, hredirects⟩⟩
    · exact fun _ => .inr ⟨token, hbrings1, .inl ⟨rfl, .inr hdraw⟩⟩
    · cases res with
      | error err => exact fun husable => absurd husable hdead
      | ok url => exact fun husable => absurd husable hdead

/-- The outline of the login. -/
theorem outline_handleLogin {uri : URL} (huri : URL.parse x.redirectURI = some uri)
    (hsaved : Has (SavesSession w0 x) L) (hnot : ¬ Has (Uses w.tid .sessions x.sessionID) L)
    {r : Request} (hcall : w.call = .login r) (hr : Resumes r x) :
    HeldOutline cfg w
      (fun a L' => Usable w .sessions x.sessionID (expiry x) L' → Finished cfg w x a L')
      (handleLogin cfg r) L := by
  have herror : ∀ reason {L}, Refused w L →
      HeldOutline cfg w
        (fun a L' => Usable w .sessions x.sessionID (expiry x) L' → Finished cfg w x a L')
        (pure (errorPage reason)) L := fun reason _ hrefused _ => .inl ⟨⟨reason, rfl⟩, hrefused⟩
  unfold handleLogin
  dsimp only
  split_ifs with hform hcredentials
  · exact herror _ (.form r hcall (.inl hform))
  · exact herror _ (.form r hcall (.inr hcredentials))
  · generalize trimSpace (r.form.get "username") = username, r.form.get "password" = password
    refine (keeps_held w _).bind fun s1 L1 e1 hL1 _ _ => ?_
    have hnot1 : ¬ Has (Uses w.tid .sessions x.sessionID)
        ((portal cfg).entry w (.postLogin username password) e1 s1 :: L1) :=
      not_uses_op rfl (not_uses_others hnot hL1)
    have hsaved1 :=
      hsaved.extends ((portal cfg).entry_extends hL1 (.postLogin username password) e1 s1)
    -- Every other reply than a token with status 200 is answered with the error page.
    have hrefused : ∀ reply, ((portal cfg).exec (.postLogin username password) e1 s1).1 = reply →
        (∀ token, token ≠ [] → reply ≠ .reply 200 (some token)) →
        Refused w ((portal cfg).entry w (.postLogin username password) e1 s1 :: L1) := by
      rintro reply rfl hno
      exact .server username password _ (has_cons.2 (.inl rfl)) hno
    rcases hreply : ((portal cfg).exec (.postLogin username password) e1 s1).1 with _ | _ |
      ⟨status, _ | token⟩
    · exact herror _ (hrefused _ hreply (by simp))
    · exact herror _ (hrefused _ hreply (by simp))
    · dsimp only
      split_ifs <;> exact herror _ (hrefused _ hreply (by simp))
    · dsimp only
      split_ifs with hstatus hempty
      · exact herror _ (hrefused _ hreply (by simp [hstatus]))
      · exact herror _ (hrefused _ hreply (by rintro t ht ⟨⟩; exact ht hempty))
      · refine outline_finishLogin huri hsaved1 hnot1 hr
          (.inl ⟨username, password, has_cons.2 (.inl ?_)⟩)
        rw [System.entry, hreply, not_not.1 hstatus]

/-- Every request, as to the completion of a session: a login in the browser that holds it ends as
`Finished` says if the session is usable. -/
theorem outline_pending (r : Request) {uri : URL} (huri : URL.parse x.redirectURI = some uri)
    (w0 : Caller Call) (s : State) (hfresh : Fresh w.tid before) :
    HeldOutline cfg w
      (fun a L' => ((w.call = .login r ∨ w.call = .callback r) ∧ Resumes r x ∧
        Has (SavesSession w0 x) before) → Usable w .sessions x.sessionID (expiry x) L' →
          Finished cfg w x a L')
      (handle cfg w.call) (⟨s, .call w⟩ :: before) := by
  refine outline_if fun h => ?_
  obtain ⟨hcall, hr, hsaved⟩ := h
  have hsaved' : Has (SavesSession w0 x) (⟨s, .call w⟩ :: before) := has_cons.2 (.inr hsaved)
  have hnot : ¬ Has (Uses w.tid .sessions x.sessionID) (⟨s, .call w⟩ :: before) :=
    not_uses_call hfresh s
  rcases hcall with hcall | hcall
  · rw [hcall]
    exact outline_handleLogin huri hsaved' hnot hcall hr
  · rw [hcall]
    show HeldOutline cfg w _ (handleOAuthCallback cfg r) _
    unfold handleOAuthCallback
    split_ifs with htoken
    · exact fun _ => .inl ⟨⟨_, rfl⟩, .callback r hcall htoken⟩
    · exact outline_finishLogin huri hsaved' hnot hr (.inr ⟨r, hcall, rfl⟩)

/-- Whatever other requests are under way, a login in the browser that holds a pending session
completes it, when the session was stored before the login came, no other request has taken it, and
it is in time when the login is answered. -/
theorem pending_completed {s0 : State} (hmem : s0.mem = {})
    {cf : Config Op Reply State ℕ Call Response} (hc : Reachable (portal cfg) fresh s0 cf)
    {later mid before : List PortalEntry} {s s' : State} {a : Response}
    (hlog : cf.log = later ++ ⟨s, .done w a⟩ :: (mid ++ ⟨s', .call w⟩ :: before)) {r : Request}
    (hcall : w.call = .login r ∨ w.call = .callback r) (hr : Resumes r x)
    (hsaved : Has (SavesSession w0 x) before)
    (hfirst : ∀ i, Has (Uses i .sessions x.sessionID) (mid ++ ⟨s', .call w⟩ :: before) → i = w.tid)
    (hnow : x.expired s.now = false) :
    Finished cfg w x a (mid ++ ⟨s', .call w⟩ :: before) := by
  have hvalid : validRedirect x.redirectURI = true := by
    refine saved_valid hc (hsaved.mono ?_)
    rw [hlog]
    intro e he
    simp [he]
  obtain ⟨uri, huri, -⟩ := CompleteAtomic.parse_of_validRedirect hvalid
  obtain ⟨L, hL, husable, hfinished⟩ :=
    usable_result hmem hc (fun s L w hfresh => outline_pending r huri w0 s hfresh)
    hlog hfirst (expired_eq_false_iff.1 hnow)
  exact (hfinished ⟨hcall, hr, hsaved⟩ husable).extends hL

/-- The session of the flow. -/
def flowSession : AuthSession where
  sessionID := "s"
  clientID := "m"
  redirectURI := "https://m/cb"
  state := "x"
  codeChallenge := "TJRIXgwhrmxBzh3-e2v6zupato5AokdvUCCOUm9QYIA"
  codeMethod := "S256"
  scope := defaultScope

/-- The answer to the login of the flow, with the code of the redirect. -/
def flowAnswer : Response :=
  .redirect "https://m/cb?code=c&state=x" [{ name := "mcp_session_id", value := [], maxAge := -1 }]

/-- The login of the flow is answered with the redirect, which carries the code that it stored for
the user of the token. -/
theorem pending_completed_flow :
    (∃ s, flowLog.drop 8 = ⟨s, .done ⟨1, login⟩ flowAnswer⟩ :: flowLog.drop 9) ∧
    ∃ token url, flowAnswer =
      .redirect url [{ name := "mcp_session_id", value := [], maxAge := -1 }] ∧
      Brings ⟨1, login⟩ token (flowLog.drop 9) ∧ Redirects ⟨1, login⟩ flowSession
        (extractJWTSubFromToken sampleSettings.codec token) url (flowLog.drop 9) := by
  have hrun : Reachable (portal sampleSettings) fresh {}
      ((portal sampleSettings).run (.init {}) flow) :=
    reachable_of_storesNew (by decide)
  have hsplit : flowLog.drop 9 = (flowLog.drop 9).take 8 ++ flowLog.drop 17 := rfl
  have hlog : ∃ s s' r, s.now = 0 ∧ login = .login r ∧ Resumes r flowSession ∧
      flowLog.drop 17 = ⟨s', .call ⟨1, login⟩⟩ :: flowLog.drop 18 ∧
      flowLog = flowLog.take 8 ++ ⟨s, .done ⟨1, login⟩ flowAnswer⟩ :: flowLog.drop 9 :=
    ⟨_, _, _, rfl, rfl, ⟨rfl, by decide⟩, rfl, rfl⟩
  obtain ⟨s, s', r, hnow, hr, hresumes, hcall, hdone⟩ := hlog
  rw [hcall] at hsplit
  rw [hsplit] at hdone
  have hsaved : Has (SavesSession ⟨0, authorization⟩ flowSession) (flowLog.drop 18) :=
    ⟨_, List.mem_iff_getElem?.2 ⟨1, rfl⟩, rfl⟩
  have hfinished := pending_completed rfl hrun hdone (.inl hr) hresumes hsaved
    (by rw [← hsplit]; exact fun i hi => eq_of_usedOnlyBy (by decide) hi) (by rw [hnow]; decide)
  rw [← hsplit] at hfinished
  refine ⟨⟨_, rfl⟩, ?_⟩
  rcases hfinished with ⟨⟨reason, ha⟩, -⟩ | ⟨token, hbrings, ⟨ha, -⟩ | ⟨-, url, ha, hredirects⟩⟩
  · simp [flowAnswer, errorPage] at ha
  · simp [flowAnswer, dashboard, ascii] at ha
  · exact ⟨token, url, ha, hbrings, hredirects⟩

end VirePortal.Auth.Completion
