import VirePortal.Auth.Footprint

/-!
# Outlines of the handlers from those of their parts

The handlers put a few functions together: `createAuthSession`, `extractSessionUserID`,
`CompleteAuthorization`, the lookups of sessions, the login at vire-server, the token endpoint and
the registration. `Parts` lists what a proof about the portal has to show of them, and
`Parts.handle` is the outline of every request from there. What the request `w` knows throughout is
`K`, and `Allowed u` is what has to be known before a session is completed for the user `u`.
-/

namespace VirePortal.Auth

open Go Concurrent

/-- The parameters of a call to the authorize endpoint. -/
def Params (q : Call) (p : AuthorizeParams) : Prop :=
  ∃ r, q = .authorize r ∧ (r.method = "GET" ∧ p = .of r.query ∨ r.method = "POST" ∧ p = .of r.form)

/-- The response carries a pair of tokens. -/
def Response.isTokens : Response → Bool
  | .tokens _ _ _ => true
  | _ => false

/-- A registration returns no tokens. -/
theorem handleRegister_results (r : Request) (body : Option Json) :
    (handleRegister r body).Results fun a => a.isTokens = false := by
  unfold handleRegister
  split_ifs
  · rfl
  · rcases body.bind decodeDcr with _ | req
    · rfl
    · dsimp only
      split_ifs
      · rfl
      · intro a
        rcases a with err | clientID
        · rfl
        · intro a
          rcases a with err | clientSecret
          · rfl
          · exact fun now _ => rfl

variable (cfg : Settings) (A : Assumption Op Reply State Env ℕ Call Response)
variable (I : State → List PortalEntry → Prop) (w : Caller Call)

/-- What the outlines of the two lookups of sessions need, where `H id x` is what the request knows
of a session `x` that it got under `id`: the map and the backend return such sessions, and caching
one keeps the invariant. -/
structure SessionReads (H : Str → AuthSession → List PortalEntry → Prop) : Prop where
  stays : ∀ {id x L L'}, Extends L L' → H id x L → H id x L'
  reads : ∀ {o}, o.effect = .reads → Keeps (portal cfg) A I w o
  cached : ∀ {o e s L id x}, I s L → s.mem.sessions.lookup id = some x →
    H id x ((portal cfg).entry w o e s :: L)
  fetched : ∀ {e s L id x}, I s L → A.op w (.getSession id) e s L → e.session = .found x →
    H id x ((portal cfg).entry w (.getSession id) e s :: L)
  fetchedByClient : ∀ {e s L clientID x}, I s L → A.op w (.getSessionByClientID clientID) e s L →
    e.session = .found x → x.clientID = clientID ∧
      ∃ id, H id x ((portal cfg).entry w (.getSessionByClientID clientID) e s :: L)
  cache : ∀ {e s L id x}, H id x L → I s L → I ((portal cfg).exec (.sessionsCache x) e s).2
    ((portal cfg).entry w (.sessionsCache x) e s :: L)

section Reads

variable {cfg A I w} {H : Str → AuthSession → List PortalEntry → Prop}

/-- The outline of the end of `SessionStore.Get`. -/
theorem SessionReads.live (h : SessionReads cfg A I w H) {id : Str} {x : AuthSession}
    {L : List PortalEntry} (hx : H id x L) :
    Outline (portal cfg) A I w (fun r L' => ∀ y, r = some y → H id y L')
      (SessionStore.live x) L := by
  unfold SessionStore.live
  refine (h.reads rfl).bind fun s L1 e hL _ _ => ?_
  intro y hy
  have hxy : x = y := by
    split_ifs at hy
    exact Option.some.inj hy
  exact hxy ▸ h.stays ((portal cfg).entry_extends hL _ e s) hx

/-- The outline of `SessionStore.Get`. -/
theorem SessionReads.get (h : SessionReads cfg A I w H) (id : Str) (L : List PortalEntry) :
    Outline (portal cfg) A I w (fun r L' => ∀ x, r = some x → H id x L')
      (SessionStore.get cfg.backend id) L := by
  unfold SessionStore.get
  refine (h.reads rfl).bind fun s L1 e hL hI _ => ?_
  rcases hr : ((portal cfg).exec (.sessionsLookup id) e s).1 with _ | x
  · cases hb : cfg.backend with
    | false => exact nofun
    | true =>
      refine (h.reads rfl).bind fun s2 L2 e2 hL2 hI2 hA2 => ?_
      rcases hr2 : ((portal cfg).exec (.getSession id) e2 s2).1 with _ | _ | x
      · exact nofun
      · exact nofun
      · refine outline_step.2 fun s3 L3 e3 hL3 hI3 _ => ?_
        have hx : H id x L3 := h.stays hL3.extends (h.fetched hI2 hA2 hr2)
        exact ⟨h.cache hx hI3,
          h.live (h.stays ((portal cfg).entry_extends (Others.refl _ _) _ _ _) hx)⟩
  · exact h.live (h.cached hI hr)

/-- The outline of `SessionStore.GetByClientID`. -/
theorem SessionReads.getByClientID (h : SessionReads cfg A I w H) (clientID : Str)
    (L : List PortalEntry) :
    Outline (portal cfg) A I w
      (fun r L' => ∀ x, r = some x → x.clientID = clientID ∧ ∃ id, H id x L')
      (SessionStore.getByClientID cfg.backend clientID) L := by
  unfold SessionStore.getByClientID
  refine (h.reads rfl).bind fun s L1 e hL hI _ => ?_
  rcases hr : ((portal cfg).exec (.sessionsByClientID clientID) e s).1 with ⟨now, _ | x⟩
  · cases hb : cfg.backend with
    | false => exact nofun
    | true =>
      refine (h.reads rfl).bind fun s2 L2 e2 hL2 hI2 hA2 => ?_
      rcases hr2 : ((portal cfg).exec (.getSessionByClientID clientID) e2 s2).1 with _ | _ | x
      · exact nofun
      · exact nofun
      · obtain ⟨hclient, id, hx⟩ := h.fetchedByClient hI2 hA2 hr2
        show Outline (portal cfg) _ _ _ _ (if x.expired now then _ else _) _
        split_ifs
        · exact fun x hx => by cases hx
        · refine outline_step.2 fun s3 L3 e3 hL3 hI3 _ => ?_
          have hx3 : H id x L3 := h.stays hL3.extends hx
          refine ⟨h.cache hx3 hI3, fun y hy => ?_⟩
          cases hy
          exact ⟨hclient, id, h.stays ((portal cfg).entry_extends (Others.refl _ _) _ _ _) hx3⟩
  · -- The best session of the map is one of its entries.
    have hbest : bestSession s.now clientID none (iterate s.mem.sessions e.start) = some x :=
      congrArg Prod.snd hr
    obtain ⟨hmem, hclient⟩ := (bestSession_mem hbest).resolve_left (by simp)
    obtain ⟨id, hid⟩ := iterate_mem hmem
    intro y hy
    cases hy
    exact ⟨hclient, id, h.cached hI hid⟩

/-- The outline of `createAuthSession` from one of its lookup, where `G` is what the lookup tells of
the client: what is left to show is that the session may be stored. -/
theorem outline_create {p : AuthorizeParams} {G : OAuthClient → List PortalEntry → Prop}
    {Q : Except Str Str → List PortalEntry → Prop} {L : List PortalEntry}
    (hstays : ∀ {client L L'}, Extends L L' → G client L → G client L')
    (hreads : ∀ {o}, o.effect = .reads → Keeps (portal cfg) A I w o)
    (hfind : Outline (portal cfg) A I w G (findOrRegister cfg.backend p) L)
    (herror : ∀ err L', Q (.error err) L')
    (hput : ∀ client sessionID now s L' e, G client L' →
      p.redirectURI ∈ client.redirectURIs → I s L' →
      A.op w (.sessionsPut (pendingSession p sessionID now)) e s L' →
      I ((portal cfg).exec (.sessionsPut (pendingSession p sessionID now)) e s).2
          ((portal cfg).entry w (.sessionsPut (pendingSession p sessionID now)) e s :: L') ∧
        Q (.ok sessionID)
          ((portal cfg).entry w (.sessionsPut (pendingSession p sessionID now)) e s :: L')) :
    Outline (portal cfg) A I w Q (createAuthSession cfg.backend p) L := by
  unfold createAuthSession
  refine hfind.bind fun client L1 _ hclient => ?_
  split_ifs with hmem
  · refine (hreads rfl).bind fun s L2 e hL2 _ _ => ?_
    rcases ((portal cfg).exec (.generateRandomHex 16) e s).1 with err | sessionID
    · exact herror _ _
    · refine (hreads rfl).bind fun s2 L3 e2 hL3 _ _ => ?_
      generalize ((portal cfg).exec .now e2 s2).1 = now
      refine outline_step.2 fun s3 L4 e3 hL4 hI hA => ?_
      have h2 := (portal cfg).entry_extends hL2 (.generateRandomHex 16) e s
      have h3 := (portal cfg).entry_extends hL3 .now e2 s2
      have hclient' := hstays ((h2.trans h3).trans hL4.extends) hclient
      exact hput client sessionID now s3 L4 e3 hclient' hmem hI hA
  · exact herror _ _

end Reads

variable (K : List PortalEntry → Prop) (Allowed : Str → List PortalEntry → Prop)
variable (Q : Response → List PortalEntry → Prop)

/-- The outlines of the parts of the handlers, for the request `w`. -/
structure Parts : Prop where
  stays : ∀ {L L'}, Extends L L' → K L → K L'
  getByClientID : ∀ clientID L, K L → Outline (portal cfg) A I w (fun _ _ => True)
    (SessionStore.getByClientID cfg.backend clientID) L
  get : ∀ sessionID L, K L → Outline (portal cfg) A I w (fun _ _ => True)
    (SessionStore.get cfg.backend sessionID) L
  create : ∀ p L, Params w.call p → K L → Outline (portal cfg) A I w (fun _ _ => True)
    (createAuthSession cfg.backend p) L
  /-- The user of a session cookie may complete a session. -/
  extract : ∀ r L, w.call = .authorize r ∨ w.call = .resume r → K L →
    Outline (portal cfg) A I w (fun u L' => u ≠ [] → Allowed u L')
      (extractSessionUserID cfg.codec cfg.secret r) L
  complete : ∀ sessionID u L, Allowed u L → Outline (portal cfg) A I w (fun _ _ => True)
    (completeAuthorization cfg.backend sessionID u) L
  /-- The user of a login may complete a session. -/
  login : ∀ username password L, K L → Outline (portal cfg) A I w
    (fun a L' => ∀ token, a = .reply 200 (some token) →
      Allowed (extractJWTSubFromToken cfg.codec token) L')
    (perform (.postLogin username password)) L
  /-- The user of a callback for a pending session may complete it. -/
  callback : ∀ r sessionID L, w.call = .callback r →
    r.cookie "mcp_session_id" = some sessionID → sessionID ≠ [] →
    extractJWTSubFromToken cfg.codec (r.query.get "token") ≠ [] → K L →
    Allowed (extractJWTSubFromToken cfg.codec (r.query.get "token")) L
  token : ∀ r L, w.call = .token r → K L →
    Outline (portal cfg) A I w (fun a L' => a.isTokens = true → Q a L') (handleToken cfg r) L
  register : ∀ r body L, w.call = .register r body → K L →
    Outline (portal cfg) A I w (fun _ _ => True) (handleRegister r body) L

variable {cfg A I w K Allowed Q} {L : List PortalEntry} {r : Request}

namespace Parts

/-- The outline of a handler: when it answers with a pair of tokens, `Q` holds of them. -/
abbrev Outlines (cfg : Settings) (A : Assumption Op Reply State Env ℕ Call Response)
    (I : State → List PortalEntry → Prop) (w : Caller Call) (Q : Response → List PortalEntry → Prop)
    (m : M Response) (L : List PortalEntry) : Prop :=
  Outline (portal cfg) A I w (fun a L' => a.isTokens = true → Q a L') m L

/-- A response that is no pair of tokens has nothing to say about tokens. -/
theorem of_not_tokens {a : Response} (h : a.isTokens = false) : a.isTokens = true → Q a L := by
  intro ha
  rw [h] at ha
  cases ha

/-- An error in a redirect carries no tokens. -/
theorem redirectWithError_isTokens (redirectURI errorCode description state : Str) :
    (redirectWithError redirectURI errorCode description state).isTokens = false := by
  unfold redirectWithError
  split <;> rfl

variable (h : Parts cfg A I w K Allowed Q)
include h

/-- The outline of `setSessionCookieAndRedirect`. -/
theorem setSessionCookieAndRedirect {sessionID : Str}
    (hcall : w.call = .authorize r ∨ w.call = .resume r) (hK : K L) :
    Outlines cfg A I w Q (setSessionCookieAndRedirect cfg r sessionID) L := by
  unfold Auth.setSessionCookieAndRedirect
  refine (h.extract r L hcall hK).bind fun u L1 _ hu => ?_
  split_ifs with hempty
  · exact of_not_tokens rfl
  · refine (h.complete sessionID u L1 (hu hempty)).bind fun a L2 _ _ => ?_
    rcases a with err | url <;> exact of_not_tokens rfl

/-- The outline of `GET /authorize`. -/
theorem handleAuthorizeGET (hcall : w.call = .authorize r) (hmethod : r.method = "GET")
    (hK : K L) : Outlines cfg A I w Q (handleAuthorizeGET cfg r) L := by
  unfold Auth.handleAuthorizeGET
  dsimp only
  split_ifs
  · exact of_not_tokens rfl
  · -- Only the client is named, so its pending session is looked up.
    refine (h.getByClientID _ L hK).bind fun a L1 hL _ => ?_
    rcases a with _ | x
    · exact of_not_tokens rfl
    · exact h.setSessionCookieAndRedirect (.inl hcall) (h.stays hL hK)
  · exact of_not_tokens rfl
  iterate 3 · exact of_not_tokens (redirectWithError_isTokens _ _ _ _)
  · refine (h.create _ L ⟨r, hcall, .inl ⟨hmethod, rfl⟩⟩ hK).bind fun a L1 hL _ => ?_
    rcases a with err | sessionID
    · exact of_not_tokens rfl
    · exact h.setSessionCookieAndRedirect (.inl hcall) (h.stays hL hK)

/-- The outline of `POST /authorize`. -/
theorem handleAuthorizePOST (hcall : w.call = .authorize r) (hmethod : r.method = "POST")
    (hK : K L) : Outlines cfg A I w Q (handleAuthorizePOST cfg r) L := by
  unfold Auth.handleAuthorizePOST
  dsimp only
  split_ifs
  -- Six checks of the parameters come before the session is created.
  iterate 6 · exact of_not_tokens rfl
  refine (h.create _ L ⟨r, hcall, .inr ⟨hmethod, rfl⟩⟩ hK).bind fun a L1 _ _ => ?_
  rcases a with err | sessionID <;> exact of_not_tokens rfl

/-- The outline of `/authorize/resume`. -/
theorem handleAuthorizeResume (hcall : w.call = .resume r) (hK : K L) :
    Outlines cfg A I w Q (handleAuthorizeResume cfg r) L := by
  unfold Auth.handleAuthorizeResume
  dsimp only
  split_ifs
  · exact of_not_tokens rfl
  · exact of_not_tokens rfl
  · refine (h.get _ L hK).bind fun a L1 hL _ => ?_
    rcases a with _ | x
    · exact of_not_tokens rfl
    · exact h.setSessionCookieAndRedirect (.inr hcall) (h.stays hL hK)

/-- The end of the login and of the callback, whose token names a user that may complete the pending
session, if there is one. -/
theorem finishLogin {token : Str}
    (hallowed : ∀ sessionID, r.cookie "mcp_session_id" = some sessionID → sessionID ≠ [] →
      extractJWTSubFromToken cfg.codec token ≠ [] →
      Allowed (extractJWTSubFromToken cfg.codec token) L) :
    Outlines cfg A I w Q (finishLogin cfg r token) L := by
  unfold Auth.finishLogin tryCompleteMCPSession
  refine outline_bind.2 ?_
  cases hcookie : r.cookie "mcp_session_id" with
  | none => exact of_not_tokens rfl
  | some sessionID =>
    dsimp only
    split_ifs with hempty hsub
    · exact of_not_tokens rfl
    · exact of_not_tokens rfl
    · refine (h.complete sessionID _ L (hallowed sessionID hcookie hempty hsub)).bind
        fun a L1 _ _ => ?_
      rcases a with err | url <;> exact of_not_tokens rfl

/-- The outline of the login. -/
theorem handleLogin (hK : K L) : Outlines cfg A I w Q (handleLogin cfg r) L := by
  unfold Auth.handleLogin
  dsimp only
  split_ifs
  · exact of_not_tokens rfl
  · exact of_not_tokens rfl
  · refine (h.login _ _ L hK).bind fun a L1 _ ha => ?_
    -- Only a reply 200 with a token goes on; every other one ends at an error page.
    rcases a with _ | _ | ⟨status, token⟩
    · exact of_not_tokens rfl
    · exact of_not_tokens rfl
    · dsimp only
      split_ifs with hstatus
      · exact of_not_tokens rfl
      · rcases token with _ | token
        · exact of_not_tokens rfl
        · dsimp only
          split_ifs
          · exact of_not_tokens rfl
          · refine h.finishLogin fun _ _ _ _ => ha token ?_
            rw [not_not.1 hstatus]

/-- The outline of every request. -/
theorem handle (hK : K L) : Outlines cfg A I w Q (handle cfg w.call) L := by
  cases hcall : w.call with
  | authorize r =>
    show Outline _ _ _ _ _ (handleAuthorize cfg r) _
    unfold handleAuthorize
    split_ifs with hget hpost
    · exact h.handleAuthorizeGET hcall hget hK
    · exact h.handleAuthorizePOST hcall hpost hK
    · exact of_not_tokens rfl
  | resume r => exact h.handleAuthorizeResume hcall hK
  | token r => exact h.token r L hcall hK
  | register r body =>
    have hout := (h.register r body L hcall hK).and_results (handleRegister_results r body)
    exact hout.imp fun a L1 _ ha => of_not_tokens ha.2
  | login r => exact h.handleLogin hK
  | callback r =>
    show Outline _ _ _ _ _ (handleOAuthCallback cfg r) _
    unfold handleOAuthCallback
    split_ifs
    · exact of_not_tokens rfl
    · refine h.finishLogin fun sessionID hcookie hempty hsub => ?_
      exact h.callback r sessionID L hcall hcookie hempty hsub hK

end Parts

end VirePortal.Auth
