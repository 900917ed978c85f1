import VirePortal.Auth.Registration

/-!
# Where the authorize endpoint redirects to

`GET /authorize` and `GET /authorize/resume` answer with a redirect in three cases: to the landing
page of the portal, to the redirect URI of a session that they complete, and, when the parameters
are not valid, to the redirect URI of the request with an error. The last one happens before the
client is looked up, so the URI need not be one of a registered client (`open_redirect`).

The others are safe on top of the runs of `Registration`: a session is created with a URI that is
registered then, and the URIs of a client do not change while the process lives. A session that
outlives a restart needs its client saved along with it (`guarded`). So a redirect out of the portal
goes to a URI that is registered for the client of the request when it is answered
(`redirect_registered`). The invariant here is a layer over the one of `Registration`, which is
known at every step (`Reachable.knowing`).
-/

namespace VirePortal.Auth.OpenRedirect

open Go Concurrent Registration

/-- The redirect URIs of a client in a `ClientStore`: those in the map, or else those in the
backend. -/
def registeredURIs (s : State) (id : Str) : List Str :=
  match s.mem.clients.lookup id with
  | some y => y.redirectURIs
  | none => match s.db.clients.lookup id with
    | some x => x.redirectURIs
    | none => []

/-- The URL leads out of the portal: it is not a path that starts with one slash. -/
def Outside (url : Str) : Prop :=
  ¬ ∃ path, url = 47 :: path ∧ path.head? ≠ some 47 ∧ path.head? ≠ some 92

/-- The URL is the URI up to its query. -/
def Targets (url uri : Str) : Prop := ∃ u q, URL.parse uri = some u ∧ url = withQuery u q

/-- The parameters name a redirect URI that parses, and fail one of the checks that follow. -/
def Rejected (p : AuthorizeParams) : Prop :=
  p.redirectURI ≠ [] ∧ validRedirect p.redirectURI = true ∧
    (p.incomplete = true ∨ p.responseType ≠ "code" ∨ p.codeChallengeMethod ≠ "S256")

/-- A `GET` request to the authorize endpoint. -/
def AuthorizeGet (q : Call) (p : AuthorizeParams) : Prop :=
  ∃ r, q = .authorize r ∧ r.method = "GET" ∧ p = .of r.query

/-- A `GET` request that resumes a session. -/
def ResumeGet (q : Call) (sessionID : Str) : Prop :=
  ∃ r, q = .resume r ∧ r.method = "GET" ∧ sessionID = r.query.get "s"

/-- The client of the request: the one that it names, or the one of the session that it resumes. -/
def ClientOf (q : Call) (id : Str) (L : List PortalEntry) : Prop :=
  (∃ p, AuthorizeGet q p ∧ id = p.clientID) ∨
    ∃ x, ResumeGet q x.sessionID ∧ Has (SavesSession x) L ∧ id = x.clientID

/-- A session with the id was stored. -/
def SavesID (sessionID : Str) (e : PortalEntry) : Prop :=
  ∃ x, SavesSession x e ∧ x.sessionID = sessionID

/-- The runs of `Registration` in which session ids are new, a request with parameters that are
refused names a registered redirect URI, and a restart leaves no session without its client. -/
def guarded : Assumption Op Reply State Env ℕ Call Response where
  op w o e s L := steady.op w o e s L ∧ match o with
    | .sessionsPut x => ¬ Has (SavesID x.sessionID) L
    | _ => True
  done w _ s _ := ∀ p, AuthorizeGet w.call p → Rejected p →
    p.redirectURI ∈ registeredURIs s p.clientID
  crash s _ := ∀ id x, s.db.sessions.lookup id = some x → s.db.clients.lookup x.clientID ≠ none

/-- In this life of the process the session was stored, or its URI was registered. -/
def Backed (x : AuthSession) (L : List PortalEntry) : Prop :=
  ThisLife (SavesSession x) L ∨
    ∃ V, x.redirectURI ∈ V ∧ ThisLife (fun e => Reg x.clientID V e.pre) L

/-- What a request knows of a session that it has read. -/
def Held (x : AuthSession) (L : List PortalEntry) : Prop := Has (SavesSession x) L ∧ Backed x L

/-- What the invariant says of a session in the map or the backend. -/
def Kept (id : Str) (x : AuthSession) (s : State) (L : List PortalEntry) : Prop :=
  x.sessionID = id ∧ Has (SavesSession x) L ∧
    (Backed x L ∨ ∃ V, x.redirectURI ∈ V ∧ Reg x.clientID V s)

/-- The redirect goes to a URI that is registered for the client of the request. -/
def Registered (q : Call) (url : Str) (s : State) (L : List PortalEntry) : Prop :=
  ∃ id uri, ClientOf q id L ∧ Targets url uri ∧ uri ∈ registeredURIs s id

/-- What the log behind an answer says of it. -/
def Safe (e : PortalEntry) (L : List PortalEntry) : Prop :=
  ∀ w url cookies, e.event = .done w (.redirect url cookies) →
    ((∃ p, AuthorizeGet w.call p) ∨ ∃ sessionID, ResumeGet w.call sessionID) → Outside url →
    Registered w.call url e.pre L

/-- The invariant. -/
structure Inv (s : State) (L : List PortalEntry) : Prop where
  mem : ∀ id x, s.mem.sessions.lookup id = some x → Kept id x s L
  db : ∀ id x, s.db.sessions.lookup id = some x → Kept id x s L
  unique : ∀ x y, Has (SavesSession x) L → Has (SavesSession y) L →
    x.sessionID = y.sessionID → x = y
  safe : Each Safe L

/-- The assumption of the upper layer. -/
abbrev layered (cfg : Settings) : Assumption Op Reply State Env ℕ Call Response :=
  guarded.knowing (Registration.Inv cfg)

variable {cfg : Settings} {s s' : State} {L L' : List PortalEntry} {w : Caller Call}
variable {id : Str} {V : List Str} {x y : AuthSession}

/-- A session that is backed stays so. -/
theorem Backed.extends (h : Backed x L) (hL : Extends L L') : Backed x L' := by
  rcases h with h | ⟨V, hV, h⟩
  · exact .inl (h.extends hL)
  · exact .inr ⟨V, hV, h.extends hL⟩

/-- A session that is held stays so. -/
theorem Held.extends (h : Held x L) (hL : Extends L L') : Held x L' :=
  ⟨h.1.extends hL, h.2.extends hL⟩

/-- What is kept at an entry of this life is held from then on. -/
theorem Kept.held (h : Kept id x s L) {e : PortalEntry} (hpre : e.pre = s)
    (hlive : e.event ≠ .crash) : Held x (e :: L) := by
  obtain ⟨-, hsaved, hbacked | ⟨V, hmem, hV⟩⟩ := h
  · have hext : Extends L (e :: L) := (Extends.refl L).cons e hlive
    exact ⟨hsaved.extends hext, hbacked.extends hext⟩
  · refine ⟨has_cons.2 (.inr hsaved), .inr ⟨V, hmem, (thisLife_cons hlive).2 (.inl ?_)⟩⟩
    rw [hpre]
    exact hV

/-- A held session is kept under its id. -/
theorem Held.kept (h : Held x L) : Kept x.sessionID x s L := ⟨rfl, h.1, .inl h.2⟩

/-- The URI of a session that is backed is registered, in the runs of `Registration`. -/
theorem Backed.reg (h : Backed x L) (hI : Registration.Inv cfg s L) :
    ∃ V, x.redirectURI ∈ V ∧ Reg x.clientID V s := by
  rcases h with h | ⟨V, hmem, h⟩
  · -- The entry that stored the session found its URI registered.
    have hfound : ∃ V : { V // x.redirectURI ∈ V },
        ThisLife (fun e => Reg x.clientID V.1 e.pre) L := by
      refine (h.and_each hI.sessions).exists fun e he => ?_
      obtain ⟨V, hV, hmem⟩ := he.2 x he.1
      exact ⟨⟨V, hmem⟩, hV⟩
    obtain ⟨⟨V, hmem⟩, hV⟩ := hfound
    exact ⟨V, hmem, hI.kept _ _ hV⟩
  · exact ⟨V, hmem, hI.kept _ _ h⟩

/-- The URI of a kept session is registered. -/
theorem Kept.reg (h : Kept id x s L) (hI : Registration.Inv cfg s L) :
    ∃ V, x.redirectURI ∈ V ∧ Reg x.clientID V s := by
  obtain ⟨-, -, hbacked | hreg⟩ := h
  · exact hbacked.reg hI
  · exact hreg

/-- The `ClientStore` has the URIs that are registered. -/
theorem registeredURIs_eq (hI : Registration.Inv cfg s L) (hV : Reg id V s) :
    registeredURIs s id = V := by
  unfold registeredURIs
  cases hmem : s.mem.clients.lookup id with
  | some y => exact hI.agree id _ _ (.inl (.inl ⟨y, hmem, rfl⟩)) (.inl hV)
  | none =>
    rcases hV with ⟨y, hy, -⟩ | ⟨x, hx, rfl⟩
    · rw [hmem] at hy
      cases hy
    · rw [hx]

/-- The URI of a session that a request holds is registered for the session's client. -/
theorem Held.registered (h : Held x L) (hI : Registration.Inv cfg s L) :
    x.redirectURI ∈ registeredURIs s x.clientID := by
  obtain ⟨V, hmem, hV⟩ := h.2.reg hI
  rwa [registeredURIs_eq hI hV]

/-- An entry of the process keeps the invariant, when the sessions that it adds are held and the one
that it stores has a new id. -/
theorem Inv.advance (h : Inv s L) (e : PortalEntry) (hpre : e.pre = s) (hlive : e.event ≠ .crash)
    (hmem : ∀ id x, s'.mem.sessions.lookup id = some x →
      s.mem.sessions.lookup id = some x ∨ x.sessionID = id ∧ Held x (e :: L))
    (hdb : ∀ id x, s'.db.sessions.lookup id = some x →
      s.db.sessions.lookup id = some x ∨ x.sessionID = id ∧ Held x (e :: L))
    (hnew : ∀ x, SavesSession x e → ¬ Has (SavesID x.sessionID) L) (hsafe : Safe e L) :
    Inv s' (e :: L) := by
  have hkept : ∀ {id x}, Kept id x s L ∨ x.sessionID = id ∧ Held x (e :: L) →
      Kept id x s' (e :: L) := by
    rintro id x (hx | ⟨rfl, hx⟩)
    · obtain rfl := hx.1
      exact (hx.held hpre hlive).kept
    · exact hx.kept
  refine ⟨fun id x hx => hkept ?_, fun id x hx => hkept ?_, fun x y hx hy hid => ?_, hsafe, h.safe⟩
  · exact (hmem id x hx).imp_left (h.mem id x)
  · exact (hdb id x hx).imp_left (h.db id x)
  · -- A session that is stored now has an id that no earlier one has.
    rcases has_cons.1 hx with hx | hx <;> rcases has_cons.1 hy with hy | hy
    · obtain ⟨w, hop⟩ := hx
      obtain ⟨w', hop'⟩ := hy
      rw [hop] at hop'
      obtain ⟨-, heq, -⟩ := Event.op.inj hop'
      exact Op.sessionsPut.inj heq
    · obtain ⟨e', he', hop⟩ := hy
      exact absurd ⟨e', he', y, hop, hid.symm⟩ (hnew x hx)
    · obtain ⟨e', he', hop⟩ := hx
      exact absurd ⟨e', he', x, hop, hid⟩ (hnew y hy)
    · exact h.unique x y hx hy hid

/-- An entry of an operation is no answer. -/
theorem safe_op {o : Op} {e : Env} : Safe ((portal cfg).entry w o e s) L := by
  rintro w' url cookies hdone
  simp at hdone

/-- The effects that add a session. -/
def adding : List Effect := [.cachesSession, .putsSession]

/-- The other operations keep the invariant by themselves. -/
theorem keeps (w : Caller Call) {o : Op} (ho : o.effect ∉ adding) :
    Keeps (portal cfg) (layered cfg) Inv w o := by
  intro s L e hI _
  have hcache : o.effect ≠ .cachesSession := fun h => ho (by simp [h, adding])
  have hput : o.effect ≠ .putsSession := fun h => ho (by simp [h, adding])
  refine hI.advance _ rfl (by simp)
    (fun id x hx => .inl ((exec_sessions_shrink cfg.backend hcache hput e s).1 hx))
    (fun id x hx => .inl ((exec_sessions_shrink cfg.backend hcache hput e s).2 hx)) ?_ safe_op
  rintro x ⟨w', hop⟩
  obtain ⟨-, rfl, -⟩ := Event.op.inj hop
  simp [Op.effect, adding] at ho

/-- The outline of a program that adds no session. -/
theorem outline_quiet {α : Type} {m : M α} {l : List Effect} (hm : Performs l m)
    (hl : ∀ a ∈ l, a ∉ adding) (L : List PortalEntry) :
    Outline (portal cfg) (layered cfg) Inv w (fun _ _ => True) m L :=
  Outline.of_all (Prog.All.imp (fun _ ho => keeps w (hl _ ho)) hm) L

/-- The lookups return sessions that are held. -/
theorem sessionReads (w : Caller Call) : SessionReads cfg (layered cfg) Inv w
    (fun id x L => x.sessionID = id ∧ Held x L) where
  stays hL := fun ⟨hid, hx⟩ => ⟨hid, hx.extends hL⟩
  reads ho := keeps w (by simp [ho, adding])
  cached hI hx := ⟨(hI.mem _ _ hx).1, (hI.mem _ _ hx).held rfl (by simp)⟩
  fetched hI hA hx := by
    have hkept := hI.db _ _ (ReadReply.found_of hA.1.1.1 hx)
    exact ⟨hkept.1, hkept.held rfl (by simp)⟩
  fetchedByClient {e s L clientID x} hI hA hx := by
    rcases hA.1.1.1 with hfailed | ⟨hnone, -⟩ | ⟨y, hy, hclient, hlook⟩
    · rw [hfailed] at hx
      cases hx
    · rw [hnone] at hx
      cases hx
    · rw [hy] at hx
      cases hx
      exact ⟨hclient, _, rfl, (hI.db _ _ hlook).held rfl (by simp)⟩
  cache {e s L id x} hx hI := by
    refine hI.advance _ rfl (by simp) (fun id' y hy => ?_) (fun id' y hy => .inl hy) ?_ safe_op
    · simp only [server, exec, State.updateMem_mem] at hy
      rw [Table.lookup_insert] at hy
      split_ifs at hy with hid
      · cases hy
        have hext := (portal cfg).entry_extends (Others.refl w.tid L) (.sessionsCache x) e s
        exact .inr ⟨hid.symm, hx.2.extends hext⟩
      · exact .inl hy
    · rintro y ⟨w', hop⟩
      simp at hop

/-- Storing a session with a new id keeps the invariant. -/
theorem Inv.saveSession (h : Inv s L) (hnew : ¬ Has (SavesID x.sessionID) L) (w : Caller Call)
    (e : Env) : Inv ((portal cfg).exec (.sessionsPut x) e s).2
      ((portal cfg).entry w (.sessionsPut x) e s :: L) := by
  have hself : Held x ((portal cfg).entry w (.sessionsPut x) e s :: L) :=
    ⟨has_cons.2 (.inl ⟨w, rfl⟩), .inl ((thisLife_cons (by simp)).2 (.inl ⟨w, rfl⟩))⟩
  refine h.advance _ rfl (by simp) (fun id y hy => ?_) (fun id y hy => ?_) ?_ safe_op
  · simp only [server, exec, State.updateDb_mem, State.updateMem_mem] at hy
    rw [Table.lookup_insert] at hy
    split_ifs at hy with hid
    · cases hy
      exact .inr ⟨hid.symm, hself⟩
    · exact .inl hy
  · simp only [server, exec, State.updateDb_db, State.updateMem_db] at hy
    split_ifs at hy
    · rw [Table.lookup_insert] at hy
      split_ifs at hy with hid
      · cases hy
        exact .inr ⟨hid.symm, hself⟩
      · exact .inl hy
    · exact .inl hy
  · rintro y ⟨w', hop⟩
    obtain ⟨-, heq, -⟩ := Event.op.inj hop
    rwa [← Op.sessionsPut.inj heq]

/-- The outline of `createAuthSession`: the session that it stores is for the client of the
parameters. -/
theorem outline_createAuthSession (p : AuthorizeParams) (L : List PortalEntry) :
    Outline (portal cfg) (layered cfg) Inv w
      (fun a L' => ∀ sessionID, a = .ok sessionID →
        ∃ x, Has (SavesSession x) L' ∧ x.sessionID = sessionID ∧ x.clientID = p.clientID)
      (createAuthSession cfg.backend p) L := by
  refine outline_create (G := fun _ _ => True) (fun _ h => h)
    (fun ho => keeps w (by simp [ho, adding]))
    (outline_quiet (performs_findOrRegister _ p) (by simp [adding]) L)
      (nofun) ?_
  intro client sessionID now s L' e _ _ hI hA
  refine ⟨hI.saveSession hA.1.2 w e, fun id h => ?_⟩
  cases h
  exact ⟨pendingSession p sessionID now, has_cons.2 (.inl ⟨w, rfl⟩), rfl, rfl⟩

/-- The outline of `CompleteAuthorization`: the redirect goes to the URI of a session that it
holds. -/
theorem outline_completeAuthorization (sessionID u : Str) (L : List PortalEntry) :
    Outline (portal cfg) (layered cfg) Inv w
      (fun a L' => ∀ url, a = .ok url →
        ∃ y, y.sessionID = sessionID ∧ Held y L' ∧ Targets url y.redirectURI)
      (completeAuthorization cfg.backend sessionID u) L := by
  unfold completeAuthorization
  refine (keeps w (by simp [Op.effect, adding])).bind fun s L1 e _ _ _ => ?_
  refine ((sessionReads w).get sessionID _).bind fun r L2 _ hr => ?_
  rcases r with _ | y
  · exact fun url h => by cases h
  · obtain ⟨hid, hheld⟩ := hr y rfl
    -- The URL comes from the session's own URI, whatever happens in between.
    have hresults : (completeSession sessionID u y).Results
        fun a => ∀ url, a = .ok url → Targets url y.redirectURI := by
      unfold completeSession
      intro a
      rcases a with err | code
      · exact fun url h => by cases h
      · intro now _ _
        cases hparse : URL.parse y.redirectURI with
        | none => exact fun url h => by cases h
        | some v =>
          intro url h
          exact ⟨v, _, hparse, (Except.ok.inj h).symm⟩
    have hout : Outline (portal cfg) (layered cfg) Inv w (fun _ _ => True)
        (completeSession sessionID u y) L2 :=
      outline_quiet (performs_completeSession sessionID u y) (by simp [adding]) L2
    exact (hout.and_results hresults).imp
      fun a L3 hL3 ha url hurl => ⟨y, hid, hheld.extends hL3, ha.2 url hurl⟩

/-- The URL of the landing page. -/
def Landing (url : Str) : Prop := ∃ sessionID, url = "/?mcp_session=" ++ sessionID

/-- The landing page belongs to the portal. -/
theorem Landing.not_outside {url : Str} (h : Landing url) : ¬ Outside url := by
  obtain ⟨sessionID, rfl⟩ := h
  intro hout
  exact hout ⟨"?mcp_session=" ++ sessionID, rfl, by simp [ascii], by simp [ascii]⟩

/-- The redirect goes to the landing page or to the URI of a session with the id that is held. -/
def Completes (sessionID url : Str) (L : List PortalEntry) : Prop :=
  Landing url ∨ ∃ y, y.sessionID = sessionID ∧ Held y L ∧ Targets url y.redirectURI

/-- The outline of `setSessionCookieAndRedirect`. -/
theorem outline_setSessionCookieAndRedirect (r : Request) (sessionID : Str) (L : List PortalEntry) :
    Outline (portal cfg) (layered cfg) Inv w
      (fun a L' => ∀ url cookies, a = .redirect url cookies → Completes sessionID url L')
      (setSessionCookieAndRedirect cfg r sessionID) L := by
  have hlanding : ∀ {L}, ∀ url cookies, landing sessionID = .redirect url cookies →
      Completes sessionID url L := by
    intro L url cookies h
    obtain ⟨rfl, -⟩ := Response.redirect.inj h
    exact .inl ⟨sessionID, rfl⟩
  unfold setSessionCookieAndRedirect
  refine (outline_quiet (performs_extractSessionUserID _ _ r) (by simp [adding]) L).bind
    fun u L1 _ _ => ?_
  split_ifs
  · exact hlanding
  · refine (outline_completeAuthorization sessionID u L1).bind fun a L2 _ ha => ?_
    rcases a with err | redirectURL
    · exact hlanding
    · intro url cookies h
      obtain ⟨rfl, -⟩ := Response.redirect.inj h
      exact .inr (ha redirectURL rfl)

/-- An error redirect goes to the redirect URI. -/
theorem targets_of_redirectWithError {uri code description state url : Str}
    {cookies : List SetCookie}
    (h : redirectWithError uri code description state = .redirect url cookies) :
    Targets url uri := by
  unfold redirectWithError at h
  cases hparse : URL.parse uri with
  | none =>
    rw [hparse] at h
    cases h
  | some u =>
    rw [hparse] at h
    obtain ⟨rfl, -⟩ := Response.redirect.inj h
    exact ⟨u, _, hparse, rfl⟩

/-- Where a `GET` request to the authorize endpoint with the parameters may redirect to. -/
def AuthorizeExit (p : AuthorizeParams) (url : Str) (L : List PortalEntry) : Prop :=
  (Rejected p ∧ Targets url p.redirectURI) ∨
    ∃ x, Has (SavesSession x) L ∧ x.clientID = p.clientID ∧ Completes x.sessionID url L

/-- The outline of `handleAuthorizeGET`. -/
theorem outline_handleAuthorizeGET (r : Request) (L : List PortalEntry) :
    Outline (portal cfg) (layered cfg) Inv w
      (fun a L' => ∀ url cookies, a = .redirect url cookies → AuthorizeExit (.of r.query) url L')
      (handleAuthorizeGET cfg r) L := by
  unfold handleAuthorizeGET
  generalize AuthorizeParams.of r.query = p
  -- Both ways to a session end in `setSessionCookieAndRedirect`.
  have hcomplete : ∀ {x : AuthSession} {L}, Has (SavesSession x) L → x.clientID = p.clientID →
      Outline (portal cfg) (layered cfg) Inv w
        (fun a L' => ∀ url cookies, a = .redirect url cookies → AuthorizeExit p url L')
        (setSessionCookieAndRedirect cfg r x.sessionID) L := by
    intro x L hx hclient
    refine (outline_setSessionCookieAndRedirect r x.sessionID L).imp fun a L' hL ha => ?_
    exact fun url cookies h => .inr ⟨x, hx.extends hL, hclient, ha url cookies h⟩
  dsimp only
  split_ifs with hempty hclient hvalid hincomplete htype hmethod
  · exact nofun
  · refine ((sessionReads w).getByClientID p.clientID L).bind fun a L1 _ ha => ?_
    rcases a with _ | x
    · exact nofun
    · obtain ⟨hid, -, -, hheld⟩ := ha x rfl
      exact hcomplete hheld.1 hid
  · exact nofun
  · -- These three errors go to the URI of the request, which nobody has checked yet.
    exact fun url cookies h => .inl ⟨⟨hempty, by simpa using hvalid, .inl hincomplete⟩,
      targets_of_redirectWithError h⟩
  · exact fun url cookies h => .inl ⟨⟨hempty, by simpa using hvalid, .inr (.inl htype)⟩,
      targets_of_redirectWithError h⟩
  · exact fun url cookies h => .inl ⟨⟨hempty, by simpa using hvalid, .inr (.inr hmethod)⟩,
      targets_of_redirectWithError h⟩
  · refine (outline_createAuthSession p L).bind fun a L1 _ ha => ?_
    rcases a with err | sessionID
    · exact nofun
    · obtain ⟨x, hx, rfl, hid⟩ := ha sessionID rfl
      exact hcomplete hx hid

/-- The outline of `HandleAuthorizeResume`. -/
theorem outline_handleAuthorizeResume (r : Request) (L : List PortalEntry) :
    Outline (portal cfg) (layered cfg) Inv w
      (fun a L' => ∀ url cookies, a = .redirect url cookies → Completes (r.query.get "s") url L')
      (handleAuthorizeResume cfg r) L := by
  unfold handleAuthorizeResume
  dsimp only
  split_ifs
  · exact nofun
  · exact nofun
  · refine ((sessionReads w).get _ L).bind fun a L1 _ _ => ?_
    rcases a with _ | x
    · exact nofun
    · exact outline_setSessionCookieAndRedirect r _ L1

/-- The outlines of the parts of the other handlers. -/
theorem parts (w : Caller Call) :
    Parts cfg (layered cfg) Inv w (fun _ => True) (fun _ _ => True) (fun _ _ => True) where
  stays _ _ := trivial
  getByClientID clientID L _ :=
    ((sessionReads w).getByClientID clientID L).imp fun _ _ _ _ => trivial
  get sessionID L _ := ((sessionReads w).get sessionID L).imp fun _ _ _ _ => trivial
  create p L _ _ := (outline_createAuthSession p L).imp fun _ _ _ _ => trivial
  extract r L _ _ :=
    (outline_quiet (performs_extractSessionUserID _ _ r) (by simp [adding]) L).imp
      fun _ _ _ _ _ => trivial
  complete sessionID u L _ := (outline_completeAuthorization sessionID u L).imp fun _ _ _ _ =>
    trivial
  login username password L _ :=
    (keeps w (by simp [Op.effect, adding])).outline fun _ _ _ _ _ _ _ _ => trivial
  callback _ _ _ _ _ _ _ _ := trivial
  token r L _ _ := (outline_quiet (performs_handleToken _ r) (by simp [adding]) L).imp
    fun _ _ _ _ _ => trivial
  register r body L _ _ := outline_quiet (performs_handleRegister r body) (by simp [adding]) L

/-- A call, an answer or the clock keeps the invariant when it is safe. -/
theorem Inv.idle (h : Inv s L) (e : PortalEntry) (hpre : e.pre = s) (hlive : e.event ≠ .crash)
    (hidle : ∀ w o r, e.event ≠ .op w o r) (hmem : s'.mem = s.mem) (hdb : s'.db = s.db)
    (hsafe : Safe e L) : Inv s' (e :: L) := by
  refine h.advance e hpre hlive (fun id x hx => .inl ?_) (fun id x hx => .inl ?_) ?_ hsafe
  · rwa [hmem] at hx
  · rwa [hdb] at hx
  · rintro x ⟨w, hop⟩
    exact absurd hop (hidle _ _ _)

/-- A redirect to the URI of a session of the client goes to a URI that is registered for it. -/
theorem Completes.registered {url sessionID : Str} (h : Completes sessionID url L)
    (hout : Outside url) (hI : Registration.Inv cfg s L) :
    ∃ y, y.sessionID = sessionID ∧ Has (SavesSession y) L ∧ Targets url y.redirectURI ∧
      y.redirectURI ∈ registeredURIs s y.clientID := by
  rcases h with hlanding | ⟨y, hid, hheld, htargets⟩
  · exact absurd hout hlanding.not_outside
  · exact ⟨y, hid, hheld.1, htargets, hheld.registered hI⟩

/-- A completion stays in the log. -/
theorem Completes.extends {url sessionID : Str} (h : Completes sessionID url L)
    (hL : Extends L L') :
    Completes sessionID url L' := by
  rcases h with h | ⟨y, hid, hheld, htargets⟩
  · exact .inl h
  · exact .inr ⟨y, hid, hheld.extends hL, htargets⟩

/-- The answer of a `GET` request to the authorize endpoint is safe. -/
theorem delivers_authorize {r : Request} {a : Response} (hcall : w.call = .authorize r)
    (hmethod : r.method = "GET")
    (ha : ∀ url cookies, a = .redirect url cookies → AuthorizeExit (.of r.query) url L) :
    Delivers (layered cfg) Inv w a L := by
  intro s L' hL hI hA
  refine hI.idle _ rfl (by simp) (by simp) rfl rfl ?_
  intro w' url cookies hdone _ hout
  obtain ⟨rfl, rfl⟩ := Event.done.inj hdone
  have hget : AuthorizeGet w.call (.of r.query) := ⟨r, hcall, hmethod, rfl⟩
  rcases ha url cookies rfl with ⟨hrejected, htargets⟩ | ⟨x, hx, hclient, hcompletes⟩
  · exact ⟨_, _, .inl ⟨_, hget, rfl⟩, htargets, hA.1 _ hget hrejected⟩
  · -- The session that was completed is the one that was created or found for the client.
    obtain ⟨y, hid, hy, htargets, hreg⟩ := (hcompletes.extends hL.extends).registered hout hA.2
    obtain rfl := hI.unique y x hy (hx.extends hL.extends) hid
    exact ⟨_, _, .inl ⟨_, hget, hclient⟩, htargets, hreg⟩

/-- The answer of a request that resumes a session is safe. -/
theorem delivers_resume {r : Request} {a : Response} (hcall : w.call = .resume r)
    (ha : ∀ url cookies, a = .redirect url cookies → Completes (r.query.get "s") url L) :
    Delivers (layered cfg) Inv w a L := by
  intro s L' hL hI hA
  refine hI.idle _ rfl (by simp) (by simp) rfl rfl ?_
  intro w' url cookies hdone hget hout
  obtain ⟨rfl, rfl⟩ := Event.done.inj hdone
  have hcompletes := (ha url cookies rfl).extends hL.extends
  obtain ⟨y, hid, hy, htargets, hreg⟩ := hcompletes.registered hout hA.2
  have hresume : ResumeGet w.call y.sessionID := by
    rcases hget with ⟨p, r', hcall', -⟩ | ⟨sessionID, r', hcall', hmethod, -⟩
    · rw [hcall] at hcall'
      cases hcall'
    · rw [hcall] at hcall'
      cases hcall'
      exact ⟨r, hcall, hmethod, hid⟩
  exact ⟨_, _, .inr ⟨y, hresume, hy, rfl⟩, htargets, hreg⟩

/-- The answer of another request is safe. -/
theorem delivers_other {a : Response} (hauthorize : ∀ p, ¬ AuthorizeGet w.call p)
    (hresume : ∀ sessionID, ¬ ResumeGet w.call sessionID) : Delivers (layered cfg) Inv w a L := by
  intro s L' hL hI hA
  refine hI.idle _ rfl (by simp) (by simp) rfl rfl ?_
  intro w' url cookies hdone hget _
  obtain ⟨rfl, rfl⟩ := Event.done.inj hdone
  rcases hget with ⟨p, hp⟩ | ⟨sessionID, hs⟩
  · exact absurd hp (hauthorize p)
  · exact absurd hs (hresume sessionID)

/-- The outline of every request. -/
theorem outline_handle (w : Caller Call) (L : List PortalEntry) :
    Outline (portal cfg) (layered cfg) Inv w (Delivers (layered cfg) Inv w)
      (handle cfg w.call) L := by
  by_cases hauthorize : ∃ p, AuthorizeGet w.call p
  · obtain ⟨-, r, hcall, hmethod, -⟩ := hauthorize
    have hhandle : handle cfg w.call = handleAuthorizeGET cfg r := by
      rw [hcall, handle, handleAuthorize, if_pos hmethod]
    rw [hhandle]
    exact (outline_handleAuthorizeGET r L).imp fun a L1 _ ha => delivers_authorize hcall hmethod ha
  · by_cases hresume : ∃ sessionID, ResumeGet w.call sessionID
    · obtain ⟨-, r, hcall, -, -⟩ := hresume
      rw [hcall]
      exact (outline_handleAuthorizeResume r L).imp fun a L1 _ ha => delivers_resume hcall ha
    · refine ((parts w).handle trivial).imp fun a L1 _ _ => ?_
      exact delivers_other (not_exists.1 hauthorize) (not_exists.1 hresume)

/-- A restart keeps the invariant when the clients of the saved sessions are saved. -/
theorem Inv.restart (h : Inv s L) (hI : Registration.Inv cfg s L)
    (hsaved : ∀ id x, s.db.sessions.lookup id = some x → s.db.clients.lookup x.clientID ≠ none) :
    Inv (restart s) (⟨s, .crash⟩ :: L) := by
  have hno : ∀ x, ¬ SavesSession x (⟨s, .crash⟩ : PortalEntry) := by
    rintro x ⟨w, hop⟩
    cases hop
  have hold : ∀ {x}, Has (SavesSession x) (⟨s, .crash⟩ :: L) → Has (SavesSession x) L :=
    fun hx => (has_cons.1 hx).resolve_left (hno _)
  refine ⟨fun id x hx => ?_, fun id x hx => ?_,
    fun x y hx hy => h.unique x y (hold hx) (hold hy), fun w url cookies hdone => ?_, h.safe⟩
  · simp [Auth.restart] at hx
  · obtain ⟨hid, hsaves, -⟩ := h.db id x hx
    obtain ⟨V, hmem, hV⟩ := (h.db id x hx).reg hI
    obtain ⟨c, hc⟩ := Option.ne_none_iff_exists'.1 (hsaved id x hx)
    have heq : c.redirectURIs = V := hI.agree _ _ _ (.inl (.inr ⟨c, hc, rfl⟩)) (.inl hV)
    exact ⟨hid, has_cons.2 (.inr hsaves), .inr ⟨V, hmem, .inr ⟨c, hc, heq⟩⟩⟩
  · cases hdone

/-- The portal is verified from a process with empty maps, over a backend without sessions. -/
theorem verified {s0 : State} (hmem : s0.mem = {}) (hsessions : s0.db.sessions = ∅) :
    Verified (portal cfg) (layered cfg) Inv s0 where
  init := by
    refine ⟨fun id x hx => ?_, fun id x hx => ?_, fun x y hx => absurd hx (has_nil _), trivial⟩
    · simp [hmem] at hx
    · simp [hsessions] at hx
  call s L w h _ _ := by
    refine ⟨h.idle _ rfl (by simp) (by simp) rfl rfl ?_, outline_handle w _⟩
    exact nofun
  env s L d h _ := by
    refine h.idle _ rfl (by simp) (by simp) rfl rfl ?_
    exact nofun
  crash s L h hA := h.restart hA.2 hA.1

/-- The runs here are runs of `Registration`. -/
theorem guarded_implies : guarded.Implies steady where
  op h := h.1
  call _ := trivial
  done _ := trivial
  env _ := trivial
  crash _ := trivial

/-- No open redirect: when a `GET` request to the authorize endpoint or a request that resumes a
session is answered with a redirect out of the portal, the target is a redirect URI that is
registered for the client of the request at that time. -/
theorem redirect_registered {s0 : State} {c : Config Op Reply State ℕ Call Response}
    (hmem : s0.mem = {}) (hsessions : s0.db.sessions = ∅)
    (hkeyed : ∀ id x, s0.db.clients.lookup id = some x → x.clientID = id)
    (hunsaved : cfg.backend = false → ∀ id, s0.db.clients.lookup id = none)
    (hc : Reachable (portal cfg) guarded s0 c) {later earlier : List PortalEntry}
    {url : Str} {cookies : List SetCookie}
    (hlog : c.log = later ++ ⟨s, .done w (.redirect url cookies)⟩ :: earlier)
    (hget : (∃ p, AuthorizeGet w.call p) ∨ ∃ sessionID, ResumeGet w.call sessionID)
    (hout : Outside url) : Registered w.call url s earlier := by
  have hknown : ∀ c : Config Op Reply State ℕ Call Response, Reachable (portal cfg) guarded s0 c →
      Registration.Inv cfg c.state c.log :=
    fun c hc => (hc.imp guarded_implies).invariant (Registration.verified hmem hkeyed hunsaved)
  have hI := (hc.knowing hknown).invariant (verified hmem hsessions)
  have hsafe := hI.safe
  rw [hlog] at hsafe
  exact hsafe.append.1 w url cookies rfl hget hout

/-- A portal without a secret, which takes any token with the payload of Alice for her session. -/
def browserSettings : Settings :=
  ⟨false, [], ⟨fun _ => [], fun _ _ => [],
    fun _ => some (.object [("sub", .string "alice")]), fun _ => []⟩⟩

/-- An authorization request of the client `m` by a browser with Alice's session. -/
def byAlice : Call :=
  .authorize { query := sampleQuery "https://m/cb" "x" "x"
               cookies := [⟨"vire_session", "x.eyJzdWIiOiJhbGljZSJ9.x"⟩] }

/-- A registration, and the request, which is answered with a code. -/
def answered : List (Label Env ℕ Call) :=
  registering ++ [.call byAlice, .step 1 {}, .step 1 { random := .ok "s" }, .step 1 {},
    .step 1 {}, .step 1 {}, .step 1 {}, .step 1 {}, .step 1 { random := .ok "c" }, .step 1 {},
    .step 1 {}, .step 1 {}, .step 1 {}]

/-- Whether the entry stores a session. -/
def storesSession (e : PortalEntry) : Bool :=
  match e.event with
  | .op _ (.sessionsPut _) _ => true
  | _ => false

/-- No session was stored. -/
theorem not_has_savesID (h : L.all (fun e => !storesSession e) = true) : ¬ Has (SavesID id) L := by
  rintro ⟨e, he, x, ⟨w, hop⟩, -⟩
  have hno := List.all_eq_true.1 h e he
  simp [storesSession, hop] at hno

/-- The browser of alice is sent to the registered URI. -/
theorem redirect_registered_answered :
    Registered byAlice "https://m/cb?code=c&state=x"
      ((portal browserSettings).run (.init {}) answered).state
      ((portal browserSettings).run (.init {}) answered).log.tail := by
  have hregister : ∀ p, ¬ AuthorizeGet registration p := by
    rintro p ⟨r, hcall, -⟩
    cases hcall
  have haccepted : ∀ p, AuthorizeGet byAlice p → ¬ Rejected p := by
    rintro p ⟨r, hcall, -, rfl⟩
    cases hcall
    unfold Rejected
    decide
  have hrun : Reachable (portal browserSettings) guarded {}
      ((portal browserSettings).run (.init {}) answered) := by
    refine Reachable.init.run answered ?_
    repeat' first | exact trivial | exact rfl | apply And.intro
    exacts [fun p hp => absurd hp (hregister p), not_has_savesID rfl,
      fun p hp hr => absurd hr (haccepted p hp)]
  have hlast : ∃ cookies, ((portal browserSettings).run (.init {}) answered).log =
      [] ++ ⟨((portal browserSettings).run (.init {}) answered).state,
        .done ⟨1, byAlice⟩ (.redirect "https://m/cb?code=c&state=x" cookies)⟩ ::
        ((portal browserSettings).run (.init {}) answered).log.tail := ⟨_, rfl⟩
  obtain ⟨cookies, hlog⟩ := hlast
  refine redirect_registered rfl rfl (fun id x hx => ?_) (fun _ id => rfl) hrun hlog
    (.inl ⟨_, _, rfl, rfl, rfl⟩) ?_
  · simp at hx
  · rintro ⟨path, hpath, -⟩
    cases hpath

/-- An authorization request of the client `m` with another redirect URI and nothing else. -/
def incomplete : Call :=
  .authorize { query := [("client_id", ["m"]), ("redirect_uri", ["https://evil/cb"])] }

/-- A registration of `m`, and the request. -/
def refused : List (Label Env ℕ Call) := registering ++ [.call incomplete, .step 1 {}]

/-- The answer to a request with parameters that are not valid redirects to a URI that is not
registered for the client. -/
theorem open_redirect : ∃ c s w url cookies earlier,
    Reachable (portal sampleSettings) steady {} c ∧
    c.log = ⟨s, .done w (.redirect url cookies)⟩ :: earlier ∧ (∃ p, AuthorizeGet w.call p) ∧
    Outside url ∧ ¬ Registered w.call url s earlier := by
  refine ⟨(portal sampleSettings).run (.init {}) refused, _, ⟨1, incomplete⟩,
    ascii ("https://evil/cb?error=invalid_request&" ++
      "error_description=missing+required+parameters"), [], _,
    Reachable.init.run refused ?_, rfl, ⟨_, _, rfl, rfl, rfl⟩, ?_, ?_⟩
  · repeat' constructor
  · rintro ⟨path, hpath, -⟩
    cases hpath
  · rintro ⟨id, uri, ⟨p, ⟨r, hcall, -, rfl⟩, rfl⟩ | ⟨x, ⟨r, hcall, -⟩, -⟩, ⟨u, q, hparse, hurl⟩,
      hmem⟩
    · cases hcall
      obtain rfl : uri = "https://m/cb" := List.mem_singleton.1 hmem
      obtain rfl : { scheme := "https", host := "m", path := "/cb" } = u := Option.some.inj hparse
      -- The two URLs differ in their host.
      have hhost : ascii "https://e" = ascii "https://m" := congrArg (List.take 9) hurl
      exact absurd hhost (by decide)
    · cases hcall

end VirePortal.Auth.OpenRedirect
