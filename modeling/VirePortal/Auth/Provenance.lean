import VirePortal.Concurrent.History
import VirePortal.Auth.Handlers

/-!
# Where a grant comes from

An access token carries a user, a client and a scope. They pass from the parameters of an
`/authorize` request to a session, from the session and the user of a `CompleteAuthorization` to a
code, from the code to a refresh token, and from one refresh token to the next. The pool here is the
whole portal, and the backend, if there is one, returns records as they were saved under the
requested key (`asSaved`).

`Each` entry that stores a record is justified by the log behind it (`Justified`), and the maps hold
only records that were stored (`Inv`). So whatever the token endpoint returns goes back to one
authorization (`grant_provenance`), by a chain of any length (`Lineage`).
-/

namespace VirePortal.Auth.Provenance

open Go Concurrent

/-- The scope that an authorization with the parameters is for. -/
def scopeOf (p : AuthorizeParams) : Str := if p.scope = [] then defaultScope else p.scope

/-- The entry stores the session. -/
def SavesSession (w : Caller Call) (x : AuthSession) (e : PortalEntry) : Prop :=
  e.event = .op w (.sessionsPut x) ()

/-- The entry stores the code. -/
def SavesCode (w : Caller Call) (c : AuthCode) (e : PortalEntry) : Prop :=
  e.event = .op w (.codesPut c) ()

/-- The entry stores the refresh token. -/
def SavesToken (w : Caller Call) (t : RefreshToken) (e : PortalEntry) : Prop :=
  e.event = .op w (.tokensPut t) ()

/-- The entry starts `CompleteAuthorization` for the session and the user. -/
def Completes (w : Caller Call) (sessionID userID : Str) (e : PortalEntry) : Prop :=
  e.event = .op w (.completing sessionID userID) ()

/-- An `/authorize` request with the parameters created the session. -/
def CreatedBy (p : AuthorizeParams) (x : AuthSession) (L : List PortalEntry) : Prop :=
  ∃ w, Params w.call p ∧ (∃ sessionID now, x = pendingSession p sessionID now) ∧
    Has (SavesSession w x) L

/-- The authorization: a session was created by an `/authorize` request with the parameters, and
`CompleteAuthorization` was called on it for the user. -/
def Authorized (u : Str) (p : AuthorizeParams) (L : List PortalEntry) : Prop :=
  ∃ x, CreatedBy p x L ∧ ∃ w, Has (Completes w x.sessionID u) L

/-- The code was issued for the authorization: by a call of `CompleteAuthorization` for the user, on
a session with the parameters. -/
def IssuedFor (u : Str) (p : AuthorizeParams) (c : AuthCode) (L : List PortalEntry) : Prop :=
  ∃ x code now w, CreatedBy p x L ∧ Has (Completes w x.sessionID u) L ∧
    c = issueCode x u code now ∧ Has (SavesCode w c) L

/-- The request takes the code `c`. -/
def Takes (w : Caller Call) (c : AuthCode) (e : PortalEntry) : Prop :=
  ∃ code, e.event = .op w (.codesConsume code) (some (some { c with used := true })) ∨
    ∃ f, e.event = .op w (.codesConsumeFetched code f) (some { c with used := true })

/-- The refresh tokens of an authorization: one stored by a request that took a code issued for it,
or by a refresh grant that presented an earlier token of it. -/
inductive Lineage (u : Str) (p : AuthorizeParams) (L : List PortalEntry) : RefreshToken → Prop
  | first {w : Caller Call} {c : AuthCode} {t : RefreshToken} (hissued : IssuedFor u p c L)
      (htakes : Has (Takes w c) L) (hsaves : Has (SavesToken w t) L) : Lineage u p L t
  | next {w : Caller Call} {r : Request} {t t' : RefreshToken} (hlineage : Lineage u p L t)
      (hcall : w.call = .token r) (htype : r.form.get "grant_type" = "refresh_token")
      (hpresents : r.form.get "refresh_token" = t.token)
      (hsaves : Has (SavesToken w t') L) : Lineage u p L t'

/-- The request for a code grant supplied the client, the redirect URI and a verifier for the
challenge. -/
structure CodeGrant (codec : Codec) (r : Request) (p : AuthorizeParams) : Prop where
  grantType : r.form.get "grant_type" = "authorization_code"
  clientID : r.form.get "client_id" = p.clientID
  redirectURI : r.form.get "redirect_uri" = p.redirectURI
  verifier : base64Encode (codec.sha256 (r.form.get "code_verifier")) = p.codeChallenge

/-- The request for a refresh grant presented a token of the authorization and of its user, with its
client. -/
structure RefreshGrant (u : Str) (r : Request) (p : AuthorizeParams)
    (L : List PortalEntry) : Prop where
  grantType : r.form.get "grant_type" = "refresh_token"
  clientID : r.form.get "client_id" = p.clientID
  presented : ∃ t, t.token = r.form.get "refresh_token" ∧ t.userID = u ∧ Lineage u p L t

/-- What a pair of tokens that the request returned goes back to. -/
def Granted (cfg : Settings) (w : Caller Call) (accessToken refreshToken scope : Str)
    (L : List PortalEntry) : Prop :=
  ∃ r u p claims, w.call = .token r ∧ Authorized u p L ∧
    accessToken = signToken cfg.codec cfg.secret claims ∧ claims.sub = u ∧
    claims.clientID = p.clientID ∧ claims.scope = scopeOf p ∧ scope = scopeOf p ∧
    (∃ t, t.token = refreshToken ∧ Lineage u p L t) ∧
    (CodeGrant cfg.codec r p ∨ RefreshGrant u r p L)

/-- What the runs assume of the backend: it returns records as they were saved, under the key that
was asked for. A code may have been marked since. -/
def asSaved : Assumption Op Reply State Env ℕ Call Response where
  op _ o e _ L := match o with
    | .getSession id => ∀ x, e.session = .found x →
        x.sessionID = id ∧ ∃ w, Has (SavesSession w x) L
    | .getSessionByClientID clientID => ∀ x, e.session = .found x →
        x.clientID = clientID ∧ ∃ w, Has (SavesSession w x) L
    | .getCode code => ∀ c, e.code = .found c →
        c.code = code ∧ ∃ w c0, c = { c0 with used := c.used } ∧ Has (SavesCode w c0) L
    | .lookupToken token => ∀ t, e.token = .found t →
        t.token = token ∧ ∃ w, Has (SavesToken w t) L
    | _ => True

/-- What the log behind an entry says of it. -/
def Justified (cfg : Settings) (e : PortalEntry) (L : List PortalEntry) : Prop :=
  match e.event with
  | .op w (.sessionsPut x) _ => ∃ p sessionID now, Params w.call p ∧
      x = pendingSession p sessionID now
  | .op w (.codesPut c) _ => ∃ u x code now, Has (Completes w x.sessionID u) L ∧
      c = issueCode x u code now ∧ ∃ w', Has (SavesSession w' x) L
  | .op _ (.tokensPut t) _ => ∃ u p, Lineage u p (e :: L) t ∧ t.userID = u ∧
      t.clientID = p.clientID ∧ t.scope = scopeOf p
  | .done w (.tokens accessToken refreshToken scope) =>
    Granted cfg w accessToken refreshToken scope L
  | _ => True

/-- The maps hold what was stored. -/
structure Stored (s : State) (L : List PortalEntry) : Prop where
  sessions : ∀ id x, s.mem.sessions.lookup id = some x →
    x.sessionID = id ∧ ∃ w, Has (SavesSession w x) L
  codes : ∀ code c, s.mem.codes.lookup code = some c →
    ∃ w c0, c = { c0 with used := c.used } ∧ Has (SavesCode w c0) L
  tokens : ∀ token t, s.mem.tokens.lookup token = some t →
    t.token = token ∧ ∃ w, Has (SavesToken w t) L

/-- The invariant: every entry is justified, and the maps hold what was stored. -/
structure Inv (cfg : Settings) (s : State) (L : List PortalEntry) : Prop where
  each : Each (Justified cfg) L
  stored : Stored s L

variable {cfg : Settings} {s s' : State} {L L' : List PortalEntry} {w : Caller Call}
variable {u : Str} {p : AuthorizeParams}

variable {x : AuthSession} {c : AuthCode} {t : RefreshToken} {r : Request}

/-- A session keeps its origin. -/
theorem CreatedBy.mono (h : CreatedBy p x L) (hL : L ⊆ L') :
    CreatedBy p x L' := by
  obtain ⟨w, hp, hx, hs⟩ := h
  exact ⟨w, hp, hx, hs.mono hL⟩

/-- An authorization stays one. -/
theorem Authorized.mono (h : Authorized u p L) (hL : L ⊆ L') : Authorized u p L' := by
  obtain ⟨x, hx, w, hw⟩ := h
  exact ⟨x, hx.mono hL, w, hw.mono hL⟩

/-- A code keeps its origin. -/
theorem IssuedFor.mono (h : IssuedFor u p c L) (hL : L ⊆ L') :
    IssuedFor u p c L' := by
  obtain ⟨x, code, now, w, hx, hw, hc, hs⟩ := h
  exact ⟨x, code, now, w, hx.mono hL, hw.mono hL, hc, hs.mono hL⟩

/-- A token keeps its lineage. -/
theorem Lineage.mono (h : Lineage u p L t) (hL : L ⊆ L') :
    Lineage u p L' t := by
  induction h with
  | first hissued htakes hsaves =>
    exact .first (hissued.mono hL) (htakes.mono hL) (hsaves.mono hL)
  | next _ hcall htype hpresents hsaves ih =>
    exact .next ih hcall htype hpresents (hsaves.mono hL)

/-- Every lineage starts with an authorization. -/
theorem Lineage.authorized (h : Lineage u p L t) : Authorized u p L := by
  induction h with
  | first hissued _ _ =>
    obtain ⟨x, code, now, w, hx, hw, -, -⟩ := hissued
    exact ⟨x, hx, w, hw⟩
  | next _ _ _ _ _ ih => exact ih

/-- A session that was stored was created by an `/authorize` request. -/
theorem Inv.created (h : Inv cfg s L) (hx : Has (SavesSession w x) L) :
    ∃ p, CreatedBy p x L := by
  obtain ⟨e, he, hop⟩ := hx
  obtain ⟨later, earlier, -, hj⟩ := h.each.of_mem he
  unfold Justified at hj
  rw [show e.event = .op w (.sessionsPut x) () from hop] at hj
  obtain ⟨p, sessionID, now, hp, hx⟩ := hj
  exact ⟨p, w, hp, ⟨sessionID, now, hx⟩, e, he, hop⟩

/-- The code was issued for an authorization, and its fields are those of the authorization. -/
def CodeOf (c : AuthCode) (L : List PortalEntry) : Prop :=
  ∃ u p, IssuedFor u p c L ∧ c.userID = u ∧ c.clientID = p.clientID ∧
    c.redirectURI = p.redirectURI ∧ c.codeChallenge = p.codeChallenge ∧ c.scope = scopeOf p

/-- The refresh token is of the lineage of an authorization, and its fields are those of the
authorization. -/
def TokenOf (t : RefreshToken) (L : List PortalEntry) : Prop :=
  ∃ u p, Lineage u p L t ∧ t.userID = u ∧ t.clientID = p.clientID ∧ t.scope = scopeOf p

/-- A stored code stays so. -/
theorem CodeOf.mono (h : CodeOf c L) (hL : L ⊆ L') : CodeOf c L' := by
  obtain ⟨u, p, hissued, hfields⟩ := h
  exact ⟨u, p, hissued.mono hL, hfields⟩

/-- A stored token stays so. -/
theorem TokenOf.mono (h : TokenOf t L) (hL : L ⊆ L') : TokenOf t L' := by
  obtain ⟨u, p, hlineage, hfields⟩ := h
  exact ⟨u, p, hlineage.mono hL, hfields⟩

/-- A code that was stored was issued for an authorization. -/
theorem Inv.issued (h : Inv cfg s L) (hc : Has (SavesCode w c) L) : CodeOf c L := by
  obtain ⟨e, he, hop⟩ := hc
  obtain ⟨later, earlier, hlog, hj⟩ := h.each.of_mem he
  have hsub : earlier ⊆ L := by
    rw [hlog]
    exact fun e' he' => by simp [he']
  unfold Justified at hj
  rw [show e.event = .op w (.codesPut c) () from hop] at hj
  obtain ⟨u, x, code, now, hcompletes, rfl, w', hsaved⟩ := hj
  obtain ⟨p, hp⟩ := h.created (hsaved.mono hsub)
  refine ⟨u, p, ⟨x, code, now, w, hp, hcompletes.mono hsub, rfl, e, he, hop⟩, rfl, ?_⟩
  -- The fields of the code are those of the session, which are those of the parameters.
  obtain ⟨-, -, ⟨sessionID, now', rfl⟩, -⟩ := hp
  exact ⟨rfl, rfl, rfl, rfl⟩

/-- A refresh token that was stored belongs to the lineage of an authorization. -/
theorem Inv.lineage (h : Inv cfg s L) (ht : Has (SavesToken w t) L) :
    TokenOf t L := by
  obtain ⟨e, he, hop⟩ := ht
  obtain ⟨later, earlier, hlog, hj⟩ := h.each.of_mem he
  have hsub : e :: earlier ⊆ L := by
    rw [hlog]
    exact fun e' he' => List.mem_append_right _ he'
  unfold Justified at hj
  rw [show e.event = .op w (.tokensPut t) () from hop] at hj
  obtain ⟨u, p, hl, hfields⟩ := hj
  exact ⟨u, p, hl.mono hsub, hfields⟩

/-- What is held was stored in a longer log. -/
theorem Stored.mono (h : Stored s L) (hL : L ⊆ L') : Stored s L' where
  sessions id x hx := by
    obtain ⟨hid, w, hw⟩ := h.sessions id x hx
    exact ⟨hid, w, hw.mono hL⟩
  codes code c hc := by
    obtain ⟨w, c0, heq, hw⟩ := h.codes code c hc
    exact ⟨w, c0, heq, hw.mono hL⟩
  tokens token t ht := by
    obtain ⟨hid, w, hw⟩ := h.tokens token t ht
    exact ⟨hid, w, hw.mono hL⟩

/-- The maps after a step hold no record that they did not hold before, up to the mark of a code. -/
structure Shrinks (s s' : State) : Prop where
  sessions : ∀ id x, s'.mem.sessions.lookup id = some x → s.mem.sessions.lookup id = some x
  codes : ∀ code c, s'.mem.codes.lookup code = some c →
    ∃ c0, s.mem.codes.lookup code = some c0 ∧ c = { c0 with used := c.used }
  tokens : ∀ token t, s'.mem.tokens.lookup token = some t → s.mem.tokens.lookup token = some t

/-- What is left in the maps was stored. -/
theorem Stored.shrink (h : Stored s L) (hs : Shrinks s s') : Stored s' L where
  sessions id x hx := h.sessions id x (hs.sessions id x hx)
  codes code c hc := by
    obtain ⟨c1, hc1, heq⟩ := hs.codes code c hc
    obtain ⟨w, c0, heq0, hw⟩ := h.codes code c1 hc1
    refine ⟨w, c0, ?_, hw⟩
    rw [heq, heq0]
  tokens token t ht := h.tokens token t (hs.tokens token t ht)

/-- The effects that add a record to a map. -/
def adding : List Effect :=
  [.cachesSession, .putsSession, .putsCode, .takesFetched, .cachesToken, .putsToken]

/-- The other operations add none. -/
theorem shrinks_exec (backend : Bool) {o : Op} (ho : o.effect ∉ adding) (e : Env) (s : State) :
    Shrinks s (exec backend o e s).2 := by
  constructor
  · intro id x
    exact (exec_sessions_shrink backend (fun h => ho (by simp [h, adding]))
      (fun h => ho (by simp [h, adding])) e s).1
  · intro code c hc
    by_cases hk : o.changes = some .codes
    · cases o <;> simp only [Op.changes, reduceCtorEq, Option.some.injEq] at hk
      case codesPut => simp [Op.effect, adding] at ho
      case codesConsumeFetched => simp [Op.effect, adding] at ho
      -- Marking or taking a code changes nothing but `used`.
      case codesMarkUsed code' =>
        simp only [exec, State.updateDb_mem, State.updateMem_mem, lookup_setUsed,
          Option.map_eq_some_iff] at hc
        obtain ⟨c0, hc0, rfl⟩ := hc
        refine ⟨c0, hc0, ?_⟩
        split_ifs <;> rfl
      case codesConsume code' =>
        rcases exec_codesConsume backend code' e s with ⟨r, hex, -⟩ | ⟨c0, hlook, -, -, hex⟩
        · rw [hex] at hc
          exact ⟨c, hc, rfl⟩
        · rw [hex, State.updateMem_mem, Table.lookup_insert] at hc
          split_ifs at hc with heq
          · rw [← Option.some.inj hc, heq]
            exact ⟨c0, hlook, rfl⟩
          · exact ⟨c, hc, rfl⟩
      case markCodeUsed code' =>
        simp only [exec, State.updateDb_mem] at hc
        exact ⟨c, hc, rfl⟩
      case codesCleanup => exact ⟨c, Table.of_lookup_filter hc, rfl⟩
    · rw [(exec_codes backend e s hk).1] at hc
      exact ⟨c, hc, rfl⟩
  · intro token t ht
    by_cases hk : o.changes = some .tokens
    · cases o <;> simp only [Op.changes, reduceCtorEq, Option.some.injEq] at hk
      case tokensCache => simp [Op.effect, adding] at ho
      case tokensPut => simp [Op.effect, adding] at ho
      case tokensDelete token' =>
        simp only [exec, State.updateDb_mem, State.updateMem_mem] at ht
        exact Table.of_lookup_erase ht
      case tokensCleanup => exact Table.of_lookup_filter ht
    · rw [(exec_tokens backend e s hk).1] at ht
      exact ht

/-- A map of sessions with one more that was stored. -/
theorem Stored.insertSession (h : Stored s L) (hx : ∃ w, Has (SavesSession w x) L)
    (hsessions : s'.mem.sessions = s.mem.sessions.insert x.sessionID x)
    (hcodes : s'.mem.codes = s.mem.codes) (htokens : s'.mem.tokens = s.mem.tokens) :
    Stored s' L := by
  refine ⟨fun id y hy => ?_, hcodes ▸ h.codes, htokens ▸ h.tokens⟩
  rw [hsessions, Table.lookup_insert] at hy
  split_ifs at hy with hid
  · cases hy
    exact ⟨hid.symm, hx⟩
  · exact h.sessions id y hy

/-- A map of codes with one record changed to one that was stored, up to its mark. -/
theorem Stored.insertCode (h : Stored s L) (code : Str)
    (hc : ∃ w c0, c = { c0 with used := c.used } ∧ Has (SavesCode w c0) L)
    (hcodes : ∀ k, s'.mem.codes.lookup k = if k = code then some c else s.mem.codes.lookup k)
    (hsessions : s'.mem.sessions = s.mem.sessions) (htokens : s'.mem.tokens = s.mem.tokens) :
    Stored s' L := by
  refine ⟨hsessions ▸ h.sessions, fun k y hy => ?_, htokens ▸ h.tokens⟩
  rw [hcodes] at hy
  split_ifs at hy
  · cases hy
    exact hc
  · exact h.codes k y hy

/-- A map of tokens with one more that was stored. -/
theorem Stored.insertToken (h : Stored s L) (ht : ∃ w, Has (SavesToken w t) L)
    (htokens : s'.mem.tokens = s.mem.tokens.insert t.token t)
    (hsessions : s'.mem.sessions = s.mem.sessions) (hcodes : s'.mem.codes = s.mem.codes) :
    Stored s' L := by
  refine ⟨hsessions ▸ h.sessions, hcodes ▸ h.codes, fun token y hy => ?_⟩
  rw [htokens, Table.lookup_insert] at hy
  split_ifs at hy with hid
  · cases hy
    exact ⟨hid.symm, ht⟩
  · exact h.tokens token y hy

/-- An operation that adds no record keeps the invariant by itself. -/
theorem keeps (w : Caller Call) {o : Op} (ho : o.effect ∉ adding) :
    Keeps (portal cfg) asSaved (Inv cfg) w o := by
  intro s L e hI _
  refine ⟨⟨?_, hI.each⟩, (hI.stored.shrink (shrinks_exec _ ho e s)).mono
    (List.subset_cons_self _ _)⟩
  unfold Justified
  cases o <;> first | trivial | simp [Op.effect, adding] at ho

/-- The outline of a program that adds no record. -/
theorem outline_quiet {α : Type} {m : M α} {l : List Effect} (hm : Performs l m)
    (hl : ∀ a ∈ l, a ∉ adding) (L : List PortalEntry) :
    Outline (portal cfg) asSaved (Inv cfg) w (fun _ _ => True) m L :=
  Outline.of_all (Prog.All.imp (fun _ ho => keeps w (hl _ ho)) hm) L

section

variable (h : Inv cfg s L)
include h

/-- Caching a session that was stored keeps the invariant. -/
theorem Inv.cacheSession (hx : ∃ w, Has (SavesSession w x) L) (w : Caller Call) (e : Env) :
    Inv cfg ((portal cfg).exec (.sessionsCache x) e s).2
      ((portal cfg).entry w (.sessionsCache x) e s :: L) := by
  obtain ⟨w', hw'⟩ := hx
  refine ⟨⟨trivial, h.each⟩, ?_⟩
  exact (h.stored.mono (List.subset_cons_self _ _)).insertSession ⟨w', has_cons.2 (.inr hw')⟩
    rfl rfl rfl

/-- Caching a refresh token that was stored keeps the invariant. -/
theorem Inv.cacheToken (ht : ∃ w, Has (SavesToken w t) L) (w : Caller Call) (e : Env) :
    Inv cfg ((portal cfg).exec (.tokensCache t) e s).2
      ((portal cfg).entry w (.tokensCache t) e s :: L) := by
  obtain ⟨w', hw'⟩ := ht
  refine ⟨⟨trivial, h.each⟩, ?_⟩
  exact (h.stored.mono (List.subset_cons_self _ _)).insertToken ⟨w', has_cons.2 (.inr hw')⟩
    rfl rfl rfl

/-- Storing a session of an `/authorize` request keeps the invariant. -/
theorem Inv.saveSession (w : Caller Call) (e : Env)
    (hj : ∃ p sessionID now, Params w.call p ∧ x = pendingSession p sessionID now) :
    Inv cfg ((portal cfg).exec (.sessionsPut x) e s).2
      ((portal cfg).entry w (.sessionsPut x) e s :: L) := by
  refine ⟨⟨hj, h.each⟩, ?_⟩
  refine (h.stored.mono (List.subset_cons_self _ _)).insertSession
    ⟨w, has_cons.2 (.inl rfl)⟩ ?_ ?_ ?_
  · simp [server, exec]
  · simp [server, exec]
  · simp [server, exec]

/-- Storing a code issued for a session keeps the invariant. -/
theorem Inv.saveCode (w : Caller Call) (e : Env)
    (hj : ∃ u x code now, Has (Completes w x.sessionID u) L ∧ c = issueCode x u code now ∧
      ∃ w', Has (SavesSession w' x) L) :
    Inv cfg ((portal cfg).exec (.codesPut c) e s).2
      ((portal cfg).entry w (.codesPut c) e s :: L) := by
  refine ⟨⟨hj, h.each⟩, ?_⟩
  refine (h.stored.mono (List.subset_cons_self _ _)).insertCode (c := c) c.code
    ⟨w, c, rfl, has_cons.2 (.inl rfl)⟩ (fun k => ?_) ?_ ?_
  · simp only [server, exec, State.updateDb_mem, State.updateMem_mem]
    exact Table.lookup_insert _ _ _ _
  · simp [server, exec]
  · simp [server, exec]

/-- The second section of `ConsumeCode` on a fetched code that was stored keeps the invariant, and
the code that it takes was stored. -/
theorem Inv.takeFetched (code : Str) {f f0 : AuthCode} {w' : Caller Call}
    (hf : f = { f0 with used := f.used }) (hsaved : Has (SavesCode w' f0) L) (w : Caller Call)
    (e : Env) :
    Inv cfg ((portal cfg).exec (.codesConsumeFetched code f) e s).2
        ((portal cfg).entry w (.codesConsumeFetched code f) e s :: L) ∧
      ∀ c, ((portal cfg).exec (.codesConsumeFetched code f) e s).1 = some c →
        ∃ w1 c0, Has (SavesCode w1 c0) L ∧ c = { c0 with used := true } := by
  obtain ⟨y, y', r, t, hy, hex, ht, hcase⟩ := exec_codesConsumeFetched cfg.backend code f e s
  -- The record that decides was stored, whether it was cached or fetched.
  have hstored : ∃ w1 c0, y = { c0 with used := y.used } ∧ Has (SavesCode w1 c0) L := by
    rcases hy with hlook | ⟨-, rfl⟩
    · exact h.stored.codes code y hlook
    · exact ⟨w', f0, hf, hsaved⟩
  obtain ⟨w1, c0, hy0, hw1⟩ := hstored
  have hexec : (portal cfg).exec (.codesConsumeFetched code f) e s = _ := hex
  constructor
  · refine ⟨⟨trivial, h.each⟩, ?_⟩
    rw [hexec]
    have hy' : y' = { c0 with used := y'.used } := by
      rcases hcase with ⟨-, rfl⟩ | ⟨-, rfl, -⟩
      · exact hy0
      · rw [hy0]
    refine (h.stored.mono (List.subset_cons_self _ _)).insertCode code
      ⟨w1, c0, hy', has_cons.2 (.inr hw1)⟩ ht rfl rfl
  · intro c hc
    rw [hexec] at hc
    rcases hcase with ⟨rfl, -⟩ | ⟨rfl, rfl, -⟩
    · cases hc
    · refine ⟨w1, c0, hw1, ?_⟩
      rw [← Option.some.inj hc, hy0]

/-- Storing a refresh token of a lineage keeps the invariant. -/
theorem Inv.saveToken (w : Caller Call) (e : Env)
    (hj : ∃ u p, Lineage u p ((portal cfg).entry w (.tokensPut t) e s :: L) t ∧ t.userID = u ∧
      t.clientID = p.clientID ∧ t.scope = scopeOf p) :
    Inv cfg ((portal cfg).exec (.tokensPut t) e s).2
      ((portal cfg).entry w (.tokensPut t) e s :: L) := by
  refine ⟨⟨hj, h.each⟩, ?_⟩
  refine (h.stored.mono (List.subset_cons_self _ _)).insertToken ⟨w, has_cons.2 (.inl rfl)⟩ ?_ ?_ ?_
  · simp [server, exec]
  · simp [server, exec]
  · simp [server, exec]

end

/-- The lookups return sessions that were stored. -/
theorem sessionReads (w : Caller Call) : SessionReads cfg asSaved (Inv cfg) w
    (fun id x L => x.sessionID = id ∧ ∃ w', Has (SavesSession w' x) L) where
  stays hL := fun ⟨hid, w', hw'⟩ => ⟨hid, w', hw'.extends hL⟩
  reads ho := keeps w (by simp [ho, adding])
  cached hI hx := by
    obtain ⟨hid, w', hw'⟩ := hI.stored.sessions _ _ hx
    exact ⟨hid, w', has_cons.2 (.inr hw')⟩
  fetched _ hA hx := by
    obtain ⟨hid, w', hw'⟩ := hA _ hx
    exact ⟨hid, w', has_cons.2 (.inr hw')⟩
  fetchedByClient _ hA hx := by
    obtain ⟨hclient, w', hw'⟩ := hA _ hx
    exact ⟨hclient, _, rfl, w', has_cons.2 (.inr hw')⟩
  cache hx hI := hI.cacheSession hx.2 w _

/-- The outline of `CompleteAuthorization`: the code that it stores is issued for its session and
its user. -/
theorem outline_completeAuthorization (sessionID u : Str) (L : List PortalEntry) :
    Outline (portal cfg) asSaved (Inv cfg) w (fun _ _ => True)
      (completeAuthorization cfg.backend sessionID u) L := by
  unfold completeAuthorization
  refine (keeps w (by simp [Op.effect, adding])).bind fun s L1 e hL _ _ => ?_
  have hcompletes : Has (Completes w sessionID u)
      ((portal cfg).entry w (.completing sessionID u) e s :: L1) := has_cons.2 (.inl rfl)
  refine ((sessionReads w).get sessionID _).bind fun r L2 hL2 hr => ?_
  have hcompletes2 := hcompletes.extends hL2
  rcases r with _ | x
  · trivial
  · obtain ⟨rfl, w', hw'⟩ := hr x rfl
    refine (keeps w (by simp [Op.effect, adding])).bind fun s3 L3 e3 hL3 _ _ => ?_
    rcases ((portal cfg).exec (.generateRandomHex 16) e3 s3).1 with err | code
    · trivial
    · refine (keeps w (by simp [Op.effect, adding])).bind fun s4 L4 e4 hL4 _ _ => ?_
      generalize ((portal cfg).exec .now e4 s4).1 = now
      refine outline_step.2 fun s5 L5 e5 hL5 hI5 _ => ?_
      -- What the call knew after the lookup is still in the log when it stores the code.
      have hext : Extends L2 L5 := by
        have h3 := (portal cfg).entry_extends hL3 (.generateRandomHex 16) e3 s3
        have h4 := (portal cfg).entry_extends hL4 .now e4 s4
        exact (h3.trans h4).trans hL5.extends
      refine ⟨hI5.saveCode w e5 ?_, ?_⟩
      · exact ⟨u, x, code, now, hcompletes2.extends hext, rfl, w', hw'.extends hext⟩
      · refine outline_quiet (l := [.deletesSession]) ?_ (by simp [adding]) _
        refine performs_op rfl fun _ => ?_
        cases URL.parse x.redirectURI <;> exact performs_pure _

/-- The outline of `createAuthSession`: the session that it stores has the parameters. -/
theorem outline_createAuthSession (hp : Params w.call p) (L : List PortalEntry) :
    Outline (portal cfg) asSaved (Inv cfg) w (fun _ _ => True)
      (createAuthSession cfg.backend p) L := by
  refine outline_create (G := fun _ _ => True) (fun _ h => h)
    (fun ho => keeps w (by simp [ho, adding]))
    (outline_quiet (performs_findOrRegister _ p) (by simp [adding]) L) (fun _ _ => trivial) ?_
  intro client sessionID now s L' e _ _ hI _
  exact ⟨hI.saveSession w e ⟨p, sessionID, _, hp, rfl⟩, trivial⟩

/-- The outline of the end of `ConsumeCode` by a request that took a code of an authorization. -/
theorem outline_confirm {b : Bool} {code : Str} {c0 : AuthCode} (hcode : CodeOf c0 L)
    (heq : c = { c0 with used := true }) (htakes : Has (Takes w c0) L) :
    Outline (portal cfg) asSaved (Inv cfg) w
      (fun r L' => ∀ c, r = some c → ∃ c0, CodeOf c0 L' ∧ c = { c0 with used := true } ∧
        Has (Takes w c0) L')
      (CodeStore.confirm b code (some c)) L := by
  have hperforms : Performs [.marksCode] (CodeStore.confirm b code (some c)) := by
    unfold CodeStore.confirm
    dsimp only
    split_ifs
    · exact performs_op rfl fun _ => performs_pure _
    · exact performs_pure _
  have hresults : (CodeStore.confirm b code (some c)).Results fun r => r = some c := by
    unfold CodeStore.confirm
    dsimp only
    split_ifs
    · exact fun _ => rfl
    · rfl
  refine ((outline_quiet hperforms (by simp [adding]) L).and_results hresults).imp
    fun r L' hL hr => ?_
  intro c' hc'
  obtain rfl : c = c' := Option.some.inj (hr.2.symm.trans hc')
  exact ⟨c0, hcode.mono fun _ he => hL.mem he, heq, htakes.extends hL⟩

/-- The outline of `ConsumeCode`: the code that it returns was taken, and is of an authorization. -/
theorem outline_consumeCode (code : Str) (L : List PortalEntry) :
    Outline (portal cfg) asSaved (Inv cfg) w
      (fun r L' => ∀ c, r = some c → ∃ c0, CodeOf c0 L' ∧ c = { c0 with used := true } ∧
        Has (Takes w c0) L')
      (CodeStore.consumeCode cfg.backend code) L := by
  unfold CodeStore.consumeCode
  refine (keeps w (by simp [Op.effect, adding])).bind fun s L1 e hL hI _ => ?_
  rcases hr : ((portal cfg).exec (.codesConsume code) e s).1 with _ | _ | c
  · cases hb : cfg.backend with
    | false => exact fun c hc => by cases hc
    | true =>
      -- No record is cached, so the backend is asked.
      refine (keeps w (by simp [Op.effect, adding])).bind fun s2 L2 e2 hL2 _ hA2 => ?_
      rcases hr2 : ((portal cfg).exec (.getCode code) e2 s2).1 with _ | _ | f
      · exact fun c hc => by cases hc
      · exact fun c hc => by cases hc
      · obtain ⟨-, w1, f0, hf, hw1⟩ := hA2 f hr2
        refine outline_step.2 fun s3 L3 e3 hL3 hI3 _ => ?_
        have hfetched : Has (SavesCode w1 f0) L3 := (has_cons.2 (.inr hw1)).extends hL3.extends
        obtain ⟨hI', htaken⟩ := hI3.takeFetched code hf hfetched w e3
        refine ⟨hI', ?_⟩
        rcases hr3 : ((portal cfg).exec (.codesConsumeFetched code f) e3 s3).1 with _ | c
        · exact fun c hc => by cases hc
        · obtain ⟨w', c0, hsaved, hc⟩ := htaken c hr3
          have hcode := (hI3.issued hsaved).mono (List.subset_cons_self
            ((portal cfg).entry w (.codesConsumeFetched code f) e3 s3) L3)
          refine outline_confirm hcode hc (has_cons.2 (.inl ⟨code, .inr ⟨f, ?_⟩⟩))
          rw [System.entry, hr3, hc]
  · exact fun c hc => by cases hc
  · rcases exec_codesConsume cfg.backend code e s with ⟨r, hex, hnone⟩ | ⟨y, hlook, -, -, hex⟩
    · rw [show (portal cfg).exec (.codesConsume code) e s = (r, s) from hex] at hr
      exact absurd hr (hnone c)
    · obtain ⟨w', c0, hy, hw'⟩ := hI.stored.codes code y hlook
      have hc : c = { c0 with used := true } := by
        rw [show ((portal cfg).exec (.codesConsume code) e s).1 = _
          from congrArg Prod.fst hex] at hr
        rw [← Option.some.inj (Option.some.inj hr), hy]
      have hcode := (hI.issued hw').mono (List.subset_cons_self
        ((portal cfg).entry w (.codesConsume code) e s) L1)
      refine outline_confirm hcode hc (has_cons.2 (.inl ⟨code, .inl ?_⟩))
      rw [System.entry, hr, hc]

/-- The outline of `TokenStore.Get`: the token is of an authorization, and has the name that was
asked for. -/
theorem outline_getToken (token : Str) (L : List PortalEntry) :
    Outline (portal cfg) asSaved (Inv cfg) w
      (fun r L' => ∀ t, r = some t → t.token = token ∧ TokenOf t L')
      (TokenStore.get cfg.backend token) L := by
  -- `Get` ends with a look at the clock in both cases.
  have hlive : ∀ {t L}, t.token = token → TokenOf t L →
      Outline (portal cfg) asSaved (Inv cfg) w
        (fun r L' => ∀ t, r = some t → t.token = token ∧ TokenOf t L') (TokenStore.live t) L := by
    intro t L hid ht
    unfold TokenStore.live
    refine (keeps w (by simp [Op.effect, adding])).bind fun s L1 e hL _ _ => ?_
    intro t' ht'
    have heq : t = t' := by
      split_ifs at ht'
      exact Option.some.inj ht'
    have hext := (portal cfg).entry_extends hL .now e s
    exact heq ▸ ⟨hid, ht.mono fun _ he => hext.mem he⟩
  unfold TokenStore.get
  refine (keeps w (by simp [Op.effect, adding])).bind fun s L1 e hL hI _ => ?_
  rcases hr : ((portal cfg).exec (.tokensLookup token) e s).1 with _ | t
  · cases hb : cfg.backend with
    | false => exact fun t ht => by cases ht
    | true =>
      refine (keeps w (by simp [Op.effect, adding])).bind fun s2 L2 e2 hL2 _ hA2 => ?_
      rcases hr2 : ((portal cfg).exec (.lookupToken token) e2 s2).1 with _ | _ | t
      · exact fun t ht => by cases ht
      · exact fun t ht => by cases ht
      · -- The backend returns what some request had saved.
        obtain ⟨hid, w', hw'⟩ := hA2 t hr2
        refine outline_step.2 fun s3 L3 e3 hL3 hI3 _ => ?_
        have hsaved : Has (SavesToken w' t) L3 := (has_cons.2 (.inr hw')).extends hL3.extends
        exact ⟨hI3.cacheToken ⟨w', hsaved⟩ w e3,
          hlive hid ((hI3.lineage hsaved).mono (List.subset_cons_self _ _))⟩
  · obtain ⟨hid, w', hw'⟩ := hI.stored.tokens token t hr
    exact hlive hid ((hI.lineage hw').mono (List.subset_cons_self _ _))

/-- The request may store refresh tokens of the authorization: it took a code of it, or it is a
refresh grant that presented a token of it. -/
def Entitled (w : Caller Call) (u : Str) (p : AuthorizeParams) (L : List PortalEntry) : Prop :=
  (∃ c, IssuedFor u p c L ∧ Has (Takes w c) L) ∨
    ∃ r t, w.call = .token r ∧ r.form.get "grant_type" = "refresh_token" ∧
      r.form.get "refresh_token" = t.token ∧ Lineage u p L t

/-- A request stays entitled. -/
theorem Entitled.mono (h : Entitled w u p L) (hL : L ⊆ L') : Entitled w u p L' := by
  rcases h with ⟨c, hc, ht⟩ | ⟨r, t, hcall, htype, hr, ht⟩
  · exact .inl ⟨c, hc.mono hL, ht.mono hL⟩
  · exact .inr ⟨r, t, hcall, htype, hr, ht.mono hL⟩

/-- The refresh token that such a request stores is of the authorization. -/
theorem Entitled.lineage (h : Entitled w u p L) (ht : Has (SavesToken w t) L) :
    Lineage u p L t := by
  rcases h with ⟨c, hc, htakes⟩ | ⟨r, t0, hcall, htype, hr, ht0⟩
  · exact .first hc htakes ht
  · exact .next ht0 hcall htype hr ht

/-- A refresh grant keeps its lineage. -/
theorem RefreshGrant.mono (h : RefreshGrant u r p L) (hL : L ⊆ L') :
    RefreshGrant u r p L' := by
  obtain ⟨t, ht, hu, hl⟩ := h.presented
  exact ⟨h.grantType, h.clientID, t, ht, hu, hl.mono hL⟩

/-- A grant stays justified. -/
theorem Granted.mono {x y z : Str} (h : Granted cfg w x y z L) (hL : L ⊆ L') :
    Granted cfg w x y z L' := by
  obtain ⟨r, u, p, claims, hcall, hauth, hx, hsub, hclient, hscope, hz, ⟨t, ht, hl⟩, hgrant⟩ := h
  exact ⟨r, u, p, claims, hcall, hauth.mono hL, hx, hsub, hclient, hscope, hz, ⟨t, ht, hl.mono hL⟩,
    hgrant.imp_right (·.mono hL)⟩

/-- The access token that `mintAccessToken` returns carries the user, the scope and the client. -/
theorem mintAccessToken_results (codec : Codec) (secret userID scope clientID issuer : Str) :
    (mintAccessToken codec secret userID scope clientID issuer).Results fun a => ∀ x, a = some x →
      ∃ claims, x = signToken codec secret claims ∧ claims.sub = userID ∧
        claims.clientID = clientID ∧ claims.scope = scope := by
  unfold mintAccessToken
  intro now ok
  cases ok with
  | false =>
    intro x hx
    cases hx
  | true =>
    intro x hx
    cases hx
    exact ⟨_, rfl, rfl, rfl, rfl⟩

/-- The outline of the end of both grants. -/
theorem outline_issueTokens {clientID scope : Str} (hcall : w.call = .token r)
    (hentitled : Entitled w u p L) (hclient : clientID = p.clientID) (hscope : scope = scopeOf p)
    (hgrant : CodeGrant cfg.codec r p ∨ RefreshGrant u r p L) :
    Outline (portal cfg) asSaved (Inv cfg) w
      (fun a L' => ∀ x y z, a = .tokens x y z → Granted cfg w x y z L')
      (issueTokens cfg r u clientID scope) L := by
  unfold issueTokens
  refine ((outline_quiet (performs_mintAccessToken _ _ _ _ _ _) (by simp [adding]) L).and_results
    (mintAccessToken_results _ _ _ _ _ _)).bind fun a L1 hL1 ha => ?_
  rcases a with _ | accessToken
  · exact fun x y z h => by cases h
  · obtain ⟨claims, hx, hsub, hcid, hsc⟩ := ha.2 accessToken rfl
    refine (keeps w (by simp [Op.effect, adding])).bind fun s2 L2 e2 hL2 _ _ => ?_
    rcases ((portal cfg).exec .generateUUID e2 s2).1 with err | token
    · exact fun x y z h => by cases h
    · refine (keeps w (by simp [Op.effect, adding])).bind fun s3 L3 e3 hL3 _ _ => ?_
      generalize ((portal cfg).exec .now e3 s3).1 = now
      refine outline_step.2 fun s4 L4 e4 hL4 hI4 _ => ?_
      generalize hT : (⟨token, u, clientID, scope, now + seconds 604800⟩ : RefreshToken) = t
      -- What the request knew before it minted is still in the log.
      have hext : Extends L ((portal cfg).entry w (.tokensPut t) e4 s4 :: L4) := by
        have h2 := (portal cfg).entry_extends hL2 .generateUUID e2 s2
        have h3 := (portal cfg).entry_extends hL3 .now e3 s3
        have h4 := (portal cfg).entry_extends hL4 (.tokensPut t) e4 s4
        exact ((hL1.trans h2).trans h3).trans h4
      have hsub' : L ⊆ (portal cfg).entry w (.tokensPut t) e4 s4 :: L4 := fun _ he => hext.mem he
      have hlineage : Lineage u p ((portal cfg).entry w (.tokensPut t) e4 s4 :: L4) t :=
        (hentitled.mono hsub').lineage (has_cons.2 (.inl rfl))
      refine ⟨hI4.saveToken w e4 ⟨u, p, hlineage, ?_, ?_, ?_⟩, ?_⟩
      · rw [← hT]
      · rw [← hT, ← hclient]
      · rw [← hT, ← hscope]
      · intro x y z hxyz
        obtain ⟨rfl, rfl, rfl⟩ : accessToken = x ∧ token = y ∧ scope = z := by simpa using hxyz
        refine ⟨r, u, p, claims, hcall, hlineage.authorized, hx, hsub, hcid.trans hclient,
          hsc.trans hscope, hscope, ⟨t, by rw [← hT], hlineage⟩, hgrant.imp_right (·.mono hsub')⟩

/-- The outline of the code grant. -/
theorem outline_handleAuthCodeGrant (hcall : w.call = .token r)
    (htype : r.form.get "grant_type" = "authorization_code") (L : List PortalEntry) :
    Outline (portal cfg) asSaved (Inv cfg) w
      (fun a L' => ∀ x y z, a = .tokens x y z → Granted cfg w x y z L')
      (handleAuthCodeGrant cfg r) L := by
  unfold handleAuthCodeGrant
  dsimp only
  split_ifs
  · exact nofun
  · refine (outline_consumeCode _ L).bind fun a L1 _ ha => ?_
    rcases a with _ | c
    · exact nofun
    · dsimp only
      split_ifs with hclient hredirect hpkce
      · exact nofun
      · exact nofun
      · exact nofun
      · obtain ⟨c0, ⟨u, p, hissued, huser, hcid, huri, hchallenge, hscope⟩, rfl, htakes⟩ := ha c rfl
        -- The checks of the handler compare the fields of the code with those of the request.
        have hgrant : CodeGrant cfg.codec r p := by
          refine ⟨htype, ?_, ?_, ?_⟩
          · rw [← hcid]
            exact (not_not.1 hclient).symm
          · rw [← huri]
            exact (not_not.1 hredirect).symm
          · rw [← hchallenge]
            simpa [verifyPKCE] using hpkce
        subst huser
        exact outline_issueTokens hcall (.inl ⟨c0, hissued, htakes⟩) hcid hscope (.inl hgrant)

/-- The outline of the refresh grant. -/
theorem outline_handleRefreshTokenGrant (hcall : w.call = .token r)
    (htype : r.form.get "grant_type" = "refresh_token") (L : List PortalEntry) :
    Outline (portal cfg) asSaved (Inv cfg) w
      (fun a L' => ∀ x y z, a = .tokens x y z → Granted cfg w x y z L')
      (handleRefreshTokenGrant cfg r) L := by
  unfold handleRefreshTokenGrant
  dsimp only
  split_ifs
  · exact nofun
  · refine (outline_getToken _ L).bind fun a L1 _ ha => ?_
    rcases a with _ | t
    · exact nofun
    · dsimp only
      split_ifs with hclient
      · exact nofun
      · obtain ⟨hid, u, p, hlineage, huser, hcid, hscope⟩ := ha t rfl
        -- The presented token is deleted before the new pair is issued.
        refine (keeps w (by simp [Op.effect, adding])).bind fun s2 L2 e2 hL2 _ _ => ?_
        have hext := (portal cfg).entry_extends hL2
          (.tokensDelete (r.form.get "refresh_token")) e2 s2
        have hlineage2 := hlineage.mono fun _ he => hext.mem he
        subst huser
        refine outline_issueTokens hcall
          (.inr ⟨r, t, hcall, htype, hid.symm, hlineage2⟩) hcid hscope
          (.inr ⟨htype, ?_, t, hid, rfl, hlineage2⟩)
        rw [← hcid]
        exact (not_not.1 hclient).symm

/-- The outline of the token endpoint. -/
theorem outline_handleToken (hcall : w.call = .token r) (L : List PortalEntry) :
    Outline (portal cfg) asSaved (Inv cfg) w
      (fun a L' => ∀ x y z, a = .tokens x y z → Granted cfg w x y z L') (handleToken cfg r) L := by
  unfold handleToken
  split_ifs with hmethod hform hcode hrefresh
  · exact nofun
  · exact nofun
  · exact outline_handleAuthCodeGrant hcall hcode L
  · exact outline_handleRefreshTokenGrant hcall hrefresh L
  · exact nofun

/-- The outlines of the parts of the handlers. -/
theorem parts (w : Caller Call) :
    Parts cfg asSaved (Inv cfg) w (fun _ => True) (fun _ _ => True)
      (fun a L => ∀ x y z, a = .tokens x y z → Granted cfg w x y z L) where
  stays _ _ := trivial
  getByClientID clientID L _ := ((sessionReads w).getByClientID clientID L).imp fun _ _ _ _ =>
    trivial
  get sessionID L _ := ((sessionReads w).get sessionID L).imp fun _ _ _ _ => trivial
  create p L hp _ := outline_createAuthSession hp L
  extract r L _ _ :=
    (outline_quiet (performs_extractSessionUserID _ _ r) (by simp [adding]) L).imp
      fun _ _ _ _ _ => trivial
  complete sessionID u L _ := outline_completeAuthorization sessionID u L
  login username password L _ :=
    (keeps w (by simp [Op.effect, adding])).outline fun _ _ _ _ _ _ _ _ => trivial
  callback _ _ _ _ _ _ _ _ := trivial
  token r L hcall _ := (outline_handleToken hcall L).imp fun _ _ _ ha _ => ha
  register r body L _ _ := outline_quiet (performs_handleRegister r body) (by simp [adding]) L

/-- An entry that stores nothing and returns no tokens keeps the invariant, when the maps shrink. -/
theorem Inv.quiet (h : Inv cfg s L) (e : PortalEntry) (hj : Justified cfg e L)
    (hs : Shrinks s s') : Inv cfg s' (e :: L) :=
  ⟨⟨hj, h.each⟩, (h.stored.shrink hs).mono (List.subset_cons_self _ _)⟩

/-- The portal is verified from a process with empty maps. -/
theorem verified {s0 : State} (hmem : s0.mem = {}) :
    Verified (portal cfg) asSaved (Inv cfg) s0 where
  init := by
    refine ⟨trivial, ⟨fun id x hx => ?_, fun code c hc => ?_, fun token t ht => ?_⟩⟩
    · simp [hmem] at hx
    · simp [hmem] at hc
    · simp [hmem] at ht
  call s L w h _ _ := by
    refine ⟨h.quiet _ trivial ⟨fun _ _ hx => hx, fun _ c hc => ⟨c, hc, rfl⟩, fun _ _ ht => ht⟩, ?_⟩
    refine ((parts w).handle trivial).imp fun a L1 _ ha => ?_
    intro s' L' hL hI _
    refine hI.quiet _ ?_ ⟨fun _ _ hx => hx, fun _ c hc => ⟨c, hc, rfl⟩, fun _ _ ht => ht⟩
    cases a with
    | tokens x y z => exact (ha rfl x y z rfl).mono fun _ he => hL.mem he
    | _ => trivial
  env s L d h _ :=
    h.quiet _ trivial ⟨fun _ _ hx => hx, fun _ c hc => ⟨c, hc, rfl⟩, fun _ _ ht => ht⟩
  crash s L h _ := by
    refine h.quiet _ trivial ⟨fun _ _ hx => ?_, fun _ _ hc => ?_, fun _ _ ht => ?_⟩
    · simp [server, restart] at hx
    · simp [server, restart] at hc
    · simp [server, restart] at ht

/-- Grant provenance: whenever the token endpoint returns a pair of tokens, they go back to an
earlier authorization. -/
theorem grant_provenance {s0 : State} (hmem : s0.mem = {})
    {c : Config Op Reply State ℕ Call Response} (hc : Reachable (portal cfg) asSaved s0 c)
    {later earlier : List PortalEntry} {e : PortalEntry} (hlog : c.log = later ++ e :: earlier)
    {accessToken refreshToken scope : Str}
    (hreturns : e.event = .done w (.tokens accessToken refreshToken scope)) :
    Granted cfg w accessToken refreshToken scope earlier := by
  have heach := (hc.invariant (verified hmem)).each
  rw [hlog] at heach
  have hj : Justified cfg e earlier := heach.append.1
  unfold Justified at hj
  rw [hreturns] at hj
  exact hj

/-- The functions of the standard library at the one verifier, login and access token of the run
below. -/
def sampleCodec : Codec where
  sha256 _ := [76, 148, 72, 94, 12, 33, 174, 108, 65, 206, 29, 254, 123, 107, 250, 206, 234, 90,
    182, 142, 64, 162, 71, 111, 80, 32, 142, 82, 111, 80, 96, 128]
  hmacSHA256 _ _ := [111, 216, 174, 106, 79, 149, 225, 247, 240, 163, 209, 65, 235, 66, 155, 13,
    114, 16, 47, 201, 103, 238, 89, 97, 110, 203, 255, 236, 252, 224, 118, 155]
  unmarshal _ := some (.object [("sub", .string "alice")])
  marshalClaims _ :=
    ascii ("\x7b\"client_id\":\"m\",\"exp\":3600,\"iat\":0,\"iss\":\"http://p\"," ++
    "\"scope\":\"openid portfolio:read tools:invoke\",\"sub\":\"alice\"\x7d")

/-- A portal with the secret `k` and no backend. -/
def sampleSettings : Settings := ⟨false, "k", sampleCodec⟩

/-- An authorization request of the client `m`, with the challenge of the verifier `v`. -/
def authorization : Call :=
  .authorize
    { query := sampleQuery "https://m/cb" "TJRIXgwhrmxBzh3-e2v6zupato5AokdvUCCOUm9QYIA" "x" }

/-- Alice's login in the browser that holds the pending session. -/
def login : Call :=
  .login { form := [("username", ["alice"]), ("password", ["pw"])],
            cookies := [⟨"mcp_session_id", "s"⟩] }

/-- The exchange of the code. -/
def exchange : Call :=
  .token { method := "POST", host := "p",
            form := [("grant_type", ["authorization_code"]), ("code", ["c"]),
              ("client_id", ["m"]), ("redirect_uri", ["https://m/cb"]),
              ("code_verifier", ["v"])] }

/-- An authorization, the login that completes it, and the exchange of its code. -/
def flow : List (Label Env ℕ Call) :=
  [.call authorization, .step 0 {}, .step 0 {}, .step 0 {}, .step 0 { random := .ok "s" },
    .step 0 {}, .step 0 {}, .step 0 {}, .call login,
    .step 1 { login := .reply 200 (some "x.eyJzdWIiOiJhbGljZSJ9.x") }, .step 1 {}, .step 1 {},
    .step 1 {}, .step 1 { random := .ok "c" }, .step 1 {}, .step 1 {}, .step 1 {}, .step 1 {},
    .call exchange, .step 2 {}, .step 2 {}, .step 2 {}, .step 2 { random := .ok "t" },
    .step 2 {}, .step 2 {}, .step 2 {}]

/-- The label is a request, or a step to which the backend returns no record. -/
def fetchesNothing : Label Env ℕ Call → Bool
  | .call _ => true
  | .step _ e => e.session = .failed && e.code = .failed && e.token = .failed
  | _ => false

/-- A backend that returns nothing returns what was saved. -/
theorem asSaved_allows {l : Label Env ℕ Call} (hl : fetchesNothing l = true)
    (c : Config Op Reply State ℕ Call Response) : asSaved.Allows c l := by
  cases l with
  | call q => trivial
  | step tid e =>
    simp only [fetchesNothing, Bool.and_eq_true, decide_eq_true_eq] at hl
    obtain ⟨⟨hsession, hcode⟩, htoken⟩ := hl
    rcases ht : c.threads tid with _ | ⟨q, a | ⟨o, k⟩⟩
    · simp [Assumption.Allows, ht]
    · simp [Assumption.Allows, ht, asSaved]
    · simp only [Assumption.Allows, ht]
      cases o <;> simp [asSaved, hsession, hcode, htoken]
  | env => cases hl
  | crash => cases hl

/-- The exchange of the flow is granted. -/
theorem grant_provenance_flow : ∃ accessToken,
    Granted sampleSettings ⟨2, exchange⟩ accessToken "t" defaultScope
      ((portal sampleSettings).run (.init {}) flow).log.tail := by
  have hquiet : flow.all fetchesNothing = true := by decide
  have hrun : Reachable (portal sampleSettings) asSaved {}
      ((portal sampleSettings).run (.init {}) flow) :=
    Reachable.init.run flow (Assumption.allowsRun_of_forall _
      (fun l hl => asSaved_allows (List.all_eq_true.1 hquiet l hl)) _)
  have hlast : ∃ e accessToken, ((portal sampleSettings).run (.init {}) flow).log =
      [] ++ e :: ((portal sampleSettings).run (.init {}) flow).log.tail ∧
      e.event = .done ⟨2, exchange⟩ (.tokens accessToken "t" defaultScope) :=
    ⟨_, _, rfl, rfl⟩
  obtain ⟨e, accessToken, hlog, hreturns⟩ := hlast
  exact ⟨accessToken, grant_provenance rfl hrun hlog hreturns⟩

end VirePortal.Auth.Provenance
