import VirePortal.Concurrent.Alone
import VirePortal.Go.Query
import VirePortal.Auth.Footprint

/-!
# `CompleteAuthorization` changes both stores or none

`CompleteAuthorization` stores the code and deletes the session, and only then parses the redirect
URI of the session. A URI that does not parse is an error that comes after both changes. The
authorize endpoint parses the URI of a request before it makes a session of it, so the portal holds
no session with such a URI, however its requests and the calls of `CompleteAuthorization` interleave
(`verified`).

In such a state a call that returns an error leaves the stores as they are. One that succeeds
replaces the session by a code, and returns the redirect URI with the code and the state in its
query (`completeAuthorization_atomic`). What a client reads in that query is computed from the text
of the URL, through the encoder and the parser of `net/url`.
-/

namespace VirePortal.Auth.CompleteAtomic

open Go Concurrent

/-- The calls of the pool: the requests to the portal, and `CompleteAuthorization` for any session
and user. -/
inductive Call where
  | route (q : Auth.Call)
  | complete (sessionID userID : Str)

/-- The program of a call. -/
def handle (cfg : Settings) : Call → M (Response ⊕ Except CompleteError Str)
  | .route q => do
    let response ← Auth.handle cfg q
    return .inl response
  | .complete sessionID userID => do
    let r ← completeAuthorization cfg.backend sessionID userID
    return .inr r

/-- The pool. -/
abbrev pool (cfg : Settings) :
    System Op Reply State Env ℕ Call (Response ⊕ Except CompleteError Str) :=
  server cfg.backend (handle cfg)

/-- Every session that is held has a redirect URI that parses to a URL with a host. -/
def Parsed (s : State) : Prop :=
  ∀ id x, s.mem.sessions.lookup id = some x → validRedirect x.redirectURI = true

/-- The operation adds no session, except one with such a redirect URI. -/
def Checked (o : Op) : Prop :=
  o.effect ≠ .cachesSession ∧ ∀ x, o = .sessionsPut x → validRedirect x.redirectURI = true

variable {α β : Type} {cfg : Settings} {s s' : State}

/-- A checked operation keeps the redirect URIs parsed. -/
theorem Parsed.exec {o : Op} (h : Parsed s) (ho : Checked o) (backend : Bool) (e : Env) :
    Parsed (exec backend o e s).2 := by
  intro id x hx
  -- Only a `Put` adds a session, and then the new one is the one that was checked.
  by_cases hput : o.effect = .putsSession
  · cases o <;> simp only [Op.effect, reduceCtorEq] at hput
    case sessionsPut y =>
      simp only [Auth.exec, State.updateDb_mem, State.updateMem_mem, Table.lookup_insert] at hx
      split_ifs at hx with hid
      · rw [← Option.some.inj hx]
        exact ho.2 y rfl
      · exact h id x hx
  · exact h id x ((exec_sessions_shrink backend ho.1 hput e s).1 hx)

/-! ### The handlers check what they store -/

/-- An operation that adds no session is checked. -/
theorem checked_of_effect {o : Op} (hcache : o.effect ≠ .cachesSession)
    (hput : o.effect ≠ .putsSession) :
    Checked o := by
  refine ⟨hcache, fun x hx => ?_⟩
  subst hx
  exact absurd rfl hput

/-- A program that adds no session. -/
theorem all_checked {p : M α} {l : List Effect} (hp : Performs l p)
    (hl : ∀ a ∈ l, a ≠ .cachesSession ∧ a ≠ .putsSession) : p.All Checked :=
  Prog.All.imp (fun _ ho => checked_of_effect (hl _ ho).1 (hl _ ho).2) hp

/-- One operation that adds no session, and what follows it. -/
theorem all_checked_op {o : Op} {f : Reply o → M β}
    (ho : (o.effect != .cachesSession && o.effect != .putsSession) = true)
    (hf : ∀ r, (f r).All Checked) :
    (perform o >>= f).All Checked := by
  rw [Bool.and_eq_true, bne_iff_ne, bne_iff_ne] at ho
  exact Prog.all_bind ((Prog.all_call _ o).2 (checked_of_effect ho.1 ho.2)) hf

/-- A session for a valid redirect URI is checked. -/
theorem createAuthSession_checked (backend : Bool) {p : AuthorizeParams}
    (hp : validRedirect p.redirectURI = true) : (createAuthSession backend p).All Checked := by
  unfold createAuthSession
  refine Prog.all_bind (all_checked (performs_findOrRegister backend p) (by simp)) fun client => ?_
  split_ifs
  · refine all_checked_op rfl fun r => ?_
    rcases r with err | sessionID
    · exact Prog.all_pure _ _
    · refine all_checked_op rfl fun now => ?_
      refine Prog.all_bind ((Prog.all_call _ _).2 ⟨by simp [Op.effect], fun x hx => ?_⟩)
        fun _ => Prog.all_pure _ _
      rw [← Op.sessionsPut.inj hx]
      exact hp
  · exact Prog.all_pure _ _

section Absent

variable (hbackend : cfg.backend = false)

include hbackend

/-- Without a backend no session is cached. -/
theorem complete_adds_none :
    ∀ a ∈ Effect.reads :: .putsCode :: .deletesSession :: caches cfg.backend,
    a ≠ .cachesSession ∧ a ≠ .putsSession := by
  simp [hbackend]

/-- No session is added. -/
theorem setSessionCookieAndRedirect_checked (r : Request) (sessionID : Str) :
    (setSessionCookieAndRedirect cfg r sessionID).All Checked :=
  all_checked (performs_setSessionCookieAndRedirect cfg r sessionID) (complete_adds_none hbackend)

/-- The URI is validated before the session is stored. -/
theorem handleAuthorizeGET_checked (r : Request) : (handleAuthorizeGET cfg r).All Checked := by
  unfold handleAuthorizeGET
  dsimp only
  split_ifs with _ _ hvalid
  · exact Prog.all_pure _ _
  · refine Prog.all_bind (all_checked (SessionStore.performs_getByClientID _ _)
      (by simp [hbackend])) fun a => ?_
    rcases a with _ | x
    · exact Prog.all_pure _ _
    · exact setSessionCookieAndRedirect_checked hbackend r _
  · exact Prog.all_pure _ _
  · exact Prog.all_pure _ _
  · exact Prog.all_pure _ _
  · exact Prog.all_pure _ _
  · -- The session is made after the URI of the request was parsed.
    refine Prog.all_bind (createAuthSession_checked _ (by simpa using hvalid)) fun a => ?_
    rcases a with err | sessionID
    · exact Prog.all_pure _ _
    · exact setSessionCookieAndRedirect_checked hbackend r _

omit hbackend in
/-- The URI is validated before the session is stored. -/
theorem handleAuthorizePOST_checked (cfg : Settings) (r : Request) :
    (handleAuthorizePOST cfg r).All Checked := by
  unfold handleAuthorizePOST
  dsimp only
  split_ifs with _ _ hvalid
  · exact Prog.all_pure _ _
  · exact Prog.all_pure _ _
  · exact Prog.all_pure _ _
  · exact Prog.all_pure _ _
  · exact Prog.all_pure _ _
  · exact Prog.all_pure _ _
  · refine Prog.all_bind (createAuthSession_checked _ (by simpa using hvalid)) fun a => ?_
    rcases a with err | sessionID <;> exact Prog.all_pure _ _

/-- Every request to the portal. -/
theorem routes_checked (q : Auth.Call) : (Auth.handle cfg q).All Checked := by
  have hadds := complete_adds_none hbackend
  cases q with
  | authorize r =>
    show (handleAuthorize cfg r).All Checked
    unfold handleAuthorize
    split_ifs
    · exact handleAuthorizeGET_checked hbackend r
    · exact handleAuthorizePOST_checked cfg r
    · exact Prog.all_pure _ _
  | resume r => exact all_checked (performs_handleAuthorizeResume cfg r) hadds
  | token r => exact all_checked (performs_handleToken cfg r) (by simp)
  | register r body => exact all_checked (performs_handleRegister r body) (by simp)
  | login r => exact all_checked (performs_handleLogin cfg r) hadds
  | callback r => exact all_checked (performs_handleOAuthCallback cfg r) hadds

/-- Every handler is checked. -/
theorem handle_checked (q : Call) : (handle cfg q).All Checked := by
  cases q with
  | route q => exact Prog.all_bind (routes_checked hbackend q) fun _ => Prog.all_pure _ _
  | complete sessionID userID =>
    refine Prog.all_bind ?_ fun _ => Prog.all_pure _ _
    exact all_checked (performs_completeAuthorization _ _ _) (complete_adds_none hbackend)

/-- The portal without a backend only ever holds sessions whose redirect URI parses. -/
theorem verified : Verified (pool cfg) {} (fun s _ => Parsed s) {} where
  init id x hx := by simp at hx
  call s L w h _ _ := by
    refine ⟨h, ?_⟩
    refine (Outline.of_all
      (Prog.All.imp (fun o ho s L e hs _ => ?_) (handle_checked hbackend w.call)) _).imp
      fun _ _ _ _ _ _ _ hs _ => hs
    exact hs.exec ho _ e
  env s L d h _ := h
  crash s L _ _ id x hx := by
    -- A restart empties the maps.
    simp [server, restart] at hx

end Absent

/-! ### The call by itself -/

/-- A call that runs by itself: between its operations only the clock moves. -/
def alone (cfg : Settings) : Setting Op Reply State Env where
  exec := exec cfg.backend
  between s s' := ∃ d, s' = tick d s
  refl s := ⟨0, by simp [tick]⟩

variable {ops : List ((o : Op) × Reply o)} {sessionID userID : Str} {sess : AuthSession}

/-- `SessionStore.Get` without a backend changes nothing, and what it returns is in the map. -/
theorem get_runs (hbackend : cfg.backend = false) {found : Option AuthSession}
    (h : (alone cfg).Runs (SessionStore.get cfg.backend sessionID) s ops found s') :
    s'.mem = s.mem ∧ ∀ x, found = some x → s.mem.sessions.lookup sessionID = some x := by
  unfold SessionStore.get at h
  obtain ⟨s1, e1, rest1, ⟨d1, rfl⟩, -, -, h⟩ := h
  rcases hlook : s.mem.sessions.lookup sessionID with _ | x
  · have hreply : ((alone cfg).exec (.sessionsLookup sessionID) e1 (tick d1 s)).1 = none := hlook
    -- There is no backend to ask.
    rw [hreply, hbackend] at h
    obtain ⟨-, rfl, d2, rfl⟩ := h
    exact ⟨rfl, nofun⟩
  · have hreply : ((alone cfg).exec (.sessionsLookup sessionID) e1 (tick d1 s)).1 = some x := hlook
    rw [hreply] at h
    obtain ⟨s2, e2, rest2, ⟨d2, rfl⟩, -, -, -, rfl, d3, rfl⟩ := h
    refine ⟨rfl, fun y hy => ?_⟩
    split_ifs at hy
    exact hy

/-- The stores after a completed session: the session is gone and the code is there. -/
def completed (m : Stores) (sessionID : Str) (code : AuthCode) : Stores :=
  { m with codes := m.codes.insert code.code code, sessions := m.sessions.erase sessionID }

/-- The end of `CompleteAuthorization` draws no code and changes nothing, or it changes both stores
and answers by the redirect URI. -/
theorem completeSession_runs {r : Except CompleteError Str}
    (h : (alone cfg).Runs (completeSession sessionID userID sess) s ops r s') :
    (s'.mem = s.mem ∧ ∃ err, r = .error (.codeGeneration err)) ∨
      ∃ code now, s'.mem = completed s.mem sessionID (issueCode sess userID code now) ∧
        r = match URL.parse sess.redirectURI with
          | none => .error .invalidRedirectURI
          | some u => .ok (codeRedirect u code sess.state) := by
  unfold completeSession at h
  obtain ⟨s1, e1, rest1, ⟨d1, rfl⟩, -, -, h⟩ := h
  rcases hcode : ((alone cfg).exec (.generateRandomHex 16) e1 (tick d1 s)).1 with err | code
  · rw [hcode] at h
    obtain ⟨-, rfl, d2, rfl⟩ := h
    exact .inl ⟨rfl, err, rfl⟩
  · rw [hcode] at h
    obtain ⟨s2, e2, rest2, ⟨d2, rfl⟩, -, -, s3, e3, rest3, ⟨d3, rfl⟩, -, -, s4, e4, rest4,
      ⟨d4, rfl⟩, -, -, h⟩ := h
    -- The code is issued at the time that the second operation reads.
    refine .inr ⟨code, s.now + d1 + d2, ?_⟩
    rcases hparse : URL.parse sess.redirectURI with _ | u
    · rw [hparse] at h
      obtain ⟨-, rfl, d5, rfl⟩ := h
      exact ⟨by simp [alone, exec, tick, completed], rfl⟩
    · rw [hparse] at h
      obtain ⟨-, rfl, d5, rfl⟩ := h
      exact ⟨by simp [alone, exec, tick, completed], rfl⟩

/-! ### The URL that it returns -/

/-- The URL is the redirect URI with another query. What is read in this query is the code, the
state, and every other parameter as it is read in the query of the redirect URI. -/
def Returns (redirectURI code state url : Str) : Prop :=
  ∃ u, URL.parse redirectURI = some u ∧ url = { u with rawQuery := rawQueryOf url }.string ∧
    ∀ key, (parseQuery (rawQueryOf url)).values key =
      if "state" = key then [state] else if "code" = key then [code]
        else u.query.values key

/-- The URL of the redirect returns the code to the client. -/
theorem returns_codeRedirect {redirectURI : Str} {u : URL} (hparse : URL.parse redirectURI = some u)
    (hhost : u.host ≠ []) (code state : Str) :
    Returns redirectURI code state (codeRedirect u code state) := by
  obtain ⟨hscheme, hdata⟩ := URL.parts_of_parse hparse
  let q := (u.query.set "code" code).set "state" state
  have hvalues : ∀ key, (parseQuery q.encode).values key =
      if "state" = key then [state] else if "code" = key then [code]
        else u.query.values key := by
    intro key
    have hdistinct : q.Distinct := ((Values.distinct_parseQuery u.rawQuery).set _ _).set _ _
    rw [Values.values_parseQuery_encode hdistinct, Values.values_set, Values.values_set]
  -- An empty text would have no state.
  have hne : q.encode ≠ [] := by
    intro hnil
    have hstate := hvalues "state"
    rw [hnil, if_pos rfl] at hstate
    cases hstate
  have htext : rawQueryOf (codeRedirect u code state) = q.encode :=
    URL.rawQueryOf_string (u := { u with rawQuery := q.encode }) hscheme (hdata hhost) hne
      (hash_not_mem_encode q)
  refine ⟨u, hparse, ?_, ?_⟩
  · rw [htext]
    rfl
  · rw [htext]
    exact hvalues

/-- A valid redirect URI parses to a URL with a host. -/
theorem parse_of_validRedirect {redirectURI : Str} (h : validRedirect redirectURI = true) :
    ∃ u, URL.parse redirectURI = some u ∧ u.host ≠ [] := by
  unfold validRedirect at h
  rcases hparse : URL.parse redirectURI with _ | u
  · rw [hparse] at h
    cases h
  · rw [hparse] at h
    exact ⟨u, rfl, of_decide_eq_true h⟩

/-- In every state that the portal without a backend reaches, whatever calls are under way,
`CompleteAuthorization` either returns an error and changes nothing, or it removes the session, adds
one code for it, and returns its redirect URI with the code and the state. -/
theorem completeAuthorization_atomic (hbackend : cfg.backend = false)
    {c : Config Op Reply State ℕ Call (Response ⊕ Except CompleteError Str)}
    (hc : Reachable (pool cfg) {} {} c) (sessionID userID : Str) {r : Except CompleteError Str}
    (h : (alone cfg).Runs (completeAuthorization cfg.backend sessionID userID) c.state ops r s') :
    (∀ err, r = .error err → s'.mem = c.state.mem) ∧
      ∀ url, r = .ok url → ∃ sess code now, c.state.mem.sessions.lookup sessionID = some sess ∧
        s'.mem = completed c.state.mem sessionID (issueCode sess userID code now) ∧
        (code ∉ c.state.mem.codes →
          s'.mem.codes.entries = ⟨code, issueCode sess userID code now⟩ ::
            c.state.mem.codes.entries) ∧
        Returns sess.redirectURI code sess.state url := by
  have hparsed : Parsed c.state := hc.invariant (verified hbackend)
  unfold completeAuthorization at h
  obtain ⟨s1, e1, rest1, ⟨d1, rfl⟩, -, -, h⟩ := h
  obtain ⟨found, s2, ops1, ops2, -, hget, h⟩ :=
    Setting.Runs.bind (p := SessionStore.get cfg.backend sessionID) h
  obtain ⟨hmem, hfound⟩ := get_runs hbackend hget
  have hstart : ((alone cfg).exec (.completing sessionID userID) e1 (tick d1 c.state)).2.mem =
      c.state.mem := rfl
  rw [hstart] at hmem hfound
  rcases found with _ | sess
  · obtain ⟨-, rfl, d2, rfl⟩ := h
    exact ⟨fun _ _ => hmem, nofun⟩
  · have hsess := hfound sess rfl
    rcases completeSession_runs h with ⟨hsame, err, rfl⟩ | ⟨code, now, hdone, hr⟩
    · exact ⟨fun _ _ => hsame.trans hmem, nofun⟩
    · -- The redirect URI was checked when the session was stored, so the last error does not occur.
      obtain ⟨u, hparse, hhost⟩ := parse_of_validRedirect (hparsed sessionID sess hsess)
      rw [hparse] at hr
      rw [hmem] at hdone
      refine ⟨fun err herr => ?_, fun url hurl => ?_⟩
      · rw [hr] at herr
        cases herr
      · rw [hr] at hurl
        cases hurl
        refine ⟨sess, code, now, hsess, hdone, fun hnew => ?_, ?_⟩
        · rw [hdone]
          exact AList.entries_insert_of_notMem hnew
        · exact returns_codeRedirect hparse hhost code sess.state

/-- A portal without a backend. -/
def sampleSettings : Settings :=
  ⟨false, "k", ⟨fun _ => [], fun _ _ => [], fun _ => none, fun _ => []⟩⟩

/-- An authorization request of the client `m`, whose redirect URI has a query. -/
def authorization : Call :=
  .route (.authorize { query := sampleQuery "https://m/cb?a=1&code=0" "h" "x y" })

/-- The request, up to its answer: it leaves the session `s` pending. -/
def requested : List (Label Env ℕ Call) :=
  [.call authorization, .step 0 {}, .step 0 {}, .step 0 {}, .step 0 { random := .ok "s" },
    .step 0 {}, .step 0 {}, .step 0 {}]

/-- What `CompleteAuthorization` for alice returns after the request, when the environment decides
as listed. -/
def outcome (sessionID : Str) (es : List Env) : Option (Except CompleteError Str) :=
  ((alone sampleSettings).run (completeAuthorization false sessionID "alice") es
    ((pool sampleSettings).run (.init {}) requested).state).map fun (_, r, _) => r

/-- The session is completed: the code replaces the one of the redirect URI. -/
theorem completeAuthorization_atomic_requested : ∃ ops s' sess code now,
    (alone sampleSettings).Runs (completeAuthorization false "s" "alice")
      ((pool sampleSettings).run (.init {}) requested).state ops
      (.ok "https://m/cb?a=1&code=c&state=x+y") s' ∧
    s'.mem = completed ((pool sampleSettings).run (.init {}) requested).state.mem "s"
      (issueCode sess "alice" code now) ∧
    Returns sess.redirectURI code sess.state "https://m/cb?a=1&code=c&state=x+y" := by
  have heval : outcome "s" [{}, {}, {}, { random := .ok "c" }, {}, {}, {}] =
      some (.ok "https://m/cb?a=1&code=c&state=x+y") := by decide +kernel
  obtain ⟨⟨ops, r, s'⟩, hrun, hr⟩ := Option.map_eq_some_iff.1 heval
  obtain rfl : r = .ok "https://m/cb?a=1&code=c&state=x+y" := hr
  have hruns := Setting.Runs.of_run (fun _ _ _ => trivial) hrun
  obtain ⟨sess, code, now, -, hmem, -, hurl⟩ :=
    (completeAuthorization_atomic rfl (Reachable.of_run ..) "s" "alice" hruns).2 _ rfl
  exact ⟨ops, s', sess, code, now, hruns, hmem, hurl⟩

end VirePortal.Auth.CompleteAtomic
