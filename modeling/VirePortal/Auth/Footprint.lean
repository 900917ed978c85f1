import VirePortal.Auth.Server

/-!
# What each handler can do

`Op.effect` sorts the atomic operations by their effect on the four maps, and `Performs l p` says
that every operation that the program `p` can come to has an effect in the list `l`. The lemmas here
give this list for the store methods and the handlers. An invariant that only some effects can break
is then kept by a handler that performs none of them, without going through its code again.
-/

namespace VirePortal.Auth

open Go Concurrent

/-- The effect of an operation on the maps. -/
inductive Effect where
  /-- None: a lookup, a read of the backend, the clock, a draw, a login, a mark in the log. -/
  | reads
  | cachesClient
  | putsClient
  | cachesSession
  | putsSession
  | deletesSession
  | putsCode
  | takesCode
  | takesFetched
  | marksCode
  | cachesToken
  | putsToken
  | deletesToken
  | cleans
  deriving DecidableEq

/-- The effect of each operation. -/
def Op.effect : Op → Effect
  | .clientsCache _ => .cachesClient
  | .clientsPut _ => .putsClient
  | .sessionsCache _ => .cachesSession
  | .sessionsPut _ => .putsSession
  | .sessionsDelete _ => .deletesSession
  | .codesPut _ => .putsCode
  | .codesConsume _ => .takesCode
  | .codesConsumeFetched _ _ => .takesFetched
  | .codesMarkUsed _ | .markCodeUsed _ => .marksCode
  | .tokensCache _ => .cachesToken
  | .tokensPut _ => .putsToken
  | .tokensDelete _ => .deletesToken
  | .sessionsCleanup | .codesCleanup | .tokensCleanup => .cleans
  | _ => .reads

/-- Only a `Put` or a cached read adds a session. -/
theorem exec_sessions_shrink (backend : Bool) {o : Op} (hcache : o.effect ≠ .cachesSession)
    (hput : o.effect ≠ .putsSession) (e : Env) (s : State) {id : Str} {x : AuthSession} :
    ((exec backend o e s).2.mem.sessions.lookup id = some x → s.mem.sessions.lookup id = some x) ∧
      ((exec backend o e s).2.db.sessions.lookup id = some x →
        s.db.sessions.lookup id = some x) := by
  by_cases hk : o.changes = some .sessions
  · cases o <;> simp only [Op.changes, reduceCtorEq, Option.some.injEq] at hk
    case sessionsCache => simp [Op.effect] at hcache
    case sessionsPut => simp [Op.effect] at hput
    case sessionsDelete id' =>
      constructor
      · intro hx
        simp only [exec, State.updateDb_mem, State.updateMem_mem] at hx
        exact Table.of_lookup_erase hx
      · intro hx
        simp only [exec, State.updateDb_db, State.updateMem_db] at hx
        split_ifs at hx
        · exact Table.of_lookup_erase hx
        · exact hx
    case sessionsCleanup => exact ⟨Table.of_lookup_filter, fun hx => hx⟩
  · obtain ⟨hmem, hdb⟩ := exec_sessions backend e s hk
    rw [hmem, hdb]
    exact ⟨fun hx => hx, fun hx => hx⟩

/-- Every operation of the program has one of the effects. -/
def Performs {α : Type} (l : List Effect) (p : M α) : Prop := p.All fun o => o.effect ∈ l

variable {α β : Type} {l l' : List Effect}

/-- A program performs more effects. -/
theorem Performs.mono {p : M α} (h : Performs l p) (hl : l ⊆ l') : Performs l' p :=
  Prog.All.imp (fun _ ho => hl ho) h

/-- A return performs nothing. -/
@[simp]
theorem performs_pure (a : α) : Performs l (pure a : M α) := trivial

/-- An operation performs its effect. -/
@[simp]
theorem performs_perform (o : Op) : Performs l (perform o) ↔ o.effect ∈ l := Prog.all_call _ o

/-- What two programs perform. -/
theorem performs_bind {p : M α} {f : α → M β} (hp : Performs l p) (hf : ∀ a, Performs l (f a)) :
    Performs l (p >>= f) :=
  Prog.all_bind hp hf

/-- One operation and what follows it. That the effect is in the list is a computation. -/
theorem performs_op {o : Op} {f : Reply o → M β} (ho : l.contains o.effect = true)
    (hf : ∀ r, Performs l (f r)) : Performs l (perform o >>= f) :=
  performs_bind ((performs_perform o).2 (List.contains_iff_mem.1 ho)) hf

/-- `ClientStore.Get` may cache a client. -/
theorem ClientStore.performs_get (backend : Bool) (clientID : Str) :
    Performs [.reads, .cachesClient] (ClientStore.get backend clientID) := by
  unfold ClientStore.get
  refine performs_op rfl fun r => ?_
  rcases r with _ | c
  · cases backend with
    | false => exact performs_pure none
    | true =>
      refine performs_op rfl fun r => ?_
      rcases r with _ | _ | c
      · exact performs_pure none
      · exact performs_pure none
      · exact performs_op rfl fun _ => performs_pure _
  · exact performs_pure _

/-- What a lookup of sessions adds to the map: with a backend, the session that it read there. -/
def caches (backend : Bool) : List Effect := if backend then [.cachesSession] else []

/-- Only a lookup with a backend caches. -/
@[simp]
theorem mem_caches {backend : Bool} {a : Effect} :
    a ∈ caches backend ↔ backend = true ∧ a = .cachesSession := by
  cases backend <;> simp [caches]

/-- `CompleteAuthorization` begins with a lookup. -/
theorem lookup_subset (backend : Bool) :
    .reads :: caches backend ⊆ .reads :: .putsCode :: .deletesSession :: caches backend := by
  intro a ha
  rcases List.mem_cons.1 ha with rfl | ha
  · simp
  · simp [mem_caches.1 ha]

/-- The check of the time reads the clock. -/
theorem SessionStore.performs_live (x : AuthSession) : Performs [.reads] (SessionStore.live x) :=
  performs_op rfl fun _ => performs_pure _

/-- `SessionStore.Get` may cache a session. -/
theorem SessionStore.performs_get (backend : Bool) (sessionID : Str) :
    Performs (.reads :: caches backend) (SessionStore.get backend sessionID) := by
  have hlive : ∀ x, Performs (.reads :: caches backend) (SessionStore.live x) :=
    fun x => (SessionStore.performs_live x).mono (by simp)
  unfold SessionStore.get
  refine performs_op rfl fun r => ?_
  rcases r with _ | x
  · cases backend with
    | false => exact performs_pure none
    | true =>
      refine performs_op rfl fun r => ?_
      rcases r with _ | _ | x
      · exact performs_pure none
      · exact performs_pure none
      · exact performs_op rfl fun _ => hlive x
  · exact hlive x

/-- `GetByClientID` may cache a session. -/
theorem SessionStore.performs_getByClientID (backend : Bool) (clientID : Str) :
    Performs (.reads :: caches backend) (SessionStore.getByClientID backend clientID) := by
  unfold SessionStore.getByClientID
  refine performs_op rfl fun r => ?_
  obtain ⟨now, _ | x⟩ := r
  · cases backend with
    | false => exact performs_pure none
    | true =>
      refine performs_op rfl fun r => ?_
      rcases r with _ | _ | x
      · exact performs_pure none
      · exact performs_pure none
      · show Performs _ (if x.expired now then _ else _)
        split_ifs
        · exact performs_pure none
        · exact performs_op rfl fun _ => performs_pure _
  · exact performs_pure _

/-- `ConsumeCode` takes a code. -/
theorem CodeStore.performs_consumeCode (backend : Bool) (code : Str) :
    Performs [.reads, .takesCode, .takesFetched, .marksCode]
      (CodeStore.consumeCode backend code) := by
  have hconfirm : ∀ r, Performs [.reads, .takesCode, .takesFetched, .marksCode]
      (CodeStore.confirm backend code r) := by
    intro r
    rcases r with _ | c
    · exact performs_pure none
    · cases backend with
      | false => exact performs_pure _
      | true => exact performs_op rfl fun _ => performs_pure _
  unfold CodeStore.consumeCode
  refine performs_op rfl fun r => ?_
  rcases r with _ | r
  · cases backend with
    | false => exact performs_pure none
    | true =>
      refine performs_op rfl fun r => ?_
      rcases r with _ | _ | f
      · exact performs_pure none
      · exact performs_pure none
      · exact performs_op rfl hconfirm
  · exact hconfirm r

/-- `TokenStore.Get` may cache a token. -/
theorem TokenStore.performs_get (backend : Bool) (token : Str) :
    Performs [.reads, .cachesToken] (TokenStore.get backend token) := by
  have hlive : ∀ t, Performs [.reads, .cachesToken] (TokenStore.live t) :=
    fun t => performs_op rfl fun _ => performs_pure _
  unfold TokenStore.get
  refine performs_op rfl fun r => ?_
  rcases r with _ | t
  · cases backend with
    | false => exact performs_pure none
    | true =>
      refine performs_op rfl fun r => ?_
      rcases r with _ | _ | t
      · exact performs_pure none
      · exact performs_pure none
      · exact performs_op rfl fun _ => hlive t
  · exact hlive t

/-- A code is stored, and the session is deleted. -/
theorem performs_completeSession (sessionID userID : Str) (x : AuthSession) :
    Performs [.reads, .putsCode, .deletesSession] (completeSession sessionID userID x) := by
  unfold completeSession
  refine performs_op rfl fun r => ?_
  rcases r with err | code
  · exact performs_pure _
  · refine performs_op rfl fun now => ?_
    refine performs_op rfl fun _ => ?_
    refine performs_op rfl fun _ => ?_
    cases URL.parse x.redirectURI <;> exact performs_pure _

/-- `CompleteAuthorization` may cache the session as well. -/
theorem performs_completeAuthorization (backend : Bool) (sessionID userID : Str) :
    Performs (.reads :: .putsCode :: .deletesSession :: caches backend)
      (completeAuthorization backend sessionID userID) := by
  unfold completeAuthorization
  refine performs_op rfl fun _ => ?_
  refine performs_bind ((SessionStore.performs_get _ _).mono (lookup_subset backend)) fun r => ?_
  rcases r with _ | x
  · exact performs_pure _
  · exact (performs_completeSession sessionID userID x).mono (by simp)

/-- The client is found or registered. -/
theorem performs_findOrRegister (backend : Bool) (p : AuthorizeParams) :
    Performs [.reads, .cachesClient, .putsClient] (findOrRegister backend p) := by
  unfold findOrRegister
  refine performs_bind ((ClientStore.performs_get _ _).mono (by simp)) fun r => ?_
  rcases r with _ | c
  · refine performs_op rfl fun now => ?_
    exact performs_op rfl fun _ => performs_pure _
  · exact performs_pure c

/-- A session is stored. -/
theorem performs_createAuthSession (backend : Bool) (p : AuthorizeParams) :
    Performs [.reads, .cachesClient, .putsClient, .putsSession] (createAuthSession backend p) := by
  unfold createAuthSession
  refine performs_bind ((performs_findOrRegister backend p).mono (by simp)) fun client => ?_
  split_ifs
  · refine performs_op rfl fun r => ?_
    rcases r with err | sessionID
    · exact performs_pure _
    · refine performs_op rfl fun now => ?_
      exact performs_op rfl fun _ => performs_pure _
  · exact performs_pure _

/-- The cookie is checked without a change. -/
theorem performs_extractSessionUserID (codec : Codec) (secret : Str) (r : Request) :
    Performs [.reads] (extractSessionUserID codec secret r) := by
  unfold extractSessionUserID
  rcases (r.cookie "vire_session").bind (subAndExp codec secret) with _ | ⟨sub, exp⟩
  · exact performs_pure _
  · dsimp only
    split_ifs
    · exact performs_op rfl fun now => performs_pure _
    · exact performs_pure _

/-- Minting reads the clock. -/
theorem performs_mintAccessToken (codec : Codec) (secret userID scope clientID issuer : Str) :
    Performs [.reads] (mintAccessToken codec secret userID scope clientID issuer) := by
  unfold mintAccessToken
  refine performs_op rfl fun now => performs_op rfl fun r => ?_
  cases r <;> exact performs_pure _

/-- A refresh token is stored. -/
theorem performs_issueTokens (cfg : Settings) (r : Request) (userID clientID scope : Str) :
    Performs [.reads, .putsToken] (issueTokens cfg r userID clientID scope) := by
  unfold issueTokens
  refine performs_bind ((performs_mintAccessToken _ _ _ _ _ _).mono (by simp)) fun a => ?_
  rcases a with _ | accessToken
  · exact performs_pure _
  · refine performs_op rfl fun a => ?_
    rcases a with err | token
    · exact performs_pure _
    · refine performs_op rfl fun now => ?_
      exact performs_op rfl fun _ => performs_pure _

/-- The code grant takes a code and stores a token. -/
theorem performs_handleAuthCodeGrant (cfg : Settings) (r : Request) :
    Performs [.reads, .takesCode, .takesFetched, .marksCode, .putsToken]
      (handleAuthCodeGrant cfg r) := by
  unfold handleAuthCodeGrant
  dsimp only
  split_ifs
  · exact performs_pure _
  · refine performs_bind ((CodeStore.performs_consumeCode _ _).mono (by simp)) fun a => ?_
    rcases a with _ | c
    · exact performs_pure _
    · dsimp only
      split_ifs
      · exact performs_pure _
      · exact performs_pure _
      · exact performs_pure _
      · exact (performs_issueTokens cfg r _ _ _).mono (by simp)

/-- The refresh grant replaces a token. -/
theorem performs_handleRefreshTokenGrant (cfg : Settings) (r : Request) :
    Performs [.reads, .cachesToken, .deletesToken, .putsToken] (handleRefreshTokenGrant cfg r) := by
  unfold handleRefreshTokenGrant
  dsimp only
  split_ifs
  · exact performs_pure _
  · refine performs_bind ((TokenStore.performs_get _ _).mono (by simp)) fun a => ?_
    rcases a with _ | t
    · exact performs_pure _
    · dsimp only
      split_ifs
      · exact performs_pure _
      · refine performs_op rfl fun _ => ?_
        exact (performs_issueTokens cfg r _ _ _).mono (by simp)

/-- The token endpoint touches codes and tokens only. -/
theorem performs_handleToken (cfg : Settings) (r : Request) :
    Performs [.reads, .takesCode, .takesFetched, .marksCode, .cachesToken, .deletesToken,
      .putsToken]
      (handleToken cfg r) := by
  unfold handleToken
  split_ifs
  · exact performs_pure _
  · exact performs_pure _
  · exact (performs_handleAuthCodeGrant cfg r).mono (by simp)
  · exact (performs_handleRefreshTokenGrant cfg r).mono (by simp)
  · exact performs_pure _

/-- The registration endpoint stores a client. -/
theorem performs_handleRegister (r : Request) (body : Option Json) :
    Performs [.reads, .putsClient] (handleRegister r body) := by
  unfold handleRegister
  split_ifs
  · exact performs_pure _
  · rcases body.bind decodeDcr with _ | req
    · exact performs_pure _
    · dsimp only
      split_ifs
      · exact performs_pure _
      · refine performs_op rfl fun a => ?_
        rcases a with err | clientID
        · exact performs_pure _
        · refine performs_op rfl fun a => ?_
          rcases a with err | clientSecret
          · exact performs_pure _
          · refine performs_op rfl fun now => ?_
            exact performs_op rfl fun _ => performs_pure _

/-- A session may be completed. -/
theorem performs_setSessionCookieAndRedirect (cfg : Settings) (r : Request) (sessionID : Str) :
    Performs (.reads :: .putsCode :: .deletesSession :: caches cfg.backend)
      (setSessionCookieAndRedirect cfg r sessionID) := by
  unfold setSessionCookieAndRedirect
  refine performs_bind ((performs_extractSessionUserID _ _ r).mono (by simp)) fun userID => ?_
  split_ifs
  · exact performs_pure _
  · refine performs_bind (performs_completeAuthorization _ _ _) fun a => ?_
    rcases a with err | url <;> exact performs_pure _

/-- A session may be completed. -/
theorem performs_handleAuthorizeResume (cfg : Settings) (r : Request) :
    Performs (.reads :: .putsCode :: .deletesSession :: caches cfg.backend)
      (handleAuthorizeResume cfg r) := by
  unfold handleAuthorizeResume
  dsimp only
  split_ifs
  · exact performs_pure _
  · exact performs_pure _
  · refine performs_bind ((SessionStore.performs_get _ _).mono (lookup_subset _)) fun a => ?_
    rcases a with _ | x
    · exact performs_pure _
    · exact performs_setSessionCookieAndRedirect cfg r _

/-- A session may be completed. -/
theorem performs_finishLogin (cfg : Settings) (r : Request) (token : Str) :
    Performs (.reads :: .putsCode :: .deletesSession :: caches cfg.backend)
      (finishLogin cfg r token) := by
  unfold finishLogin tryCompleteMCPSession
  refine performs_bind ?_ fun a => ?_
  · rcases r.cookie "mcp_session_id" with _ | sessionID
    · exact performs_pure _
    · dsimp only
      split_ifs
      · exact performs_pure _
      · exact performs_pure _
      · refine performs_bind (performs_completeAuthorization _ _ _) fun a => ?_
        rcases a with err | url <;> exact performs_pure _
  · rcases a with _ | response <;> exact performs_pure _

/-- A session may be completed. -/
theorem performs_handleLogin (cfg : Settings) (r : Request) :
    Performs (.reads :: .putsCode :: .deletesSession :: caches cfg.backend)
      (handleLogin cfg r) := by
  unfold handleLogin
  dsimp only
  split_ifs
  · exact performs_pure _
  · exact performs_pure _
  · refine performs_op rfl fun a => ?_
    rcases a with _ | _ | ⟨status, token⟩
    · exact performs_pure _
    · exact performs_pure _
    · dsimp only
      split_ifs
      · exact performs_pure _
      · rcases token with _ | token
        · exact performs_pure _
        · dsimp only
          split_ifs
          · exact performs_pure _
          · exact performs_finishLogin cfg r token

/-- A session may be completed. -/
theorem performs_handleOAuthCallback (cfg : Settings) (r : Request) :
    Performs (.reads :: .putsCode :: .deletesSession :: caches cfg.backend)
      (handleOAuthCallback cfg r) := by
  unfold handleOAuthCallback
  split_ifs
  · exact performs_pure _
  · exact performs_finishLogin cfg r _

end VirePortal.Auth
