import VirePortal.Auth.Records

/-!
# The methods of the four stores

Each method of `store.go` and `session.go` as a program over the atomic operations. A store without
a backend (`backend = false`) answers from its map alone. With a backend, a lookup that misses reads
through: it asks the backend outside the lock and caches what it gets in a second critical section.
-/

namespace VirePortal.Auth

open Go Concurrent

/-- `ClientStore.Put`. -/
def ClientStore.put (client : OAuthClient) : M Unit := perform (.clientsPut client)

/-- `ClientStore.Get`. A backend error and an absent client are both a miss. -/
def ClientStore.get (backend : Bool) (clientID : Str) : M (Option OAuthClient) := do
  match ← perform (.clientsLookup clientID) with
  | some c => return some c
  | none =>
    if backend then
      match ← perform (.getClient clientID) with
      | .failed => return none
      | .notFound => return none
      | .found c => do
        perform (.clientsCache c)
        return some c
    else return none

/-- `SessionStore.Put`. -/
def SessionStore.put (session : AuthSession) : M Unit := perform (.sessionsPut session)

/-- The end of `SessionStore.Get`: a session past its time to live is refused. -/
def SessionStore.live (x : AuthSession) : M (Option AuthSession) := do
  let now ← perform .now
  return if x.expired now then none else some x

/-- `SessionStore.Get`. -/
def SessionStore.get (backend : Bool) (sessionID : Str) : M (Option AuthSession) := do
  match ← perform (.sessionsLookup sessionID) with
  | some x => SessionStore.live x
  | none =>
    if backend then
      match ← perform (.getSession sessionID) with
      | .failed => return none
      | .notFound => return none
      | .found x => do
        perform (.sessionsCache x)
        SessionStore.live x
    else return none

/-- `SessionStore.Delete`. -/
def SessionStore.delete (sessionID : Str) : M Unit := perform (.sessionsDelete sessionID)

/-- `SessionStore.GetByClientID`. The clock is read once, with the map. -/
def SessionStore.getByClientID (backend : Bool) (clientID : Str) : M (Option AuthSession) := do
  let (now, best) ← perform (.sessionsByClientID clientID)
  match best with
  | some x => return some x
  | none =>
    if backend then
      match ← perform (.getSessionByClientID clientID) with
      | .failed => return none
      | .notFound => return none
      | .found x =>
        if x.expired now then return none
        else do
          perform (.sessionsCache x)
          return some x
    else return none

/-- The loop of `GetByClientID` returns the best session so far, or a session of the client that it
meets. -/
theorem bestSession_mem {now : Time} {clientID : Str} {best : Option AuthSession}
    {l : List AuthSession} {x : AuthSession} (h : bestSession now clientID best l = some x) :
    best = some x ∨ x ∈ l ∧ x.clientID = clientID := by
  induction l generalizing best with
  | nil => exact .inl h
  | cons y l ih =>
    have hskip : bestSession now clientID best l = some x →
        best = some x ∨ x ∈ y :: l ∧ x.clientID = clientID :=
      fun h => (ih h).imp_right fun hx => ⟨.tail _ hx.1, hx.2⟩
    have htake : y.clientID = clientID → bestSession now clientID (some y) l = some x →
        best = some x ∨ x ∈ y :: l ∧ x.clientID = clientID := by
      intro hy h
      rcases ih h with heq | hx
      · rw [← Option.some.inj heq]
        exact .inr ⟨.head _, hy⟩
      · exact .inr ⟨.tail _ hx.1, hx.2⟩
    unfold bestSession at h
    split_ifs at h with hclient hexp
    · exact hskip h
    · exact hskip h
    · cases best with
      | none => exact htake (not_not.1 hclient) h
      | some b =>
        dsimp only at h
        split_ifs at h
        · exact htake (not_not.1 hclient) h
        · exact hskip h

/-- What the iteration over a map meets is in the map. -/
theorem iterate_mem {V : Type} {t : Table V} {start : ℕ} {v : V} (h : v ∈ iterate t start) :
    ∃ k, t.lookup k = some v := by
  rw [iterate, List.mem_rotate, List.mem_map] at h
  obtain ⟨⟨k, v⟩, hmem, rfl⟩ := h
  exact ⟨k, AList.mem_lookup_iff.2 hmem⟩

/-- `SessionStore.Cleanup`. -/
def SessionStore.cleanup : M Unit := perform .sessionsCleanup

/-- `CodeStore.Put`. -/
def CodeStore.put (code : AuthCode) : M Unit := perform (.codesPut code)

/-- The end of `CodeStore.Get`: an expired code is refused. -/
def CodeStore.live (c : AuthCode) : M (Option AuthCode) := do
  let now ← perform .now
  return if after now c.expiresAt then none else some c

/-- `CodeStore.Get`, of a store without a backend. No handler calls it. -/
def CodeStore.get (code : Str) : M (Option AuthCode) := do
  match ← perform (.codesLookup code) with
  | some c => CodeStore.live c
  | none => return none

/-- `CodeStore.MarkUsed`. -/
def CodeStore.markUsed (code : Str) : M Unit := perform (.codesMarkUsed code)

/-- The end of `ConsumeCode`: a code that was taken is marked used in the backend, and an error of
that call is only logged. -/
def CodeStore.confirm (backend : Bool) (code : Str) : Option AuthCode → M (Option AuthCode)
  | none => return none
  | some c =>
    if backend then do
      perform (.markCodeUsed code)
      return some c
    else return some c

/-- `CodeStore.ConsumeCode`. -/
def CodeStore.consumeCode (backend : Bool) (code : Str) : M (Option AuthCode) := do
  match ← perform (.codesConsume code) with
  | some r => CodeStore.confirm backend code r
  | none =>
    if backend then
      match ← perform (.getCode code) with
      | .failed => return none
      | .notFound => return none
      | .found fetched => do
        let r ← perform (.codesConsumeFetched code fetched)
        CodeStore.confirm backend code r
    else return none

/-- `CodeStore.Cleanup`. -/
def CodeStore.cleanup : M Unit := perform .codesCleanup

/-- `TokenStore.Put`. -/
def TokenStore.put (token : RefreshToken) : M Unit := perform (.tokensPut token)

/-- The end of `TokenStore.Get`: an expired token is refused. -/
def TokenStore.live (t : RefreshToken) : M (Option RefreshToken) := do
  let now ← perform .now
  return if after now t.expiresAt then none else some t

/-- `TokenStore.Get`. -/
def TokenStore.get (backend : Bool) (token : Str) : M (Option RefreshToken) := do
  match ← perform (.tokensLookup token) with
  | some t => TokenStore.live t
  | none =>
    if backend then
      match ← perform (.lookupToken token) with
      | .failed => return none
      | .notFound => return none
      | .found t => do
        perform (.tokensCache t)
        TokenStore.live t
    else return none

/-- `TokenStore.Delete`. -/
def TokenStore.delete (token : Str) : M Unit := perform (.tokensDelete token)

/-- `TokenStore.Cleanup`. -/
def TokenStore.cleanup : M Unit := perform .tokensCleanup

/-- The entry is a critical section of `ConsumeCode` in which `w` took `code`. -/
def Consumes {C R : Type} (w : Caller C) (code : Str) (e : Entry Op Reply State ℕ C R) : Prop :=
  (∃ c, e.event = .op w (.codesConsume code) (some (some c))) ∨
    ∃ f c, e.event = .op w (.codesConsumeFetched code f) (some c)

/-- A code is consumed by its caller. -/
theorem Consumes.caller {C R : Type} {w : Caller C} {code : Str}
    {e : Entry Op Reply State ℕ C R} (h : Consumes w code e) : e.event.caller = some w := by
  rcases h with ⟨c, hc⟩ | ⟨f, c, hc⟩
  · rw [hc]; rfl
  · rw [hc]; rfl

end VirePortal.Auth
