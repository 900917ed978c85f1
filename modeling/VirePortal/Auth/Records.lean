import Mathlib.Data.List.AList
import VirePortal.Concurrent.Outline
import VirePortal.Go.Http

/-!
# The state of the OAuth server and its atomic operations

The OAuth server of `internal/auth` keeps clients, pending sessions, authorization codes and refresh
tokens in four maps, each behind its own mutex, and writes through to vire-server when it has a
backend. An operation here (`Op`) is one critical section of a store, one request to the backend,
one reading of the clock or one draw from `crypto/rand`: the steps between which the Go scheduler
may run other requests.

`Put` and `Delete` hold their mutex while they call the backend. Nothing else can touch the map
meanwhile, and the calls that read the backend do not hold the mutex, so such a section is one
operation that takes effect when the backend's reply does.

The replies of the backend and of `crypto/rand` come from the environment (`Env`). `State.db` is
what vire-server holds, as the writes that took effect left it; `Faithful` says when a reply is what
a faithful backend answers.
-/

namespace VirePortal.Auth

open Go Concurrent

/-- A point in time, in nanoseconds since the Unix epoch. -/
abbrev Time := ℤ

/-- `Time.Unix`: whole seconds. -/
def unix (t : Time) : ℤ := t / 1000000000

/-- The nanoseconds of a number of seconds. -/
def seconds (n : ℤ) : ℤ := n * 1000000000

/-- `sessionTTL`: ten minutes. -/
def sessionTTL : ℤ := seconds 600

/-- A dynamically registered OAuth client. -/
structure OAuthClient where
  clientID : Str
  clientSecret : Str := []
  clientName : Str := []
  redirectURIs : List Str
  grantTypes : List Str := []
  responseTypes : List Str := []
  tokenEndpointAuthMethod : Str := []
  createdAt : ℤ := 0
  deriving DecidableEq

/-- A pending authorization session. -/
structure AuthSession where
  sessionID : Str
  clientID : Str
  redirectURI : Str
  state : Str := []
  codeChallenge : Str := []
  codeMethod : Str := []
  scope : Str := []
  createdAt : Time := 0
  deriving DecidableEq

/-- An issued authorization code. -/
structure AuthCode where
  code : Str
  clientID : Str
  userID : Str
  redirectURI : Str
  codeChallenge : Str := []
  scope : Str := []
  expiresAt : Time
  used : Bool := false
  deriving DecidableEq

/-- An issued refresh token. -/
structure RefreshToken where
  token : Str
  userID : Str
  clientID : Str
  scope : Str := []
  expiresAt : Time
  deriving DecidableEq

/-- A map from strings, as the stores and the backend keep them. -/
abbrev Table (V : Type) := AList fun _ : Str => V

/-- The entries of a map whose values satisfy `p`: what a `Cleanup` leaves. -/
def Table.filter {V : Type} (p : V → Bool) (t : Table V) : Table V :=
  ⟨t.entries.filter fun e => p e.2, t.nodupKeys.sublist List.filter_sublist⟩

/-- The four maps, in the memory of the portal or in the backend. -/
structure Stores where
  clients : Table OAuthClient := ∅
  sessions : Table AuthSession := ∅
  codes : Table AuthCode := ∅
  tokens : Table RefreshToken := ∅

/-- The state that the requests share. -/
structure State where
  /-- The clock. -/
  now : Time := 0
  /-- The maps of the four stores. -/
  mem : Stores := {}
  /-- What vire-server holds. -/
  db : Stores := {}

/-- The reply to a read of the backend: an error, 404, or a record. -/
inductive ReadReply (V : Type) where
  | failed
  | notFound
  | found (v : V)
  deriving DecidableEq

/-- The reply of a backend that answers with what it holds. -/
def ReadReply.of {V : Type} : Option V → ReadReply V
  | none => .notFound
  | some v => .found v

/-- The reply to a write to the backend. A write that fails may have taken effect all the same. -/
inductive WriteReply where
  | ok
  | failed (applied : Bool)
  deriving DecidableEq

/-- Whether the write took effect. -/
def WriteReply.applied : WriteReply → Bool
  | .ok => true
  | .failed applied => applied

/-- The reply of vire-server's `POST /api/auth/login`: no reply, a body that cannot be read, or a
status with the token of the body, `none` when the body is no JSON of the expected shape. -/
inductive LoginReply where
  | unreachable
  | unreadable
  | reply (status : ℕ) (token : Option Str)
  deriving DecidableEq

/-- What the environment decides about one operation. Each operation reads the field that concerns
it. -/
structure Env where
  client : ReadReply OAuthClient := .failed
  session : ReadReply AuthSession := .failed
  code : ReadReply AuthCode := .failed
  token : ReadReply RefreshToken := .failed
  write : WriteReply := .ok
  /-- A draw from `crypto/rand`, already formatted, or the text of its error. -/
  random : Except Str Str := .error []
  login : LoginReply := .unreachable
  /-- Whether `json.Marshal` of the claims of a token succeeds. -/
  marshal : Bool := true
  /-- Where the iteration over a map starts. -/
  start : ℕ := 0

/-- The atomic operations. -/
inductive Op where
  /-- `time.Now`. -/
  | now
  /-- `generateRandomHex`. -/
  | generateRandomHex (n : ℕ)
  /-- `generateUUID`. -/
  | generateUUID
  /-- `json.Marshal` in `mintAccessToken`, as to whether it succeeds. -/
  | marshalClaims
  /-- `ClientStore.Get`, the section under the read lock. -/
  | clientsLookup (clientID : Str)
  /-- `OAuthBackend.GetClient`. -/
  | getClient (clientID : Str)
  /-- `ClientStore.Get`, the section that caches. -/
  | clientsCache (client : OAuthClient)
  /-- `ClientStore.Put`, with `SaveClient`. -/
  | clientsPut (client : OAuthClient)
  /-- `SessionStore.Get`, the section under the read lock. -/
  | sessionsLookup (sessionID : Str)
  /-- `OAuthBackend.GetSession`. -/
  | getSession (sessionID : Str)
  /-- `SessionStore.Get` and `GetByClientID`, the section that caches. -/
  | sessionsCache (session : AuthSession)
  /-- `SessionStore.GetByClientID`, the section under the read lock. -/
  | sessionsByClientID (clientID : Str)
  /-- `OAuthBackend.GetSessionByClientID`. -/
  | getSessionByClientID (clientID : Str)
  /-- `SessionStore.Put`, with `SaveSession`. -/
  | sessionsPut (session : AuthSession)
  /-- `SessionStore.Delete`, with `DeleteSession`. -/
  | sessionsDelete (sessionID : Str)
  /-- `SessionStore.Cleanup`. -/
  | sessionsCleanup
  /-- `CodeStore.Put`, with `SaveCode`. -/
  | codesPut (code : AuthCode)
  /-- `CodeStore.Get`, the section under the read lock. -/
  | codesLookup (code : Str)
  /-- `CodeStore.MarkUsed`, with `MarkCodeUsed`. -/
  | codesMarkUsed (code : Str)
  /-- `CodeStore.ConsumeCode`, the section before the backend is read. -/
  | codesConsume (code : Str)
  /-- `OAuthBackend.GetCode`. -/
  | getCode (code : Str)
  /-- `CodeStore.ConsumeCode`, the section after the backend returned `fetched`. -/
  | codesConsumeFetched (code : Str) (fetched : AuthCode)
  /-- `OAuthBackend.MarkCodeUsed`, as `ConsumeCode` calls it. -/
  | markCodeUsed (code : Str)
  /-- `CodeStore.Cleanup`. -/
  | codesCleanup
  /-- `TokenStore.Get`, the section under the read lock. -/
  | tokensLookup (token : Str)
  /-- `OAuthBackend.LookupToken`. -/
  | lookupToken (token : Str)
  /-- `TokenStore.Get`, the section that caches. -/
  | tokensCache (token : RefreshToken)
  /-- `TokenStore.Put`, with `SaveToken`. -/
  | tokensPut (token : RefreshToken)
  /-- `TokenStore.Delete`, with `RevokeToken`. -/
  | tokensDelete (token : Str)
  /-- `TokenStore.Cleanup`. -/
  | tokensCleanup
  /-- vire-server's `POST /api/auth/login`. -/
  | postLogin (username password : Str)
  /-- The entry of `CompleteAuthorization`; it has no effect, and lets the log name the call. -/
  | completing (sessionID userID : Str)

/-- What a program receives from an operation. -/
@[reducible]
def Reply : Op → Type
  | .now => Time
  | .generateRandomHex _ => Except Str Str
  | .generateUUID => Except Str Str
  | .marshalClaims => Bool
  | .clientsLookup _ => Option OAuthClient
  | .getClient _ => ReadReply OAuthClient
  | .clientsCache _ => Unit
  | .clientsPut _ => Unit
  | .sessionsLookup _ => Option AuthSession
  | .getSession _ => ReadReply AuthSession
  | .sessionsCache _ => Unit
  | .sessionsByClientID _ => Time × Option AuthSession
  | .getSessionByClientID _ => ReadReply AuthSession
  | .sessionsPut _ => Unit
  | .sessionsDelete _ => Unit
  | .sessionsCleanup => Unit
  | .codesPut _ => Unit
  | .codesLookup _ => Option AuthCode
  | .codesMarkUsed _ => Unit
  | .codesConsume _ => Option (Option AuthCode)
  | .getCode _ => ReadReply AuthCode
  | .codesConsumeFetched _ _ => Option AuthCode
  | .markCodeUsed _ => Unit
  | .codesCleanup => Unit
  | .tokensLookup _ => Option RefreshToken
  | .lookupToken _ => ReadReply RefreshToken
  | .tokensCache _ => Unit
  | .tokensPut _ => Unit
  | .tokensDelete _ => Unit
  | .tokensCleanup => Unit
  | .postLogin _ _ => LoginReply
  | .completing _ _ => Unit

/-- `now.After(t)`. -/
def after (now t : Time) : Bool := t < now

/-- A time that has passed stays so. -/
theorem after_mono {now now' t : Time} (h : now ≤ now') (hafter : after now t = true) :
    after now' t = true :=
  decide_eq_true ((of_decide_eq_true hafter).trans_le h)

/-- A session that is past its time to live. -/
def AuthSession.expired (s : AuthSession) (now : Time) : Bool :=
  after now (s.createdAt + sessionTTL)

/-- The loop of `GetByClientID`: the live session of a client with the latest `CreatedAt`, the first
one that the iteration meets. -/
def bestSession (now : Time) (clientID : Str) : Option AuthSession → List AuthSession →
    Option AuthSession
  | best, [] => best
  | best, s :: rest =>
    if s.clientID ≠ clientID then bestSession now clientID best rest
    else if s.expired now then bestSession now clientID best rest
    else match best with
      | none => bestSession now clientID (some s) rest
      | some b =>
        bestSession now clientID (if after s.createdAt b.createdAt then some s else best) rest

/-- The iteration over a map from the place where the runtime starts it. -/
def iterate {V : Type} (t : Table V) (start : ℕ) : List V := (t.entries.map Sigma.snd).rotate start

/-- The end of `ConsumeCode` under the lock, on the record `c` cached under `code`: an expired or a
used code is refused, and another is marked used and returned. -/
def takeCode (now : Time) (code : Str) (c : AuthCode) (codes : Table AuthCode) :
    Option AuthCode × Table AuthCode :=
  if after now c.expiresAt then (none, codes)
  else if c.used then (none, codes)
  else (some { c with used := true }, codes.insert code { c with used := true })

/-- The record of a code marked used, where there is one. -/
def setUsed (code : Str) (codes : Table AuthCode) : Table AuthCode :=
  match codes.lookup code with
  | some c => codes.insert code { c with used := true }
  | none => codes

/-- The maps in memory after `f`. -/
def State.updateMem (s : State) (f : Stores → Stores) : State := { s with mem := f s.mem }

/-- The backend's records after a write with reply `w`, when there is a backend. -/
def State.updateDb (s : State) (backend : Bool) (w : WriteReply) (f : Stores → Stores) : State :=
  if backend && w.applied then { s with db := f s.db } else s

/-- What an operation replies and does. -/
def exec (backend : Bool) : (o : Op) → Env → State → Reply o × State
  | .now, _, s => (s.now, s)
  | .generateRandomHex _, e, s => (e.random, s)
  | .generateUUID, e, s => (e.random, s)
  | .marshalClaims, e, s => (e.marshal, s)
  | .clientsLookup clientID, _, s => (s.mem.clients.lookup clientID, s)
  | .getClient _, e, s => (e.client, s)
  | .clientsCache c, _, s =>
    ((), s.updateMem fun m => { m with clients := m.clients.insert c.clientID c })
  | .clientsPut c, e, s =>
    ((), (s.updateMem fun m => { m with clients := m.clients.insert c.clientID c }).updateDb
      backend e.write fun d => { d with clients := d.clients.insert c.clientID c })
  | .sessionsLookup sessionID, _, s => (s.mem.sessions.lookup sessionID, s)
  | .getSession _, e, s => (e.session, s)
  | .sessionsCache x, _, s =>
    ((), s.updateMem fun m => { m with sessions := m.sessions.insert x.sessionID x })
  | .sessionsByClientID clientID, e, s =>
    ((s.now, bestSession s.now clientID none (iterate s.mem.sessions e.start)), s)
  | .getSessionByClientID _, e, s => (e.session, s)
  | .sessionsPut x, e, s =>
    ((), (s.updateMem fun m => { m with sessions := m.sessions.insert x.sessionID x }).updateDb
      backend e.write fun d => { d with sessions := d.sessions.insert x.sessionID x })
  | .sessionsDelete sessionID, e, s =>
    ((), (s.updateMem fun m => { m with sessions := m.sessions.erase sessionID }).updateDb
      backend e.write fun d => { d with sessions := d.sessions.erase sessionID })
  | .sessionsCleanup, _, s =>
    ((), s.updateMem fun m => { m with sessions := m.sessions.filter fun x => !x.expired s.now })
  | .codesPut c, e, s =>
    ((), (s.updateMem fun m => { m with codes := m.codes.insert c.code c }).updateDb
      backend e.write fun d => { d with codes := d.codes.insert c.code c })
  | .codesLookup code, _, s => (s.mem.codes.lookup code, s)
  | .codesMarkUsed code, e, s =>
    ((), (s.updateMem fun m => { m with codes := setUsed code m.codes }).updateDb
      backend e.write fun d => { d with codes := setUsed code d.codes })
  | .codesConsume code, _, s =>
    match s.mem.codes.lookup code with
    | none => (none, s)
    | some c =>
      let r := takeCode s.now code c s.mem.codes
      (some r.1, s.updateMem fun m => { m with codes := r.2 })
  | .getCode _, e, s => (e.code, s)
  | .codesConsumeFetched code fetched, _, s =>
    match s.mem.codes.lookup code with
    | some c =>
      let r := takeCode s.now code c s.mem.codes
      (r.1, s.updateMem fun m => { m with codes := r.2 })
    | none =>
      let r := takeCode s.now code fetched (s.mem.codes.insert code fetched)
      (r.1, s.updateMem fun m => { m with codes := r.2 })
  | .markCodeUsed code, e, s =>
    ((), s.updateDb backend e.write fun d => { d with codes := setUsed code d.codes })
  | .codesCleanup, _, s =>
    ((), s.updateMem fun m => { m with codes := m.codes.filter fun c => !after s.now c.expiresAt })
  | .tokensLookup token, _, s => (s.mem.tokens.lookup token, s)
  | .lookupToken _, e, s => (e.token, s)
  | .tokensCache t, _, s =>
    ((), s.updateMem fun m => { m with tokens := m.tokens.insert t.token t })
  | .tokensPut t, e, s =>
    ((), (s.updateMem fun m => { m with tokens := m.tokens.insert t.token t }).updateDb
      backend e.write fun d => { d with tokens := d.tokens.insert t.token t })
  | .tokensDelete token, e, s =>
    ((), (s.updateMem fun m => { m with tokens := m.tokens.erase token }).updateDb
      backend e.write fun d => { d with tokens := d.tokens.erase token })
  | .tokensCleanup, _, s =>
    ((), s.updateMem fun m =>
      { m with tokens := m.tokens.filter fun t => !after s.now t.expiresAt })
  | .postLogin _ _, e, s => (e.login, s)
  | .completing _ _, _, s => ((), s)

/-- A faithful backend may fail any call, and otherwise reads back what it holds: the record under
the key, or a session of the client. -/
def Faithful : Op → Env → State → Prop
  | .getClient clientID, e, s =>
    e.client = .failed ∨ e.client = .of (s.db.clients.lookup clientID)
  | .getSession sessionID, e, s =>
    e.session = .failed ∨ e.session = .of (s.db.sessions.lookup sessionID)
  | .getSessionByClientID clientID, e, s =>
    e.session = .failed ∨
      (e.session = .notFound ∧ ∀ id x, s.db.sessions.lookup id = some x → x.clientID ≠ clientID) ∨
      ∃ x, e.session = .found x ∧ x.clientID = clientID ∧
        s.db.sessions.lookup x.sessionID = some x
  | .getCode code, e, s => e.code = .failed ∨ e.code = .of (s.db.codes.lookup code)
  | .lookupToken token, e, s => e.token = .failed ∨ e.token = .of (s.db.tokens.lookup token)
  | _, _, _ => True

/-- The clock's tick: time does not go back. -/
def tick (d : ℕ) (s : State) : State := { s with now := s.now + d }

/-- A restart of the portal: the maps in memory are empty. -/
def restart (s : State) : State := { s with mem := {} }

/-- A record that was read is there. -/
@[simp]
theorem ReadReply.of_eq_found {V : Type} {o : Option V} {v : V} :
    ReadReply.of o = .found v ↔ o = some v := by
  cases o <;> simp [ReadReply.of]

/-- What a faithful read found is there. -/
theorem ReadReply.found_of {V : Type} {r : ReadReply V} {o : Option V} {v : V}
    (h : r = .failed ∨ r = .of o) (hr : r = .found v) : o = some v := by
  rw [hr] at h
  rcases h with h | h
  · cases h
  · exact ReadReply.of_eq_found.1 h.symm

/-- What a faithful read did not find is not there. -/
theorem ReadReply.none_of {V : Type} {r : ReadReply V} {o : Option V}
    (h : r = .failed ∨ r = .of o) (hr : r = .notFound) : o = none := by
  rw [hr] at h
  rcases h with h | h
  · cases h
  · cases o with
    | none => rfl
    | some v => cases h

/-- The maps after a change of the maps. -/
@[simp]
theorem State.updateMem_mem (s : State) (f : Stores → Stores) : (s.updateMem f).mem = f s.mem := rfl

/-- A change of the maps leaves the backend. -/
@[simp]
theorem State.updateMem_db (s : State) (f : Stores → Stores) : (s.updateMem f).db = s.db := rfl

/-- A change of the maps takes no time. -/
@[simp]
theorem State.updateMem_now (s : State) (f : Stores → Stores) : (s.updateMem f).now = s.now := rfl

/-- A change of the backend leaves the maps. -/
@[simp]
theorem State.updateDb_mem (s : State) (b : Bool) (w : WriteReply) (f : Stores → Stores) :
    (s.updateDb b w f).mem = s.mem := by
  unfold State.updateDb
  split_ifs <;> rfl

/-- A change of the backend takes no time. -/
@[simp]
theorem State.updateDb_now (s : State) (b : Bool) (w : WriteReply) (f : Stores → Stores) :
    (s.updateDb b w f).now = s.now := by
  unfold State.updateDb
  split_ifs <;> rfl

/-- A write that took effect changed the backend's records, and another did not. -/
theorem State.updateDb_db (s : State) (b : Bool) (w : WriteReply) (f : Stores → Stores) :
    (s.updateDb b w f).db = if b && w.applied then f s.db else s.db := by
  unfold State.updateDb
  split_ifs <;> rfl

/-- What a map holds after an assignment. -/
theorem Table.lookup_insert {V : Type} (t : Table V) (k k' : Str) (v : V) :
    (AList.insert k v t).lookup k' = if k' = k then some v else t.lookup k' := by
  split_ifs with hk
  · subst hk
    exact AList.lookup_insert t
  · exact AList.lookup_insert_ne hk

/-- A map that is built from values with distinct keys. -/
theorem Table.lookup_foldl_insert {V : Type} {key : V → Str} {xs : List V}
    (hnodup : (xs.map key).Nodup) {k : Str} {v : V} :
    (xs.foldl (fun (t : Table V) x => t.insert (key x) x) ∅).lookup k = some v ↔ v ∈ xs ∧
      key v = k := by
  induction xs using List.reverseRecOn with
  | nil => simp
  | append_singleton xs x ih =>
    rw [List.map_append, List.nodup_append'] at hnodup
    obtain ⟨hnodup, -, hnew⟩ := hnodup
    rw [List.foldl_append, List.foldl_cons, List.foldl_nil, Table.lookup_insert]
    split_ifs with hk
    · -- The last value has its key for itself.
      constructor
      · intro h
        rw [← Option.some.inj h]
        exact ⟨by simp, hk.symm⟩
      · rintro ⟨hv, hkey⟩
        rcases List.mem_append.1 hv with hv | hv
        · refine absurd (List.mem_singleton.2 rfl : key x ∈ [x].map key) (hnew ?_)
          rw [← hk, ← hkey]
          exact List.mem_map_of_mem hv
        · rw [List.mem_singleton.1 hv]
    · rw [ih hnodup]
      constructor
      · rintro ⟨hv, hkey⟩
        exact ⟨List.mem_append_left _ hv, hkey⟩
      · rintro ⟨hv, hkey⟩
        rcases List.mem_append.1 hv with hv | hv
        · exact ⟨hv, hkey⟩
        · rw [List.mem_singleton.1 hv] at hkey
          exact absurd hkey.symm hk

/-- What a map holds after `delete`. -/
theorem Table.lookup_erase {V : Type} (t : Table V) (k k' : Str) :
    (AList.erase k t).lookup k' = if k' = k then none else t.lookup k' := by
  split_ifs with hk
  · subst hk
    exact AList.lookup_erase k' t
  · exact AList.lookup_erase_ne hk

/-- What a `Cleanup` leaves of a key. -/
theorem Table.lookup_filter {V : Type} (p : V → Bool) (t : Table V) (k : Str) :
    (t.filter p).lookup k = (t.lookup k).filter p := by
  ext v
  rw [← Option.mem_def, AList.mem_lookup_iff, Option.filter_eq_some_iff, ← Option.mem_def,
    AList.mem_lookup_iff]
  simp [Table.filter]

/-- What is left after `delete` was there before. -/
theorem Table.of_lookup_erase {V : Type} {t : Table V} {k k' : Str} {v : V}
    (h : (AList.erase k t).lookup k' = some v) : t.lookup k' = some v := by
  rw [Table.lookup_erase] at h
  split_ifs at h
  exact h

/-- What a `Cleanup` leaves was there before. -/
theorem Table.of_lookup_filter {V : Type} {p : V → Bool} {t : Table V} {k : Str} {v : V}
    (h : (t.filter p).lookup k = some v) : t.lookup k = some v := by
  rw [Table.lookup_filter, Option.filter_eq_some_iff] at h
  exact h.1

/-- The two outcomes of the end of `ConsumeCode`. -/
theorem takeCode_cases (now : Time) (code : Str) (c : AuthCode) (codes : Table AuthCode) :
    (takeCode now code c codes = (none, codes) ∧ (c.expiresAt < now ∨ c.used = true)) ∨
      (takeCode now code c codes =
          (some { c with used := true }, codes.insert code { c with used := true }) ∧
        now ≤ c.expiresAt ∧ c.used = false) := by
  unfold takeCode after
  by_cases hexp : c.expiresAt < now
  · exact .inl ⟨by simp [hexp], .inl hexp⟩
  · cases hused : c.used with
    | true => exact .inl ⟨by simp [hexp], .inr rfl⟩
    | false => exact .inr ⟨by simp [hexp], not_lt.1 hexp, rfl⟩

/-- The first section of `ConsumeCode` refuses and changes nothing, or takes the unused and
unexpired record that is cached. -/
theorem exec_codesConsume (backend : Bool) (code : Str) (e : Env) (s : State) :
    (∃ r, exec backend (.codesConsume code) e s = (r, s) ∧ ∀ c, r ≠ some (some c)) ∨
      ∃ c, s.mem.codes.lookup code = some c ∧ s.now ≤ c.expiresAt ∧ c.used = false ∧
        exec backend (.codesConsume code) e s = (some (some { c with used := true }),
          s.updateMem fun m =>
            { m with codes := m.codes.insert code { c with used := true } }) := by
  cases hlook : s.mem.codes.lookup code with
  | none => exact .inl ⟨none, by simp [exec, hlook], by simp⟩
  | some c =>
    rcases takeCode_cases s.now code c s.mem.codes with ⟨htake, -⟩ | ⟨htake, hexp, hused⟩
    · refine .inl ⟨some none, ?_, by simp⟩
      simp only [exec, hlook, htake]
      rfl
    · refine .inr ⟨c, rfl, hexp, hused, ?_⟩
      simp only [exec, hlook, htake]
      rfl

/-- The second section of `ConsumeCode`, on the record that decides it: the one that is cached, or
else the one that was fetched. It caches the record, marked used when it is taken. -/
theorem exec_codesConsumeFetched (backend : Bool) (code : Str) (f : AuthCode) (e : Env)
    (s : State) :
    ∃ c c' r t, (s.mem.codes.lookup code = some c ∨ s.mem.codes.lookup code = none ∧ c = f) ∧
      exec backend (.codesConsumeFetched code f) e s =
        (r, s.updateMem fun m => { m with codes := t }) ∧
      (∀ k, t.lookup k = if k = code then some c' else s.mem.codes.lookup k) ∧
      (r = none ∧ c' = c ∨
        r = some c' ∧ c' = { c with used := true } ∧ s.now ≤ c.expiresAt ∧ c.used = false) := by
  have hput : ∀ (c' : AuthCode) (k : Str), (AList.insert code c' s.mem.codes).lookup k =
      if k = code then some c' else s.mem.codes.lookup k := fun c' k => Table.lookup_insert _ _ _ _
  cases hlook : s.mem.codes.lookup code with
  | some c =>
    rcases takeCode_cases s.now code c s.mem.codes with ⟨htake, -⟩ | ⟨htake, hexp, hused⟩
    · refine ⟨c, c, none, s.mem.codes, .inl rfl, ?_, fun k => ?_, .inl ⟨rfl, rfl⟩⟩
      · simp only [exec, hlook, htake]
      · split_ifs with hk
        · rw [hk, hlook]
        · rfl
    · refine ⟨c, _, _, _, .inl rfl, ?_, hput _, .inr ⟨rfl, rfl, hexp, hused⟩⟩
      simp only [exec, hlook, htake]
  -- Nobody has cached the code meanwhile, so the fetched record is the one.
  | none =>
    rcases takeCode_cases s.now code f (s.mem.codes.insert code f) with
      ⟨htake, -⟩ | ⟨htake, hexp, hused⟩
    · refine ⟨f, f, none, _, .inr ⟨rfl, rfl⟩, ?_, hput f, .inl ⟨rfl, rfl⟩⟩
      simp only [exec, hlook, htake]
    · refine ⟨f, _, _, AList.insert code { f with used := true } (s.mem.codes.insert code f),
        .inr ⟨rfl, rfl⟩, ?_, fun k => ?_, .inr ⟨rfl, rfl, hexp, hused⟩⟩
      · simp only [exec, hlook, htake]
      · rw [Table.lookup_insert, Table.lookup_insert]
        split_ifs <;> rfl

/-- Marking a code used changes its own record only, and there only the flag. -/
theorem lookup_setUsed (code k : Str) (codes : Table AuthCode) :
    (setUsed code codes).lookup k =
      (codes.lookup k).map fun c => if k = code then { c with used := true } else c := by
  unfold setUsed
  cases h : codes.lookup code with
  | none =>
    by_cases hk : k = code
    · subst hk; simp [h]
    · simp [hk]
  | some c =>
    by_cases hk : k = code
    · subst hk; simp [h]
    · rw [AList.lookup_insert_ne hk]; simp [hk]

/-- The records of a map whose keys satisfy `P` are under their own keys. -/
def KeyedBy {V : Type} (P : Str → Prop) (key : V → Str) (t : Table V) : Prop :=
  ∀ k v, P k → t.lookup k = some v → key v = k

section KeyedBy

variable {V : Type} {P : Str → Prop} {key : V → Str} {t : Table V}

/-- An assignment of a record to its own key. -/
theorem KeyedBy.insert (h : KeyedBy P key t) {k : Str} {v : V} (hv : P k → key v = k) :
    KeyedBy P key (AList.insert k v t) := by
  intro k' v' hk' hlook
  rw [Table.lookup_insert] at hlook
  split_ifs at hlook with heq
  · subst heq
    exact Option.some.inj hlook ▸ hv hk'
  · exact h k' v' hk' hlook

/-- A deletion leaves the other records where they are. -/
theorem KeyedBy.erase (h : KeyedBy P key t) (k : Str) : KeyedBy P key (AList.erase k t) :=
  fun k' v hk' hlook => h k' v hk' (Table.of_lookup_erase hlook)

/-- So does a `Cleanup`. -/
theorem KeyedBy.filter (h : KeyedBy P key t) (p : V → Bool) : KeyedBy P key (t.filter p) :=
  fun k v hk hlook => h k v hk (Table.of_lookup_filter hlook)

/-- The map of a store that has just started. -/
theorem KeyedBy.empty : KeyedBy P key ∅ := by
  intro k v _ hlook
  simp at hlook

/-- Marking a code used does not move it. -/
theorem KeyedBy.setUsed {t : Table AuthCode} (h : KeyedBy P AuthCode.code t) (code : Str) :
    KeyedBy P AuthCode.code (setUsed code t) := by
  intro k c hk hlook
  rw [lookup_setUsed, Option.map_eq_some_iff] at hlook
  obtain ⟨c0, hc0, rfl⟩ := hlook
  split_ifs <;> exact h k c0 hk hc0

end KeyedBy

/-- One of the four maps. -/
inductive Kind where
  | clients
  | sessions
  | codes
  | tokens
  deriving DecidableEq

/-- The map that an operation may change. -/
def Op.changes : Op → Option Kind
  | .clientsCache _ | .clientsPut _ => some .clients
  | .sessionsCache _ | .sessionsPut _ | .sessionsDelete _ | .sessionsCleanup => some .sessions
  | .codesPut _ | .codesMarkUsed _ | .codesConsume _ | .codesConsumeFetched _ _ | .markCodeUsed _
  | .codesCleanup => some .codes
  | .tokensCache _ | .tokensPut _ | .tokensDelete _ | .tokensCleanup => some .tokens
  | _ => none

/-- The states that are `s` up to one of the maps, in memory and in the backend. -/
inductive Touches (s : State) : Option Kind → State → Prop
  | none : Touches s none s
  | clients (m d : Table OAuthClient) : Touches s (some .clients)
      { s with mem := { s.mem with clients := m }, db := { s.db with clients := d } }
  | sessions (m d : Table AuthSession) : Touches s (some .sessions)
      { s with mem := { s.mem with sessions := m }, db := { s.db with sessions := d } }
  | codes (m d : Table AuthCode) : Touches s (some .codes)
      { s with mem := { s.mem with codes := m }, db := { s.db with codes := d } }
  | tokens (m d : Table RefreshToken) : Touches s (some .tokens)
      { s with mem := { s.mem with tokens := m }, db := { s.db with tokens := d } }

/-- What holds whether a write to the backend takes effect or not holds after it. -/
theorem State.updateDb_of {P : State → Prop} {s : State} {b : Bool} {w : WriteReply}
    {f : Stores → Stores} (h : P s) (hf : P { s with db := f s.db }) : P (s.updateDb b w f) := by
  unfold State.updateDb
  split_ifs
  · exact hf
  · exact h

/-- An operation changes its own map only. -/
theorem exec_touches (backend : Bool) (o : Op) (e : Env) (s : State) :
    Touches s o.changes (exec backend o e s).2 := by
  cases o with
  | codesConsume code =>
    rcases exec_codesConsume backend code e s with ⟨r, hex, -⟩ | ⟨c, -, -, -, hex⟩
    · rw [hex]
      exact Touches.codes s.mem.codes s.db.codes
    · rw [hex]
      exact Touches.codes _ s.db.codes
  | codesConsumeFetched code f =>
    obtain ⟨c, c', r, t, -, hex, -, -⟩ := exec_codesConsumeFetched backend code f e s
    rw [hex]
    exact Touches.codes t s.db.codes
  | clientsPut x =>
    simp only [exec]
    refine State.updateDb_of (P := Touches s _) ?_ ?_
    · exact .clients _ s.db.clients
    · exact .clients _ _
  | sessionsPut x | sessionsDelete x =>
    simp only [exec]
    refine State.updateDb_of (P := Touches s _) ?_ ?_
    · exact .sessions _ s.db.sessions
    · exact .sessions _ _
  | codesPut x | codesMarkUsed x =>
    simp only [exec]
    refine State.updateDb_of (P := Touches s _) ?_ ?_
    · exact .codes _ s.db.codes
    · exact .codes _ _
  | markCodeUsed x =>
    simp only [exec]
    refine State.updateDb_of (P := Touches s _) ?_ ?_
    · exact .codes s.mem.codes s.db.codes
    · exact .codes s.mem.codes _
  | tokensPut x | tokensDelete x =>
    simp only [exec]
    refine State.updateDb_of (P := Touches s _) ?_ ?_
    · exact .tokens _ s.db.tokens
    · exact .tokens _ _
  | clientsCache x => exact Touches.clients _ s.db.clients
  | sessionsCache | sessionsCleanup => exact Touches.sessions _ s.db.sessions
  | codesCleanup => exact Touches.codes _ s.db.codes
  | tokensCache | tokensCleanup => exact Touches.tokens _ s.db.tokens
  | now | generateRandomHex | generateUUID | marshalClaims | clientsLookup | getClient
  | sessionsLookup | getSession | sessionsByClientID | getSessionByClientID | codesLookup | getCode
  | tokensLookup | lookupToken | postLogin | completing => exact Touches.none

/-- No operation moves the clock. -/
@[simp]
theorem exec_now (backend : Bool) (o : Op) (e : Env) (s : State) :
    (exec backend o e s).2.now = s.now := by
  have h := exec_touches backend o e s
  generalize o.changes = k, (exec backend o e s).2 = s' at h
  cases h <;> rfl

section Frame

variable (backend : Bool) {o : Op} (e : Env) (s : State)

/-- The clients change by their own operations only. -/
theorem exec_clients (ho : o.changes ≠ some .clients) :
    (exec backend o e s).2.mem.clients = s.mem.clients ∧
      (exec backend o e s).2.db.clients = s.db.clients := by
  have h := exec_touches backend o e s
  generalize o.changes = k, (exec backend o e s).2 = s' at h ho
  cases h <;> first | exact ⟨rfl, rfl⟩ | exact absurd rfl ho

/-- The sessions change by their own operations only. -/
theorem exec_sessions (ho : o.changes ≠ some .sessions) :
    (exec backend o e s).2.mem.sessions = s.mem.sessions ∧
      (exec backend o e s).2.db.sessions = s.db.sessions := by
  have h := exec_touches backend o e s
  generalize o.changes = k, (exec backend o e s).2 = s' at h ho
  cases h <;> first | exact ⟨rfl, rfl⟩ | exact absurd rfl ho

/-- The codes change by their own operations only. -/
theorem exec_codes (ho : o.changes ≠ some .codes) :
    (exec backend o e s).2.mem.codes = s.mem.codes ∧
      (exec backend o e s).2.db.codes = s.db.codes := by
  have h := exec_touches backend o e s
  generalize o.changes = k, (exec backend o e s).2 = s' at h ho
  cases h <;> first | exact ⟨rfl, rfl⟩ | exact absurd rfl ho

/-- The tokens change by their own operations only. -/
theorem exec_tokens (ho : o.changes ≠ some .tokens) :
    (exec backend o e s).2.mem.tokens = s.mem.tokens ∧
      (exec backend o e s).2.db.tokens = s.db.tokens := by
  have h := exec_touches backend o e s
  generalize o.changes = k, (exec backend o e s).2 = s' at h ho
  cases h <;> first | exact ⟨rfl, rfl⟩ | exact absurd rfl ho

end Frame

/-- A program over the operations. -/
abbrev M := Prog Op Reply

/-- One operation. -/
abbrev perform (o : Op) : M (Reply o) := Prog.call o

/-- The portal process that serves the calls `C`: their programs, the clock and restarts. -/
def server {C R : Type} (backend : Bool) (handle : C → M R) :
    System Op Reply State Env ℕ C R :=
  ⟨exec backend, handle, tick, restart⟩

end VirePortal.Auth
