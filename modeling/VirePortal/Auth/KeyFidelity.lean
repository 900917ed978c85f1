import VirePortal.Auth.Backend

/-!
# A request for an id reaches the record of that id

The ids that the stores are asked for come from cookies, from query strings and from the form of the
token endpoint, and `backend.go` puts them into its URLs without encoding them. The pool here runs
the methods of the three stores over a backend that routes by the URL (`routed`) and answers with
the record under the key that the URL names (`Answers`). Its records may change at any time, as long
as each stays under its own key.

`key_fidelity` says for which ids a request fails or names the record of the id, so that `Get` and
`ConsumeCode` return a record with that key and mark that record used: those that are refused and
those that stand for themselves (`Sound`). What other ids were asked for does not matter. `Get`
caches a record under its own key. `ConsumeCode` caches it under the key that was asked for, which
the invariant says only of the ids that are addressed.
-/

namespace VirePortal.Auth.KeyFidelity

open Go Concurrent

/-- The calls of the pool. -/
inductive Call where
  | getClient (clientID : Str)
  | putClient (client : OAuthClient)
  | getSession (sessionID : Str)
  | getSessionByClientID (clientID : Str)
  | putSession (session : AuthSession)
  | deleteSession (sessionID : Str)
  | cleanupSessions
  | consumeCode (code : Str)
  | putCode (code : AuthCode)
  | markUsed (code : Str)
  | cleanupCodes
  deriving DecidableEq

/-- The program of a call. Its result is the own key of the record that the method returns. -/
def handle : Call → M (Option Str)
  | .getClient clientID => do return (← ClientStore.get true clientID).map OAuthClient.clientID
  | .putClient client => do ClientStore.put client; return none
  | .getSession sessionID => do return (← SessionStore.get true sessionID).map AuthSession.sessionID
  | .getSessionByClientID clientID => do
    return (← SessionStore.getByClientID true clientID).map AuthSession.sessionID
  | .putSession session => do SessionStore.put session; return none
  | .deleteSession sessionID => do SessionStore.delete sessionID; return none
  | .cleanupSessions => do SessionStore.cleanup; return none
  | .consumeCode code => do return (← CodeStore.consumeCode true code).map AuthCode.code
  | .putCode code => do CodeStore.put code; return none
  | .markUsed code => do CodeStore.markUsed code; return none
  | .cleanupCodes => do CodeStore.cleanup; return none

/-- The request to the backend that a call for a key makes, and the key. -/
def Call.asks : Call → Option (Endpoint × Str)
  | .getClient clientID => some (.getClient, clientID)
  | .getSession sessionID => some (.getSession, sessionID)
  | .consumeCode code => some (.getCode, code)
  | _ => none

/-- What happens outside of the portal: time passes, and the records of the backend change. -/
inductive External where
  | tick (d : ℕ)
  | store (d : Stores)

/-- The effect of an event outside of the portal. -/
def external : External → State → State
  | .tick d, s => tick d s
  | .store d, s => { s with db := d }

/-- An entry of the pool's log. -/
abbrev KeyEntry := Entry Op Reply State External Call (Option Str)

/-- The records of clients and sessions are under their own keys, and so are the codes under keys
with `P`. -/
structure StoresKeyed (P : Str → Prop) (m : Stores) : Prop where
  clients : KeyedBy (fun _ => True) OAuthClient.clientID m.clients
  sessions : KeyedBy (fun _ => True) AuthSession.sessionID m.sessions
  codes : KeyedBy P AuthCode.code m.codes

/-- What the runs assume: the backend routes by the URL and answers with what it holds under the
key, and it holds each record under its own key. -/
def assumption (b : Base) : Assumption Op Reply State Env External Call (Option Str) where
  op _ o e s _ := match o with
    | .getClient clientID => Answers b .getClient clientID e.client s.db.clients
    | .getSession sessionID => Answers b .getSession sessionID e.session s.db.sessions
    | .getCode code => Answers b .getCode code e.code s.db.codes
    | _ => True
  env x _ _ := match x with
    | .tick _ => True
    | .store d => StoresKeyed (fun _ => True) d

/-- The pool. -/
abbrev pool (b : Base) : System Op Reply State Env External Call (Option Str) :=
  ⟨routed b, handle, external, restart⟩

/-- A process that has just started, over a backend that holds each record under its own key. -/
structure Started (s : State) : Prop where
  mem : s.mem = {}
  db : StoresKeyed (fun _ => True) s.db

/-- The calls for the id return the record of the id, in every run of the pool, and a code that is
fetched or returned is the one that is marked used. -/
def RecordKept (b : Base) : Endpoint → Str → Prop
  | .getClient, id => ∀ s0 c, Started s0 → Reachable (pool b) (assumption b) s0 c →
      ∀ e ∈ c.log, ∀ tid k, e.event = .done ⟨tid, .getClient id⟩ (some k) → k = id
  | .getSession, id => ∀ s0 c, Started s0 → Reachable (pool b) (assumption b) s0 c →
      ∀ e ∈ c.log, ∀ tid k, e.event = .done ⟨tid, .getSession id⟩ (some k) → k = id
  | .getCode, id => ∀ s0 c, Started s0 → Reachable (pool b) (assumption b) s0 c →
      (∀ e ∈ c.log, ∀ tid k, e.event = .done ⟨tid, .consumeCode id⟩ (some k) →
        k = id ∧ ∀ k', Endpoint.markCodeUsed.address b id = some k' → k' = k) ∧
      ∀ e ∈ c.log, ∀ w f, e.event = .op w (.getCode id) (.found f) →
        ∀ k', Endpoint.markCodeUsed.address b id = some k' → k' = f.code
  | _, _ => True

/-- Key fidelity of a request for an id: its URL is refused or names the record of the id, and the
stores return and mark that record. -/
def Fidelity (b : Base) (e : Endpoint) (id : Str) : Prop := Addressed b e id ∧ RecordKept b e id

/-! ### Maps with records under their own keys -/

section Stores

variable {P : Str → Prop} {m : Stores}

section

variable (h : StoresKeyed P m)
include h

/-- A client is stored under its id. -/
theorem StoresKeyed.putClient (c : OAuthClient) :
    StoresKeyed P { m with clients := m.clients.insert c.clientID c } :=
  ⟨h.clients.insert fun _ => rfl, h.sessions, h.codes⟩

/-- A session is stored under its id. -/
theorem StoresKeyed.putSession (x : AuthSession) :
    StoresKeyed P { m with sessions := m.sessions.insert x.sessionID x } :=
  ⟨h.clients, h.sessions.insert fun _ => rfl, h.codes⟩

/-- A code is stored under itself. -/
theorem StoresKeyed.putCode (c : AuthCode) :
    StoresKeyed P { m with codes := m.codes.insert c.code c } :=
  ⟨h.clients, h.sessions, h.codes.insert fun _ => rfl⟩

/-- A deletion keeps the keys. -/
theorem StoresKeyed.eraseSession (id : Str) :
    StoresKeyed P { m with sessions := m.sessions.erase id } :=
  ⟨h.clients, h.sessions.erase id, h.codes⟩

/-- A mark keeps the keys. -/
theorem StoresKeyed.markUsed (code : Str) :
    StoresKeyed P { m with codes := setUsed code m.codes } :=
  ⟨h.clients, h.sessions, h.codes.setUsed code⟩

/-- A write by URL keeps the keys. -/
theorem StoresKeyed.atKey {k : Option Str} {f : Str → Stores → Stores}
    (hf : ∀ k, StoresKeyed P (f k m)) : StoresKeyed P (atKey k f m) := by
  cases k with
  | none => exact h
  | some k => exact hf k

end

/-- A write, whether it takes effect or not. -/
theorem StoresKeyed.write {s : State} {backend : Bool} {w : WriteReply} {f : Stores → Stores}
    (hmem : StoresKeyed P s.mem) (hdb : StoresKeyed (fun _ => True) s.db)
    (hf : StoresKeyed (fun _ => True) (f s.db)) :
    StoresKeyed P (s.updateDb backend w f).mem ∧
      StoresKeyed (fun _ => True) (s.updateDb backend w f).db := by
  rw [State.updateDb_mem, State.updateDb_db]
  split_ifs
  · exact ⟨hmem, hf⟩
  · exact ⟨hmem, hdb⟩

end Stores

/-- An operation leaves the records under their own keys, if a fetched code that is cached under a
key with `P` is the code of that key. -/
theorem routed_keyed (b : Base) {P : Str → Prop} {o : Op} (e : Env) {s : State}
    (hmem : StoresKeyed P s.mem) (hdb : StoresKeyed (fun _ => True) s.db)
    (hfetched : ∀ code f, o = .codesConsumeFetched code f → P code → f.code = code) :
    StoresKeyed P (routed b o e s).2.mem ∧ StoresKeyed (fun _ => True) (routed b o e s).2.db := by
  cases o with
  | clientsCache c => exact ⟨hmem.putClient c, hdb⟩
  | clientsPut c => exact StoresKeyed.write (hmem.putClient c) hdb (hdb.putClient c)
  | sessionsCache x => exact ⟨hmem.putSession x, hdb⟩
  | sessionsPut x => exact StoresKeyed.write (hmem.putSession x) hdb (hdb.putSession x)
  | sessionsDelete id =>
    exact StoresKeyed.write (hmem.eraseSession id) hdb (hdb.atKey hdb.eraseSession)
  | sessionsCleanup => exact ⟨⟨hmem.clients, hmem.sessions.filter _, hmem.codes⟩, hdb⟩
  | codesPut c => exact StoresKeyed.write (hmem.putCode c) hdb (hdb.putCode c)
  | codesMarkUsed code => exact StoresKeyed.write (hmem.markUsed code) hdb (hdb.atKey hdb.markUsed)
  | codesConsume code =>
    show StoresKeyed P (exec true _ e s).2.mem ∧ StoresKeyed _ (exec true _ e s).2.db
    rcases exec_codesConsume true code e s with ⟨r, hex, -⟩ | ⟨c, hlook, -, -, hex⟩
    · rw [hex]
      exact ⟨hmem, hdb⟩
    · rw [hex]
      refine ⟨⟨hmem.clients, hmem.sessions, hmem.codes.insert fun hP => ?_⟩, hdb⟩
      exact hmem.codes code c hP hlook
  -- `ConsumeCode` caches the fetched record under the key that was asked for.
  | codesConsumeFetched code f =>
    obtain ⟨c, c', r, t, hc, hex, ht, hr⟩ := exec_codesConsumeFetched true code f e s
    have hcode : P code → c'.code = code := by
      intro hP
      have hkey : c.code = code := by
        rcases hc with hlook | ⟨-, rfl⟩
        · exact hmem.codes code c hP hlook
        · exact hfetched code c rfl hP
      rcases hr with ⟨-, rfl⟩ | ⟨-, rfl, -, -⟩ <;> exact hkey
    show StoresKeyed P (exec true _ e s).2.mem ∧ StoresKeyed _ (exec true _ e s).2.db
    rw [hex]
    refine ⟨⟨hmem.clients, hmem.sessions, fun k v hP hlook => ?_⟩, hdb⟩
    rw [State.updateMem_mem, ht] at hlook
    split_ifs at hlook with hk
    · subst hk
      exact Option.some.inj hlook ▸ hcode hP
    · exact hmem.codes k v hP hlook
  | markCodeUsed code => exact StoresKeyed.write hmem hdb (hdb.atKey hdb.markUsed)
  | codesCleanup => exact ⟨⟨hmem.clients, hmem.sessions, hmem.codes.filter _⟩, hdb⟩
  | tokensPut | tokensDelete =>
    exact StoresKeyed.write ⟨hmem.clients, hmem.sessions, hmem.codes⟩ hdb
      ⟨hdb.clients, hdb.sessions, hdb.codes⟩
  | tokensCache | tokensCleanup => exact ⟨⟨hmem.clients, hmem.sessions, hmem.codes⟩, hdb⟩
  | now | generateRandomHex | generateUUID | marshalClaims | clientsLookup | getClient
  | sessionsLookup | getSession | sessionsByClientID | getSessionByClientID | codesLookup | getCode
  | tokensLookup | lookupToken | postLogin | completing => exact ⟨hmem, hdb⟩

/-! ### The invariant -/

/-- What the log says of a key that is addressed: a call for it returned that key, and a code that
the backend returned for it has that key. -/
structure Kept (b : Base) (ev : Event Op Reply External Call (Option Str)) : Prop where
  returned : ∀ w k e id, ev = .done w (some k) → w.call.asks = some (e, id) →
    Addressed b e id → k = id
  fetched : ∀ w id f, ev = .op w (.getCode id) (.found f) → Addressed b .getCode id → f.code = id

/-- The invariant of the pool. -/
structure Inv (b : Base) (s : State) (L : List KeyEntry) : Prop where
  mem : StoresKeyed (Addressed b .getCode) s.mem
  db : StoresKeyed (fun _ => True) s.db
  log : ∀ e ∈ L, Kept b e.event

variable {b : Base} {s s' : State} {L : List KeyEntry} {w : Caller Call}

/-- An entry that returns the right record. -/
theorem Inv.cons (h : Inv b s L) {e : KeyEntry} (hmem : StoresKeyed (Addressed b .getCode) s'.mem)
    (hdb : StoresKeyed (fun _ => True) s'.db) (he : Kept b e.event) : Inv b s' (e :: L) := by
  refine ⟨hmem, hdb, fun e' he' => ?_⟩
  rcases List.mem_cons.1 he' with rfl | he'
  · exact he
  · exact h.log e' he'

/-- An operation keeps the invariant, if a fetched code that it caches under an addressed key is the
code of that key. -/
theorem Inv.op (h : Inv b s L) {o : Op} {e : Env} (hA : (assumption b).op w o e s L)
    (hfetched : ∀ code f, o = .codesConsumeFetched code f → Addressed b .getCode code →
      f.code = code) :
    Inv b ((pool b).exec o e s).2 ((pool b).entry w o e s :: L) := by
  obtain ⟨hmem, hdb⟩ := routed_keyed b e h.mem h.db hfetched
  refine h.cons hmem hdb ⟨by simp, fun w' id f hev hid => ?_⟩
  obtain ⟨-, rfl, hr⟩ := Event.op.inj hev
  exact h.db.codes id f trivial (Answers.lookup hA hid (eq_of_heq hr))

/-- An operation other than the second section of `ConsumeCode`. -/
theorem keeps {o : Op} (ho : ∀ code f, o ≠ .codesConsumeFetched code f) :
    Keeps (pool b) (assumption b) (Inv b) w o :=
  fun _ _ _ h hA => h.op hA fun code f heq => absurd heq (ho code f)

/-- The outline of `ClientStore.Get`. -/
theorem outline_clientGet (clientID : Str) (L : List KeyEntry) :
    Outline (pool b) (assumption b) (Inv b) w
      (fun r _ => ∀ c, r = some c → Addressed b .getClient clientID → c.clientID = clientID)
      (ClientStore.get true clientID) L := by
  unfold ClientStore.get
  refine (keeps (by simp)).bind fun s L1 e _ hI _ => ?_
  rcases hr : ((pool b).exec (.clientsLookup clientID) e s).1 with _ | c
  · refine (keeps (by simp)).bind fun s2 L2 e2 _ hI2 hA2 => ?_
    rcases hr2 : ((pool b).exec (.getClient clientID) e2 s2).1 with _ | _ | c
    · exact nofun
    · exact nofun
    · refine (keeps (by simp)).bind fun s3 L3 e3 _ _ _ => ?_
      intro c' hc' hid
      cases hc'
      exact hI2.db.clients clientID c trivial (Answers.lookup hA2 hid hr2)
  · intro c' hc' _
    cases hc'
    exact hI.mem.clients clientID c trivial hr

/-- The outline of the end of `SessionStore.Get`. -/
theorem outline_sessionLive {Q : Prop} {sessionID : Str} {x : AuthSession}
    (hx : Q → x.sessionID = sessionID) (L : List KeyEntry) :
    Outline (pool b) (assumption b) (Inv b) w
      (fun r _ => ∀ y, r = some y → Q → y.sessionID = sessionID) (SessionStore.live x) L := by
  unfold SessionStore.live
  refine (keeps (by simp)).bind fun s L1 e _ _ _ => ?_
  intro y hy hQ
  split_ifs at hy
  cases hy
  exact hx hQ

/-- The outline of `SessionStore.Get`. -/
theorem outline_sessionGet (sessionID : Str) (L : List KeyEntry) :
    Outline (pool b) (assumption b) (Inv b) w
      (fun r _ => ∀ x, r = some x → Addressed b .getSession sessionID → x.sessionID = sessionID)
      (SessionStore.get true sessionID) L := by
  unfold SessionStore.get
  refine (keeps (by simp)).bind fun s L1 e _ hI _ => ?_
  rcases hr : ((pool b).exec (.sessionsLookup sessionID) e s).1 with _ | x
  · refine (keeps (by simp)).bind fun s2 L2 e2 _ hI2 hA2 => ?_
    rcases hr2 : ((pool b).exec (.getSession sessionID) e2 s2).1 with _ | _ | x
    · exact nofun
    · exact nofun
    · refine (keeps (by simp)).bind fun s3 L3 e3 _ _ _ => ?_
      refine outline_sessionLive (fun hid => ?_) _
      exact hI2.db.sessions sessionID x trivial (Answers.lookup hA2 hid hr2)
  · exact outline_sessionLive (fun _ => hI.mem.sessions sessionID x trivial hr) _

/-- The outline of the end of `ConsumeCode`. -/
theorem outline_confirm {code : Str} {r : Option AuthCode}
    (hr : ∀ c, r = some c → Addressed b .getCode code → c.code = code) (L : List KeyEntry) :
    Outline (pool b) (assumption b) (Inv b) w
      (fun r' _ => ∀ c, r' = some c → Addressed b .getCode code → c.code = code)
      (CodeStore.confirm true code r) L := by
  cases r with
  | none => exact nofun
  | some c =>
    show Outline (pool b) _ _ _ _ (perform (.markCodeUsed code) >>= fun _ => pure (some c)) L
    exact (keeps (by simp)).bind fun _ _ _ _ _ _ => hr

/-- The outline of `ConsumeCode`. -/
theorem outline_consumeCode (code : Str) (L : List KeyEntry) :
    Outline (pool b) (assumption b) (Inv b) w
      (fun r _ => ∀ c, r = some c → Addressed b .getCode code → c.code = code)
      (CodeStore.consumeCode true code) L := by
  unfold CodeStore.consumeCode
  refine (keeps (by simp)).bind fun s L1 e _ hI _ => ?_
  rcases hr : ((pool b).exec (.codesConsume code) e s).1 with _ | r
  · refine (keeps (by simp)).bind fun s2 L2 e2 _ hI2 hA2 => ?_
    rcases hr2 : ((pool b).exec (.getCode code) e2 s2).1 with _ | _ | f
    · exact nofun
    · exact nofun
    · have hf : Addressed b .getCode code → f.code = code := fun hid =>
        hI2.db.codes code f trivial (Answers.lookup hA2 hid hr2)
      refine outline_step.2 fun s3 L3 e3 _ hI3 hA3 => ⟨?_, ?_⟩
      · refine hI3.op hA3 fun code' f' heq => ?_
        obtain ⟨rfl, rfl⟩ := Op.codesConsumeFetched.inj heq
        exact hf
      · refine outline_confirm (fun c hc hid => ?_) _
        -- The record that decides is the one that is cached by now, or the fetched one.
        obtain ⟨c0, c', r, t, hc0, hex, -, hcases⟩ := exec_codesConsumeFetched true code f e3 s3
        have hkey : c0.code = code := by
          rcases hc0 with hlook | ⟨-, rfl⟩
          · exact hI3.mem.codes code c0 hid hlook
          · exact hf hid
        have hreply : r = some c := (congrArg Prod.fst hex).symm.trans hc
        rcases hcases with ⟨hnone, -⟩ | ⟨hsome, rfl, -, -⟩
        · rw [hnone] at hreply
          cases hreply
        · rw [hsome] at hreply
          exact Option.some.inj hreply ▸ hkey
  · refine outline_confirm (fun c hc hid => ?_) _
    subst hc
    rcases exec_codesConsume true code e s with ⟨r, hex, hno⟩ | ⟨c0, hlook, -, -, hex⟩
    · exact absurd ((congrArg Prod.fst hex).symm.trans hr) (hno c)
    · have hreply := (congrArg Prod.fst hex).symm.trans hr
      obtain rfl := Option.some.inj (Option.some.inj hreply)
      exact hI.mem.codes code c0 hid hlook

/-- A result keeps the invariant, when it is the key that was asked for. -/
theorem delivers {r : Option Str} {L : List KeyEntry}
    (hr : ∀ k e id, r = some k → w.call.asks = some (e, id) → Addressed b e id → k = id) :
    Delivers (assumption b) (Inv b) w r L := by
  intro s L' _ hI _
  refine hI.cons hI.mem hI.db ⟨fun w' k e id hev => ?_, by simp⟩
  obtain ⟨rfl, rfl⟩ := Event.done.inj hev
  exact hr k e id rfl

/-- The outline of a call that asks for no key. -/
theorem outline_silent {α : Type} {p : M α} {f : α → Option Str}
    (hp : p.All fun o => ∀ code g, o ≠ .codesConsumeFetched code g) (hw : w.call.asks = none)
    (L : List KeyEntry) :
    Outline (pool b) (assumption b) (Inv b) w (Delivers (assumption b) (Inv b) w)
      (p >>= fun a => pure (f a)) L := by
  refine (Outline.of_all (hp.imp fun _ ho => keeps ho) L).bind fun a L' _ _ => ?_
  exact delivers (by simp [hw])

/-- The lookup of a session by its client caches nothing of the codes. -/
theorem getByClientID_all (clientID : Str) : (SessionStore.getByClientID true clientID).All
    fun o => ∀ code g, o ≠ .codesConsumeFetched code g := by
  unfold SessionStore.getByClientID
  refine Prog.all_bind (by simp) fun r => ?_
  rcases r with ⟨now, _ | x⟩
  · refine Prog.all_bind (by simp) fun r => ?_
    rcases r with _ | _ | x
    · exact Prog.all_pure _ _
    · exact Prog.all_pure _ _
    · show Prog.All _ (if x.expired now then _ else _)
      split_ifs
      · exact Prog.all_pure _ _
      · exact Prog.all_bind (by simp) fun _ => Prog.all_pure _ _
  · exact Prog.all_pure _ _

/-- The outline of a call for a key, from that of the method. -/
theorem outline_asks {V : Type} {key : V → Str} {p : M (Option V)} {e : Endpoint} {id : Str}
    {L : List KeyEntry}
    (hp : Outline (pool b) (assumption b) (Inv b) w
      (fun r _ => ∀ v, r = some v → Addressed b e id → key v = id) p L)
    (hw : w.call.asks = some (e, id)) :
    Outline (pool b) (assumption b) (Inv b) w (Delivers (assumption b) (Inv b) w)
      (p >>= fun r => pure (r.map key)) L := by
  refine hp.bind fun r L' _ hr => delivers fun k e' id' hk hasks haddressed => ?_
  rw [hw, Option.some.injEq, Prod.mk.injEq] at hasks
  obtain ⟨rfl, rfl⟩ := hasks
  obtain ⟨v, hv, rfl⟩ := Option.map_eq_some_iff.1 hk
  exact hr v hv haddressed

/-- The pool is verified from a process that has just started. -/
theorem verified {s0 : State} (hs0 : Started s0) : Verified (pool b) (assumption b) (Inv b) s0 where
  init := by
    refine ⟨?_, hs0.db, by simp⟩
    rw [hs0.mem]
    exact ⟨KeyedBy.empty, KeyedBy.empty, KeyedBy.empty⟩
  call s L w h _ _ := by
    refine ⟨h.cons h.mem h.db ⟨by simp, by simp⟩, ?_⟩
    obtain ⟨tid, q⟩ := w
    cases q with
    | getClient id => exact outline_asks (outline_clientGet id _) rfl
    | getSession id => exact outline_asks (outline_sessionGet id _) rfl
    | consumeCode code => exact outline_asks (outline_consumeCode code _) rfl
    | getSessionByClientID id => exact outline_silent (getByClientID_all id) rfl _
    | putClient | putSession | deleteSession | cleanupSessions | putCode | markUsed |
        cleanupCodes =>
      exact outline_silent ((Prog.all_call _ _).2 (by simp)) rfl _
  env s L x h hx := by
    cases x with
    | tick d => exact h.cons h.mem h.db ⟨by simp, by simp⟩
    | store d => exact h.cons h.mem hx ⟨by simp, by simp⟩
  crash s L h _ :=
    h.cons ⟨KeyedBy.empty, KeyedBy.empty, KeyedBy.empty⟩ h.db ⟨by simp, by simp⟩

/-- The calls for an addressed id return and mark the record of the id. -/
theorem recordKept {e : Endpoint} {id : Str} (hid : Addressed b e id) : RecordKept b e id := by
  have hmark : e = .getCode → ∀ k', Endpoint.markCodeUsed.address b id = some k' → k' = id := by
    rintro rfl k' hk'
    rcases hid.markCodeUsed with hrefused | haddress
    · rw [Endpoint.address, hrefused] at hk'
      cases hk'
    · exact Option.some.inj (hk'.symm.trans haddress)
  cases e with
  | getClient =>
    intro s0 c hs0 hc e he tid k hev
    exact ((hc.invariant (verified hs0)).log e he).returned _ k _ id hev rfl hid
  | getSession =>
    intro s0 c hs0 hc e he tid k hev
    exact ((hc.invariant (verified hs0)).log e he).returned _ k _ id hev rfl hid
  | getCode =>
    intro s0 c hs0 hc
    have hI := hc.invariant (verified hs0)
    constructor
    · intro e he tid k hev
      have hk := (hI.log e he).returned _ k _ id hev rfl hid
      exact ⟨hk, hk ▸ hmark rfl⟩
    · intro e he w f hev
      exact (hI.log e he).fetched w id f hev hid ▸ hmark rfl
  | getSessionByClientID | deleteSession | markCodeUsed => trivial

/-- The ids for which a request keeps to the record of the id. -/
theorem key_fidelity (b : Base) (e : Endpoint) (id : Str) : Fidelity b e id ↔ Sound e id := by
  constructor
  · exact fun h => (addressed_iff b e id).1 h.1
  · intro h
    have hid := (addressed_iff b e id).2 h
    exact ⟨hid, recordKept hid⟩

/-- A backend at `http://api`. -/
def apiBase : Base where
  origin :=
    { scheme := "http", authority := "api", user := none, host := "api",
      scheme_head := http_head, scheme_bytes := http_bytes, authority_plain := by decide,
      authority_parses := by decide }
  segments := []
  plain := plainSegment_nil

/-- An unused code `x`. -/
def codeX : AuthCode :=
  ⟨"x", "m", "u", "r", [], [], seconds 300, false⟩

/-- The backend holds the code `x`. -/
def holdingX : State := { db := { codes := AList.singleton "x" codeX } }

/-- `ConsumeCode("x?a")`: the backend answers the read with the code `x`. -/
def consumeAlias : List (Label Env External Call) :=
  [.call (.consumeCode "x?a"), .step 0 {}, .step 0 { code := .found codeX }, .step 0 {},
    .step 0 {}, .step 0 {}]

/-- The run below starts as the runs of `Fidelity` do. -/
theorem holdingX_started : Started holdingX :=
  ⟨rfl, .empty, .empty, KeyedBy.empty.insert fun _ => rfl⟩

/-- The URLs for `x?a`: the question mark ends the path, so the read names `x`, and the write loses
its last segment and names no code. -/
theorem address_alias : Endpoint.getCode.address apiBase "x?a" = some (ascii "x") ∧
    Endpoint.markCodeUsed.address apiBase "x?a" = none := by
  decide

/-- For the code `x?a` the backend is asked for `x`, and `ConsumeCode` returns that code, but marks
nothing used: the backend still holds `x` as an unused code. -/
theorem key_aliased :
    ¬ Fidelity apiBase .getCode "x?a" ∧ Started holdingX ∧
      Reachable (pool apiBase) (assumption apiBase) holdingX
        ((pool apiBase).run (.init holdingX) consumeAlias) ∧
      (∃ e ∈ ((pool apiBase).run (.init holdingX) consumeAlias).log,
        e.event = .done ⟨0, .consumeCode "x?a"⟩ (some "x")) ∧
      ((pool apiBase).run (.init holdingX) consumeAlias).state.db.codes.lookup (ascii "x") =
        some codeX := by
  obtain ⟨hread, hwrite⟩ := address_alias
  have hfidelity : ¬ Fidelity apiBase .getCode "x?a" := by
    rintro ⟨hrefused | haddress, -⟩
    · rw [Endpoint.address, hrefused] at hread
      cases hread
    · rw [hread] at haddress
      exact absurd haddress (by decide)
  have hanswers : Answers apiBase .getCode "x?a" (.found codeX) holdingX.db.codes := by
    refine .inr ⟨fun hrefused => ?_, fun k hk => ?_⟩
    · rw [Endpoint.address, hrefused] at hread
      cases hread
    · rw [hread] at hk
      cases hk
      rfl
  refine ⟨hfidelity, holdingX_started, ?_, ⟨_, .head _, rfl⟩, rfl⟩
  exact Reachable.init.run consumeAlias
    ⟨trivial, trivial, hanswers, trivial, trivial, trivial, trivial⟩

end VirePortal.Auth.KeyFidelity
