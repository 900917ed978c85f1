import VirePortal.Concurrent.History
import VirePortal.Auth.Stores

/-!
# Retired credentials stay retired

`TokenStore.Delete`, `SessionStore.Delete` and a successful `ConsumeCode` retire a credential. The
pool here runs the methods of the three stores with a backend, and the portal may restart.

Retirement is not final in every run (`retirement_not_final`). `Delete` only logs the error of its
write to the backend, and a lookup that read the backend before a `Delete` caches the record after
it. It is final in the runs in which the retiring writes take effect and no lookup caches a record
that was deleted since it was fetched (`prompt`, `retirement_final`).

A credential has up to two aspects (`Aspect`): a code is taken in memory by one critical section of
`ConsumeCode` and marked in the backend by a later request. Each aspect has an entry that ends it,
and holds of the state as long as the credential is not `Put` again.
-/

namespace VirePortal.Auth.Retirement

open Go Concurrent

/-- A credential by its key. -/
inductive Credential where
  | token (t : Str)
  | session (id : Str)
  | code (c : Str)
  deriving DecidableEq

/-- The methods of the stores. -/
inductive Call where
  | putToken (t : RefreshToken)
  | getToken (t : Str)
  | deleteToken (t : Str)
  | cleanupTokens
  | putSession (x : AuthSession)
  | getSession (id : Str)
  | getByClientID (clientID : Str)
  | deleteSession (id : Str)
  | cleanupSessions
  | putCode (c : AuthCode)
  | markUsed (c : Str)
  | consumeCode (c : Str)
  | cleanupCodes
  deriving DecidableEq

/-- The credential that a call retires when it returns `true`. -/
def Call.retires : Call → Option Credential
  | .deleteToken t => some (.token t)
  | .deleteSession id => some (.session id)
  | .consumeCode c => some (.code c)
  | _ => none

/-- The credential that a call accepts when it returns `true`. -/
def Call.uses : Call → Option Credential
  | .getToken t => some (.token t)
  | .getSession id => some (.session id)
  | .consumeCode c => some (.code c)
  | _ => none

/-- The program of a call. A lookup returns whether it succeeds. -/
def handle : Call → M Bool
  | .putToken t => do TokenStore.put t; return true
  | .getToken t => do
    let r ← TokenStore.get true t
    return r.isSome
  | .deleteToken t => do TokenStore.delete t; return true
  | .cleanupTokens => do TokenStore.cleanup; return true
  | .putSession x => do SessionStore.put x; return true
  | .getSession id => do
    let r ← SessionStore.get true id
    return r.isSome
  | .getByClientID clientID => do
    let r ← SessionStore.getByClientID true clientID
    return r.isSome
  | .deleteSession id => do SessionStore.delete id; return true
  | .cleanupSessions => do SessionStore.cleanup; return true
  | .putCode c => do CodeStore.put c; return true
  | .markUsed c => do CodeStore.markUsed c; return true
  | .consumeCode c => do
    let r ← CodeStore.consumeCode true c
    return r.isSome
  | .cleanupCodes => do CodeStore.cleanup; return true

/-- The pool. -/
abbrev pool : System Op Reply State Env ℕ Call Bool := server true handle

/-- An entry of the pool's log. -/
abbrev CallEntry := Entry Op Reply State ℕ Call Bool

/-- The call starts. -/
def Starts (w : Caller Call) (e : CallEntry) : Prop := e.event = .call w

/-- The call returns `true`. -/
def Succeeds (w : Caller Call) (e : CallEntry) : Prop := e.event = .done w true

/-- The critical section in which the call retires the credential. -/
def Retires (w : Caller Call) : Credential → CallEntry → Prop
  | .token t, e => e.event = .op w (.tokensDelete t) ()
  | .session id, e => e.event = .op w (.sessionsDelete id) ()
  | .code c, e => Consumes w c e

/-- The critical section of a `Put` of the credential. -/
def Puts : Credential → CallEntry → Prop
  | .token t, e => ∃ w x, e.event = .op w (.tokensPut x) () ∧ x.token = t
  | .session id, e => ∃ w x, e.event = .op w (.sessionsPut x) () ∧ x.sessionID = id
  | .code c, e => ∃ w x, e.event = .op w (.codesPut x) () ∧ x.code = c

/-- Retirement is final in the log: when a call that retired a credential had returned before
another call started, and that one accepts the credential, then the credential was `Put` again. -/
def Final (L : List CallEntry) : Prop :=
  ∀ k w w', w.call.retires = some k → w'.call.uses = some k →
    After (Succeeds w) (Starts w') L → Has (Succeeds w') L → After (Retires w k) (Puts k) L

/-- The call reads a token from the backend. -/
def FetchesToken (w : Caller Call) (e : CallEntry) : Prop :=
  ∃ t r, e.event = .op w (.lookupToken t) r

/-- The call reads a session from the backend. -/
def FetchesSession (w : Caller Call) (e : CallEntry) : Prop :=
  (∃ id r, e.event = .op w (.getSession id) r) ∨
    ∃ clientID r, e.event = .op w (.getSessionByClientID clientID) r

/-- What every run assumes: the backend is faithful for the calls that succeed. -/
def faithful : Assumption Op Reply State Env ℕ Call Bool where
  op _ o e s _ := Faithful o e s

/-- The runs in which a retirement reaches the backend, and a lookup caches no record that was
deleted since it was fetched. -/
def prompt : Assumption Op Reply State Env ℕ Call Bool where
  op w o e s L := Faithful o e s ∧ match o with
    | .tokensDelete _ => e.write.applied = true
    | .sessionsDelete _ => e.write.applied = true
    | .markCodeUsed _ => e.write.applied = true
    | .tokensCache x =>
      NoneSince (FetchesToken w) (fun e' => ∃ w', Retires w' (.token x.token) e') L
    | .sessionsCache x =>
      NoneSince (FetchesSession w) (fun e' => ∃ w', Retires w' (.session x.sessionID) e') L
    | _ => True

/-- What retiring a credential comes to: a token or a session is deleted, a code is taken in memory
and marked in the backend. -/
inductive Aspect where
  | token (t : Str)
  | session (id : Str)
  | taken (c : Str)
  | marked (c : Str)
  deriving DecidableEq

/-- The credential of an aspect. -/
def Aspect.credential : Aspect → Credential
  | .token t => .token t
  | .session id => .session id
  | .taken c => .code c
  | .marked c => .code c

/-- The entry makes the aspect hold. -/
def Ends : Aspect → CallEntry → Prop
  | .token t, e => ∃ w, Retires w (.token t) e
  | .session id, e => ∃ w, Retires w (.session id) e
  | .taken c, e => ∃ w, Retires w (.code c) e
  | .marked c, e => ∃ w, e.event = .op w (.markCodeUsed c) ()

/-- The aspect in a state. A code is taken when no record that could be consumed is cached. -/
def Holds : Aspect → State → Prop
  | .token t, s => s.mem.tokens.lookup t = none ∧ s.db.tokens.lookup t = none
  | .session id, s => s.mem.sessions.lookup id = none ∧ s.db.sessions.lookup id = none
  | .taken c, s => ∀ x, s.mem.codes.lookup c = some x → x.used = true ∨ x.expiresAt < s.now
  | .marked c, s => ∀ x, s.db.codes.lookup c = some x → x.used = true

/-- The aspect was ended, and its credential was not `Put` since. -/
def Ended (a : Aspect) (L : List CallEntry) : Prop := Latest (Ends a) (Puts a.credential) L

/-- The credential is retired in the state. -/
def Gone (k : Credential) (s : State) : Prop := ∀ a, Aspect.credential a = k → Holds a s

/-- After the call started, an operation found the credential. -/
def Met (w : Caller Call) (k : Credential) (L : List CallEntry) : Prop :=
  After (Starts w) (fun e => ¬ Gone k e.pre) L

/-- What a call that retired a credential has done. -/
def RetiredBy (w : Caller Call) : Credential → List CallEntry → Prop
  | .code c, L => After (Retires w (.code c)) (fun e => e.event = .op w (.markCodeUsed c) ()) L
  | k, L => Has (Retires w k) L

/-- The backend keeps tokens and sessions under their own keys. -/
structure Keyed (s : State) : Prop where
  tokens : KeyedBy (fun _ => True) RefreshToken.token s.db.tokens
  sessions : KeyedBy (fun _ => True) AuthSession.sessionID s.db.sessions

/-- The invariant of the pool. -/
structure Inv (s : State) (L : List CallEntry) : Prop where
  keyed : Keyed s
  held : ∀ a, Ended a L → Holds a s
  oneStart : ∀ w, AtMostOne (Starts w) L
  /-- A call that succeeded found the credential that it uses. -/
  met : ∀ w k, w.call.uses = some k → Has (Succeeds w) L → Met w k L
  /-- A call that succeeded has retired the credential that it retires. -/
  retired : ∀ w k, w.call.retires = some k → Has (Succeeds w) L → RetiredBy w k L

variable {s s' : State} {L : List CallEntry} {w : Caller Call} {k : Credential}

/-- What a call retired it has retired in every later log. -/
theorem RetiredBy.append (h : RetiredBy w k L) (new : List CallEntry) :
    RetiredBy w k (new ++ L) := by
  cases k with
  | code c => exact After.append h new
  | token t =>
    obtain ⟨e, he, hr⟩ := h
    exact ⟨e, List.mem_append_right _ he, hr⟩
  | session id =>
    obtain ⟨e, he, hr⟩ := h
    exact ⟨e, List.mem_append_right _ he, hr⟩

/-- An entry that is neither a start nor a return keeps the invariant when it keeps what is held. -/
theorem Inv.advance (h : Inv s L) (e : CallEntry) (hstart : ∀ w, ¬ Starts w e)
    (hdone : ∀ w, ¬ Succeeds w e) (hkeyed : Keyed s') (hheld : ∀ a, Ended a (e :: L) → Holds a s') :
    Inv s' (e :: L) := by
  have hsucceeded : ∀ w, Has (Succeeds w) (e :: L) → Has (Succeeds w) L := by
    intro w hw
    exact (has_cons.1 hw).resolve_left (hdone w)
  refine ⟨hkeyed, hheld, fun w => ?_, fun w k hk hw => ?_, fun w k hk hw => ?_⟩
  · exact atMostOne_cons.2 ⟨fun hs => absurd hs (hstart w), h.oneStart w⟩
  · exact (h.met w k hk (hsucceeded w hw)).append [e]
  · exact (h.retired w k hk (hsucceeded w hw)).append [e]

/-- What is held after an entry: what it ends, and what was held before of the rest. -/
theorem held_cons (h : ∀ a, Ended a L → Holds a s) (e : CallEntry)
    (hends : ∀ a, Ends a e → Holds a s')
    (hkeeps : ∀ a, ¬ Puts a.credential e → Ended a L → Holds a s → Holds a s') :
    ∀ a, Ended a (e :: L) → Holds a s' := by
  intro a ha
  rcases ha with he | ⟨hp, hL⟩
  · exact hends a he
  · exact hkeeps a hp hL (h a hL)

section Tables

variable {V : Type} {t : Table V} {key key' : Str}

/-- A map without a key is without it after an assignment to another key. -/
theorem absent_insert (v : V) (hne : key ≠ key') (h : t.lookup key = none) :
    (AList.insert key' v t).lookup key = none := by
  rw [Table.lookup_insert, if_neg hne, h]

/-- A map without a key is without it after a deletion. -/
theorem absent_erase (h : t.lookup key = none) : (AList.erase key' t).lookup key = none := by
  rw [Table.lookup_erase]
  split_ifs
  · rfl
  · exact h

/-- A map without a key is without it after a `Cleanup`. -/
theorem absent_filter (p : V → Bool) (h : t.lookup key = none) :
    (t.filter p).lookup key = none := by
  rw [Table.lookup_filter, h]
  rfl

end Tables

/-- The deletion that an operation undoes when it caches what a lookup fetched. -/
def cached : Op → Option Aspect
  | .tokensCache x => some (.token x.token)
  | .sessionsCache x => some (.session x.sessionID)
  | _ => none

section Operations

variable {o : Op} {e : Env}

/-- An operation that neither caches nor `Put`s the token leaves it deleted. -/
theorem holds_token {t : Str} (hcache : cached o ≠ some (.token t))
    (hput : ¬ Puts (.token t) (pool.entry w o e s)) (h : Holds (.token t) s) :
    Holds (.token t) (exec true o e s).2 := by
  obtain ⟨hmem, hdb⟩ := h
  by_cases hk : o.changes = some .tokens
  · cases o <;> simp only [Op.changes, reduceCtorEq, Option.some.injEq] at hk
    case tokensCache x =>
      have hne : t ≠ x.token := fun heq => hcache (heq ▸ rfl)
      exact ⟨absent_insert x hne hmem, hdb⟩
    case tokensPut x =>
      have hne : t ≠ x.token := fun heq => hput ⟨w, x, rfl, heq.symm⟩
      exact State.updateDb_of (P := Holds (.token _)) ⟨absent_insert x hne hmem, hdb⟩
        ⟨absent_insert x hne hmem, absent_insert x hne hdb⟩
    case tokensDelete t' =>
      exact State.updateDb_of (P := Holds (.token _)) ⟨absent_erase hmem, hdb⟩
        ⟨absent_erase hmem, absent_erase hdb⟩
    case tokensCleanup => exact ⟨absent_filter _ hmem, hdb⟩
  · obtain ⟨hmem', hdb'⟩ := exec_tokens true e s hk
    exact ⟨by rw [hmem', hmem], by rw [hdb', hdb]⟩

/-- An operation that neither caches nor `Put`s the session leaves it deleted. -/
theorem holds_session {id : Str} (hcache : cached o ≠ some (.session id))
    (hput : ¬ Puts (.session id) (pool.entry w o e s)) (h : Holds (.session id) s) :
    Holds (.session id) (exec true o e s).2 := by
  obtain ⟨hmem, hdb⟩ := h
  by_cases hk : o.changes = some .sessions
  · cases o <;> simp only [Op.changes, reduceCtorEq, Option.some.injEq] at hk
    case sessionsCache x =>
      have hne : id ≠ x.sessionID := fun heq => hcache (heq ▸ rfl)
      exact ⟨absent_insert x hne hmem, hdb⟩
    case sessionsPut x =>
      have hne : id ≠ x.sessionID := fun heq => hput ⟨w, x, rfl, heq.symm⟩
      exact State.updateDb_of (P := Holds (.session _)) ⟨absent_insert x hne hmem, hdb⟩
        ⟨absent_insert x hne hmem, absent_insert x hne hdb⟩
    case sessionsDelete id' =>
      exact State.updateDb_of (P := Holds (.session _)) ⟨absent_erase hmem, hdb⟩
        ⟨absent_erase hmem, absent_erase hdb⟩
    case sessionsCleanup => exact ⟨absent_filter _ hmem, hdb⟩
  · obtain ⟨hmem', hdb'⟩ := exec_sessions true e s hk
    exact ⟨by rw [hmem', hmem], by rw [hdb', hdb]⟩

/-- The record that the second section of `ConsumeCode` leaves cached cannot be consumed. -/
theorem spent_of_consumeFetched (c : Str) (f : AuthCode) (e : Env) (s : State) {x : AuthCode}
    (hx : (exec true (.codesConsumeFetched c f) e s).2.mem.codes.lookup c = some x) :
    x.used = true ∨ x.expiresAt < s.now := by
  have hspent : ∀ y t, t.lookup c = some y →
      (takeCode s.now c y t).2.lookup c = some x → x.used = true ∨ x.expiresAt < s.now := by
    intro y t hy hx
    rcases takeCode_cases s.now c y t with ⟨htake, hdead⟩ | ⟨htake, -⟩
    · rw [htake, hy] at hx
      rw [← Option.some.inj hx]
      exact hdead.symm
    · rw [htake, Table.lookup_insert, if_pos rfl] at hx
      rw [← Option.some.inj hx]
      exact .inl rfl
  cases hlook : s.mem.codes.lookup c with
  | some y =>
    simp only [exec, hlook] at hx
    exact hspent y s.mem.codes hlook hx
  | none =>
    simp only [exec, hlook] at hx
    exact hspent f _ (by rw [Table.lookup_insert, if_pos rfl]) hx

/-- A code stays taken: `ConsumeCode` leaves no record behind that could be consumed. -/
theorem holds_taken {c : Str} (hput : ¬ Puts (.code c) (pool.entry w o e s))
    (h : Holds (.taken c) s) : Holds (.taken c) (exec true o e s).2 := by
  intro x hx
  rw [exec_now]
  by_cases hk : o.changes = some .codes
  · cases o <;> simp only [Op.changes, reduceCtorEq, Option.some.injEq] at hk
    case codesPut y =>
      have hne : c ≠ y.code := fun heq => hput ⟨w, y, rfl, heq.symm⟩
      simp only [exec, State.updateDb_mem, State.updateMem_mem, Table.lookup_insert,
        if_neg hne] at hx
      exact h x hx
    case codesMarkUsed c' =>
      simp only [exec, State.updateDb_mem, State.updateMem_mem, lookup_setUsed,
        Option.map_eq_some_iff] at hx
      obtain ⟨y, hy, rfl⟩ := hx
      split_ifs
      · exact .inl rfl
      · exact h y hy
    case codesConsume c' =>
      rcases exec_codesConsume true c' e s with ⟨r, hex, -⟩ | ⟨y, -, -, -, hex⟩
      · rw [hex] at hx
        exact h x hx
      · simp only [hex, State.updateMem_mem, Table.lookup_insert] at hx
        split_ifs at hx
        · rw [← Option.some.inj hx]
          exact .inl rfl
        · exact h x hx
    case codesConsumeFetched c' f =>
      by_cases hc : c = c'
      · subst hc
        exact spent_of_consumeFetched c f e s hx
      · obtain ⟨_, _, r, t, -, hex, ht, -⟩ := exec_codesConsumeFetched true c' f e s
        rw [hex, State.updateMem_mem, ht, if_neg hc] at hx
        exact h x hx
    case markCodeUsed c' =>
      simp only [exec, State.updateDb_mem] at hx
      exact h x hx
    case codesCleanup => exact h x (Table.of_lookup_filter hx)
  · rw [(exec_codes true e s hk).1] at hx
    exact h x hx

/-- A code stays marked in the backend. -/
theorem holds_marked {c : Str} (hput : ¬ Puts (.code c) (pool.entry w o e s))
    (h : Holds (.marked c) s) : Holds (.marked c) (exec true o e s).2 := by
  have hmark : ∀ c' x, (setUsed c' s.db.codes).lookup c = some x → x.used = true := by
    intro c' x hx
    rw [lookup_setUsed, Option.map_eq_some_iff] at hx
    obtain ⟨y, hy, rfl⟩ := hx
    split_ifs
    · rfl
    · exact h y hy
  by_cases hk : o.changes = some .codes
  · cases o <;> simp only [Op.changes, reduceCtorEq, Option.some.injEq] at hk
    case codesPut y =>
      have hne : c ≠ y.code := fun heq => hput ⟨w, y, rfl, heq.symm⟩
      refine State.updateDb_of (P := Holds (.marked c)) h fun x hx => h x ?_
      rwa [Table.lookup_insert, if_neg hne] at hx
    case codesMarkUsed c' => exact State.updateDb_of (P := Holds (.marked c)) h (hmark c')
    case markCodeUsed c' => exact State.updateDb_of (P := Holds (.marked c)) h (hmark c')
    case codesConsume c' =>
      rcases exec_codesConsume true c' e s with ⟨r, hex, -⟩ | ⟨y, -, -, -, hex⟩
      · exact hex ▸ h
      · exact hex ▸ h
    case codesConsumeFetched c' f =>
      obtain ⟨-, -, r, t, -, hex, -, -⟩ := exec_codesConsumeFetched true c' f e s
      exact hex ▸ h
    case codesCleanup => exact h
  · intro x hx
    rw [(exec_codes true e s hk).2] at hx
    exact h x hx

/-- The operation that ends an aspect makes it hold, when its write takes effect. -/
theorem holds_of_ends (hA : prompt.op w o e s L) {a : Aspect} (h : Ends a (pool.entry w o e s)) :
    Holds a (exec true o e s).2 := by
  cases a with
  | token t =>
    obtain ⟨w', hw'⟩ := h
    obtain ⟨-, rfl, -⟩ := Event.op.inj hw'
    have happlied : e.write.applied = true := hA.2
    simp [Holds, exec, State.updateDb_db, happlied]
  | session id =>
    obtain ⟨w', hw'⟩ := h
    obtain ⟨-, rfl, -⟩ := Event.op.inj hw'
    have happlied : e.write.applied = true := hA.2
    simp [Holds, exec, State.updateDb_db, happlied]
  | taken c =>
    intro x hx
    obtain ⟨w', ⟨y, hy⟩ | ⟨f, y, hy⟩⟩ := h
    · obtain ⟨-, rfl, hr⟩ := Event.op.inj hy
      rcases exec_codesConsume true c e s with ⟨r, hex, hnone⟩ | ⟨z, -, -, -, hex⟩
      · rw [heq_eq_eq] at hr
        exact absurd (hr ▸ congrArg Prod.fst hex).symm (hnone y)
      · simp only [hex, State.updateMem_mem, Table.lookup_insert, if_pos] at hx
        rw [← Option.some.inj hx]
        exact .inl rfl
    · obtain ⟨-, rfl, -⟩ := Event.op.inj hy
      rw [exec_now]
      exact spent_of_consumeFetched c f e s hx
  | marked c =>
    obtain ⟨w', hw'⟩ := h
    obtain ⟨-, rfl, -⟩ := Event.op.inj hw'
    have happlied : e.write.applied = true := hA.2
    intro x hx
    simp only [exec, State.updateDb_db, happlied, Bool.and_self, if_pos, lookup_setUsed,
      Option.map_eq_some_iff] at hx
    obtain ⟨y, -, rfl⟩ := hx
    rfl

/-- Every operation keeps the backend's records under their own keys. -/
theorem Keyed.op (h : Keyed s) (o : Op) (e : Env) : Keyed (exec true o e s).2 := by
  constructor
  · by_cases hk : o.changes = some .tokens
    · cases o <;> simp only [Op.changes, reduceCtorEq, Option.some.injEq] at hk
      case tokensPut x =>
        exact State.updateDb_of (P := fun s => KeyedBy _ _ s.db.tokens) h.tokens
          (h.tokens.insert fun _ => rfl)
      case tokensDelete t =>
        exact State.updateDb_of (P := fun s => KeyedBy _ _ s.db.tokens) h.tokens (h.tokens.erase t)
      case tokensCache x => exact h.tokens
      case tokensCleanup => exact h.tokens
    · rw [(exec_tokens true e s hk).2]
      exact h.tokens
  · by_cases hk : o.changes = some .sessions
    · cases o <;> simp only [Op.changes, reduceCtorEq, Option.some.injEq] at hk
      case sessionsPut x =>
        exact State.updateDb_of (P := fun s => KeyedBy _ _ s.db.sessions) h.sessions
          (h.sessions.insert fun _ => rfl)
      case sessionsDelete id =>
        exact State.updateDb_of (P := fun s => KeyedBy _ _ s.db.sessions) h.sessions
          (h.sessions.erase id)
      case sessionsCache x => exact h.sessions
      case sessionsCleanup => exact h.sessions
    · rw [(exec_sessions true e s hk).2]
      exact h.sessions

/-- An operation keeps the invariant when caching does not bring a deleted record back. -/
theorem Inv.op (h : Inv s L) (hA : prompt.op w o e s L)
    (hcache : ∀ a, cached o = some a → ¬ Ended a L) :
    Inv (exec true o e s).2 (pool.entry w o e s :: L) := by
  refine h.advance _ (by simp [Starts]) (by simp [Succeeds]) (h.keyed.op o e) ?_
  refine held_cons h.held _ (fun a => holds_of_ends hA) fun a hput hended hheld => ?_
  cases a with
  | token t => exact holds_token (fun hc => hcache _ hc hended) hput hheld
  | session id => exact holds_session (fun hc => hcache _ hc hended) hput hheld
  | taken c => exact holds_taken hput hheld
  | marked c => exact holds_marked hput hheld

end Operations

/-- An operation that caches nothing keeps the invariant by itself. -/
theorem keeps (w : Caller Call) {o : Op} (ho : cached o = none) : Keeps pool prompt Inv w o :=
  fun _ _ _ hI hA => hI.op hA fun a ha => by rw [ho] at ha; cases ha

/-- A record that the backend held when the call read it was not deleted, and when no deletion came
since then it is not deleted now. -/
theorem not_ended_of_fetched {a : Aspect} {start : CallEntry → Prop} {E : CallEntry}
    {L L' : List CallEntry} (hL : Others w.tid (E :: L) L')
    (hstart : ∀ e, start e → e.event.thread = some w.tid) (hE : ¬ Ends a E) (h : ¬ Ended a L)
    (hnone : NoneSince start (Ends a) L') : ¬ Ended a L' := by
  obtain ⟨new, rfl, hnew⟩ := hL
  intro hended
  have hbad := hnone.append fun e he hs => (hnew e he).2 (hstart e hs)
  have hcons : Ended a (E :: L) := Latest.of_append hbad hended
  exact h (hcons.resolve_left hE).2

/-- A reading of a token is an entry of the call. -/
theorem FetchesToken.thread {e : CallEntry} (h : FetchesToken w e) :
    e.event.thread = some w.tid := by
  obtain ⟨t, r, hr⟩ := h
  rw [hr]
  rfl

/-- A reading of a session is an entry of the call. -/
theorem FetchesSession.thread {e : CallEntry} (h : FetchesSession w e) :
    e.event.thread = some w.tid := by
  rcases h with ⟨id, r, hr⟩ | ⟨clientID, r, hr⟩
  · rw [hr]; rfl
  · rw [hr]; rfl

/-- What a call met it has met in every later log. -/
theorem Met.extends {L' : List CallEntry} (h : Met w k L) (hL : Extends L L') : Met w k L' := by
  obtain ⟨new, rfl, -⟩ := hL
  exact h.append new

/-- An operation that finds the credential, after the start of the call. -/
theorem met_cons (hstart : Has (Starts w) L) {e : CallEntry} (he : ¬ Gone k e.pre) :
    Met w k (e :: L) :=
  ⟨[], e, L, rfl, he, hstart⟩

/-- When a lookup caches a record, no deletion of it came since the lookup read the backend. -/
theorem noneSince_of_cached {o : Op} {e : Env} {a : Aspect} (hA : prompt.op w o e s L)
    (ho : cached o = some a) : ∃ start : CallEntry → Prop,
      (∀ e, start e → e.event.thread = some w.tid) ∧ NoneSince start (Ends a) L := by
  cases o with
  | tokensCache x =>
    cases ho
    exact ⟨_, fun _ => FetchesToken.thread, hA.2⟩
  | sessionsCache x =>
    cases ho
    exact ⟨_, fun _ => FetchesSession.thread, hA.2⟩
  | _ => cases ho

/-- A token that is in one of the maps is not deleted. -/
theorem not_holds_token {t : Str} {x : RefreshToken}
    (h : s.mem.tokens.lookup t = some x ∨ s.db.tokens.lookup t = some x) :
    ¬ Holds (.token t) s := by
  rintro ⟨hmem, hdb⟩
  simp [hmem, hdb] at h

/-- A session that is in one of the maps is not deleted. -/
theorem not_holds_session {id : Str} {x : AuthSession}
    (h : s.mem.sessions.lookup id = some x ∨ s.db.sessions.lookup id = some x) :
    ¬ Holds (.session id) s := by
  rintro ⟨hmem, hdb⟩
  simp [hmem, hdb] at h

/-- A credential with an aspect that does not hold is not retired. -/
theorem not_gone {a : Aspect} (h : ¬ Holds a s) : ¬ Gone a.credential s :=
  fun hgone => h (hgone a rfl)

/-- A program that caches nothing keeps the invariant, and what is known stays known. -/
theorem outline_quiet {α : Type} {p : M α} {Q : α → List CallEntry → Prop}
    (hp : p.All (cached · = none)) (hQ : ∀ a L', Extends L L' → Q a L') :
    Outline pool prompt Inv w Q p L := by
  have hall : p.All (Keeps pool prompt Inv w) := hp.imp fun o ho => keeps w ho
  exact (Outline.of_all hall L).imp fun a L' hL _ => hQ a L' hL

/-- The outline of the section that caches what the backend held at the entry `E`. -/
theorem outline_cache {E : CallEntry} {α : Type} {p : M α} {Q : α → List CallEntry → Prop} {o : Op}
    {a : Aspect} (ho : cached o = some a) (hE : ¬ Ends a E) (hended : ¬ Ended a L)
    (hp : p.All (cached · = none)) (hQ : ∀ a L', Extends (E :: L) L' → Q a L') :
    Outline pool prompt Inv w Q (perform o >>= fun _ => p) (E :: L) := by
  refine outline_step.2 fun s L' e hL hI hA => ⟨hI.op hA fun b hb => ?_, ?_⟩
  · obtain rfl := Option.some.inj (ho.symm.trans hb)
    obtain ⟨start, hstart, hnone⟩ := noneSince_of_cached hA ho
    exact not_ended_of_fetched hL hstart hE hended hnone
  · exact outline_quiet hp fun a L'' hL'' => hQ a L'' ((pool.entry_extends hL _ e s).trans hL'')

/-- The outline of `TokenStore.Get`: a call that gets the token has met it. -/
theorem outline_getToken {t : Str} (hstart : Has (Starts w) L) :
    Outline pool prompt Inv w (fun r L' => r.isSome = true → Met w (.token t) L')
      (TokenStore.get true t) L := by
  have hlive : ∀ x, (TokenStore.live x).All (cached · = none) := fun x =>
    Prog.all_bind ((Prog.all_call _ _).2 rfl) fun now => by simp
  unfold TokenStore.get
  refine (keeps w rfl).bind fun s L1 e hL _ _ => ?_
  have hstart1 := hstart.extends hL.extends
  rcases hr : (pool.exec (.tokensLookup t) e s).1 with _ | x
  · -- The map has no such token, so the backend is asked.
    refine (keeps w rfl).bind fun s2 L2 e2 hL2 hI2 hA2 => ?_
    rcases hr2 : (pool.exec (.lookupToken t) e2 s2).1 with _ | _ | x
    · simp
    · simp
    · have hdb : s2.db.tokens.lookup t = some x := ReadReply.found_of hA2.1 hr2
      have hkey : x.token = t := hI2.keyed.tokens t x trivial hdb
      have hheld := not_holds_token (.inr hdb)
      have hmet : Met w (.token t) (pool.entry w (.lookupToken t) e2 s2 :: L2) :=
        met_cons ((has_cons.2 (.inr hstart1)).extends hL2.extends) (not_gone hheld)
      refine outline_cache (congrArg _ (congrArg _ hkey)) (by simp [Ends, Retires])
        (fun hended => hheld (hI2.held _ hended)) (hlive x) ?_
      exact fun a L' hL' _ => hmet.extends hL'
  · have hmet : Met w (.token t) (pool.entry w (.tokensLookup t) e s :: L1) :=
      met_cons hstart1 (not_gone (not_holds_token (.inl hr)))
    exact outline_quiet (hlive x) fun a L' hL' _ => hmet.extends hL'

/-- The outline of `SessionStore.Get`: a call that gets the session has met it. -/
theorem outline_getSession {id : Str} (hstart : Has (Starts w) L) :
    Outline pool prompt Inv w (fun r L' => r.isSome = true → Met w (.session id) L')
      (SessionStore.get true id) L := by
  have hlive : ∀ x, (SessionStore.live x).All (cached · = none) := fun x =>
    Prog.all_bind ((Prog.all_call _ _).2 rfl) fun now => by simp
  unfold SessionStore.get
  refine (keeps w rfl).bind fun s L1 e hL _ _ => ?_
  have hstart1 := hstart.extends hL.extends
  rcases hr : (pool.exec (.sessionsLookup id) e s).1 with _ | x
  · refine (keeps w rfl).bind fun s2 L2 e2 hL2 hI2 hA2 => ?_
    rcases hr2 : (pool.exec (.getSession id) e2 s2).1 with _ | _ | x
    · simp
    · simp
    · have hdb : s2.db.sessions.lookup id = some x := ReadReply.found_of hA2.1 hr2
      have hkey : x.sessionID = id := hI2.keyed.sessions id x trivial hdb
      have hheld := not_holds_session (.inr hdb)
      have hmet : Met w (.session id) (pool.entry w (.getSession id) e2 s2 :: L2) :=
        met_cons ((has_cons.2 (.inr hstart1)).extends hL2.extends) (not_gone hheld)
      refine outline_cache (congrArg _ (congrArg _ hkey)) (by simp [Ends, Retires])
        (fun hended => hheld (hI2.held _ hended)) (hlive x) ?_
      exact fun a L' hL' _ => hmet.extends hL'
  · have hmet : Met w (.session id) (pool.entry w (.sessionsLookup id) e s :: L1) :=
      met_cons hstart1 (not_gone (not_holds_session (.inl hr)))
    exact outline_quiet (hlive x) fun a L' hL' _ => hmet.extends hL'

/-- The outline of `SessionStore.GetByClientID`, which caches what the backend held. -/
theorem outline_getByClientID (clientID : Str) :
    Outline pool prompt Inv w (fun _ _ => True) (SessionStore.getByClientID true clientID) L := by
  unfold SessionStore.getByClientID
  refine (keeps w rfl).bind fun s L1 e hL _ _ => ?_
  rcases hr : (pool.exec (.sessionsByClientID clientID) e s).1 with ⟨now, _ | x⟩
  · refine (keeps w rfl).bind fun s2 L2 e2 hL2 hI2 hA2 => ?_
    rcases hr2 : (pool.exec (.getSessionByClientID clientID) e2 s2).1 with _ | _ | x
    · trivial
    · trivial
    · show Outline pool _ _ _ _ (if x.expired now then _ else _) _
      split_ifs
      · trivial
      · have hdb : s2.db.sessions.lookup x.sessionID = some x := by
          have hfound : e2.session = .found x := hr2
          rcases hA2.1 with h | ⟨h, -⟩ | ⟨y, h, -, hy⟩
          · rw [h] at hfound; cases hfound
          · rw [h] at hfound; cases hfound
          · rw [h] at hfound
            cases hfound
            exact hy
        exact outline_cache rfl (by simp [Ends, Retires])
          (fun hended => not_holds_session (.inr hdb) (hI2.held _ hended)) trivial
          fun _ _ _ => trivial
  · trivial

/-- A code that could be consumed from the map, or that is unmarked in the backend, is not
retired. -/
theorem not_gone_code {c : Str} {x : AuthCode} (hused : x.used = false)
    (h : s.mem.codes.lookup c = some x ∧ s.now ≤ x.expiresAt ∨ s.db.codes.lookup c = some x) :
    ¬ Gone (.code c) s := by
  intro hgone
  rcases h with ⟨hmem, hexp⟩ | hdb
  · rcases hgone (.taken c) rfl x hmem with hu | hlt
    · rw [hused] at hu; cases hu
    · exact absurd hexp (not_le.2 hlt)
  · have hu := hgone (.marked c) rfl x hdb
    rw [hused] at hu
    cases hu

/-- The outline of the end of `ConsumeCode` by a call that has taken the code. -/
theorem outline_confirm {c : Str} {x : AuthCode} (hmet : Met w (.code c) L)
    (htook : Has (Retires w (.code c)) L) :
    Outline pool prompt Inv w
      (fun r L' => r.isSome = true → Met w (.code c) L' ∧ RetiredBy w (.code c) L')
      (CodeStore.confirm true c (some x)) L := by
  refine (keeps w rfl).bind fun s L1 e hL _ _ => ?_
  intro _
  refine ⟨hmet.extends (pool.entry_extends hL _ e s), ?_⟩
  exact ⟨[], _, L1, rfl, rfl, htook.extends hL.extends⟩

/-- The outline of `ConsumeCode`: a call that returns the code has met it, taken it and marked
it. -/
theorem outline_consumeCode {c : Str} (hstart : Has (Starts w) L) :
    Outline pool prompt Inv w
      (fun r L' => r.isSome = true → Met w (.code c) L' ∧ RetiredBy w (.code c) L')
      (CodeStore.consumeCode true c) L := by
  unfold CodeStore.consumeCode
  refine (keeps w rfl).bind fun s L1 e hL _ _ => ?_
  have hstart1 := hstart.extends hL.extends
  rcases hr : (pool.exec (.codesConsume c) e s).1 with _ | _ | x
  · -- No record is cached, so the backend is asked.
    refine (keeps w rfl).bind fun s2 L2 e2 hL2 _ hA2 => ?_
    have hstart2 : Has (Starts w) L2 := (has_cons.2 (.inr hstart1)).extends hL2.extends
    rcases hr2 : (pool.exec (.getCode c) e2 s2).1 with _ | _ | f
    · simp
    · simp
    · have hdb : s2.db.codes.lookup c = some f := ReadReply.found_of hA2.1 hr2
      refine (keeps w rfl).bind fun s3 L3 e3 hL3 _ _ => ?_
      obtain ⟨y, y', r, t, hy, hex, -, hcase⟩ := exec_codesConsumeFetched true c f e3 s3
      have hreply : (pool.exec (.codesConsumeFetched c f) e3 s3).1 = r := congrArg Prod.fst hex
      rw [System.entry, hreply]
      rcases hcase with ⟨rfl, -⟩ | ⟨rfl, -, hexp, hused⟩
      · exact fun h => absurd h (by simp)
      · -- The record that was taken was alive in the map now, or in the backend when it was read.
        refine outline_confirm ?_ (has_cons.2 (.inl (.inr ⟨f, y', rfl⟩)))
        rcases hy with hmem | ⟨-, rfl⟩
        · refine met_cons ?_ (not_gone_code hused (.inl ⟨hmem, hexp⟩))
          exact (has_cons.2 (.inr hstart2)).extends hL3.extends
        · have hmet : Met w (.code c) (pool.entry w (.getCode c) e2 s2 :: L2) :=
            met_cons hstart2 (not_gone_code hused (.inr hdb))
          exact (hmet.extends hL3.extends).append [_]
  · exact fun h => absurd h (by simp)
  · rcases exec_codesConsume true c e s with ⟨r, hex, hnone⟩ | ⟨y, hmem, hexp, hused, -⟩
    · rw [show pool.exec (.codesConsume c) e s = (r, s) from hex] at hr
      exact absurd hr (hnone x)
    · refine outline_confirm (met_cons hstart1 (not_gone_code hused (.inl ⟨hmem, hexp⟩))) ?_
      refine has_cons.2 (.inl (.inl ⟨x, ?_⟩))
      rw [System.entry, hr]

/-- What a call that returns `a` has done. -/
def Answered (w : Caller Call) (a : Bool) (L : List CallEntry) : Prop :=
  a = true → (∀ k, w.call.uses = some k → Met w k L) ∧
    ∀ k, w.call.retires = some k → RetiredBy w k L

/-- The return of such a call keeps the invariant. -/
theorem Answered.delivers {a : Bool} (h : Answered w a L) : Delivers prompt Inv w a L := by
  intro s L' hL hI _
  obtain ⟨new, rfl, -⟩ := hL
  have hown : ∀ w', Succeeds w' ⟨s, .done w a⟩ → w' = w ∧ a = true := by
    intro w' hw'
    obtain ⟨rfl, rfl⟩ := Event.done.inj hw'
    exact ⟨rfl, rfl⟩
  refine ⟨hI.keyed, ?_, fun w' => ?_, fun w' k hk hw' => ?_, fun w' k hk hw' => ?_⟩
  · refine held_cons hI.held _ (fun b hb => ?_) fun _ _ _ hb => hb
    cases b <;> simp [Ends, Retires, Consumes] at hb
  · exact atMostOne_cons.2 ⟨fun hs => absurd hs (by simp [Starts]), hI.oneStart w'⟩
  · rcases has_cons.1 hw' with hd | hd
    · obtain ⟨rfl, ha⟩ := hown w' hd
      exact ((h ha).1 k hk).append (_ :: new)
    · exact (hI.met w' k hk hd).append [_]
  · rcases has_cons.1 hw' with hd | hd
    · obtain ⟨rfl, ha⟩ := hown w' hd
      exact ((h ha).2 k hk).append (_ :: new)
    · exact (hI.retired w' k hk hd).append [_]

/-- The outline of a method that is one critical section. -/
theorem outline_section {o : Op} (ho : cached o = none)
    (h : ∀ s e L', Answered w true (pool.entry w o e s :: L')) :
    Outline pool prompt Inv w (Delivers prompt Inv w) (perform o >>= fun _ => pure true) L := by
  exact (keeps w ho).bind fun s L' e _ _ _ => (h s e L').delivers

/-- The outline of every call. -/
theorem outline_handle (hstart : Has (Starts w) L) :
    Outline pool prompt Inv w (Delivers prompt Inv w) (handle w.call) L := by
  obtain ⟨tid, q⟩ := w
  -- A method that neither uses nor retires a credential has nothing to answer for.
  have hnothing : q.uses = none → q.retires = none → ∀ a L', Answered ⟨tid, q⟩ a L' := by
    intro huses hretires a L' _
    simp [huses, hretires]
  cases q with
  | putToken | cleanupTokens | putSession | cleanupSessions | putCode | markUsed | cleanupCodes =>
    exact outline_section rfl fun _ _ _ => hnothing rfl rfl _ _
  | deleteToken | deleteSession =>
    refine outline_section rfl fun s e L' _ => ⟨by simp [Call.uses], ?_⟩
    intro k hk
    cases hk
    exact has_cons.2 (.inl rfl)
  | getToken t =>
    refine (outline_getToken hstart).bind fun r L' _ hr => Answered.delivers fun ha => ?_
    refine ⟨fun k hk => ?_, by simp [Call.retires]⟩
    cases hk
    exact hr ha
  | getSession id =>
    refine (outline_getSession hstart).bind fun r L' _ hr => Answered.delivers fun ha => ?_
    refine ⟨fun k hk => ?_, by simp [Call.retires]⟩
    cases hk
    exact hr ha
  | getByClientID clientID =>
    show Outline _ _ _ _ _ (SessionStore.getByClientID true clientID >>= _) _
    exact (outline_getByClientID clientID).bind
      fun r L' _ _ => (hnothing rfl rfl r.isSome L').delivers
  | consumeCode c =>
    refine (outline_consumeCode hstart).bind fun r L' _ hr => Answered.delivers fun ha => ?_
    refine ⟨fun k hk => ?_, fun k hk => ?_⟩
    · cases hk
      exact (hr ha).1
    · cases hk
      exact (hr ha).2

/-- The pool is verified from every state whose backend keeps its records under their own keys. -/
theorem verified {s0 : State} (hkeyed : Keyed s0) : Verified pool prompt Inv s0 where
  init := by
    refine ⟨hkeyed, fun a ha => absurd ha (by simp [Ended, Latest]),
      fun w => atMostOne_nil _, ?_, ?_⟩
    · simp
    · simp
  call s L w h hfresh _ := by
    refine ⟨⟨h.keyed, ?_, fun w' => ?_, fun w' k hk hw' => ?_, fun w' k hk hw' => ?_⟩, ?_⟩
    · refine held_cons h.held _ (fun b hb => ?_) fun _ _ _ hb => hb
      cases b <;> simp [Ends, Retires, Consumes] at hb
    · refine atMostOne_cons.2 ⟨fun hs => ?_, h.oneStart w'⟩
      obtain rfl : w = w' := Event.call.inj hs
      exact hfresh.not_has fun e he => by rw [show e.event = .call w from he]; rfl
    · have hL := (has_cons.1 hw').resolve_left (by simp [Succeeds])
      exact (h.met w' k hk hL).append [_]
    · have hL := (has_cons.1 hw').resolve_left (by simp [Succeeds])
      exact (h.retired w' k hk hL).append [_]
    · exact outline_handle (has_cons.2 (.inl rfl))
  env s L d h _ := by
    refine h.advance _ (by simp [Starts]) (by simp [Succeeds]) ⟨h.keyed.tokens, h.keyed.sessions⟩ ?_
    refine held_cons h.held _ (fun b hb => ?_) fun b _ _ hb => ?_
    · cases b <;> simp [Ends, Retires, Consumes] at hb
    · cases b with
      | taken c =>
        -- An expired record stays expired.
        intro x hx
        refine (hb x hx).imp_right fun hlt => ?_
        have hd : (0 : ℤ) ≤ d := Int.natCast_nonneg d
        exact lt_of_lt_of_le hlt (le_add_of_nonneg_right hd)
      | token | session | marked => exact hb
  crash s L h _ := by
    refine h.advance _ (by simp [Starts]) (by simp [Succeeds]) ⟨h.keyed.tokens, h.keyed.sessions⟩ ?_
    refine held_cons h.held _ (fun b hb => ?_) fun b _ _ hb => ?_
    · cases b <;> simp [Ends, Retires, Consumes] at hb
    · -- After a restart the maps are empty, and the backend is as it was.
      cases b with
      | token t => exact ⟨rfl, hb.2⟩
      | session id => exact ⟨rfl, hb.2⟩
      | taken c => exact fun x hx => absurd hx (by simp [server, restart])
      | marked c => exact hb

/-- What a call retired, and nobody `Put` again, is ended in every aspect. -/
theorem ended_of_retiredBy (h : RetiredBy w k L) (hput : ¬ After (Retires w k) (Puts k) L)
    {a : Aspect} (ha : a.credential = k) : Ended a L := by
  cases k with
  | token t =>
    cases a <;> simp only [Aspect.credential, reduceCtorEq, Credential.token.injEq] at ha
    subst ha
    exact (latest_of_has h hput).mono fun e he => ⟨w, he⟩
  | session id =>
    cases a <;> simp only [Aspect.credential, reduceCtorEq, Credential.session.injEq] at ha
    subst ha
    exact (latest_of_has h hput).mono fun e he => ⟨w, he⟩
  | code c =>
    cases a <;> simp only [Aspect.credential, reduceCtorEq, Credential.code.injEq] at ha
    case taken c' =>
      subst ha
      exact (latest_of_has h.has_first hput).mono fun e he => ⟨w, he⟩
    case marked c' =>
      subst ha
      exact (latest_of_after h hput).mono fun e he => ⟨w, he⟩

/-- A refresh token of the client `m`. -/
def issued : RefreshToken :=
  { token := "t", userID := "alice", clientID := "m",
    expiresAt := seconds 604800 }

/-- A token is stored, deleted, and asked for after a restart. -/
def deletedInTime : List (Label Env ℕ Call) :=
  [.call (.putToken issued), .step 0 {}, .step 0 {}, .call (.deleteToken "t"), .step 1 {},
    .step 1 {}, .crash, .call (.getToken "t"), .step 2 {}, .step 2 { token := .notFound },
    .step 2 {}]

/-- The entry is a `Put` of a token. -/
def putsToken (e : CallEntry) : Bool :=
  match e.event with
  | .op _ (.tokensPut _) _ => true
  | _ => false

/-- The entry is a deletion of a token. -/
def deletesToken (e : CallEntry) : Bool :=
  match e.event with
  | .op _ (.tokensDelete _) _ => true
  | _ => false

/-- Nobody stored a token among the last `n` entries, and nobody deleted one before. -/
theorem not_put_again {t : Str} (n : ℕ) (hlast : (L.take n).any putsToken = false)
    (hrest : (L.drop n).any deletesToken = false) :
    ¬ After (Retires w (.token t)) (Puts (.token t)) L := by
  refine not_after_of_split n (fun e he hp => ?_) fun e he hd => ?_
  · obtain ⟨w', x, hx, -⟩ := hp
    have hnot := List.any_eq_false.1 hlast e he
    rw [putsToken, hx] at hnot
    exact hnot rfl
  · have hnot := List.any_eq_false.1 hrest e he
    rw [deletesToken, show e.event = .op w (.tokensDelete t) () from hd] at hnot
    exact hnot rfl

/-- The backend refuses the revocation, and `Delete` returns all the same. -/
def failedRevoke : List (Label Env ℕ Call) :=
  [.call (.putToken issued), .step 0 {}, .step 0 {}, .call (.deleteToken "t"),
    .step 1 { write := .failed false }, .step 1 {}, .call (.getToken "t"), .step 2 {},
    .step 2 { token := .found issued }, .step 2 {}, .step 2 {}, .step 2 {}]

/-- After a restart a lookup reads the token from the backend, then the token is deleted there and
in the map, and then the lookup caches it. -/
def staleCache : List (Label Env ℕ Call) :=
  [.call (.putToken issued), .step 0 {}, .step 0 {}, .crash, .call (.getToken "t"), .step 1 {},
    .step 1 { token := .found issued }, .call (.deleteToken "t"), .step 2 {}, .step 2 {},
    .step 1 {}, .call (.getToken "t"), .step 3 {}, .step 3 {}, .step 3 {}]

end VirePortal.Auth.Retirement
