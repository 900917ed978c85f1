import Mathlib.Data.List.MinMax
import VirePortal.Auth.Stores
import VirePortal.Concurrent.Alone

/-!
# Cleanup of the stores

The session, code and token stores refuse an expired entry when it is looked up, and a `Cleanup`
removes it. This module is about stores without a backend that serve one call after the other, each
at its own time (`CallsRun`). A map has no order of its own, so its entries may be met in any order
(`sequential`).

`Live` is what the stores are for: the entries that have not expired, by their keys. Time takes
entries away from it (`Live.remaining`), a call changes it (`Live.next`) and is answered from it
(`Live.Answer`). A call of the stores is such a step of the entries that are live at its time
(`StoreCall.Runs.refines`), and a `Cleanup` is a step that changes nothing. So the answers of two
runs whose calls differ by `Cleanup` calls are answers from the same live entries.
-/

namespace VirePortal.Auth

open Go Concurrent

/-- A call of a method of the session, code or token store. -/
inductive StoreCall where
  | putSession (session : AuthSession)
  | getSession (sessionID : Str)
  | deleteSession (sessionID : Str)
  | getByClientID (clientID : Str)
  | cleanupSessions
  | putCode (code : AuthCode)
  | getCode (code : Str)
  | markUsed (code : Str)
  | consumeCode (code : Str)
  | cleanupCodes
  | putToken (token : RefreshToken)
  | getToken (token : Str)
  | deleteToken (token : Str)
  | cleanupTokens
  deriving DecidableEq

/-- An entry of one of the stores. -/
inductive Record where
  | session (x : AuthSession)
  | code (c : AuthCode)
  | token (t : RefreshToken)
  deriving DecidableEq

/-- Whether an entry is past its time. -/
def Record.expired (now : Time) : Record → Bool
  | .session x => x.expired now
  | .code c => after now c.expiresAt
  | .token t => after now t.expiresAt

/-- The method that a call runs, with the entry that it returns. -/
def StoreCall.program : StoreCall → M (Option Record)
  | .putSession x => do SessionStore.put x; return none
  | .getSession sessionID => do return (← SessionStore.get false sessionID).map .session
  | .deleteSession sessionID => do SessionStore.delete sessionID; return none
  | .getByClientID clientID => do return (← SessionStore.getByClientID false clientID).map .session
  | .cleanupSessions => do SessionStore.cleanup; return none
  | .putCode c => do CodeStore.put c; return none
  | .getCode code => do return (← CodeStore.get code).map .code
  | .markUsed code => do CodeStore.markUsed code; return none
  | .consumeCode code => do return (← CodeStore.consumeCode false code).map .code
  | .cleanupCodes => do CodeStore.cleanup; return none
  | .putToken t => do TokenStore.put t; return none
  | .getToken token => do return (← TokenStore.get false token).map .token
  | .deleteToken token => do TokenStore.delete token; return none
  | .cleanupTokens => do TokenStore.cleanup; return none

/-- Whether a call is a `Cleanup`. -/
def StoreCall.isCleanup : StoreCall → Bool
  | .cleanupSessions | .cleanupCodes | .cleanupTokens => true
  | _ => false

/-- The same entries in the three maps, in any order. -/
structure Stores.Reordered (m m' : Stores) : Prop where
  sessions : m.sessions.entries.Perm m'.sessions.entries
  codes : m.codes.entries.Perm m'.codes.entries
  tokens : m.tokens.entries.Perm m'.tokens.entries

/-- The maps as they are. -/
theorem Stores.Reordered.refl (m : Stores) : m.Reordered m := ⟨.refl _, .refl _, .refl _⟩

/-- The stores of a portal that serves one call at a time: the clock stands still, and the maps have
no order. -/
def sequential : Setting Op Reply State Env where
  exec := exec false
  between s s' := s'.now = s.now ∧ s.mem.Reordered s'.mem
  refl s := ⟨rfl, Stores.Reordered.refl s.mem⟩

/-- A call at the time `t` on the maps `m` returns `r` and leaves the maps `m'`. -/
def StoreCall.Runs (q : StoreCall) (t : Time) (m : Stores) (r : Option Record)
    (m' : Stores) : Prop :=
  ∃ ops s', sequential.Runs q.program { now := t, mem := m } ops r s' ∧ s'.mem = m'

/-- Calls one after the other from the maps `m`, each with its time and with what it returns. -/
inductive CallsRun : Stores → List (Time × StoreCall) → List (StoreCall × Option Record) → Prop
  | nil (m : Stores) : CallsRun m [] []
  | cons {m m' : Stores} {t : Time} {q : StoreCall} {r : Option Record}
      {calls : List (Time × StoreCall)} {results : List (StoreCall × Option Record)}
      (hcall : q.Runs t m r m') (hrest : CallsRun m' calls results) :
      CallsRun m ((t, q) :: calls) ((q, r) :: results)

/-! ### The live entries -/

/-- The entries that the stores answer from, by their keys. -/
@[ext]
structure Live where
  sessions : Str → Option AuthSession
  codes : Str → Option AuthCode
  tokens : Str → Option RefreshToken

/-- What has not expired at the time `t`. -/
def Live.remaining (A : Live) (t : Time) : Live where
  sessions k := (A.sessions k).filter fun x => !x.expired t
  codes k := (A.codes k).filter fun c => !after t c.expiresAt
  tokens k := (A.tokens k).filter fun r => !after t r.expiresAt

/-- All entries of the maps. -/
def Stores.entries (m : Stores) : Live where
  sessions k := m.sessions.lookup k
  codes k := m.codes.lookup k
  tokens k := m.tokens.lookup k

/-- `r` is a session of the client that no other one is younger than, and nothing if the client has
no session. -/
def Live.Newest (A : Live) (clientID : Str) : Option Record → Prop
  | none => ∀ k x, A.sessions k = some x → x.clientID ≠ clientID
  | some (.session x) => (∃ k, A.sessions k = some x) ∧ x.clientID = clientID ∧
      ∀ k y, A.sessions k = some y → y.clientID = clientID → y.createdAt ≤ x.createdAt
  | some _ => False

/-- The record of a code once it is used. -/
def AuthCode.spent (c : AuthCode) : AuthCode := { c with used := true }

/-- What a call may return when `A` is live. -/
def Live.Answer (A : Live) : StoreCall → Option Record → Prop
  | .getSession sessionID, r => r = (A.sessions sessionID).map .session
  | .getByClientID clientID, r => A.Newest clientID r
  | .getCode code, r => r = (A.codes code).map .code
  | .consumeCode code, r =>
    r = ((A.codes code).filter fun c => !c.used).map fun c => .code c.spent
  | .getToken token, r => r = (A.tokens token).map .token
  | _, r => r = none

/-- What a call leaves of `A`, up to what has expired. A code that is consumed or marked is used
from then on. -/
def Live.next (A : Live) : StoreCall → Live
  | .putSession x => { A with sessions := Function.update A.sessions x.sessionID (some x) }
  | .deleteSession sessionID => { A with sessions := Function.update A.sessions sessionID none }
  | .putCode c => { A with codes := Function.update A.codes c.code (some c) }
  | .markUsed code | .consumeCode code =>
    { A with codes := Function.update A.codes code ((A.codes code).map AuthCode.spent) }
  | .putToken t => { A with tokens := Function.update A.tokens t.token (some t) }
  | .deleteToken token => { A with tokens := Function.update A.tokens token none }
  | _ => A

/-- What is live later is live among what is live now. -/
theorem Live.remaining_remaining (A : Live) {t t' : Time} (h : t ≤ t') :
    (A.remaining t).remaining t' = A.remaining t' := by
  -- What is live later is live now.
  have hfilter : ∀ {V : Type} (expiry : V → Time) (o : Option V),
      (o.filter fun v => !after t (expiry v)).filter (fun v => !after t' (expiry v)) =
        o.filter fun v => !after t' (expiry v) := by
    intro V expiry o
    rw [Option.filter_filter]
    cases o with
    | none => rfl
    | some v =>
      have hlive : t' ≤ expiry v → t ≤ expiry v := h.trans
      simp only [Option.filter_some, after]
      grind
  exact Live.ext (funext fun k => hfilter (fun x : AuthSession => x.createdAt + sessionTTL) _)
    (funext fun k => hfilter AuthCode.expiresAt _)
      (funext fun k => hfilter RefreshToken.expiresAt _)

variable {m : Stores} {r : Option Record} {q : StoreCall}
variable {results : List (StoreCall × Option Record)} {calls : List (Time × StoreCall)} {A : Live}

/-- The order of the maps does not matter. -/
theorem Stores.Reordered.entries {m' : Stores} (h : m.Reordered m') : m'.entries = m.entries :=
  Live.ext (funext fun _ => (AList.perm_lookup h.sessions).symm)
    (funext fun _ => (AList.perm_lookup h.codes).symm)
    (funext fun _ => (AList.perm_lookup h.tokens).symm)

/-! ### What each call does to the entries -/

/-- The loop of `GetByClientID` is the first largest of the live sessions of the client. -/
theorem bestSession_eq_argmax (now : Time) (clientID : Str) (l : List AuthSession) :
    bestSession now clientID none l =
      (l.filter fun x => x.clientID = clientID && !x.expired now).argmax AuthSession.createdAt := by
  have hfold : ∀ best, bestSession now clientID best l =
      (l.filter fun x => x.clientID = clientID && !x.expired now).foldl
        (List.argAux fun b c => c.createdAt < b.createdAt) best := by
    induction l with
    | nil => exact fun best => rfl
    | cons x l ih =>
      intro best
      unfold bestSession
      by_cases hclient : x.clientID = clientID
      · by_cases hexpired : x.expired now = true
        · rw [if_neg (not_not.2 hclient), if_pos hexpired, ih, List.filter_cons_of_neg
            (by simp [hexpired])]
        · rw [if_neg (not_not.2 hclient), if_neg hexpired, List.filter_cons_of_pos
            (by simp [hclient, hexpired]), List.foldl_cons]
          cases best with
          | none => exact ih (some x)
          | some b =>
            have hnewer : (if after x.createdAt b.createdAt then some x else some b) =
                List.argAux (fun b c : AuthSession => c.createdAt < b.createdAt) (some b) x := by
              simp [List.argAux, after]
            rw [← hnewer]
            exact ih _
      · rw [if_pos hclient, ih, List.filter_cons_of_neg (by simp [hclient])]
  exact hfold none

/-- An assignment changes one key. -/
theorem Table.lookup_insert_eq {V : Type} (t : Table V) (k : Str) (v : V) :
    (AList.insert k v t).lookup = Function.update t.lookup k (some v) := by
  funext k'
  rw [Table.lookup_insert, Function.update_apply]

/-- A deletion changes one key. -/
theorem Table.lookup_erase_eq {V : Type} (t : Table V) (k : Str) :
    (AList.erase k t).lookup = Function.update t.lookup k none := by
  funext k'
  rw [Table.lookup_erase, Function.update_apply]

section Runs

variable {t : Time} {m m' : Stores} {r : Option Record}

/-- A method that performs one operation does so on the entries that it meets, at its time. -/
theorem runs_once {V : Type} (o : Op) (look : Reply o → V) {p : M V}
    {ops : List ((o : Op) × Reply o)} {x : V} {s s' : State} (h : sequential.Runs p s ops x s')
    (hp : p = perform o >>= fun r => pure (look r)) :
    ∃ e s1, s1.mem.entries = s.mem.entries ∧ s1.now = s.now ∧ x = look (exec false o e s1).1 ∧
      s'.mem.entries = (exec false o e s1).2.mem.entries := by
  rw [hp] at h
  obtain ⟨s1, e, rest, hbetween, -, rfl, hend⟩ := Setting.Runs.call h
  exact ⟨e, s1, hbetween.2.entries, hbetween.1, rfl, hend.2.entries⟩

/-- A call that performs one operation and returns nothing. -/
theorem StoreCall.Runs.write {q : StoreCall} (o : Op) (h : q.Runs t m r m')
    (hq : q.program = perform o >>= fun _ => pure none)
    (hexec : ∀ e s, (exec false o e s).2.mem.entries.remaining s.now =
      (s.mem.entries.next q).remaining s.now) :
    r = none ∧ m'.entries.remaining t = (m.entries.next q).remaining t := by
  obtain ⟨ops, s', hrun, rfl⟩ := h
  obtain ⟨e, s, hentries, rfl, rfl, hend⟩ := runs_once o (fun _ => none) hrun hq
  refine ⟨rfl, ?_⟩
  rw [hend, hexec, hentries]

/-- The three methods `Get`: the entry that a map holds is returned unless the clock, read
afterwards, is past its time. -/
theorem runs_get {V : Type} (o : Op) (look : Reply o → Option V) (expired : V → Time → Bool)
    (found : Live → Option V) {p : M (Option V)} {ops : List ((o : Op) × Reply o)} {x : Option V}
    {s s' : State} (h : sequential.Runs p s ops x s')
    (hp : p = perform o >>= fun r => (look r).elim (pure none) fun v =>
      perform .now >>= fun now => pure (if expired v now then none else some v))
    (hexec : ∀ e s, look (exec false o e s).1 = found s.mem.entries ∧ (exec false o e s).2 = s) :
    x = (found s.mem.entries).filter (fun v => !expired v s.now) ∧
      s'.mem.entries = s.mem.entries := by
  rw [hp] at h
  obtain ⟨s1, e, rest, hbetween, hrest⟩ := Setting.Runs.call h
  have hentries : s1.mem.entries = s.mem.entries := hbetween.2.entries
  have hlook : look (sequential.exec o e s1).1 = found s.mem.entries := by
    rw [← hentries]
    exact (hexec e s1).1
  have hstate : (sequential.exec o e s1).2 = s1 := (hexec e s1).2
  rw [hlook, hstate] at hrest
  cases hfound : found s.mem.entries with
  | none =>
    rw [hfound] at hrest
    obtain ⟨-, rfl, hend⟩ := hrest
    exact ⟨rfl, hend.2.entries.trans hentries⟩
  | some v =>
    rw [hfound] at hrest
    obtain ⟨s2, e2, rest, hthen, -, rfl, hend⟩ := Setting.Runs.call hrest
    -- In this setting the clock stands still during a call.
    have hnow : s2.now = s.now := hthen.1.trans hbetween.1
    refine ⟨?_, hend.2.entries.trans (hthen.2.entries.trans hentries)⟩
    show (if expired v s2.now then none else some v) = _
    rw [hnow, Option.filter_some]
    cases expired v s.now <;> rfl

/-- A call whose method returns an entry. -/
theorem StoreCall.Runs.read {V : Type} {q : StoreCall} {p : M (Option V)} {wrap : V → Record}
    (hq : q.program = p >>= fun x => pure (x.map wrap)) (h : q.Runs t m r m') :
    ∃ ops x s', sequential.Runs p { now := t, mem := m } ops x s' ∧ r = x.map wrap ∧
      m'.entries = s'.mem.entries := by
  obtain ⟨ops, s', hrun, rfl⟩ := h
  rw [hq] at hrun
  obtain ⟨x, s1, ops1, ops2, -, hp, -, rfl, hend⟩ := Setting.Runs.bind hrun
  exact ⟨ops1, x, s1, hp, rfl, hend.2.entries⟩

/-- `SessionStore.Get` returns a live session. -/
theorem StoreCall.Runs.getSession {sessionID : Str}
    (h : (StoreCall.getSession sessionID).Runs t m r m') :
    r = ((m.entries.remaining t).sessions sessionID).map .session ∧ m'.entries = m.entries := by
  obtain ⟨ops, x, s', hrun, rfl, hend⟩ := h.read rfl
  obtain ⟨rfl, hsame⟩ := runs_get (.sessionsLookup sessionID) id AuthSession.expired
    (fun A => A.sessions sessionID) hrun (congrArg (Prog.op _) (funext fun x => by cases x <;> rfl))
    fun e s => ⟨rfl, rfl⟩
  exact ⟨rfl, hend.trans hsame⟩

/-- `CodeStore.Get` returns a live code. -/
theorem StoreCall.Runs.getCode {code : Str} (h : (StoreCall.getCode code).Runs t m r m') :
    r = ((m.entries.remaining t).codes code).map .code ∧ m'.entries = m.entries := by
  obtain ⟨ops, x, s', hrun, rfl, hend⟩ := h.read rfl
  obtain ⟨rfl, hsame⟩ := runs_get (.codesLookup code) id (fun c now => after now c.expiresAt)
    (fun A => A.codes code) hrun (congrArg (Prog.op _) (funext fun x => by cases x <;> rfl))
    fun e s => ⟨rfl, rfl⟩
  exact ⟨rfl, hend.trans hsame⟩

/-- `TokenStore.Get` returns a live token. -/
theorem StoreCall.Runs.getToken {token : Str} (h : (StoreCall.getToken token).Runs t m r m') :
    r = ((m.entries.remaining t).tokens token).map .token ∧ m'.entries = m.entries := by
  obtain ⟨ops, x, s', hrun, rfl, hend⟩ := h.read rfl
  obtain ⟨rfl, hsame⟩ := runs_get (.tokensLookup token) id (fun k now => after now k.expiresAt)
    (fun A => A.tokens token) hrun (congrArg (Prog.op _) (funext fun x => by cases x <;> rfl))
    fun e s => ⟨rfl, rfl⟩
  exact ⟨rfl, hend.trans hsame⟩

/-- The sessions that an iteration over the map meets. -/
theorem mem_iterate {V : Type} {t : Table V} {start : ℕ} {v : V} :
    v ∈ iterate t start ↔ ∃ k, t.lookup k = some v := by
  refine ⟨iterate_mem, ?_⟩
  rintro ⟨k, hk⟩
  rw [iterate, List.mem_rotate, List.mem_map]
  exact ⟨⟨k, v⟩, AList.mem_lookup_iff.1 hk, rfl⟩

/-- `GetByClientID` returns a youngest live session of the client. -/
theorem newest_bestSession {sessions : Table AuthSession} {A : Live}
    (hA : ∀ k, A.sessions k = sessions.lookup k) (clientID : Str) (start : ℕ) :
    (A.remaining t).Newest clientID
      ((bestSession t clientID none (iterate sessions start)).map .session) := by
  have hlive : ∀ k x, (A.remaining t).sessions k = some x ↔
      sessions.lookup k = some x ∧ x.expired t = false := by
    intro k x
    simp [Live.remaining, hA, Option.filter_eq_some_iff]
  have hmem : ∀ k x, (A.remaining t).sessions k = some x → x.clientID = clientID →
      x ∈ (iterate sessions start).filter fun x => x.clientID = clientID && !x.expired t := by
    intro k x hx hclient
    obtain ⟨hlook, hexpired⟩ := (hlive k x).1 hx
    exact List.mem_filter.2 ⟨mem_iterate.2 ⟨k, hlook⟩, by simp [hclient, hexpired]⟩
  -- The loop keeps the first session that is not older than every other one.
  rw [bestSession_eq_argmax]
  cases hbest : ((iterate sessions start).filter fun x =>
      x.clientID = clientID && !x.expired t).argmax AuthSession.createdAt with
  | none =>
    intro k x hx hclient
    have := hmem k x hx hclient
    rw [List.argmax_eq_none.1 hbest] at this
    cases this
  | some x =>
    have hx := List.mem_filter.1 (List.argmax_mem hbest)
    simp only [Bool.and_eq_true, decide_eq_true_eq, Bool.not_eq_true'] at hx
    obtain ⟨k, hk⟩ := mem_iterate.1 hx.1
    refine ⟨⟨k, (hlive k x).2 ⟨hk, hx.2.2⟩⟩, hx.2.1, ?_⟩
    intro k' y hy hclient
    exact List.le_of_mem_argmax (hmem k' y hy hclient) hbest

/-- `GetByClientID` returns the newest live session. -/
theorem StoreCall.Runs.getByClientID {clientID : Str}
    (h : (StoreCall.getByClientID clientID).Runs t m r m') :
    (m.entries.remaining t).Newest clientID r ∧ m'.entries = m.entries := by
  have hprogram : SessionStore.getByClientID false clientID =
      perform (.sessionsByClientID clientID) >>= fun r => pure r.2 :=
    congrArg (Prog.op _) (funext fun r => by obtain ⟨now, _ | x⟩ := r <;> rfl)
  obtain ⟨ops, x, s', hrun, rfl, hend⟩ := h.read rfl
  obtain ⟨e, s, hentries, rfl, rfl, hdone⟩ :=
    runs_once (.sessionsByClientID clientID) Prod.snd hrun hprogram
  refine ⟨?_, hend.trans (hdone.trans hentries)⟩
  rw [← hentries]
  exact newest_bestSession (fun k => rfl) clientID e.start

/-- A code that is expired or used stays as it is when it is consumed. -/
theorem Live.remaining_next_consumeCode {A : Live} {code : Str}
    (h : ∀ c, A.codes code = some c → after t c.expiresAt = true ∨ c.used = true) :
    (A.next (.consumeCode code)).remaining t = A.remaining t := by
  refine Live.ext rfl (funext fun k => ?_) rfl
  show (Function.update A.codes code ((A.codes code).map AuthCode.spent) k).filter _ = _
  rw [Function.update_apply]
  split_ifs with hk
  · subst hk
    show _ = (A.codes k).filter _
    cases hcode : A.codes k with
    | none => rfl
    | some c =>
      rcases h c hcode with hexpired | hused
      · simp [AuthCode.spent, Option.filter_some, hexpired]
      · have hspent : c.spent = c := by rw [AuthCode.spent, ← hused]
        rw [Option.map_some, hspent]
  · rfl

/-- `ConsumeCode` takes a live code that is not used, and marks it. -/
theorem exec_codesConsume_live (code : Str) (e : Env) (s : State) :
    (exec false (.codesConsume code) e s).1.join =
        (((s.mem.entries.remaining s.now).codes code).filter fun c => !c.used).map AuthCode.spent ∧
      (exec false (.codesConsume code) e s).2.mem.entries.remaining s.now =
        (s.mem.entries.next (.consumeCode code)).remaining s.now := by
  cases hlook : s.mem.codes.lookup code with
  | none =>
    have hexec : exec false (.codesConsume code) e s = (none, s) := by simp [exec, hlook]
    rw [hexec, Live.remaining_next_consumeCode]
    · simp [Live.remaining, Stores.entries, hlook]
    · intro c hc
      cases hlook.symm.trans hc
  | some c =>
    -- The record is expired or used and stays, or it is taken and stays as a used one.
    rcases takeCode_cases s.now code c s.mem.codes with ⟨htake, hold⟩ | ⟨htake, hexpiry, hused⟩
    · have hexec : exec false (.codesConsume code) e s = (some none, s) := by
        simp only [exec, hlook, htake]
        rfl
      have hrefused : after s.now c.expiresAt = true ∨ c.used = true := by
        simpa [after] using hold
      rw [hexec, Live.remaining_next_consumeCode]
      · refine ⟨?_, rfl⟩
        show none = (((s.mem.codes.lookup code).filter _).filter _).map _
        rw [hlook, Option.filter_some, eq_comm, Option.map_eq_none_iff]
        rcases hrefused with hexpired | hused
        · simp [hexpired]
        · split_ifs <;> simp [Option.filter_some, hused]
      · intro c' hc'
        obtain rfl := Option.some.inj (hlook.symm.trans hc')
        exact hrefused
    · have hexec : exec false (.codesConsume code) e s = (some (some c.spent),
          s.updateMem fun m => { m with codes := m.codes.insert code c.spent }) := by
        simp only [exec, hlook, htake]
        rfl
      have hlive : after s.now c.expiresAt = false := by simpa [after] using hexpiry
      rw [hexec]
      refine ⟨by simp [Live.remaining, Stores.entries, hlook, hlive, hused], ?_⟩
      congr 1
      refine Live.ext rfl ?_ rfl
      show (AList.insert code c.spent s.mem.codes).lookup = Function.update _ code _
      rw [Table.lookup_insert_eq]
      show _ = Function.update s.mem.codes.lookup code
        ((s.mem.codes.lookup code).map AuthCode.spent)
      rw [hlook, Option.map_some]

/-- `ConsumeCode` takes a live code. -/
theorem StoreCall.Runs.consumeCode {code : Str} (h : (StoreCall.consumeCode code).Runs t m r m') :
    (m.entries.remaining t).Answer (.consumeCode code) r ∧
      m'.entries.remaining t = (m.entries.next (.consumeCode code)).remaining t := by
  have hprogram : CodeStore.consumeCode false code =
      perform (.codesConsume code) >>= fun r => pure r.join :=
    congrArg (Prog.op _) (funext fun r => by obtain _ | _ | c := r <;> rfl)
  obtain ⟨ops, x, s', hrun, rfl, hend⟩ := h.read rfl
  obtain ⟨e, s, hentries, rfl, rfl, hdone⟩ :=
    runs_once (.codesConsume code) Option.join hrun hprogram
  obtain ⟨hresult, hcodes⟩ := exec_codesConsume_live code e s
  rw [hend, hdone, ← hentries]
  refine ⟨?_, hcodes⟩
  rw [hresult]
  exact Option.map_map ..

end Runs

/-! ### Refinement -/

/-- A mark changes one key. -/
theorem Table.lookup_setUsed_eq (t : Table AuthCode) (code : Str) :
    (setUsed code t).lookup = Function.update t.lookup code
      ((t.lookup code).map AuthCode.spent) := by
  funext k
  rw [lookup_setUsed, Function.update_apply]
  split_ifs with hk
  · subst hk
    cases t.lookup k <;> simp [AuthCode.spent]
  · cases t.lookup k <;> rfl

/-- What a `Cleanup` leaves is live as far as it was. -/
theorem Table.filter_lookup_filter {V : Type} (p : V → Bool) (t : Table V) (k : Str) :
    ((t.filter p).lookup k).filter p = (t.lookup k).filter p := by
  rw [Table.lookup_filter, Option.filter_filter]
  simp

/-- A call is answered from what is live at its time, and changes it as the live entries change. -/
theorem StoreCall.Runs.refines {t : Time} {m' : Stores} (h : q.Runs t m r m') :
    (m.entries.remaining t).Answer q r ∧ m'.entries.remaining t =
      (m.entries.next q).remaining t := by
  cases q with
  -- The lookups leave the maps as they are.
  | getSession sessionID => exact h.getSession.imp_right (congrArg (Live.remaining · t))
  | getCode code => exact h.getCode.imp_right (congrArg (Live.remaining · t))
  | getToken token => exact h.getToken.imp_right (congrArg (Live.remaining · t))
  | getByClientID clientID => exact h.getByClientID.imp_right (congrArg (Live.remaining · t))
  | consumeCode code => exact h.consumeCode
  | putSession x =>
    exact h.write (.sessionsPut x) rfl fun e s => congrArg (Live.remaining · s.now)
      (Live.ext (Table.lookup_insert_eq ..) rfl rfl)
  | deleteSession sessionID =>
    exact h.write (.sessionsDelete sessionID) rfl fun e s => congrArg (Live.remaining · s.now)
      (Live.ext (Table.lookup_erase_eq ..) rfl rfl)
  | putCode c =>
    exact h.write (.codesPut c) rfl fun e s => congrArg (Live.remaining · s.now)
      (Live.ext rfl (Table.lookup_insert_eq ..) rfl)
  | markUsed code =>
    exact h.write (.codesMarkUsed code) rfl fun e s => congrArg (Live.remaining · s.now)
      (Live.ext rfl (Table.lookup_setUsed_eq ..) rfl)
  | putToken k =>
    exact h.write (.tokensPut k) rfl fun e s => congrArg (Live.remaining · s.now)
      (Live.ext rfl rfl (Table.lookup_insert_eq ..))
  | deleteToken token =>
    exact h.write (.tokensDelete token) rfl fun e s => congrArg (Live.remaining · s.now)
      (Live.ext rfl rfl (Table.lookup_erase_eq ..))
  -- What a `Cleanup` removes is not live, with the comparison that the lookups make.
  | cleanupSessions =>
    exact h.write .sessionsCleanup rfl fun e s =>
      Live.ext (funext fun k => Table.filter_lookup_filter ..) rfl rfl
  | cleanupCodes =>
    exact h.write .codesCleanup rfl fun e s =>
      Live.ext rfl (funext fun k => Table.filter_lookup_filter ..) rfl
  | cleanupTokens =>
    exact h.write .tokensCleanup rfl fun e s =>
      Live.ext rfl rfl (funext fun k => Table.filter_lookup_filter ..)

/-- An assignment to what is left of a map, as far as it is left. -/
theorem filter_update_filter {V : Type} (p : V → Bool) (f : Str → Option V) (k : Str)
    {v v' : Option V} (hv : v.filter p = v'.filter p) :
    (fun k' => (Function.update (fun k' => (f k').filter p) k v k').filter p) =
      fun k' => (Function.update f k v' k').filter p := by
  funext k'
  rw [Function.update_apply, Function.update_apply]
  split_ifs
  · exact hv
  · rw [Option.filter_filter]
    simp

/-- What a call leaves live depends on what was live. -/
theorem Live.remaining_next (A : Live) (q : StoreCall) (t : Time) :
    ((A.remaining t).next q).remaining t = (A.next q).remaining t := by
  have hsame : (A.remaining t).remaining t = A.remaining t := A.remaining_remaining (le_refl t)
  have hsessions := congrArg Live.sessions hsame
  have hcodes := congrArg Live.codes hsame
  have htokens := congrArg Live.tokens hsame
  -- A code keeps its expiry when it is spent.
  have hspent : ∀ code, (((A.remaining t).codes code).map AuthCode.spent).filter
      (fun c => !after t c.expiresAt) =
        ((A.codes code).map AuthCode.spent).filter fun c => !after t c.expiresAt := by
    intro code
    show (((A.codes code).filter fun c => !after t c.expiresAt).map AuthCode.spent).filter _ = _
    cases A.codes code with
    | none => rfl
    | some c =>
      rw [Option.filter_some]
      cases hexpired : after t c.expiresAt <;> simp [AuthCode.spent, Option.filter_some, hexpired]
  cases q with
  | putSession x => exact Live.ext (filter_update_filter _ _ _ rfl) hcodes htokens
  | deleteSession sessionID => exact Live.ext (filter_update_filter _ _ _ rfl) hcodes htokens
  | putCode c => exact Live.ext hsessions (filter_update_filter _ _ _ rfl) htokens
  | markUsed code | consumeCode code =>
    exact Live.ext hsessions (filter_update_filter _ _ _ (hspent code)) htokens
  | putToken k => exact Live.ext hsessions hcodes (filter_update_filter _ _ _ rfl)
  | deleteToken token => exact Live.ext hsessions hcodes (filter_update_filter _ _ _ rfl)
  | _ => exact hsame

/-- Calls that are answered from the live entries, from `A` on. -/
inductive LiveRun : Live → List (Time × StoreCall) → List (StoreCall × Option Record) → Prop
  | nil (A : Live) : LiveRun A [] []
  | cons {A : Live} {t : Time} {q : StoreCall} {r : Option Record} {calls : List (Time × StoreCall)}
      {results : List (StoreCall × Option Record)} (hanswer : (A.remaining t).Answer q r)
      (hrest : LiveRun (A.next q) calls results) : LiveRun A ((t, q) :: calls) ((q, r) :: results)

/-- The calls without the `Cleanup` calls. -/
def withoutCleanup (calls : List (Time × StoreCall)) : List (Time × StoreCall) :=
  calls.filter fun c => !c.2.isCleanup

/-- What the calls other than the `Cleanup` calls return. -/
def visible (results : List (StoreCall × Option Record)) : List (StoreCall × Option Record) :=
  results.filter fun c => !c.1.isCleanup

/-- The times of the calls do not go back. -/
def Nondecreasing (calls : List (Time × StoreCall)) : Prop := calls.Pairwise fun c d => c.1 ≤ d.1

/-- A run of the stores, without its `Cleanup` calls, is one of the live entries. -/
theorem CallsRun.liveRun (h : CallsRun m calls results) (hclock : Nondecreasing calls)
    (hA : ∀ c ∈ calls, m.entries.remaining c.1 = A.remaining c.1) :
    LiveRun A (withoutCleanup calls) (visible results) := by
  induction h generalizing A with
  | nil m => exact .nil A
  | @cons m m' t q r calls results hcall hrest ih =>
    obtain ⟨hanswer, hnext⟩ := hcall.refines
    obtain ⟨hlater, hclock⟩ := List.pairwise_cons.1 hclock
    have hnow : m.entries.remaining t = A.remaining t := hA (t, q) (.head _)
    have hafter : m'.entries.remaining t = (A.next q).remaining t := by
      calc m'.entries.remaining t = (m.entries.next q).remaining t := hnext
        _ = ((m.entries.remaining t).next q).remaining t := (Live.remaining_next _ q t).symm
        _ = ((A.remaining t).next q).remaining t := by rw [hnow]
        _ = (A.next q).remaining t := Live.remaining_next A q t
    -- What agrees at the time of the call agrees at the later times.
    have hrest : ∀ c ∈ calls, m'.entries.remaining c.1 = (A.next q).remaining c.1 := by
      intro c hc
      have hle : t ≤ c.1 := hlater c hc
      rw [← Live.remaining_remaining _ hle, hafter, Live.remaining_remaining _ hle]
    by_cases hq : q.isCleanup = true
    · -- The live entries take no step.
      have hskip : A.next q = A := by
        cases q <;> first | rfl | cases hq
      rw [hskip] at hrest
      rw [withoutCleanup, List.filter_cons_of_neg (by simp [hq]), visible,
        List.filter_cons_of_neg (by simp [hq])]
      exact ih hclock hrest
    · rw [hnow] at hanswer
      rw [withoutCleanup, List.filter_cons_of_pos (by simp [hq]), visible,
        List.filter_cons_of_pos (by simp [hq])]
      exact .cons hanswer (ih hclock hrest)

/-- The same result, or two sessions of the client that are of the same age. -/
def SameResult : StoreCall → Option Record → Option Record → Prop
  | .getByClientID clientID, r, r' => r = r' ∨ ∃ x y, r = some (.session x) ∧
      r' = some (.session y) ∧
      x.clientID = clientID ∧ y.clientID = clientID ∧ x.createdAt = y.createdAt
  | _, r, r' => r = r'

/-- The newest session is a session. -/
theorem Live.Newest.cases {clientID : Str} (h : A.Newest clientID r) :
    r = none ∨ ∃ x, r = some (.session x) := by
  rcases r with _ | x | c | k
  · exact .inl rfl
  · exact .inr ⟨x, rfl⟩
  · exact h.elim
  · exact h.elim

/-- Two youngest sessions of a client are of the same age. -/
theorem Live.Newest.agree {clientID : Str} {r' : Option Record} (h : A.Newest clientID r)
    (h' : A.Newest clientID r') : SameResult (.getByClientID clientID) r r' := by
  obtain rfl | ⟨x, rfl⟩ := h.cases
  · obtain rfl | ⟨y, rfl⟩ := h'.cases
    · exact .inl rfl
    · obtain ⟨⟨k, hk⟩, hclient, -⟩ := h'
      exact absurd hclient (h k y hk)
  · obtain ⟨⟨k, hk⟩, hclient, hmax⟩ := h
    obtain rfl | ⟨y, rfl⟩ := h'.cases
    · exact absurd hclient (h' k x hk)
    · obtain ⟨⟨k', hk'⟩, hclient', hmax'⟩ := h'
      exact .inr ⟨x, y, rfl, rfl, hclient, hclient',
        le_antisymm (hmax' k x hk hclient) (hmax k' y hk' hclient')⟩

/-- The answers from the same live entries agree. -/
theorem Live.Answer.agree {r' : Option Record} (h : A.Answer q r) (h' : A.Answer q r') :
    SameResult q r r' := by
  cases q with
  | getByClientID clientID => exact Live.Newest.agree h h'
  | _ => exact Eq.trans h (Eq.symm h')

/-- The live entries answer one list of calls in one way, up to the choice among sessions. -/
theorem LiveRun.agree {results' : List (StoreCall × Option Record)} (h : LiveRun A calls results)
    (h' : LiveRun A calls results') :
    List.Forall₂ (fun c d => c.1 = d.1 ∧ SameResult c.1 c.2 d.2) results results' := by
  induction h generalizing results' with
  | nil A =>
    cases h'
    exact .nil
  | cons hanswer hrest ih =>
    cases h' with
    | cons hanswer' hrest' => exact .cons ⟨rfl, hanswer.agree hanswer'⟩ (ih hrest')

/-- What is answered from the live entries is live. -/
theorem Live.Answer.live {t : Time} {x : Record} (h : (A.remaining t).Answer q (some x)) :
    x.expired t = false := by
  have hmap : ∀ {V : Type} {p : V → Bool} {o : Option V} {wrap : V → Record},
      some x = (o.filter p).map wrap → ∃ v, p v = true ∧ wrap v = x := by
    intro V p o wrap hx
    obtain ⟨v, hv, rfl⟩ := Option.map_eq_some_iff.1 hx.symm
    exact ⟨v, (Option.filter_eq_some_iff.1 hv).2, rfl⟩
  cases q with
  | getSession sessionID =>
    obtain ⟨y, hy, rfl⟩ := hmap h
    exact (Bool.not_eq_true' _).mp hy
  | getCode code =>
    obtain ⟨c, hc, rfl⟩ := hmap h
    exact (Bool.not_eq_true' _).mp hc
  | getToken token =>
    obtain ⟨k, hk, rfl⟩ := hmap h
    exact (Bool.not_eq_true' _).mp hk
  | consumeCode code =>
    obtain ⟨c, hc, rfl⟩ := Option.map_eq_some_iff.1 (Eq.symm h)
    have hlive := (Option.filter_eq_some_iff.1 (Option.filter_eq_some_iff.1 hc).1).2
    exact (Bool.not_eq_true' _).mp hlive
  -- The best session is one of the remaining ones.
  | getByClientID clientID =>
    obtain hnone | ⟨y, hy⟩ := Live.Newest.cases h
    · cases hnone
    · cases hy
      obtain ⟨⟨k, hk⟩, -⟩ := h
      exact (Bool.not_eq_true' _).mp (Option.filter_eq_some_iff.1 hk).2
  | _ => cases h

/-- For every clock that does not go back, `Cleanup` calls that are inserted or left out change no
result of the other calls, up to the choice among sessions of a client that are of the same age. In
every state of the stores no call returns an expired entry, and `GetByClientID` returns a session of
the client that has not expired, one with the greatest `CreatedAt`, and nothing only if there is
none. -/
theorem cleanup_invisible :
    (∀ (m : Stores) (calls calls' : List (Time × StoreCall))
        (results results' : List (StoreCall × Option Record)),
      Nondecreasing calls → Nondecreasing calls' → withoutCleanup calls = withoutCleanup calls' →
      CallsRun m calls results → CallsRun m calls' results' →
      List.Forall₂ (fun c d => c.1 = d.1 ∧ SameResult c.1 c.2 d.2) (visible results)
        (visible results')) ∧
    ∀ (q : StoreCall) (t : Time) (m m' : Stores) (r : Option Record), q.Runs t m r m' →
      (∀ x, r = some x → x.expired t = false) ∧
      ∀ clientID, q = .getByClientID clientID → (m.entries.remaining t).Newest clientID r := by
  constructor
  · intro m calls calls' results results' hclock hclock' hsame hrun hrun'
    have hlive := hrun.liveRun hclock fun c _ => rfl
    have hlive' := hrun'.liveRun hclock' fun c _ => rfl
    rw [hsame] at hlive
    exact hlive.agree hlive'
  · intro q t m m' r hrun
    obtain ⟨hanswer, -⟩ := hrun.refines
    constructor
    · rintro x rfl
      exact hanswer.live
    · rintro clientID rfl
      exact hanswer

/-- A run that can be computed. -/
theorem StoreCall.Runs.of_run {t : Time} {ops : List ((o : Op) × Reply o)} {s' : State}
    (es : List Env) (h : sequential.run q.program es { now := t, mem := m } = some (ops, r, s')) :
    q.Runs t m r s'.mem :=
  ⟨ops, s', Setting.Runs.of_run (fun _ _ _ => trivial) h, rfl⟩

/-- Two sessions of a client, five minutes apart. -/
def olderSession : AuthSession :=
  { sessionID := "s1", clientID := "c",
    redirectURI := "http://localhost:9999/callback" }

@[inherit_doc olderSession]
def youngerSession : AuthSession :=
  { olderSession with sessionID := "s2", createdAt := seconds 300 }

/-- The two are put, and looked up after eleven minutes, when the older one has expired. -/
def sessionCalls (cleanup : List (Time × StoreCall)) : List (Time × StoreCall) :=
  [(0, .putSession olderSession), (seconds 300, .putSession youngerSession)] ++ cleanup ++
    [(seconds 660, .getByClientID "c"), (seconds 660, .getSession "s1")]

/-- What these calls return. -/
def sessionResults (cleanup : List (StoreCall × Option Record)) :
    List (StoreCall × Option Record) :=
  [(.putSession olderSession, none), (.putSession youngerSession, none)] ++ cleanup ++
    [(.getByClientID "c", some (.session youngerSession)), (.getSession "s1", none)]

/-- With a `Cleanup` or without one, the younger session is found for the client and the older one
is not found. -/
theorem cleanup_invisible_sessions :
    CallsRun {} (sessionCalls []) (sessionResults []) ∧
      CallsRun {} (sessionCalls [(seconds 650, .cleanupSessions)])
        (sessionResults [(.cleanupSessions, none)]) ∧
      List.Forall₂ (fun c d => c.1 = d.1 ∧ SameResult c.1 c.2 d.2) (visible (sessionResults []))
        (visible (sessionResults [(.cleanupSessions, none)])) := by
  have hrun : CallsRun {} (sessionCalls []) (sessionResults []) :=
    .cons (.of_run [{}] rfl) (.cons (.of_run [{}] rfl) (.cons (.of_run [{}] rfl)
      (.cons (.of_run [{}, {}] rfl) (.nil _))))
  have hrun' : CallsRun {} (sessionCalls [(seconds 650, .cleanupSessions)])
      (sessionResults [(.cleanupSessions, none)]) :=
    .cons (.of_run [{}] rfl)
      (.cons (.of_run [{}] rfl) (.cons (.of_run [{}] rfl) (.cons (.of_run [{}] rfl)
      (.cons (.of_run [{}] rfl) (.nil _)))))
  have hsame : withoutCleanup (sessionCalls []) =
      withoutCleanup (sessionCalls [(seconds 650, .cleanupSessions)]) := rfl
  refine ⟨hrun, hrun', cleanup_invisible.1 {} _ _ _ _ ?_ ?_ hsame hrun hrun'⟩
  · simp [Nondecreasing, sessionCalls, seconds]
  · simp [Nondecreasing, sessionCalls, seconds]

end VirePortal.Auth
