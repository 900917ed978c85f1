import VirePortal.Concurrent.History
import VirePortal.Auth.Handlers

/-!
# Registered redirect URIs

`createAuthSession` looks the client up, registers it with the presented redirect URI when there is
none, and then checks the presented URI against the client's. A lookup misses in the same way when
the backend fails as when it has no such client. So a failed read makes an `/authorize` request
overwrite the URIs of a registered client, and so do two concurrent requests for an unknown client
(`registration_overwritten`).

In the runs without these (`steady`) all that is known of a client id agrees: the record in memory,
the record in the backend, and what the running requests have read of it (`Inv.agree`). The reason
is that a request which registers a client found no record when it looked, so that every record
since then comes from a registration (`Inv.since`). Hence the URIs of a saved client stay what they
are, and every session created for it has one of them (`registration_stable`).
-/

namespace VirePortal.Auth.Registration

open Go Concurrent

/-- The redirect URIs `V` are registered for the client id, in memory or in the backend. -/
def Reg (id : Str) (V : List Str) (s : State) : Prop :=
  (∃ y, s.mem.clients.lookup id = some y ∧ y.redirectURIs = V) ∨
    ∃ x, s.db.clients.lookup id = some x ∧ x.redirectURIs = V

/-- Neither the map nor the backend has the client. -/
def Lacked (id : Str) (s : State) : Prop :=
  s.mem.clients.lookup id = none ∧ s.db.clients.lookup id = none

/-- The entry is a `Put` of a client with the id and the URIs. -/
def Registers (id : Str) (V : List Str) (e : PortalEntry) : Prop :=
  ∃ w c, e.event = .op w (.clientsPut c) () ∧ c.clientID = id ∧ c.redirectURIs = V

/-- A request reads or stores the URIs of the client. -/
def Sees (id : Str) (V : List Str) (e : PortalEntry) : Prop :=
  (∃ w c, e.event = .op w (.clientsLookup id) (some c) ∧ c.redirectURIs = V) ∨
    (∃ w c, e.event = .op w (.getClient id) (.found c) ∧ c.redirectURIs = V) ∨ Registers id V e

/-- The URIs are registered, or a request of this process has seen them. -/
def Current (id : Str) (V : List Str) (s : State) (L : List PortalEntry) : Prop :=
  Reg id V s ∨ ThisLife (Sees id V) L

/-- The request looks the client up in the map. -/
def Looks (w : Caller Call) (id : Str) (e : PortalEntry) : Prop :=
  ∃ r, e.event = .op w (.clientsLookup id) r

/-- The entry registers other URIs for the client. -/
def RegistersOther (id : Str) (V : List Str) (e : PortalEntry) : Prop :=
  ∃ V', V' ≠ V ∧ Registers id V' e

/-- The entry stores a session of the client. -/
def SavesSession (x : AuthSession) (e : PortalEntry) : Prop :=
  ∃ w, e.event = .op w (.sessionsPut x) ()

/-- What every run assumes of the backend. -/
def faithful : Assumption Op Reply State Env ℕ Call Response where
  op _ o e s _ := Faithful o e s

/-- The runs in which no read of a client fails. -/
def answering : Assumption Op Reply State Env ℕ Call Response where
  op _ o e s _ := Faithful o e s ∧ match o with
    | .getClient _ => e.client ≠ .failed
    | _ => True

/-- The runs in which the read of a saved client fails only for a request with the client's one URI,
no client is registered with other URIs between the lookup and the registration of an `/authorize`
request, and the ids that `/register` draws are new. -/
def steady : Assumption Op Reply State Env ℕ Call Response where
  op w o e s L := Faithful o e s ∧ match o with
    | .getClient id => e.client = .failed → ∀ x, s.db.clients.lookup id = some x →
        ∀ p, Params w.call p → x.redirectURIs = [p.redirectURI]
    | .clientsPut c => match w.call with
      | .register _ _ => Lacked c.clientID s
      | _ => NoneSince (Looks w c.clientID) (RegistersOther c.clientID c.redirectURIs) L
    | _ => True

/-- The invariant. -/
structure Inv (cfg : Settings) (s : State) (L : List PortalEntry) : Prop where
  keyed : ∀ id x, s.db.clients.lookup id = some x → x.clientID = id
  unsaved : cfg.backend = false → ∀ id, s.db.clients.lookup id = none
  /-- What a request has seen is registered. -/
  known : ∀ id V, ThisLife (Sees id V) L → ¬ Lacked id s
  /-- All that is known of a client id agrees. -/
  agree : ∀ id V V', Current id V s L → Current id V' s L → V = V'
  /-- When the client was lacking, what is known now comes from a registration since. -/
  since : ∀ later e earlier, L = later ++ e :: earlier → (∀ e' ∈ later ++ [e], e'.event ≠ .crash) →
    ∀ id V, Lacked id e.pre → Current id V s L → ∃ e' ∈ later ++ [e], Registers id V e'
  /-- What was registered in this life of the process still is. -/
  kept : ∀ id V, ThisLife (fun e => Reg id V e.pre) L → Reg id V s
  /-- What was saved still is. -/
  saved : ∀ e ∈ L, ∀ id x, e.pre.db.clients.lookup id = some x →
    ∃ x', s.db.clients.lookup id = some x' ∧ x'.redirectURIs = x.redirectURIs
  /-- A session is stored with a URI that is registered then. -/
  sessions : Each (fun e _ => ∀ x, SavesSession x e →
    ∃ V, Reg x.clientID V e.pre ∧ x.redirectURI ∈ V) L

variable {cfg : Settings} {s s' : State} {L L' : List PortalEntry} {w : Caller Call}
variable {id : Str} {V : List Str}

/-- Something is registered for a client that is not lacking. -/
theorem exists_reg (h : ¬ Lacked id s) : ∃ V, Reg id V s := by
  by_cases hmem : s.mem.clients.lookup id = none
  · by_cases hdb : s.db.clients.lookup id = none
    · exact absurd ⟨hmem, hdb⟩ h
    · obtain ⟨x, hx⟩ := Option.ne_none_iff_exists'.1 hdb
      exact ⟨_, .inr ⟨x, hx, rfl⟩⟩
  · obtain ⟨y, hy⟩ := Option.ne_none_iff_exists'.1 hmem
    exact ⟨_, .inl ⟨y, hy, rfl⟩⟩

/-- A registered client is not lacking. -/
theorem Reg.not_lacked (h : Reg id V s) : ¬ Lacked id s := by
  rintro ⟨hmem, hdb⟩
  rcases h with ⟨y, hy, -⟩ | ⟨x, hx, -⟩
  · rw [hmem] at hy; cases hy
  · rw [hdb] at hx; cases hx

/-- What is known of a client that is not lacking is registered. -/
theorem Inv.reg (h : Inv cfg s L) (hV : Current id V s L) : Reg id V s := by
  rcases hV with hV | hV
  · exact hV
  · obtain ⟨V', hV'⟩ := exists_reg (h.known id V hV)
    rwa [h.agree id V V' (.inr hV) (.inl hV')]

/-- An entry of the process keeps the invariant, when all that is new comes from a registration that
agrees with what was known, and nothing registered is lost. -/
theorem Inv.advance (h : Inv cfg s L) (e : PortalEntry) (hpre : e.pre = s)
    (hlive : e.event ≠ .crash) (hkeyed : ∀ id x, s'.db.clients.lookup id = some x → x.clientID = id)
    (hunsaved : cfg.backend = false → ∀ id, s'.db.clients.lookup id = none)
    (hnew : ∀ id V, Current id V s' (e :: L) → Current id V s L ∨ Registers id V e)
    (hagree : ∀ id V V', Registers id V e → Current id V' s L → V = V')
    (hreg : ∀ id V, Reg id V s ∨ Registers id V e → Reg id V s')
    (hsaved : ∀ id x, s.db.clients.lookup id = some x →
      ∃ x', s'.db.clients.lookup id = some x' ∧ x'.redirectURIs = x.redirectURIs)
    (hsession : ∀ x, SavesSession x e → ∃ V, Reg x.clientID V e.pre ∧ x.redirectURI ∈ V) :
    Inv cfg s' (e :: L) := by
  have hcurrent : ∀ id V, Current id V s' (e :: L) → Reg id V s' := by
    intro id V hV
    rcases hnew id V hV with hold | hput
    · exact hreg id V (.inl (h.reg hold))
    · exact hreg id V (.inr hput)
  refine ⟨hkeyed, hunsaved, fun id V hV => (hcurrent id V (.inr hV)).not_lacked,
    fun id V V' hV hV' => ?_, fun later e0 earlier hlog hcrash id V hlacked hV => ?_,
    fun id V hV => ?_, fun e0 he0 id x hx => ?_, hsession, h.sessions⟩
  · rcases hnew id V hV with hV | hV <;> rcases hnew id V' hV' with hV' | hV'
    · exact h.agree id V V' hV hV'
    · exact (hagree id V' V hV' hV).symm
    · exact hagree id V V' hV hV'
    · obtain ⟨w, c, hop, -, rfl⟩ := hV
      obtain ⟨w', c', hop', -, rfl⟩ := hV'
      rw [hop] at hop'
      obtain ⟨-, hput, -⟩ := Event.op.inj hop'
      rw [Op.clientsPut.inj hput]
  · -- The lacking entry is the new one, or an earlier one of which the invariant speaks.
    cases later with
    | nil =>
      obtain ⟨rfl, rfl⟩ := List.cons.inj hlog
      rcases hnew id V hV with hold | hput
      · exact absurd (hpre ▸ hlacked) (h.reg hold).not_lacked
      · exact ⟨e, by simp, hput⟩
    | cons e1 later =>
      have htail : L = later ++ e0 :: earlier := (List.cons.inj hlog).2
      rcases hnew id V hV with hold | hput
      · obtain ⟨e', he', hput⟩ := h.since later e0 earlier htail
          (fun e' he' => hcrash e' (by simp at he' ⊢; tauto)) id V hlacked hold
        exact ⟨e', by simp at he' ⊢; tauto, hput⟩
      · exact ⟨e, by simp [(List.cons.inj hlog).1], hput⟩
  · rcases (thisLife_cons hlive).1 hV with hV | hV
    · exact hreg id V (.inl (hpre ▸ hV))
    · exact hreg id V (.inl (h.kept id V hV))
  · rcases List.mem_cons.1 he0 with rfl | he0
    · exact hsaved id x (hpre ▸ hx)
    · obtain ⟨x1, hx1, heq1⟩ := h.saved e0 he0 id x hx
      obtain ⟨x2, hx2, heq2⟩ := hsaved id x1 hx1
      exact ⟨x2, hx2, heq2.trans heq1⟩

/-- An entry that neither changes the clients nor registers one keeps the invariant, when what it
sees of a client is known. -/
theorem Inv.quiet (h : Inv cfg s L) (e : PortalEntry) (hpre : e.pre = s) (hlive : e.event ≠ .crash)
    (hmem : s'.mem.clients = s.mem.clients) (hdb : s'.db.clients = s.db.clients)
    (hsees : ∀ id V, Sees id V e → Reg id V s) (hput : ∀ id V, ¬ Registers id V e)
    (hsession : ∀ x, SavesSession x e → ∃ V, Reg x.clientID V e.pre ∧ x.redirectURI ∈ V) :
    Inv cfg s' (e :: L) := by
  have hreg : ∀ id V, Reg id V s' ↔ Reg id V s := by
    intro id V
    unfold Reg
    rw [hmem, hdb]
  refine h.advance e hpre hlive (hdb ▸ h.keyed) (hdb ▸ h.unsaved) (fun id V hV => .inl ?_)
    (fun id V V' hp => absurd hp (hput id V)) (fun id V hV => ?_) (fun id x hx => ?_) hsession
  · rcases hV with hV | hV
    · exact .inl ((hreg id V).1 hV)
    · rcases (thisLife_cons hlive).1 hV with hV | hV
      · exact .inl (hsees id V hV)
      · exact .inr hV
  · exact (hreg id V).2 (hV.resolve_right (hput id V))
  · exact ⟨x, hdb ▸ hx, rfl⟩

/-- The client `x` is stored in the map, and possibly in the backend. -/
structure ClientStored (cfg : Settings) (x : OAuthClient) (s s' : State) : Prop where
  mem : s'.mem.clients = s.mem.clients.insert x.clientID x
  db : s'.db.clients = s.db.clients ∨
    cfg.backend = true ∧ s'.db.clients = s.db.clients.insert x.clientID x

section ClientStored

variable {x : OAuthClient}

section

variable (hs : ClientStored cfg x s s')
include hs

/-- The map after the client was stored. -/
theorem ClientStored.lookup_mem (id : Str) :
    s'.mem.clients.lookup id = if id = x.clientID then some x else s.mem.clients.lookup id := by
  rw [hs.mem]
  exact Table.lookup_insert _ _ _ _

/-- The backend after the client was stored. -/
theorem ClientStored.lookup_db (id : Str) :
    s'.db.clients.lookup id = s.db.clients.lookup id ∨
      cfg.backend = true ∧ id = x.clientID ∧ s'.db.clients.lookup id = some x := by
  rcases hs.db with hdb | ⟨hb, hdb⟩
  · exact .inl (by rw [hdb])
  · rw [hdb, Table.lookup_insert]
    split_ifs with hid
    · exact .inr ⟨hb, hid, rfl⟩
    · exact .inl rfl

/-- What is registered afterwards was registered before, or is what the client brings. -/
theorem ClientStored.reg_cases (hV : Reg id V s') :
    Reg id V s ∨ id = x.clientID ∧ V = x.redirectURIs := by
  rcases hV with ⟨y, hy, rfl⟩ | ⟨y, hy, rfl⟩
  · rw [hs.lookup_mem] at hy
    split_ifs at hy with hid
    · exact .inr ⟨hid, by rw [Option.some.inj hy]⟩
    · exact .inl (.inl ⟨y, hy, rfl⟩)
  · rcases hs.lookup_db id with hold | ⟨-, hid, hnew⟩
    · exact .inl (.inr ⟨y, hold ▸ hy, rfl⟩)
    · rw [hnew] at hy
      exact .inr ⟨hid, by rw [Option.some.inj hy]⟩

/-- The client is registered with its URIs. -/
theorem ClientStored.reg_self : Reg x.clientID x.redirectURIs s' :=
  .inl ⟨x, by rw [hs.lookup_mem, if_pos rfl], rfl⟩

/-- Other clients keep what is registered for them. -/
theorem ClientStored.reg_of_ne (hid : id ≠ x.clientID) (hV : Reg id V s) :
    Reg id V s' := by
  rcases hV with ⟨y, hy, rfl⟩ | ⟨y, hy, rfl⟩
  · exact .inl ⟨y, by rw [hs.lookup_mem, if_neg hid, hy], rfl⟩
  · rcases hs.lookup_db id with hold | ⟨-, hid', -⟩
    · exact .inr ⟨y, hold ▸ hy, rfl⟩
    · exact absurd hid' hid

end

/-- Storing a client keeps the invariant when its URIs agree with what is known. -/
theorem Inv.store (h : Inv cfg s L) (e : PortalEntry) (hpre : e.pre = s) (hlive : e.event ≠ .crash)
    (hs : ClientStored cfg x s s') (hsees : ∀ id V, Sees id V e → Registers id V e)
    (hregisters : ∀ id V, Registers id V e → id = x.clientID ∧ V = x.redirectURIs)
    (hsource : Current x.clientID x.redirectURIs s L ∨ Registers x.clientID x.redirectURIs e)
    (hagree : ∀ V, Current x.clientID V s L → V = x.redirectURIs)
    (hsession : ∀ y, ¬ SavesSession y e) : Inv cfg s' (e :: L) := by
  refine h.advance e hpre hlive (fun id y hy => ?_) (fun hb id => ?_) (fun id V hV => ?_)
    (fun id V V' hp hV => ?_) (fun id V hV => ?_) (fun id y hy => ?_)
    (fun y hy => absurd hy (hsession y))
  · rcases hs.lookup_db id with hold | ⟨-, hid, hnew⟩
    · exact h.keyed id y (hold ▸ hy)
    · rw [hnew] at hy
      rw [← Option.some.inj hy, hid]
  · rcases hs.lookup_db id with hold | ⟨hb', -, -⟩
    · rw [hold]
      exact h.unsaved hb id
    · rw [hb] at hb'
      cases hb'
  · rcases hV with hV | hV
    · rcases hs.reg_cases hV with hV | ⟨rfl, rfl⟩
      · exact .inl (.inl hV)
      · exact hsource
    · rcases (thisLife_cons hlive).1 hV with hV | hV
      · exact .inr (hsees id V hV)
      · exact .inl (.inr hV)
  · obtain ⟨rfl, rfl⟩ := hregisters id V hp
    exact (hagree V' hV).symm
  · rcases hV with hV | hV
    · -- What was registered for the client agrees with the new record, which is in the map.
      by_cases hid : id = x.clientID
      · subst hid
        rw [hagree V (.inl hV)]
        exact hs.reg_self
      · exact hs.reg_of_ne hid hV
    · obtain ⟨rfl, rfl⟩ := hregisters id V hV
      exact hs.reg_self
  · rcases hs.lookup_db id with hold | ⟨-, rfl, hnew⟩
    · exact ⟨y, hold ▸ hy, rfl⟩
    · exact ⟨x, hnew, (hagree _ (.inl (.inr ⟨y, hy, rfl⟩))).symm⟩

end ClientStored

/-- The effects that can break the invariant. -/
def storing : List Effect := [.cachesClient, .putsClient, .putsSession]

/-- The other operations keep it by themselves. -/
theorem keeps (w : Caller Call) {o : Op} (ho : o.effect ∉ storing) :
    Keeps (portal cfg) steady (Inv cfg) w o := by
  intro s L e hI hA
  have hchanges : o.changes ≠ some .clients := by
    intro hk
    cases o <;> simp_all [Op.changes, Op.effect, storing]
  obtain ⟨hmem, hdb⟩ := exec_clients cfg.backend e s hchanges
  refine hI.quiet _ rfl (by simp) hmem hdb ?_ ?_ ?_
  · rintro id V (⟨w', c, hop, rfl⟩ | ⟨w', c, hop, rfl⟩ | ⟨w', c, hop, -⟩)
    · obtain ⟨-, rfl, hr⟩ := Event.op.inj hop
      exact .inl ⟨c, eq_of_heq hr, rfl⟩
    · obtain ⟨-, rfl, hr⟩ := Event.op.inj hop
      exact .inr ⟨c, ReadReply.found_of hA.1 (eq_of_heq hr), rfl⟩
    · obtain ⟨-, rfl, -⟩ := Event.op.inj hop
      simp [Op.effect, storing] at ho
  · rintro id V ⟨w', c, hop, -⟩
    obtain ⟨-, rfl, -⟩ := Event.op.inj hop
    simp [Op.effect, storing] at ho
  · rintro x ⟨w', hop⟩
    obtain ⟨-, rfl, -⟩ := Event.op.inj hop
    simp [Op.effect, storing] at ho

/-- A call, a return or the clock keeps the invariant. -/
theorem Inv.idle (h : Inv cfg s L) (e : PortalEntry) (hpre : e.pre = s) (hlive : e.event ≠ .crash)
    (hidle : ∀ w o r, e.event ≠ .op w o r) (hmem : s'.mem.clients = s.mem.clients)
    (hdb : s'.db.clients = s.db.clients) : Inv cfg s' (e :: L) := by
  refine h.quiet e hpre hlive hmem hdb ?_ ?_ ?_
  · rintro id V (⟨w, c, hop, -⟩ | ⟨w, c, hop, -⟩ | ⟨w, c, hop, -⟩)
    · exact absurd hop (hidle _ _ _)
    · exact absurd hop (hidle _ _ _)
    · exact absurd hop (hidle _ _ _)
  · rintro id V ⟨w, c, hop, -⟩
    exact absurd hop (hidle _ _ _)
  · rintro x ⟨w, hop⟩
    exact absurd hop (hidle _ _ _)

/-- A restart keeps the invariant: what is left is what was saved. -/
theorem Inv.restart (h : Inv cfg s L) : Inv cfg (restart s) (⟨s, .crash⟩ :: L) := by
  have hcurrent : ∀ id V, Current id V (Auth.restart s) (⟨s, .crash⟩ :: L) →
      Reg id V (Auth.restart s) ∧ Current id V s L := by
    rintro id V (hV | hV)
    · refine ⟨hV, .inl ?_⟩
      rcases hV with ⟨y, hy, -⟩ | hV
      · simp [Auth.restart] at hy
      · exact .inr hV
    · exact absurd hV not_thisLife_crash
  refine ⟨h.keyed, h.unsaved, fun id V hV => absurd hV not_thisLife_crash,
    fun id V V' hV hV' => h.agree id V V' (hcurrent id V hV).2 (hcurrent id V' hV').2,
    fun later e earlier hlog hcrash => ?_, fun id V hV => absurd hV not_thisLife_crash,
    fun e he id x hx => ?_, fun x hx => ?_, h.sessions⟩
  · cases later with
    | nil => exact absurd (congrArg Entry.event (List.cons.inj hlog).1).symm (hcrash e (by simp))
    | cons e1 later =>
      exact absurd (congrArg Entry.event (List.cons.inj hlog).1).symm (hcrash e1 (by simp))
  · rcases List.mem_cons.1 he with rfl | he
    · exact ⟨x, hx, rfl⟩
    · exact h.saved e he id x hx
  · obtain ⟨w, hop⟩ := hx
    cases hop

variable {x : OAuthClient} {e : PortalEntry} {p : AuthorizeParams}

/-- Caching a client that was read keeps the invariant. -/
theorem Inv.cache (h : Inv cfg s L) (hx : Current x.clientID x.redirectURIs s L)
    (w : Caller Call) (e : Env) :
    Inv cfg ((portal cfg).exec (.clientsCache x) e s).2
      ((portal cfg).entry w (.clientsCache x) e s :: L) := by
  have hput : ∀ id V, ¬ Registers id V ((portal cfg).entry w (.clientsCache x) e s) := by
    rintro id V ⟨w', c, hop, -⟩
    simp at hop
  refine h.store _ rfl (by simp) ⟨rfl, .inl rfl⟩ (fun id V hV => ?_)
    (fun id V hV => absurd hV (hput id V)) (.inl hx) (fun V hV => h.agree _ _ _ hV hx) ?_
  · rcases hV with ⟨w', c, hop, -⟩ | ⟨w', c, hop, -⟩ | hV
    · simp at hop
    · simp at hop
    · exact hV
  · rintro y ⟨w', hop⟩
    simp at hop

/-- Registering a client keeps the invariant when its URIs agree with what is known. -/
theorem Inv.put (h : Inv cfg s L) (hagree : ∀ V, Current x.clientID V s L → V = x.redirectURIs)
    (w : Caller Call) (e : Env) :
    Inv cfg ((portal cfg).exec (.clientsPut x) e s).2
      ((portal cfg).entry w (.clientsPut x) e s :: L) := by
  have hs : ClientStored cfg x s ((portal cfg).exec (.clientsPut x) e s).2 := by
    refine ⟨by simp [server, exec], ?_⟩
    simp only [server, exec, State.updateDb_db, State.updateMem_db]
    split_ifs with hwrite
    · exact .inr ⟨(Bool.and_eq_true_iff.1 hwrite).1, rfl⟩
    · exact .inl rfl
  refine h.store _ rfl (by simp) hs (fun id V hV => ?_) (fun id V hV => ?_)
    (.inr ⟨w, x, rfl, rfl, rfl⟩) hagree ?_
  · rcases hV with ⟨w', c, hop, -⟩ | ⟨w', c, hop, -⟩ | hV
    · simp at hop
    · simp at hop
    · exact hV
  · obtain ⟨w', c, hop, rfl, rfl⟩ := hV
    obtain ⟨-, hc, -⟩ := Event.op.inj hop
    rw [Op.clientsPut.inj hc]
    exact ⟨rfl, rfl⟩
  · rintro y ⟨w', hop⟩
    simp at hop

/-- Storing a session with a URI that a request has seen keeps the invariant. -/
theorem Inv.saveSession (h : Inv cfg s L) {x : AuthSession} (hV : Current x.clientID V s L)
    (hx : x.redirectURI ∈ V) (w : Caller Call) (e : Env) :
    Inv cfg ((portal cfg).exec (.sessionsPut x) e s).2
      ((portal cfg).entry w (.sessionsPut x) e s :: L) := by
  obtain ⟨hmem, hdb⟩ := exec_clients cfg.backend (o := .sessionsPut x) e s (by simp [Op.changes])
  refine h.quiet _ rfl (by simp) hmem hdb ?_ ?_ ?_
  · rintro id V (⟨w', c, hop, -⟩ | ⟨w', c, hop, -⟩ | ⟨w', c, hop, -⟩)
    · simp at hop
    · simp at hop
    · simp at hop
  · rintro id V ⟨w', c, hop, -⟩
    simp at hop
  · rintro y ⟨w', hop⟩
    obtain ⟨-, hy, -⟩ := Event.op.inj hop
    rw [← Op.sessionsPut.inj hy]
    exact ⟨V, h.reg hV, hx⟩

/-- The request looked the client up in this process and there was none, neither in the map nor in
the backend. -/
def Missed (w : Caller Call) (id : Str) (L : List PortalEntry) : Prop :=
  ∃ later e earlier, L = later ++ e :: earlier ∧ Looks w id e ∧ Lacked id e.pre ∧
    ∀ e' ∈ later, e'.event ≠ .crash ∧ ¬ Looks w id e'

/-- A miss stays one while the request waits. -/
theorem Missed.others (h : Missed w id L) (hL : Others w.tid L L') : Missed w id L' := by
  obtain ⟨later, e, earlier, rfl, hlooks, hlacked, hlater⟩ := h
  obtain ⟨new, rfl, hnew⟩ := hL
  refine ⟨new ++ later, e, earlier, by simp, hlooks, hlacked, fun e' he' => ?_⟩
  rcases List.mem_append.1 he' with he' | he'
  · refine ⟨(hnew e' he').1, fun ⟨r, hr⟩ => (hnew e' he').2 ?_⟩
    rw [hr]
    rfl
  · exact hlater e' he'

/-- A miss stays one until the next lookup. -/
theorem Missed.cons (h : Missed w id L) (hlive : e.event ≠ .crash) (he : ¬ Looks w id e) :
    Missed w id (e :: L) := by
  obtain ⟨later, e0, earlier, rfl, hlooks, hlacked, hlater⟩ := h
  refine ⟨e :: later, e0, earlier, rfl, hlooks, hlacked, fun e' he' => ?_⟩
  rcases List.mem_cons.1 he' with rfl | he'
  · exact ⟨hlive, he⟩
  · exact hlater e' he'

/-- When nobody registered other URIs since the lookup that missed, all that is known agrees. -/
theorem Missed.agree (h : Missed w id L) (hI : Inv cfg s L)
    (hnone : NoneSince (Looks w id) (RegistersOther id V) L) {V' : List Str}
    (hV' : Current id V' s L) : V' = V := by
  obtain ⟨later, e, earlier, rfl, ⟨r, hr⟩, hlacked, hlater⟩ := h
  have hlive : ∀ e' ∈ later ++ [e], e'.event ≠ .crash := by
    intro e' he'
    rcases List.mem_append.1 he' with he' | he'
    · exact (hlater e' he').1
    · rw [List.mem_singleton.1 he', hr]
      simp
  obtain ⟨e', he', hput⟩ := hI.since later e earlier rfl hlive id V' hlacked hV'
  rcases List.mem_append.1 he' with he' | he'
  · have hother := hnone.append (fun e' he' => (hlater e' he').2) e' he'
    by_contra hne
    exact hother ⟨V', hne, hput⟩
  · -- The lookup itself registers nothing.
    obtain ⟨w', c, hop, -⟩ := hput
    rw [List.mem_singleton.1 he', hr] at hop
    simp at hop

/-- The request may register the client with the URIs: it found none, or found these registered. -/
def MayRegister (w : Caller Call) (id : Str) (V : List Str) (L : List PortalEntry) : Prop :=
  Missed w id L ∨ ThisLife (fun e => Reg id V e.pre) L

/-- A request may register while it waits. -/
theorem MayRegister.others (h : MayRegister w id V L) (hL : Others w.tid L L') :
    MayRegister w id V L' := by
  rcases h with h | h
  · exact .inl (h.others hL)
  · exact .inr (h.extends hL.extends)

/-- A request may register until its next lookup. -/
theorem MayRegister.cons (h : MayRegister w id V L) (hlive : e.event ≠ .crash)
    (he : ¬ Looks w id e) : MayRegister w id V (e :: L) := by
  rcases h with h | h
  · exact .inl (h.cons hlive he)
  · exact .inr ((thisLife_cons hlive).2 (.inr h))

/-- Then all that is known agrees with the URIs, when nobody registered others since the lookup. -/
theorem MayRegister.agree (h : MayRegister w id V L) (hI : Inv cfg s L)
    (hnone : NoneSince (Looks w id) (RegistersOther id V) L) {V' : List Str}
    (hV' : Current id V' s L) : V' = V := by
  rcases h with h | h
  · exact h.agree hI hnone hV'
  · exact hI.agree id V' V hV' (.inl (hI.kept id V h))

/-- The outline of a program that stores neither a client nor a session. -/
theorem outline_quiet {α : Type} {m : M α} {l : List Effect} (hm : Performs l m)
    (hl : ∀ a ∈ l, a ∉ storing) (L : List PortalEntry) :
    Outline (portal cfg) steady (Inv cfg) w (fun _ _ => True) m L :=
  Outline.of_all (Prog.All.imp (fun _ ho => keeps w (hl _ ho)) hm) L

/-- The client that a lookup at an earlier entry missed was lacking, when the backend has none
now. -/
theorem Inv.lacked (h : Inv cfg s L) (he : e ∈ L) (hmem : e.pre.mem.clients.lookup id = none)
    (hdb : s.db.clients.lookup id = none) :
    Lacked id e.pre := by
  refine ⟨hmem, ?_⟩
  by_contra hne
  obtain ⟨x, hx⟩ := Option.ne_none_iff_exists'.1 hne
  obtain ⟨x', hx', -⟩ := h.saved e he id x hx
  rw [hdb] at hx'
  cases hx'

/-- The outline of `ClientStore.Get`: the client's URIs were seen, or the request may register
it. -/
theorem outline_get (hp : Params w.call p) (id : Str) (L : List PortalEntry) :
    Outline (portal cfg) steady (Inv cfg) w
      (fun r L' => match r with
        | some c => ThisLife (Sees id c.redirectURIs) L'
        | none => MayRegister w id [p.redirectURI] L')
      (ClientStore.get cfg.backend id) L := by
  unfold ClientStore.get
  refine (keeps w (by simp [Op.effect, storing])).bind fun s L1 e hL hI _ => ?_
  rcases hr : ((portal cfg).exec (.clientsLookup id) e s).1 with _ | c
  · have hlooks : Looks w id ((portal cfg).entry w (.clientsLookup id) e s) := ⟨_, rfl⟩
    cases hb : cfg.backend with
    | false =>
      exact .inl ⟨[], _, L1, rfl, hlooks, ⟨hr, hI.unsaved hb id⟩, by simp⟩
    | true =>
      refine (keeps w (by simp [Op.effect, storing])).bind fun s2 L2 e2 hL2 hI2 hA2 => ?_
      -- When the backend has no such client now, it had none at the lookup.
      have hmissed : s2.db.clients.lookup id = none →
          Missed w id ((portal cfg).entry w (.getClient id) e2 s2 :: L2) := by
        intro hdb
        have hlacked := hI2.lacked (hL2.mem (.head _)) hr hdb
        have hhere : Missed w id ((portal cfg).entry w (.clientsLookup id) e s :: L1) :=
          ⟨[], _, L1, rfl, hlooks, hlacked, by simp⟩
        refine (hhere.others hL2).cons (by simp) ?_
        rintro ⟨r, hop⟩
        simp at hop
      rcases hr2 : ((portal cfg).exec (.getClient id) e2 s2).1 with _ | _ | c
      · cases hdb : s2.db.clients.lookup id with
        | none => exact .inl (hmissed hdb)
        | some x =>
          -- The read of a saved client failed, so its one URI is the request's.
          refine .inr ((thisLife_cons (by simp)).2 (.inl (.inr ⟨x, hdb, ?_⟩)))
          exact hA2.2 hr2 x hdb p hp
      · exact .inl (hmissed (ReadReply.none_of hA2.1 hr2))
      · have hfound := ReadReply.found_of hA2.1 hr2
        obtain rfl := hI2.keyed id c hfound
        have hsees : ThisLife (Sees c.clientID c.redirectURIs)
            ((portal cfg).entry w (.getClient c.clientID) e2 s2 :: L2) := by
          refine (thisLife_cons (by simp)).2 (.inl (.inr (.inl ⟨w, c, ?_, rfl⟩)))
          rw [System.entry, hr2]
        refine outline_step.2 fun s3 L3 e3 hL3 hI3 _ => ?_
        have hsees3 := hsees.extends hL3.extends
        exact ⟨hI3.cache (.inr hsees3) w e3, (thisLife_cons (by simp)).2 (.inr hsees3)⟩
  · refine (thisLife_cons (by simp)).2 (.inl (.inl ⟨w, c, ?_, rfl⟩))
    rw [System.entry, hr]

/-- The outline of the lookup of `createAuthSession`: the URIs of the client that it returns were
seen. -/
theorem outline_findOrRegister (hp : Params w.call p) (L : List PortalEntry) :
    Outline (portal cfg) steady (Inv cfg) w
      (fun c L' => ThisLife (Sees p.clientID c.redirectURIs) L')
        (findOrRegister cfg.backend p) L := by
  unfold findOrRegister
  refine (outline_get hp p.clientID L).bind fun c L1 _ hc => ?_
  rcases c with _ | c
  · refine (keeps w (by simp [Op.effect, storing])).bind fun s2 L2 e2 hL2 _ _ => ?_
    generalize ((portal cfg).exec .now e2 s2).1 = now
    have hmay : MayRegister w p.clientID [p.redirectURI]
        ((portal cfg).entry w .now e2 s2 :: L2) := by
      refine (MayRegister.others hc hL2).cons (by simp) ?_
      rintro ⟨r, hop⟩
      simp at hop
    refine outline_step.2 fun s3 L3 e3 hL3 hI3 hA3 => ?_
    have hnone : NoneSince (Looks w p.clientID) (RegistersOther p.clientID [p.redirectURI]) L3 := by
      obtain ⟨r, hcall, -⟩ := hp
      have hcond := hA3.2
      rw [hcall] at hcond
      exact hcond
    refine ⟨hI3.put (fun V hV => (hmay.others hL3).agree hI3 hnone hV) w e3, ?_⟩
    exact (thisLife_cons (by simp)).2 (.inl (.inr (.inr ⟨w, _, rfl, rfl, rfl⟩)))
  · exact hc

/-- The outline of `createAuthSession`: the session that it stores has a URI of the client. -/
theorem outline_createAuthSession (hp : Params w.call p) (L : List PortalEntry) :
    Outline (portal cfg) steady (Inv cfg) w (fun _ _ => True)
      (createAuthSession cfg.backend p) L := by
  refine outline_create (fun hL h => h.extends hL) (fun ho => keeps w (by simp [ho, storing]))
    (outline_findOrRegister hp L) (fun _ _ => trivial) ?_
  intro client sessionID now s L' e hsees hmem hI _
  exact ⟨hI.saveSession (.inr hsees) hmem w e, trivial⟩

/-- The outline of a registration: the id that it draws is lacking when the client is stored. -/
theorem outline_handleRegister {r : Request} {body : Option Json}
    (hcall : w.call = .register r body) (L : List PortalEntry) :
    Outline (portal cfg) steady (Inv cfg) w (fun _ _ => True) (handleRegister r body) L := by
  unfold handleRegister
  split_ifs
  · trivial
  · rcases body.bind decodeDcr with _ | req
    · trivial
    · dsimp only
      split_ifs
      · trivial
      · refine (keeps w (by simp [Op.effect, storing])).bind fun s L1 e _ _ _ => ?_
        rcases ((portal cfg).exec .generateUUID e s).1 with err | clientID
        · trivial
        · refine (keeps w (by simp [Op.effect, storing])).bind fun s2 L2 e2 _ _ _ => ?_
          rcases ((portal cfg).exec (.generateRandomHex 32) e2 s2).1 with err | clientSecret
          · trivial
          · refine (keeps w (by simp [Op.effect, storing])).bind fun s3 L3 e3 _ _ _ => ?_
            generalize ((portal cfg).exec .now e3 s3).1 = now
            refine outline_step.2 fun s4 L4 e4 _ hI hA => ⟨hI.put (fun V hV => ?_) w e4, trivial⟩
            -- In a steady run a drawn id is one that nobody has.
            have hlacked : Lacked clientID s4 := by
              have hcond := hA.2
              rw [hcall] at hcond
              exact hcond
            exact absurd hlacked (hI.reg hV).not_lacked

/-- The outlines of the parts of the handlers. -/
theorem parts (w : Caller Call) :
    Parts cfg steady (Inv cfg) w (fun _ => True) (fun _ _ => True) (fun _ _ => True) where
  stays _ _ := trivial
  getByClientID clientID L _ :=
    outline_quiet (SessionStore.performs_getByClientID _ clientID) (by simp [storing]) L
  get sessionID L _ := outline_quiet (SessionStore.performs_get _ sessionID) (by simp [storing]) L
  create p L hp _ := outline_createAuthSession hp L
  extract r L _ _ :=
    (outline_quiet (performs_extractSessionUserID _ _ r) (by simp [storing]) L).imp
      fun _ _ _ _ _ => trivial
  complete sessionID u L _ :=
    outline_quiet (performs_completeAuthorization _ sessionID u) (by simp [storing]) L
  login username password L _ :=
    (keeps w (by simp [Op.effect, storing])).outline fun _ _ _ _ _ _ _ _ => trivial
  callback _ _ _ _ _ _ _ _ := trivial
  token r L _ _ := (outline_quiet (performs_handleToken _ r) (by simp [storing]) L).imp
    fun _ _ _ _ _ => trivial
  register r body L hcall _ := outline_handleRegister hcall L

/-- The portal is verified from a process with an empty map, over a backend that keeps the clients
under their ids. -/
theorem verified {s0 : State} (hmem : s0.mem = {})
    (hkeyed : ∀ id x, s0.db.clients.lookup id = some x → x.clientID = id)
    (hunsaved : cfg.backend = false → ∀ id, s0.db.clients.lookup id = none) :
    Verified (portal cfg) steady (Inv cfg) s0 where
  init := by
    -- With an empty map and no log only the backend knows of a client.
    have hreg : ∀ {id V}, Current id V s0 [] → ∃ x, s0.db.clients.lookup id = some x ∧
        x.redirectURIs = V := by
      rintro id V ((⟨y, hy, -⟩ | hdb) | hseen)
      · simp [hmem] at hy
      · exact hdb
      · exact hseen.elim
    refine ⟨hkeyed, hunsaved, fun _ _ h => h.elim, fun id V V' hV hV' => ?_,
      fun later e earlier h => ?_, fun _ _ h => h.elim, fun e he => ?_, trivial⟩
    · obtain ⟨x, hx, rfl⟩ := hreg hV
      obtain ⟨x', hx', rfl⟩ := hreg hV'
      rw [hx] at hx'
      rw [Option.some.inj hx']
    · simp at h
    · simp at he
  call s L w h _ _ := by
    refine ⟨h.idle _ rfl (by simp) (by simp) rfl rfl, ?_⟩
    refine ((parts w).handle trivial).imp fun a L1 _ _ => ?_
    exact fun s' L' _ hI _ => hI.idle _ rfl (by simp) (by simp) rfl rfl
  env s L d h _ := h.idle _ rfl (by simp) (by simp) rfl rfl
  crash s L h _ := h.restart

/-- The client has the URIs `V` in the backend and in the map, where it is there, and the sessions
that the entries stored for it have one of them. -/
structure Stable (id : Str) (V : List Str) (s : State) (later : List PortalEntry) : Prop where
  saved : ∃ x, s.db.clients.lookup id = some x ∧ x.redirectURIs = V
  cached : ∀ y, s.mem.clients.lookup id = some y → y.redirectURIs = V
  sessions : ∀ e ∈ later, ∀ x, SavesSession x e → x.clientID = id → x.redirectURI ∈ V

/-- Once a client is saved, its URIs stay what they are, and the sessions created for it from then
on have one of them. -/
theorem registration_stable {s0 : State} {c : Config Op Reply State ℕ Call Response}
    (hb : cfg.backend = true) (hmem : s0.mem = {})
    (hkeyed : ∀ id x, s0.db.clients.lookup id = some x → x.clientID = id)
    (hc : Reachable (portal cfg) steady s0 c) {later earlier : List PortalEntry}
    (hlog : c.log = later ++ e :: earlier) (hx : e.pre.db.clients.lookup id = some x) :
    Stable id x.redirectURIs c.state later := by
  have hv : Verified (portal cfg) steady (Inv cfg) s0 :=
    verified hmem hkeyed fun hb' => absurd (hb.symm.trans hb') (by simp)
  have hI := hc.invariant hv
  have hsaved : ∃ x', c.state.db.clients.lookup id = some x' ∧ x'.redirectURIs = x.redirectURIs :=
    hI.saved e (by simp [hlog]) id x hx
  refine ⟨hsaved, fun y hy => ?_, fun e' he' z hz hid => ?_⟩
  · obtain ⟨x', hx', heq⟩ := hsaved
    rw [← heq]
    exact hI.agree id _ _ (.inl (.inl ⟨y, hy, rfl⟩)) (.inl (.inr ⟨x', hx', rfl⟩))
  · -- The entry that stored the session found the same URIs.
    obtain ⟨later1, later2, rfl⟩ := List.append_of_mem he'
    have hsplit : c.log = later1 ++ e' :: (later2 ++ e :: earlier) := by simp [hlog]
    have hI' := hc.invariant_before hv hsplit
    obtain ⟨x', hx', heq⟩ := hI'.saved e (by simp) id x hx
    have heach := hI.sessions
    rw [hsplit] at heach
    obtain ⟨V', hV', hmemV⟩ := heach.append.1 z hz
    rw [hid] at hV'
    rwa [← heq, ← hI'.agree id V' _ (.inl hV') (.inl (.inr ⟨x', hx', rfl⟩))]

/-- A portal with a backend. No request below has a token, so the functions of the codec are not
called. -/
def sampleSettings : Settings :=
  ⟨true, "k", ⟨fun _ => [], fun _ _ => [], fun _ => none, fun _ => []⟩⟩

/-- A registration with one redirect URI. -/
def registration : Call :=
  .register { method := "POST" }
    (some (.object [("redirect_uris", .array [.string "https://m/cb"])]))

/-- An authorization request of the client `m` with a redirect URI. -/
def authorization (redirectURI : Str) : Call :=
  .authorize { query := sampleQuery redirectURI "x" "x" }

/-- The steps of a registration that draws the id `m`. -/
def registering : List (Label Env ℕ Call) :=
  [.call registration, .step 0 { random := .ok "m" }, .step 0 { random := .ok "x" },
    .step 0 {}, .step 0 {}, .step 0 {}]

/-- The record of that registration. -/
def registered : OAuthClient :=
  registeredClient ⟨[], ["https://m/cb"], [], [], []⟩ "m" "x" 0

/-- A registration, a restart, and an authorization request that reads the client back. -/
def readBack : List (Label Env ℕ Call) :=
  registering ++ [.crash, .call (authorization "https://m/cb"), .step 1 {},
    .step 1 { client := .found registered }, .step 1 {}, .step 1 { random := .ok "s" },
    .step 1 {}, .step 1 {}]

/-- The URIs are read back after a restart. -/
theorem registration_stable_readBack :
    Stable "m" ["https://m/cb"] ((portal sampleSettings).run (.init {}) readBack).state
      (((portal sampleSettings).run (.init {}) readBack).log.take 7) := by
  have hrun : Reachable (portal sampleSettings) steady {}
      ((portal sampleSettings).run (.init {}) readBack) := by
    refine Reachable.init.run readBack ?_
    repeat' first | exact trivial | exact rfl | apply And.intro
    exacts [.inr rfl, nofun]
  have hcrash : ∃ e earlier, ((portal sampleSettings).run (.init {}) readBack).log =
      ((portal sampleSettings).run (.init {}) readBack).log.take 7 ++ e :: earlier ∧
      e.pre.db.clients.lookup (ascii "m") = some registered := ⟨_, _, rfl, rfl⟩
  obtain ⟨e, earlier, hlog, hsaved⟩ := hcrash
  exact registration_stable rfl rfl (fun id x hx => by simp at hx) hrun hlog hsaved

/-- A registration, a restart, and an authorization request with another URI whose read of the
client fails. -/
def failedRead : List (Label Env ℕ Call) :=
  registering ++ [.crash, .call (authorization "https://evil/cb"), .step 1 {},
    .step 1 { client := .failed }, .step 1 {}, .step 1 {}, .step 1 { random := .ok "s" },
    .step 1 {}, .step 1 {}]

/-- Two authorization requests for a client that nobody registered, with different URIs. Both find
none, and the second registers after the first. -/
def race : List (Label Env ℕ Call) :=
  [.call (authorization "https://m/cb"), .call (authorization "https://evil/cb"),
    .step 0 {}, .step 0 { client := .notFound }, .step 1 {}, .step 1 { client := .notFound },
    .step 0 {}, .step 0 {}, .step 1 {}, .step 1 {}, .step 1 { random := .ok "s" }, .step 1 {},
    .step 1 {}]

/-- The client was saved with the URIs `V`, and lost them in the backend and in the map. A session
was created for it with another URI. -/
def Overwritten (id : Str) (V : List Str) (c : Config Op Reply State ℕ Call Response) : Prop :=
  ∃ later e earlier, c.log = later ++ e :: earlier ∧
    (∃ x, e.pre.db.clients.lookup id = some x ∧ x.redirectURIs = V) ∧
    (∃ x, c.state.db.clients.lookup id = some x ∧ x.redirectURIs ≠ V) ∧
    (∃ y, c.state.mem.clients.lookup id = some y ∧ y.redirectURIs ≠ V) ∧
    ∃ e' ∈ later, ∃ x, SavesSession x e' ∧ x.clientID = id ∧ x.redirectURI ∉ V

/-- A failed read makes an authorization request overwrite a registered client, and so does a race
even when no read fails. -/
theorem registration_overwritten :
    (∃ c, Reachable (portal sampleSettings) faithful {} c ∧ Overwritten "m" ["https://m/cb"] c) ∧
    ∃ c, Reachable (portal sampleSettings) answering {} c ∧ Overwritten "m" ["https://m/cb"] c := by
  constructor
  · refine ⟨(portal sampleSettings).run (.init {}) failedRead, Reachable.init.run failedRead ?_, ?_⟩
    · repeat' constructor
    · refine ⟨((portal sampleSettings).run (.init {}) failedRead).log.take 8, _, _, rfl,
        ⟨_, rfl, rfl⟩,
        ⟨_, rfl, by decide⟩, ⟨_, rfl, by decide⟩, _, .head _, _, ⟨⟨1, _⟩, rfl⟩, rfl, by decide⟩
  · refine ⟨(portal sampleSettings).run (.init {}) race, Reachable.init.run race ?_, ?_⟩
    · repeat' first | exact trivial | exact .inr rfl | apply And.intro
      all_goals simp
    · refine ⟨((portal sampleSettings).run (.init {}) race).log.take 4, _, _, rfl, ⟨_, rfl, rfl⟩,
        ⟨_, rfl, by decide⟩, ⟨_, rfl, by decide⟩, _, .head _, _, ⟨⟨1, _⟩, rfl⟩, rfl, by decide⟩

end VirePortal.Auth.Registration
