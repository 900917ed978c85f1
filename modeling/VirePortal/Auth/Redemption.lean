import VirePortal.Concurrent.Results
import VirePortal.Auth.Provenance

/-!
# What the portal hands out can be redeemed

Provenance says that the token endpoint gives nothing to a client that is not entitled to it. Here
is the other half: a client that presents what it was handed out is served, whatever other requests
are under way. A session, a code or a refresh token is kept in memory from the section that stores
it until a request uses it (`Held`), unless it expires. So the first request that uses it finds it.

The runs are those of the whole portal, with or without a backend, in any interleaving. What is
drawn for a new record is new (`fresh`), the backend returns what was saved, and the process does
not crash. The refusals that are left to the token endpoint are those of `json.Marshal` and of
`crypto/rand` (`Served`).
-/

namespace VirePortal.Auth.Redemption

open Go Concurrent Provenance

/-- The record that an operation stores. -/
def stores : Op → Option (Kind × Str)
  | .sessionsPut x => some (.sessions, x.sessionID)
  | .codesPut c => some (.codes, c.code)
  | .tokensPut t => some (.tokens, t.token)
  | _ => none

/-- The record that an operation takes, marks or removes. -/
def uses : Op → Option (Kind × Str)
  | .sessionsDelete sessionID => some (.sessions, sessionID)
  | .codesConsume code | .codesConsumeFetched code _ | .codesMarkUsed code => some (.codes, code)
  | .tokensDelete token => some (.tokens, token)
  | _ => none

/-- The entry stores the record. -/
def Stores (k : Kind) (key : Str) (e : PortalEntry) : Prop :=
  ∃ w o r, e.event = .op w o r ∧ stores o = some (k, key)

/-- Request number `i` uses the record. -/
def Uses (i : ℕ) (k : Kind) (key : Str) (e : PortalEntry) : Prop :=
  ∃ w o r, e.event = .op w o r ∧ w.tid = i ∧ uses o = some (k, key)

/-- The key was neither stored nor presented. -/
def Unseen (k : Kind) (key : Str) (L : List PortalEntry) : Prop :=
  ∀ e ∈ L, ¬ Stores k key e ∧ ∀ i, ¬ Uses i k key e

/-- No request has used the record. -/
def Untouched (k : Kind) (key : Str) (L : List PortalEntry) : Prop := ∀ i, ¬ Has (Uses i k key) L

/-- What the runs assume: the backend returns records as they were saved, the key of a new record is
new, and there is one process. -/
def fresh : Assumption Op Reply State Env ℕ Call Response where
  op w o e s L := asSaved.op w o e s L ∧ ∀ k key, stores o = some (k, key) → Unseen k key L
  crash _ _ := False

/-- What is known of every configuration: where the records come from, and that each key was stored
at most once. -/
structure Known (cfg : Settings) (s : State) (L : List PortalEntry) : Prop where
  inv : Inv cfg s L
  once : ∀ k key, AtMostOne (Stores k key) L

/-- The stores hold what was stored and not used, until it expires. -/
structure Held (s : State) (L : List PortalEntry) : Prop where
  /-- The clock has not gone back. -/
  past : ∀ e ∈ L, e.pre.now ≤ s.now
  sessions : ∀ w x, Has (SavesSession w x) L → Untouched .sessions x.sessionID L →
    x.expired s.now = false → s.mem.sessions.lookup x.sessionID ≠ none
  codes : ∀ w c, Has (SavesCode w c) L → Untouched .codes c.code L → s.now ≤ c.expiresAt →
    s.mem.codes.lookup c.code = some c
  tokens : ∀ w t, Has (SavesToken w t) L → Untouched .tokens t.token L → s.now ≤ t.expiresAt →
    s.mem.tokens.lookup t.token ≠ none

/-- The runs with what is known of their configurations. -/
abbrev informed (cfg : Settings) : Assumption Op Reply State Env ℕ Call Response :=
  fresh.knowing (Known cfg)

variable {cfg : Settings} {s s' : State} {L L' before : List PortalEntry} {w w0 : Caller Call}
variable {k : Kind} {key : Str}

/-! ### Records in the log and in memory -/

variable {e : PortalEntry} {c cf : Config Op Reply State ℕ Call Response} {s0 : State}
variable {t : RefreshToken}
variable {Q : Caller Call → List PortalEntry → Response → List PortalEntry → Prop} {expiry : Time}
variable {a : Response} {r : Request} {later before mid : List PortalEntry}

/-- What is untouched was untouched before. -/
theorem Untouched.tail (h : Untouched k key (e :: L)) : Untouched k key L :=
  fun i hi => h i (has_cons.2 (.inr hi))

/-- The records are returned as they were saved. -/
theorem fresh_implies : fresh.Implies asSaved where
  op h := h.1
  call _ := trivial
  done _ := trivial
  env _ := trivial
  crash h := h.elim

/-- In every run each key was stored at most once. -/
theorem known (hmem : s0.mem = {}) (hc : Reachable (portal cfg) fresh s0 c) :
    Known cfg c.state c.log := by
  refine ⟨(hc.imp fresh_implies).invariant (verified hmem), fun k key => ?_⟩
  -- Each entry that stores a key found a log in which nothing had stored it.
  have heach := hc.each_op
  generalize c.log = L at heach
  induction L with
  | nil => exact atMostOne_nil _
  | cons e L ih =>
    refine atMostOne_cons.2 ⟨?_, ih heach.2⟩
    rintro ⟨w, o, r, hev, hstores⟩ ⟨e', he', hstored⟩
    obtain ⟨x, hA, -⟩ := heach.1 w o r hev
    exact (hA.2 k key hstores e' he').1 hstored

/-- A key is stored by one operation. -/
theorem Known.op_eq (h : Known cfg s L) {w w' : Caller Call} {o o' : Op} {r : Reply o}
    {r' : Reply o'} (ho : stores o = some (k, key)) (ho' : stores o' = some (k, key))
    (hstored : Has (fun e => e.event = .op w o r) L)
    (hstored' : Has (fun e => e.event = .op w' o' r') L) : o' = o := by
  obtain ⟨e, he, hev⟩ := hstored
  obtain ⟨e', he', hev'⟩ := hstored'
  obtain rfl := (h.once k key).eq he he' ⟨w, o, r, hev, ho⟩ ⟨w', o', r', hev', ho'⟩
  exact (Event.op.inj (hev'.symm.trans hev)).2.1

/-- A session that is held under the key of a stored one is that session. -/
theorem Known.session_eq (h : Known cfg s L) {x y : AuthSession} (hx : Has (SavesSession w x) L)
    (hy : s.mem.sessions.lookup x.sessionID = some y) : y = x := by
  obtain ⟨hid, w', hy⟩ := h.inv.stored.sessions _ _ hy
  exact Op.sessionsPut.inj (h.op_eq rfl (by rw [stores, hid]) hx hy)

/-- A refresh token that is held under the key of a stored one is that token. -/
theorem Known.token_eq (h : Known cfg s L) {t' : RefreshToken} (ht : Has (SavesToken w t) L)
    (ht' : s.mem.tokens.lookup t.token = some t') : t' = t := by
  obtain ⟨hid, w', ht'⟩ := h.inv.stored.tokens _ _ ht'
  exact Op.tokensPut.inj (h.op_eq rfl (by rw [stores, hid]) ht ht')

/-- A code is stored unused. -/
theorem Known.unused (h : Known cfg s L) {c : AuthCode} (hc : Has (SavesCode w c) L) :
    c.used = false := by
  obtain ⟨-, -, ⟨x, code, now, -, -, -, rfl, -⟩, -⟩ := h.inv.issued hc
  rfl

/-! ### The stores hold what was stored -/

/-- The clock has not gone back. -/
theorem Held.past_cons (h : Held s L) (hpre : e.pre.now ≤ s'.now) (hnow : s.now ≤ s'.now) :
    ∀ e' ∈ e :: L, e'.pre.now ≤ s'.now := by
  intro e' he'
  rcases List.mem_cons.1 he' with rfl | he'
  · exact hpre
  · exact (h.past e' he').trans hnow

/-- An entry that is no operation keeps what is held, when the clock does not go back. -/
theorem Held.event (h : Held s L) (he : ∀ w o r, e.event ≠ .op w o r) (hmem : s'.mem = s.mem)
    (hpre : e.pre.now ≤ s'.now) (hnow : s.now ≤ s'.now) : Held s' (e :: L) where
  past := h.past_cons hpre hnow
  sessions w x hx hunused husable := by
    rw [hmem]
    refine h.sessions w x ((has_cons.1 hx).resolve_left (he _ _ _)) hunused.tail ?_
    simp only [AuthSession.expired, after, decide_eq_false_iff_not, not_lt] at husable ⊢
    exact hnow.trans husable
  codes w c hc hunused husable := by
    rw [hmem]
    exact h.codes w c ((has_cons.1 hc).resolve_left (he _ _ _)) hunused.tail (hnow.trans husable)
  tokens w t ht hunused husable := by
    rw [hmem]
    exact h.tokens w t ((has_cons.1 ht).resolve_left (he _ _ _)) hunused.tail (hnow.trans husable)

/-- An insertion removes nothing. -/
theorem lookup_insert_ne_none {V : Type} {t : Table V} {v : V} {key' : Str}
    (h : t.lookup key ≠ none) : (t.insert key' v).lookup key ≠ none := by
  rw [Table.lookup_insert]
  split_ifs
  · simp
  · exact h

section Operation

variable {o : Op} {e : Env} {r : Reply o}

variable {w' : Caller Call}

/-- A session that is held is held after an operation that does not use it. -/
theorem Held.sessions_op (h : Held s L) (hknown : Known cfg s L) {x : AuthSession}
    (hx : Has (SavesSession w' x) (⟨s, .op w o r⟩ :: L))
    (hunused : Untouched .sessions x.sessionID (⟨s, .op w o r⟩ :: L))
    (husable : x.expired s.now = false) :
    (exec cfg.backend o e s).2.mem.sessions.lookup x.sessionID ≠ none := by
  rcases has_cons.1 hx with hnew | hold
  · -- The operation stores it.
    obtain ⟨-, rfl, -⟩ := Event.op.inj hnew
    simp [exec]
  have hheld := h.sessions w' x hold hunused.tail husable
  by_cases hk : o.changes = some .sessions
  · cases o <;> simp only [Op.changes, reduceCtorEq, Option.some.injEq] at hk
    case sessionsCache y => exact lookup_insert_ne_none hheld
    case sessionsPut y =>
      rw [exec, State.updateDb_mem]
      exact lookup_insert_ne_none hheld
    case sessionsDelete id =>
      have hne : x.sessionID ≠ id := by
        rintro rfl
        exact hunused w.tid (has_cons.2 (.inl ⟨w, _, _, rfl, rfl, rfl⟩))
      simp only [exec, State.updateDb_mem, State.updateMem_mem, Table.lookup_erase, if_neg hne]
      exact hheld
    case sessionsCleanup =>
      -- What is held under the key is the session itself, and it has not expired.
      obtain ⟨y, hy⟩ := Option.ne_none_iff_exists'.1 hheld
      obtain rfl := hknown.session_eq hold hy
      simp [exec, Table.lookup_filter, hy, husable]
  · rw [(exec_sessions cfg.backend e s hk).1]
    exact hheld

/-- A code that is held is held after an operation that does not use it. -/
theorem Held.codes_op (h : Held s L) (hA : fresh.op w o e s L) {c : AuthCode}
    (hc : Has (SavesCode w' c) (⟨s, .op w o r⟩ :: L))
    (hunused : Untouched .codes c.code (⟨s, .op w o r⟩ :: L)) (husable : s.now ≤ c.expiresAt) :
    (exec cfg.backend o e s).2.mem.codes.lookup c.code = some c := by
  rcases has_cons.1 hc with hnew | hold
  · obtain ⟨-, rfl, -⟩ := Event.op.inj hnew
    simp [exec]
  have hheld := h.codes w' c hold hunused.tail husable
  -- An operation that uses a code uses another one.
  have hother : ∀ code, uses o = some (.codes, code) → c.code ≠ code := by
    rintro code ho rfl
    exact hunused w.tid (has_cons.2 (.inl ⟨w, o, r, rfl, rfl, ho⟩))
  by_cases hk : o.changes = some .codes
  · cases o <;> simp only [Op.changes, reduceCtorEq, Option.some.injEq] at hk
    case codesPut y =>
      have hne : c.code ≠ y.code := by
        intro heq
        obtain ⟨e', he', hsaves⟩ := hold
        exact (hA.2 .codes y.code rfl e' he').1 ⟨w', _, _, hsaves, by rw [stores, heq]⟩
      simp only [exec, State.updateDb_mem, State.updateMem_mem, Table.lookup_insert, if_neg hne]
      exact hheld
    case codesMarkUsed code =>
      have hne := hother code rfl
      simp [exec, lookup_setUsed, hheld, hne]
    case codesConsume code =>
      have hne := hother code rfl
      rcases exec_codesConsume cfg.backend code e s with ⟨r, hex, -⟩ | ⟨y, -, -, -, hex⟩
      · rw [hex]
        exact hheld
      · rw [hex, State.updateMem_mem, Table.lookup_insert, if_neg hne]
        exact hheld
    case codesConsumeFetched code f =>
      have hne := hother code rfl
      obtain ⟨_, y, _, t, _, hex, ht, _⟩ := exec_codesConsumeFetched cfg.backend code f e s
      rw [hex, State.updateMem_mem, ht, if_neg hne]
      exact hheld
    case markCodeUsed code =>
      simp only [exec, State.updateDb_mem]
      exact hheld
    case codesCleanup =>
      have hkeep : after s.now c.expiresAt = false := by simp [after, husable]
      simp [exec, Table.lookup_filter, hheld, hkeep]
  · rw [(exec_codes cfg.backend e s hk).1]
    exact hheld

/-- A refresh token that is held is held after an operation that does not use it. -/
theorem Held.tokens_op (h : Held s L) (hknown : Known cfg s L) {t : RefreshToken}
    (ht : Has (SavesToken w' t) (⟨s, .op w o r⟩ :: L))
    (hunused : Untouched .tokens t.token (⟨s, .op w o r⟩ :: L)) (husable : s.now ≤ t.expiresAt) :
    (exec cfg.backend o e s).2.mem.tokens.lookup t.token ≠ none := by
  rcases has_cons.1 ht with hnew | hold
  · obtain ⟨-, rfl, -⟩ := Event.op.inj hnew
    simp [exec]
  have hheld := h.tokens w' t hold hunused.tail husable
  by_cases hk : o.changes = some .tokens
  · cases o <;> simp only [Op.changes, reduceCtorEq, Option.some.injEq] at hk
    case tokensCache y => exact lookup_insert_ne_none hheld
    case tokensPut y =>
      rw [exec, State.updateDb_mem]
      exact lookup_insert_ne_none hheld
    case tokensDelete token =>
      have hne : t.token ≠ token := by
        rintro rfl
        exact hunused w.tid (has_cons.2 (.inl ⟨w, _, _, rfl, rfl, rfl⟩))
      simp only [exec, State.updateDb_mem, State.updateMem_mem, Table.lookup_erase, if_neg hne]
      exact hheld
    -- `Cleanup` keeps it, since it has not expired.
    case tokensCleanup =>
      obtain ⟨y, hy⟩ := Option.ne_none_iff_exists'.1 hheld
      obtain rfl := hknown.token_eq hold hy
      have hkeep : after s.now y.expiresAt = false := by simp [after, husable]
      simp [exec, Table.lookup_filter, hy, hkeep]
  · rw [(exec_tokens cfg.backend e s hk).1]
    exact hheld

/-- Every operation keeps what is held. -/
theorem keeps_held (w : Caller Call) (o : Op) : Keeps (portal cfg) (informed cfg) Held w o := by
  rintro s L e h ⟨hA, hknown⟩
  have hnow : ((portal cfg).exec o e s).2.now = s.now := exec_now cfg.backend o e s
  refine ⟨h.past_cons hnow.ge hnow.ge, fun w' x hx hunused husable => ?_,
    fun w' c hc hunused husable => ?_, fun w' t ht hunused husable => ?_⟩
  · rw [hnow] at husable
    exact h.sessions_op hknown hx hunused husable
  · rw [hnow] at husable
    exact h.codes_op hA hc hunused husable
  · rw [hnow] at husable
    exact h.tokens_op hknown ht hunused husable

end Operation

section Outlines

variable {α : Type} {Q : α → List PortalEntry → Prop}

/-- The outline of a program of the portal that keeps what is held. -/
abbrev HeldOutline (cfg : Settings) (w : Caller Call) (Q : α → List PortalEntry → Prop) (m : M α)
    (L : List PortalEntry) : Prop :=
  Outline (portal cfg) (informed cfg) Held w Q m L

/-- Every program keeps what is held. -/
theorem outline_any (m : M α) : HeldOutline cfg w (fun _ _ => True) m L :=
  Outline.of_all (Prog.all_of_forall (keeps_held w) m) L

/-- What is shown under a condition need be shown only where the condition holds. -/
theorem outline_if {P : Prop} {m : M α} (h : P → HeldOutline cfg w Q m L) :
    HeldOutline cfg w (fun a L' => P → Q a L') m L := by
  by_cases hP : P
  · exact (h hP).imp fun _ _ _ ha _ => ha
  · exact (outline_any m).imp fun _ _ _ _ h => absurd h hP

/-- What a request knows stays while it runs any program, when it is about the log. -/
theorem outline_knowing {K : List PortalEntry → Prop} (hK : ∀ {L L'}, Extends L L' → K L → K L')
    (hL : K L) (m : M α) : HeldOutline cfg w (fun _ => K) m L :=
  Outline.of_all_knowing hK (Prog.all_of_forall (fun o s L e _ => keeps_held w o s L e) m) hL

end Outlines

/-- The rule for the results of the requests: what is left to show is the postcondition. -/
theorem answers
    (hout : ∀ s L (w : Caller Call), Fresh w.tid L →
      HeldOutline cfg w (Q w L) (handle cfg w.call) (⟨s, .call w⟩ :: L)) :
    Answers (portal cfg) (informed cfg) Held Q s0 where
  init := ⟨by simp, by simp, by simp, by simp⟩
  call s L w h hfresh _ := ⟨h.event (by simp) rfl le_rfl le_rfl, hout s L w hfresh⟩
  done w a s L h _ := h.event (by simp) rfl le_rfl le_rfl
  env s L d h _ := by
    have hnow : s.now ≤ ((portal cfg).env d s).now := le_add_of_nonneg_right (Int.natCast_nonneg d)
    exact h.event (by simp) rfl hnow hnow
  crash s L _ hA := hA.1.elim

/-! ### What is in time and not used by others -/

/-- The record can be used by the request: it has not expired, and no other request used it. -/
structure Usable (w : Caller Call) (k : Kind) (key : Str) (expiry : Time)
    (L : List PortalEntry) : Prop where
  intime : ∀ e ∈ L, e.pre.now ≤ expiry
  own : ∀ i, Has (Uses i k key) L → i = w.tid

/-- What is usable was usable before. -/
theorem Usable.mono (h : Usable w k key expiry L') (hL : L ⊆ L') : Usable w k key expiry L :=
  ⟨fun e he => h.intime e (hL he), fun i hi => h.own i (hi.mono hL)⟩

/-- The record can no longer be used, and this stays so. -/
theorem not_usable_extends (hL : Extends L L') (h : ¬ Usable w k key expiry L) :
    ¬ Usable w k key expiry L' :=
  fun husable => h (husable.mono fun _ he => hL.mem he)

/-- A request that comes has not used anything. -/
theorem not_uses_call (hfresh : Fresh w.tid L) (s : State) :
    ¬ Has (Uses w.tid k key) (⟨s, .call w⟩ :: L) := by
  rintro ⟨e, he, w', o, r, hev, htid, -⟩
  rcases List.mem_cons.1 he with rfl | he
  · cases hev
  · refine hfresh e he ?_
    rw [hev, ← htid]
    rfl

/-- What a request has used does not change while it waits. -/
theorem not_uses_others (h : ¬ Has (Uses w.tid k key) L) (hL : Others w.tid L L') :
    ¬ Has (Uses w.tid k key) L' := by
  intro huses
  refine h ((hL.has_iff ?_).1 huses)
  rintro e ⟨w', o, r, hev, htid, -⟩
  rw [hev, ← htid]
  rfl

/-- An operation that uses nothing changes nothing about it. -/
theorem not_uses_op {o : Op} {r : Reply o} (ho : uses o = none) (h : ¬ Has (Uses w.tid k key) L) :
    ¬ Has (Uses w.tid k key) (⟨s, .op w o r⟩ :: L) := by
  intro huses
  rcases has_cons.1 huses with ⟨w', o', r', hev, -, huse⟩ | huses
  · obtain ⟨-, rfl, -⟩ := Event.op.inj hev
    rw [ho] at huse
    cases huse
  · exact h huses

/-- A usable record that the request has not used was not used at all. -/
theorem Usable.untouched (h : Usable w k key expiry L) (hnot : ¬ Has (Uses w.tid k key) L) :
    Untouched k key L := by
  intro i hi
  obtain rfl := h.own i hi
  exact hnot hi

/-- The rule for an operation on a record that the request has not used: when the record is usable,
nobody has used it and it is in time. -/
theorem outline_unused {α : Type} {o : Op} {f : Reply o → M α} {P : α → Prop}
    (hnot : ¬ Has (Uses w.tid k key) L)
    (hstep : ∀ s1 L1 e1, Extends L L1 → Held s1 L1 → Known cfg s1 L1 → Untouched k key L1 →
      s1.now ≤ expiry → HeldOutline cfg w (fun r L' => P r ∨ ¬ Usable w k key expiry L')
        (f ((portal cfg).exec o e1 s1).1) ((portal cfg).entry w o e1 s1 :: L1)) :
    HeldOutline cfg w (fun r L' => P r ∨ ¬ Usable w k key expiry L') (perform o >>= f) L := by
  refine (keeps_held w _).bind fun s1 L1 e1 hL1 hheld hA => ?_
  by_cases husable : Usable w k key expiry ((portal cfg).entry w o e1 s1 :: L1)
  · have huntouched := (husable.mono (List.subset_cons_self ..)).untouched
      (not_uses_others hnot hL1)
    exact hstep s1 L1 e1 hL1.extends hheld hA.2 huntouched
      (husable.intime _ (.head _))
  · exact (outline_knowing not_usable_extends husable _).imp fun _ _ _ h => .inr h

/-- The rule for the end of a lookup: the clock is read again before the record is returned. -/
theorem outline_live {α : Type} {x : α} {late : Time → Bool}
    (hlate : ∀ now, now ≤ expiry → late now = false) :
    HeldOutline cfg w (fun r L' => r = some x ∨ ¬ Usable w k key expiry L')
      (do let now ← perform .now; return if late now then none else some x) L := by
  refine (keeps_held w _).bind fun s1 L1 e1 _ _ _ => ?_
  by_cases hpast : expiry < s1.now
  · exact .inr fun husable => absurd (husable.intime _ (.head _)) (not_le.2 hpast)
  · refine .inl ?_
    show (if late s1.now then none else some x) = some x
    rw [hlate _ (not_lt.1 hpast)]
    rfl

/-! ### The end of both grants -/

/-- The tokens could not be issued: the claims could not be encoded, or no refresh token could be
drawn. -/
def IssueFailed (w : Caller Call) (a : Response) (L : List PortalEntry) : Prop :=
  (a = writeOAuthError 500 "server_error" "failed to mint access token" ∧
    Has (fun e => e.event = .op w .marshalClaims false) L) ∨
  (a = writeOAuthError 500 "server_error" "failed to generate refresh token" ∧
    ∃ err, Has (fun e => e.event = .op w .generateUUID (.error err)) L)

/-- A failure stays in the log. -/
theorem IssueFailed.extends (h : IssueFailed w a L) (hL : Extends L L') : IssueFailed w a L' := by
  rcases h with ⟨ha, hop⟩ | ⟨ha, err, hop⟩
  · exact .inl ⟨ha, hop.extends hL⟩
  · exact .inr ⟨ha, err, hop.extends hL⟩

/-- The request was answered with tokens for the user, the client and the scope, minted at a time
that it read from the clock, and the refresh token was stored, or else the tokens could not be
issued. -/
def Served (cfg : Settings) (w : Caller Call) (r : Request) (userID clientID scope : Str)
    (a : Response) (L : List PortalEntry) : Prop :=
  (∃ minted token now, a = .tokens (signToken cfg.codec cfg.secret
        ⟨userID, scope, clientID, baseURLFromRequest r, unix minted, unix (minted + seconds 3600)⟩)
          token scope ∧
      Has (fun e => e.event = .op w .now minted) L ∧
      Has (SavesToken w ⟨token, userID, clientID, scope, now + seconds 604800⟩) L) ∨
    IssueFailed w a L

/-- A request that was served stays so. -/
theorem Served.extends {userID clientID scope : Str} (h : Served cfg w r userID clientID scope a L)
    (hL : Extends L L') :
    Served cfg w r userID clientID scope a L' := by
  rcases h with ⟨minted, token, now, ha, hread, hsaved⟩ | hfailed
  · exact .inl ⟨minted, token, now, ha, hread.extends hL, hsaved.extends hL⟩
  · exact .inr (hfailed.extends hL)

/-- The outline of the end of both grants. -/
theorem outline_issueTokens (r : Request) (userID clientID scope : Str) (L : List PortalEntry) :
    HeldOutline cfg w (Served cfg w r userID clientID scope)
      (issueTokens cfg r userID clientID scope) L := by
  unfold issueTokens mintAccessToken
  refine outline_bind.2 ((keeps_held w _).bind fun s1 L1 e1 _ _ _ => ?_)
  have hread : Has (fun e => e.event = .op w .now s1.now) ((portal cfg).entry w .now e1 s1 :: L1) :=
    has_cons.2 (.inl rfl)
  refine (keeps_held w _).bind fun s2 L2 e2 hL2 _ _ => ?_
  have hread2 := hread.extends ((portal cfg).entry_extends hL2 .marshalClaims e2 s2)
  cases hmarshal : ((portal cfg).exec .marshalClaims e2 s2).1 with
  | false => exact .inr (.inl ⟨rfl, has_cons.2 (.inl (by rw [System.entry, hmarshal]))⟩)
  | true =>
    refine (keeps_held w _).bind fun s3 L3 e3 hL3 _ _ => ?_
    have hread3 := hread2.extends ((portal cfg).entry_extends hL3 .generateUUID e3 s3)
    cases hdraw : ((portal cfg).exec .generateUUID e3 s3).1 with
    | error err => exact .inr (.inr ⟨rfl, err, has_cons.2 (.inl (by rw [System.entry, hdraw]))⟩)
    | ok token =>
      refine (keeps_held w _).bind fun s4 L4 e4 hL4 _ _ => ?_
      have hread4 := hread3.extends ((portal cfg).entry_extends hL4 .now e4 s4)
      generalize ((portal cfg).exec .now e4 s4).1 = now
      refine (keeps_held w _).bind fun s5 L5 e5 hL5 _ _ => ?_
      have hread5 := hread4.extends ((portal cfg).entry_extends hL5
        (.tokensPut ⟨token, userID, clientID, scope, now + seconds 604800⟩) e5 s5)
      exact .inl ⟨s1.now, token, now, rfl, hread5, has_cons.2 (.inl rfl)⟩

/-! ### Runs that can be checked -/

/-- No entry stores or uses the record. -/
def unseen (k : Kind) (key : Str) (L : List PortalEntry) : Bool := L.all fun e =>
  match e.event with
  | .op _ o _ => stores o ≠ some (k, key) && uses o ≠ some (k, key)
  | _ => true

/-- The check finds what is new. -/
theorem unseen_iff {k : Kind} {key : Str} {L : List PortalEntry} (h : unseen k key L = true) :
    Unseen k key L := by
  intro e he
  have hentry := List.all_eq_true.1 h e he
  constructor
  · rintro ⟨w, o, r, hev, hstores⟩
    simp [hev, hstores] at hentry
  · rintro i ⟨w, o, r, hev, -, huses⟩
    simp [hev, huses] at hentry

/-- The label is a request, the clock, or a step to which the backend returns no record and which
stores a new one at most. -/
def storesNew (c : Config Op Reply State ℕ Call Response) : Label Env ℕ Call → Bool
  | .step tid e => fetchesNothing (.step tid e) && match c.threads tid with
    | some (_, .op o _) => match stores o with
      | some (k, key) => unseen k key c.log
      | none => true
    | _ => true
  | .crash => false
  | _ => true

/-- The labels of a run are such. -/
def storesNewRun (cfg : Settings) (c : Config Op Reply State ℕ Call Response) :
    List (Label Env ℕ Call) → Bool
  | [] => true
  | l :: ls => storesNew c l && storesNewRun cfg ((portal cfg).step c l) ls

/-- The check of one label. -/
theorem fresh_allows {l : Label Env ℕ Call} (h : storesNew c l = true) : fresh.Allows c l := by
  cases l with
  | call q => trivial
  | env d => trivial
  | crash => cases h
  | step tid e =>
    simp only [storesNew, Bool.and_eq_true] at h
    obtain ⟨hnothing, hnew⟩ := h
    have hsaved := asSaved_allows hnothing c
    rcases ht : c.threads tid with _ | ⟨q, a | ⟨o, k⟩⟩
    · simp [Assumption.Allows, ht]
    · simp [Assumption.Allows, ht, fresh]
    · simp only [Assumption.Allows, ht] at hsaved hnew ⊢
      refine ⟨hsaved, fun k key hstores => unseen_iff ?_⟩
      rw [hstores] at hnew
      exact hnew

/-- A run that passes the check is one of the runs. -/
theorem reachable_of_storesNew {ls : List (Label Env ℕ Call)}
    (h : storesNewRun cfg (.init s0) ls = true) :
    Reachable (portal cfg) fresh s0 ((portal cfg).run (.init s0) ls) := by
  refine Reachable.init.run ls ?_
  generalize Config.init s0 = c at h
  induction ls generalizing c with
  | nil => trivial
  | cons l ls ih =>
    rw [storesNewRun, Bool.and_eq_true] at h
    exact ⟨fresh_allows h.1, ih _ h.2⟩

/-- Only one request uses the record. -/
def usedOnlyBy (i : ℕ) (k : Kind) (key : Str) (L : List PortalEntry) : Bool := L.all fun e =>
  match e.event with
  | .op w o _ => uses o ≠ some (k, key) || w.tid = i
  | _ => true

/-- The record is used by that request. -/
theorem eq_of_usedOnlyBy {i j : ℕ} (h : usedOnlyBy i k key L = true)
    (hj : Has (Uses j k key) L) : j = i := by
  obtain ⟨e, he, w, o, r, hev, rfl, huses⟩ := hj
  have hentry := List.all_eq_true.1 h e he
  simpa [hev, huses] using hentry

/-! ### The exchange of a code -/

/-- The request exchanges the code: it presents the code with its client and redirect URI, and a
verifier of its challenge. -/
structure Exchanges (codec : Codec) (r : Request) (c : AuthCode) : Prop where
  method : r.method = "POST"
  form : r.formError = false
  grantType : r.form.get "grant_type" = "authorization_code"
  code : r.form.get "code" = c.code
  clientID : r.form.get "client_id" = c.clientID
  redirectURI : r.form.get "redirect_uri" = c.redirectURI
  verifier : verifyPKCE codec (r.form.get "code_verifier") c.codeChallenge = true
  complete : c.code ≠ [] ∧ c.clientID ≠ [] ∧ c.redirectURI ≠ [] ∧ r.form.get "code_verifier" ≠ []

/-- The first section of `ConsumeCode` takes a code that is held unused and in time. -/
theorem exec_codesConsume_held {c : AuthCode} (hheld : s.mem.codes.lookup c.code = some c)
    (hunused : c.used = false) (husable : s.now ≤ c.expiresAt) (backend : Bool) (e : Env) :
    (exec backend (.codesConsume c.code) e s).1 = some (some { c with used := true }) := by
  rcases takeCode_cases s.now c.code c s.mem.codes with ⟨-, hpast | hused⟩ | ⟨htake, -, -⟩
  · exact absurd husable (not_le.2 hpast)
  · rw [hunused] at hused
    cases hused
  · simp [exec, hheld, htake]

/-- `ConsumeCode` by the first request that presents a code returns it. -/
theorem outline_consumeCode {c : AuthCode} (hsaved : Has (SavesCode w0 c) L)
    (hnot : ¬ Has (Uses w.tid .codes c.code) L) :
    HeldOutline cfg w
      (fun r L' => r = some { c with used := true } ∨ ¬ Usable w .codes c.code c.expiresAt L')
      (CodeStore.consumeCode cfg.backend c.code) L := by
  unfold CodeStore.consumeCode
  refine outline_unused hnot fun s1 L1 e1 hL1 hheld hknown huntouched hnow => ?_
  have hsaved1 := hsaved.extends hL1
  have hreply : ((portal cfg).exec (.codesConsume c.code) e1 s1).1 =
      some (some { c with used := true }) :=
    exec_codesConsume_held (hheld.codes w0 c hsaved1 huntouched hnow) (hknown.unused hsaved1) hnow
      cfg.backend e1
  rw [hreply]
  -- What is left is the write to the backend.
  have hresults : (CodeStore.confirm cfg.backend c.code (some { c with used := true })).Results
      fun r => r = some { c with used := true } := by
    unfold CodeStore.confirm
    dsimp only
    split_ifs
    · exact fun _ => rfl
    · rfl
  exact ((outline_any _).and_results hresults).imp fun _ _ _ h => .inl h.2

/-- The outline of the code grant, for a code that was stored before the request came. -/
theorem outline_handleAuthCodeGrant {c : AuthCode} (hsaved : Has (SavesCode w0 c) L)
    (hnot : ¬ Has (Uses w.tid .codes c.code) L) (hr : Exchanges cfg.codec r c) :
    HeldOutline cfg w (fun a L' => Usable w .codes c.code c.expiresAt L' →
        Served cfg w r c.userID c.clientID c.scope a L')
      (handleAuthCodeGrant cfg r) L := by
  obtain ⟨hcode, hclient, huri, hverifier⟩ := hr.complete
  unfold handleAuthCodeGrant
  dsimp only
  rw [hr.code, hr.clientID, hr.redirectURI, if_neg (by simp [hcode, hclient, huri, hverifier])]
  refine (outline_consumeCode hsaved hnot).bind fun a L1 _ ha => ?_
  rcases ha with rfl | hdead
  · -- The checks compare the code with the request.
    dsimp only
    rw [if_neg (by simp), if_neg (by simp), hr.verifier, if_neg (by simp)]
    exact (outline_issueTokens r _ _ _ L1).imp fun _ _ _ hserved _ => hserved
  · exact (outline_knowing not_usable_extends hdead _).imp fun _ _ _ h husable => absurd husable h

/-- Every request, as to the exchange of a code: one that exchanges it is served if the code is
usable. -/
theorem outline_exchange (r : Request) (w0 : Caller Call) (c : AuthCode) (s : State)
    (hfresh : Fresh w.tid before) :
    HeldOutline cfg w
      (fun a L' => (w.call = .token r ∧ Exchanges cfg.codec r c ∧ Has (SavesCode w0 c) before) →
        Usable w .codes c.code c.expiresAt L' → Served cfg w r c.userID c.clientID c.scope a L')
      (handle cfg w.call) (⟨s, .call w⟩ :: before) := by
  refine outline_if fun h => ?_
  obtain ⟨hcall, hr, hsaved⟩ := h
  rw [hcall]
  show HeldOutline cfg w _ (handleToken cfg r) _
  unfold handleToken
  rw [if_neg (by simp [hr.method]), hr.form, if_neg (by simp), if_pos hr.grantType]
  exact outline_handleAuthCodeGrant (has_cons.2 (.inr hsaved)) (not_uses_call hfresh s) hr

/-- The rule for a request that uses a record which no other request used before the answer, and
which had not expired then: the postcondition holds of the answer, and the record was usable. -/
theorem usable_result (hmem : s0.mem = {}) (hc : Reachable (portal cfg) fresh s0 cf)
    (hout : ∀ s L (w : Caller Call), Fresh w.tid L →
      HeldOutline cfg w (Q w L) (handle cfg w.call) (⟨s, .call w⟩ :: L))
    {s s' : State} (hlog : cf.log = later ++ ⟨s, .done w a⟩ :: (mid ++ ⟨s', .call w⟩ :: before))
    (hfirst : ∀ i, Has (Uses i k key) (mid ++ ⟨s', .call w⟩ :: before) → i = w.tid)
    (hnow : s.now ≤ expiry) :
    ∃ L, Extends L (mid ++ ⟨s', .call w⟩ :: before) ∧ Usable w k key expiry L ∧ Q w before a L := by
  obtain ⟨hheld, L, hL, hpost⟩ := (hc.knowing fun c hc => known hmem hc).result (answers hout) hlog
  have husable : Usable w k key expiry (mid ++ ⟨s', .call w⟩ :: before) :=
    ⟨fun e he => (hheld.past e he).trans hnow, hfirst⟩
  exact ⟨L, hL.extends, husable.mono fun _ he => hL.mem he, hpost⟩

/-- Whatever other requests are under way, the first request that exchanges a code is answered with
tokens for the user, the client and the scope of the code, when the code was stored before the
request came and has not expired when it is answered. -/
theorem exchange_served (hmem : s0.mem = {}) (hc : Reachable (portal cfg) fresh s0 cf)
    {s s' : State} (hlog : cf.log = later ++ ⟨s, .done w a⟩ :: (mid ++ ⟨s', .call w⟩ :: before))
    {c : AuthCode} (hcall : w.call = .token r) (hr : Exchanges cfg.codec r c)
    (hsaved : Has (SavesCode w0 c) before)
    (hfirst : ∀ i, Has (Uses i .codes c.code) (mid ++ ⟨s', .call w⟩ :: before) → i = w.tid)
    (hnow : s.now ≤ c.expiresAt) :
    Served cfg w r c.userID c.clientID c.scope a (mid ++ ⟨s', .call w⟩ :: before) := by
  obtain ⟨L, hL, husable, hserved⟩ :=
    usable_result hmem hc (fun s L w hfresh => outline_exchange r w0 c s hfresh)
    hlog hfirst hnow
  exact (hserved ⟨hcall, hr, hsaved⟩ husable).extends hL

/-- The code of the flow. -/
def flowCode : AuthCode where
  code := "c"
  clientID := "m"
  userID := "alice"
  redirectURI := "https://m/cb"
  codeChallenge := "TJRIXgwhrmxBzh3-e2v6zupato5AokdvUCCOUm9QYIA"
  scope := defaultScope
  expiresAt := seconds 300

/-- The log of the flow. -/
def flowLog : List PortalEntry := ((portal sampleSettings).run (.init {}) flow).log

/-- The exchange of the flow is served. -/
theorem exchange_served_flow : ∃ r a, exchange = .token r ∧
    Served sampleSettings ⟨2, exchange⟩ r "alice" "m" defaultScope a
      flowLog.tail := by
  have hrun : Reachable (portal sampleSettings) fresh {}
      ((portal sampleSettings).run (.init {}) flow) :=
    reachable_of_storesNew (by decide)
  have hsplit : flowLog.tail = flowLog.tail.take 6 ++ flowLog.drop 7 := rfl
  have hlog : ∃ s s' a r, s.now = 0 ∧ exchange = .token r ∧ Exchanges sampleCodec r flowCode ∧
      flowLog.drop 7 = ⟨s', .call ⟨2, exchange⟩⟩ :: flowLog.drop 8 ∧
      flowLog = [] ++ ⟨s, .done ⟨2, exchange⟩ a⟩ :: flowLog.tail := by
    refine ⟨_, _, _, _, rfl, rfl, ?_, rfl, rfl⟩
    exact ⟨rfl, rfl, rfl, rfl, rfl, rfl, by decide, by decide⟩
  obtain ⟨s, s', a, r, hnow, hr, hexchanges, hcall, hdone⟩ := hlog
  rw [hcall] at hsplit
  rw [hsplit] at hdone
  have hsaved : Has (SavesCode ⟨1, login⟩ flowCode) (flowLog.drop 8) :=
    ⟨_, List.mem_iff_getElem?.2 ⟨2, rfl⟩, rfl⟩
  refine ⟨r, a, hr, ?_⟩
  rw [hsplit]
  refine exchange_served rfl hrun hdone hr hexchanges hsaved ?_ ?_
  · rw [← hsplit]
    exact fun i hi => eq_of_usedOnlyBy (by decide) hi
  · rw [hnow]
    decide

/-! ### The rotation of a refresh token -/

/-- The request presents the refresh token with its client. -/
structure Refreshes (r : Request) (t : RefreshToken) : Prop where
  method : r.method = "POST"
  form : r.formError = false
  grantType : r.form.get "grant_type" = "refresh_token"
  token : r.form.get "refresh_token" = t.token
  clientID : r.form.get "client_id" = t.clientID
  complete : t.token ≠ [] ∧ t.clientID ≠ []

/-- `TokenStore.Get` by a request that has not used the token yet returns it. -/
theorem outline_getToken (hsaved : Has (SavesToken w0 t) L)
    (hnot : ¬ Has (Uses w.tid .tokens t.token) L) :
    HeldOutline cfg w (fun r L' => r = some t ∨ ¬ Usable w .tokens t.token t.expiresAt L')
      (TokenStore.get cfg.backend t.token) L := by
  unfold TokenStore.get
  refine outline_unused hnot fun s1 L1 e1 hL1 hheld hknown huntouched hnow => ?_
  have hsaved1 := hsaved.extends hL1
  obtain ⟨t', ht'⟩ := Option.ne_none_iff_exists'.1 (hheld.tokens w0 t hsaved1 huntouched hnow)
  obtain rfl := hknown.token_eq hsaved1 ht'
  rw [show ((portal cfg).exec (.tokensLookup t'.token) e1 s1).1 = some t' from ht']
  exact outline_live fun now hnow => by simpa [after] using hnow

/-- The outline of the refresh grant, for a token that was stored before the request came. -/
theorem outline_handleRefreshTokenGrant (hsaved : Has (SavesToken w0 t) L)
    (hnot : ¬ Has (Uses w.tid .tokens t.token) L) (hr : Refreshes r t) :
    HeldOutline cfg w (fun a L' => Usable w .tokens t.token t.expiresAt L' →
        Served cfg w r t.userID t.clientID t.scope a L')
      (handleRefreshTokenGrant cfg r) L := by
  obtain ⟨htoken, hclient⟩ := hr.complete
  unfold handleRefreshTokenGrant
  dsimp only
  rw [hr.token, hr.clientID, if_neg (by simp [htoken, hclient])]
  refine (outline_getToken hsaved hnot).bind fun a L1 _ ha => ?_
  rcases ha with rfl | hdead
  · dsimp only
    rw [if_neg (by simp)]
    refine (keeps_held w _).bind fun s2 L2 e2 _ _ _ => ?_
    exact (outline_issueTokens r _ _ _ _).imp fun _ _ _ hserved _ => hserved
  · exact (outline_knowing not_usable_extends hdead _).imp fun _ _ _ h husable => absurd husable h

/-- Every request, as to the rotation of a refresh token. -/
theorem outline_refresh (r : Request) (w0 : Caller Call) (t : RefreshToken) (s : State)
    (hfresh : Fresh w.tid before) :
    HeldOutline cfg w
      (fun a L' => (w.call = .token r ∧ Refreshes r t ∧ Has (SavesToken w0 t) before) →
        Usable w .tokens t.token t.expiresAt L' → Served cfg w r t.userID t.clientID t.scope a L')
      (handle cfg w.call) (⟨s, .call w⟩ :: before) := by
  refine outline_if fun h => ?_
  obtain ⟨hcall, hr, hsaved⟩ := h
  rw [hcall]
  show HeldOutline cfg w _ (handleToken cfg r) _
  unfold handleToken
  rw [if_neg (by simp [hr.method]), hr.form, if_neg (by simp),
    if_neg (by rw [hr.grantType]; decide), if_pos hr.grantType]
  exact outline_handleRefreshTokenGrant (has_cons.2 (.inr hsaved)) (not_uses_call hfresh s) hr

/-- Whatever other requests are under way, the first request that uses up a refresh token is
answered with tokens for the same user, client and scope, when the token was stored before the
request came and has not expired when it is answered. -/
theorem refresh_served (hmem : s0.mem = {}) (hc : Reachable (portal cfg) fresh s0 cf) {s s' : State}
    (hlog : cf.log = later ++ ⟨s, .done w a⟩ :: (mid ++ ⟨s', .call w⟩ :: before))
    (hcall : w.call = .token r) (hr : Refreshes r t) (hsaved : Has (SavesToken w0 t) before)
    (hfirst : ∀ i, Has (Uses i .tokens t.token) (mid ++ ⟨s', .call w⟩ :: before) → i = w.tid)
    (hnow : s.now ≤ t.expiresAt) :
    Served cfg w r t.userID t.clientID t.scope a (mid ++ ⟨s', .call w⟩ :: before) := by
  obtain ⟨L, hL, husable, hserved⟩ :=
    usable_result hmem hc (fun s L w hfresh => outline_refresh r w0 t s hfresh)
    hlog hfirst hnow
  exact (hserved ⟨hcall, hr, hsaved⟩ husable).extends hL

/-- The client refreshes its tokens. -/
def refresh : Call :=
  .token { method := "POST", host := "p",
            form := [("grant_type", ["refresh_token"]),
              ("refresh_token", ["t"]), ("client_id", ["m"])] }

/-- The flow, and a refresh after it. -/
def refreshFlow : List (Label Env ℕ Call) :=
  flow ++ [.call refresh, .step 3 {}, .step 3 {}, .step 3 {}, .step 3 {}, .step 3 {},
    .step 3 { random := .ok "t2" }, .step 3 {}, .step 3 {}, .step 3 {}]

/-- The refresh token of the flow. -/
def flowToken : RefreshToken where
  token := "t"
  userID := "alice"
  clientID := "m"
  scope := defaultScope
  expiresAt := seconds 604800

/-- The log of the flow with the refresh. -/
def refreshLog : List PortalEntry := ((portal sampleSettings).run (.init {}) refreshFlow).log

/-- The refresh after the flow is served. -/
theorem refresh_served_flow : ∃ r a, refresh = .token r ∧
    Served sampleSettings ⟨3, refresh⟩ r "alice" "m" defaultScope a
      refreshLog.tail := by
  have hrun : Reachable (portal sampleSettings) fresh {}
      ((portal sampleSettings).run (.init {}) refreshFlow) :=
    reachable_of_storesNew (by decide)
  have hsplit : refreshLog.tail = refreshLog.tail.take 8 ++ refreshLog.drop 9 := rfl
  have hlog : ∃ s s' a r, s.now = 0 ∧ refresh = .token r ∧ Refreshes r flowToken ∧
      refreshLog.drop 9 = ⟨s', .call ⟨3, refresh⟩⟩ :: refreshLog.drop 10 ∧
      refreshLog = [] ++ ⟨s, .done ⟨3, refresh⟩ a⟩ :: refreshLog.tail := by
    refine ⟨_, _, _, _, rfl, rfl, ?_, rfl, rfl⟩
    exact ⟨rfl, rfl, rfl, rfl, rfl, by decide⟩
  obtain ⟨s, s', a, r, hnow, hr, hrefreshes, hcall, hdone⟩ := hlog
  rw [hcall] at hsplit
  rw [hsplit] at hdone
  have hsaved : Has (SavesToken ⟨2, exchange⟩ flowToken) (refreshLog.drop 10) :=
    ⟨_, List.mem_iff_getElem?.2 ⟨1, rfl⟩, rfl⟩
  refine ⟨r, a, hr, ?_⟩
  rw [hsplit]
  refine refresh_served rfl hrun hdone hr hrefreshes hsaved ?_ ?_
  · rw [← hsplit]
    exact fun i hi => eq_of_usedOnlyBy (by decide) hi
  · rw [hnow]
    decide

end VirePortal.Auth.Redemption
