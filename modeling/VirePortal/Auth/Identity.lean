import VirePortal.Auth.Handlers

/-!
# Whose identity a code carries

`CompleteAuthorization` stores a code for the user id that its caller gives it. The id comes from
the session cookie at the authorize endpoint, from the token of vire-server at the login, and from
the `token` parameter at the OAuth callback. The first is checked against the secret, the second
comes from vire-server in the same request, and the third is decoded without a check
(`extractJWTSubFromToken`): a made-up token yields a code for the user that it names
(`callback_forges`).

When the tokens of the callbacks are genuine, and every session cookie that verifies has a positive
`exp` or none (`genuine`), every stored code is for an authenticated user (`code_authenticated`).
-/

namespace VirePortal.Auth.Identity

open Go Concurrent

/-- The request of a call. -/
def request : Call → Request
  | .authorize r => r
  | .resume r => r
  | .token r => r
  | .register r _ => r
  | .login r => r
  | .callback r => r

/-- The request carries the token, as its session cookie or as its `token` parameter. -/
def Presents (r : Request) (token : Str) : Prop :=
  r.cookie "vire_session" = some token ∨ r.query.get "token" = token

/-- No member sets `exp`. -/
def Dateless (members : List (Str × Json)) : Prop :=
  ∀ v ∈ fieldValues "exp" members, v = .null

/-- A JWT for `userID` whose HMAC-SHA256 verifies under the secret, and which has no `exp` or is not
expired at the time `t`. -/
def Genuine (codec : Codec) (secret token userID : Str) (t : Time) : Prop :=
  ∃ header payload signature members exp,
    splitN 46 4 token = [header, payload, signature] ∧
    base64Decode signature = some (codec.hmacSHA256 secret (header ++ 46 :: payload)) ∧
    payloadMembers codec payload = .ok members ∧
    stringField "sub" members = some userID ∧
    int64Field "exp" members = some exp ∧ (Dateless members ∨ unix t ≤ exp)

/-- vire-server returned a token for the user in this very request. -/
def LoggedIn (codec : Codec) (w : Caller Call) (userID : Str) (e : PortalEntry) : Prop :=
  ∃ username password token,
    e.event = .op w (.postLogin username password) (.reply 200 (some token)) ∧
      extractJWTSubFromToken codec token = userID

/-- The request arrived with a genuine token for the user. -/
def Arrived (cfg : Settings) (w : Caller Call) (userID : Str) (e : PortalEntry) : Prop :=
  e.event = .call w ∧ ∃ token, Presents (request w.call) token ∧
    Genuine cfg.codec cfg.secret token userID e.pre.now

/-- The request is one of the user. -/
def Authenticated (cfg : Settings) (w : Caller Call) (userID : Str) (L : List PortalEntry) : Prop :=
  Has (LoggedIn cfg.codec w userID) L ∨ Has (Arrived cfg w userID) L

/-- The entry stores the code. -/
def StoresCode (w : Caller Call) (c : AuthCode) (e : PortalEntry) : Prop :=
  e.event = .op w (.codesPut c) ()

/-- A session cookie that verifies and names a user has a positive `exp` or none. -/
def CookieDated (cfg : Settings) (r : Request) : Prop :=
  ∀ token members sub exp, r.cookie "vire_session" = some token →
    verifiedMembers cfg.codec cfg.secret token = .ok members →
      stringField "sub" members = some sub →
    sub ≠ [] → int64Field "exp" members = some exp → 0 < exp ∨ Dateless members

/-- A callback for a pending session whose token names a user presents a genuine token for that
user. -/
def CallbackGenuine (cfg : Settings) (r : Request) (t : Time) : Prop :=
  ∀ sessionID, r.cookie "mcp_session_id" = some sessionID → sessionID ≠ [] →
    extractJWTSubFromToken cfg.codec (r.query.get "token") ≠ [] →
    ∃ token, Presents r token ∧ Genuine cfg.codec cfg.secret token
      (extractJWTSubFromToken cfg.codec (r.query.get "token")) t

/-- The runs whose requests are as the two conditions say. -/
def genuine (cfg : Settings) : Assumption Op Reply State Env ℕ Call Response where
  call q s _ := match q with
    | .authorize r => CookieDated cfg r
    | .resume r => CookieDated cfg r
    | .callback r => CallbackGenuine cfg r s.now
    | _ => True

/-- The invariant: the clock does not go back, and the user of every stored code is
authenticated. -/
structure Inv (cfg : Settings) (s : State) (L : List PortalEntry) : Prop where
  clock : ∀ e ∈ L, e.pre.now ≤ s.now
  stored : ∀ w c, Has (StoresCode w c) L → Authenticated cfg w c.userID L

variable {cfg : Settings} {s : State} {L L' : List PortalEntry} {w : Caller Call} {userID : Str}

/-- A user who is authenticated stays so. -/
theorem Authenticated.extends (h : Authenticated cfg w userID L) (hL : Extends L L') :
    Authenticated cfg w userID L' :=
  h.imp (·.extends hL) (·.extends hL)

/-- An entry keeps the invariant when the clock is not behind and a code that it stores is for an
authenticated user. -/
theorem Inv.cons (h : Inv cfg s L) (e : PortalEntry) (hpre : e.pre = s) {s' : State}
    (hclock : s.now ≤ s'.now)
    (hstore : ∀ w c, StoresCode w c e → Authenticated cfg w c.userID L) : Inv cfg s' (e :: L) := by
  have hkeep : ∀ {w u}, Authenticated cfg w u L → Authenticated cfg w u (e :: L) := by
    intro w u hu
    exact hu.imp (fun hL => has_cons.2 (.inr hL)) fun hL => has_cons.2 (.inr hL)
  constructor
  · intro e' he'
    rcases List.mem_cons.1 he' with rfl | he'
    · rw [hpre]
      exact hclock
    · exact (h.clock e' he').trans hclock
  · intro w c hc
    rcases has_cons.1 hc with hc | hc
    · exact hkeep (hstore w c hc)
    · exact hkeep (h.stored w c hc)

/-- An operation that stores no code keeps the invariant by itself. -/
theorem keeps (w : Caller Call) {o : Op} (ho : o.effect ≠ .putsCode) :
    Keeps (portal cfg) (genuine cfg) (Inv cfg) w o := by
  intro s L e hI _
  have hclock : s.now ≤ ((portal cfg).exec o e s).2.now := (exec_now _ _ _ _).ge
  refine hI.cons _ rfl hclock fun w' c hc => ?_
  obtain ⟨-, rfl, -⟩ := Event.op.inj hc
  exact absurd rfl ho

/-- The outline of a program that stores no code. -/
theorem outline_quiet {α : Type} {p : M α} {l : List Effect} (hp : Performs l p)
    (hl : .putsCode ∉ l) (L : List PortalEntry) :
    Outline (portal cfg) (genuine cfg) (Inv cfg) w (fun _ _ => True) p L := by
  refine Outline.of_all (Prog.All.imp (fun o ho => keeps w ?_) hp) L
  intro heq
  exact hl (heq ▸ ho)

/-- The operation stores codes of the user only. -/
def StoresFor (userID : Str) (o : Op) : Prop := ∀ c, o = .codesPut c → c.userID = userID

/-- An operation that stores no code. -/
theorem storesFor_of_effect {o : Op} (ho : o.effect ≠ .putsCode) : StoresFor userID o := by
  intro c hc
  subst hc
  exact absurd rfl ho

/-- `CompleteAuthorization` stores codes of the user that it is called for. -/
theorem completeAuthorization_storesFor (backend : Bool) (sessionID userID : Str) :
    (completeAuthorization backend sessionID userID).All (StoresFor userID) := by
  have hone : ∀ {β : Type} {o : Op} {f : Reply o → M β}, o.effect ≠ .putsCode →
      (∀ r, (f r).All (StoresFor userID)) → (perform o >>= f).All (StoresFor userID) :=
    fun ho hf => Prog.all_bind ((Prog.all_call _ _).2 (storesFor_of_effect ho)) hf
  unfold completeAuthorization
  refine hone (by simp [Op.effect]) fun _ => ?_
  refine Prog.all_bind (Prog.All.imp (fun o ho => ?_) (SessionStore.performs_get _ _)) fun r => ?_
  · refine storesFor_of_effect fun heq => ?_
    rw [heq] at ho
    simp at ho
  · rcases r with _ | x
    · exact Prog.all_pure _ _
    · refine hone (by simp [Op.effect]) fun r => ?_
      rcases r with err | code
      · exact Prog.all_pure _ _
      · refine hone (by simp [Op.effect]) fun now => ?_
        refine Prog.all_bind ((Prog.all_call _ _).2 fun c hc => ?_) fun _ => ?_
        · cases hc
          rfl
        · refine hone (by simp [Op.effect]) fun _ => ?_
          cases URL.parse x.redirectURI <;> exact Prog.all_pure _ _

/-- The outline of `CompleteAuthorization` for an authenticated user. -/
theorem outline_completeAuthorization {sessionID : Str} (h : Authenticated cfg w userID L) :
    Outline (portal cfg) (genuine cfg) (Inv cfg) w (fun _ _ => True)
      (completeAuthorization cfg.backend sessionID userID) L := by
  have hall := completeAuthorization_storesFor cfg.backend sessionID userID
  refine (Outline.of_all_knowing (fun hL h => h.extends hL) (hall.imp ?_) h).imp
    fun _ _ _ _ => trivial
  intro o ho s L e hknown hI _
  have hclock : s.now ≤ ((portal cfg).exec o e s).2.now := (exec_now _ _ _ _).ge
  refine hI.cons _ rfl hclock fun w' c hc => ?_
  obtain ⟨rfl, hop, -⟩ := Event.op.inj hc
  rw [ho c hop]
  exact hknown

/-- The `sub` and the `exp` of a token are those of its members. -/
theorem subAndExp_eq_some {token sub : Str} {exp : ℤ} :
    subAndExp cfg.codec cfg.secret token = some (sub, exp) ↔
      ∃ members, verifiedMembers cfg.codec cfg.secret token = .ok members ∧
        stringField "sub" members = some sub ∧ int64Field "exp" members = some exp := by
  unfold subAndExp
  cases verifiedMembers cfg.codec cfg.secret token <;> simp [Option.bind_eq_some_iff]

/-- A verified token is one of its user, while it is not past its `exp`. -/
theorem genuine_of_verified (hsecret : cfg.secret ≠ []) {token sub : Str}
    {members : List (Str × Json)} {exp : ℤ} {t : Time}
    (hv : verifiedMembers cfg.codec cfg.secret token = .ok members)
    (hsub : stringField "sub" members = some sub)
    (hexp : int64Field "exp" members = some exp) (ht : Dateless members ∨ unix t ≤ exp) :
    Genuine cfg.codec cfg.secret token sub t := by
  unfold verifiedMembers at hv
  split at hv
  · rename_i header payload signature hparts
    rw [if_neg hsecret] at hv
    -- The signature is checked before the payload is read.
    unfold checkSignature at hv
    cases hsig : base64Decode signature with
    | none => simp [hsig] at hv
    | some actual =>
      simp only [hsig] at hv
      split_ifs at hv with heq
      exact ⟨header, payload, signature, members, exp, hparts, by rw [hsig, heq], hv, hsub, hexp,
        ht⟩
  · cases hv

/-- The outline of `extractSessionUserID`: the user that it returns is authenticated. -/
theorem outline_extractSessionUserID (hsecret : cfg.secret ≠ []) {r : Request}
    (hr : request w.call = r) (hdated : CookieDated cfg r)
    (hcall : Has (fun e => e.event = .call w) L) :
    Outline (portal cfg) (genuine cfg) (Inv cfg) w
      (fun u L' => u ≠ [] → Authenticated cfg w u L')
      (extractSessionUserID cfg.codec cfg.secret r) L := by
  unfold extractSessionUserID
  obtain ⟨e0, he0, hcall0⟩ := hcall
  cases hcookie : (r.cookie "vire_session").bind (subAndExp cfg.codec cfg.secret) with
  | none => exact fun h => absurd rfl h
  | some se =>
    obtain ⟨sub, exp⟩ := se
    obtain ⟨token, htoken, hse⟩ := Option.bind_eq_some_iff.1 hcookie
    have hpresents : Presents (request w.call) token := .inl (hr ▸ htoken)
    obtain ⟨members, hv, hsub, hexp⟩ := subAndExp_eq_some.1 hse
    -- A token that is not expired now was not expired when the request arrived.
    have harrived : ∀ {L'}, Extends L L' → (Dateless members ∨ unix e0.pre.now ≤ exp) →
        Authenticated cfg w sub L' := by
      intro L' hL ht
      refine .inr ⟨e0, hL.mem he0, hcall0, token, hpresents, ?_⟩
      exact genuine_of_verified hsecret hv hsub hexp ht
    dsimp only
    split_ifs with hpos
    · refine (keeps w (by simp [Op.effect])).bind fun s L1 e hL hI _ => ?_
      intro hu
      have hnow : ((portal cfg).exec .now e s).1 = s.now := rfl
      rw [hnow] at hu ⊢
      by_cases hexpired : exp < unix s.now
      · rw [if_pos hexpired] at hu
        exact absurd rfl hu
      · rw [if_neg hexpired]
        have hle : e0.pre.now ≤ s.now := hI.clock e0 (hL.mem he0)
        have hunix : unix e0.pre.now ≤ unix s.now := Int.ediv_le_ediv (by norm_num) hle
        exact harrived ((portal cfg).entry_extends hL _ e s)
          (.inr (hunix.trans (not_lt.1 hexpired)))
    · intro hu
      have hdateless := (hdated token members sub exp htoken hv hsub hu hexp).resolve_left hpos
      exact harrived (Extends.refl L) (.inl hdateless)

/-- A return keeps the invariant. -/
theorem delivers (a : Response) : Delivers (genuine cfg) (Inv cfg) w a L := by
  intro s L' _ hI _
  exact hI.cons _ rfl le_rfl fun w' c hc => by simp [StoresCode] at hc

/-- The request arrived, and met the conditions then. -/
def Met (cfg : Settings) (w : Caller Call) (e : PortalEntry) : Prop :=
  e.event = .call w ∧ (genuine cfg).call w.call e.pre []

/-- The outlines of the parts of the handlers: a session is completed for an authenticated user. -/
theorem parts (hsecret : cfg.secret ≠ []) (w : Caller Call) :
    Parts cfg (genuine cfg) (Inv cfg) w (Has (Met cfg w)) (Authenticated cfg w)
      (fun _ _ => True) where
  stays hL h := h.extends hL
  getByClientID clientID L _ :=
    outline_quiet (SessionStore.performs_getByClientID _ clientID) (by simp) L
  get sessionID L _ := outline_quiet (SessionStore.performs_get _ sessionID) (by simp) L
  create p L _ _ := outline_quiet (performs_createAuthSession _ p) (by simp) L
  extract r L hcall hmet := by
    obtain ⟨e, he, hev, hA⟩ := hmet
    have hdated : CookieDated cfg r := by
      rcases hcall with hcall | hcall <;> rw [hcall] at hA <;> exact hA
    have hrequest : request w.call = r := by
      rcases hcall with hcall | hcall <;> rw [hcall] <;> rfl
    exact outline_extractSessionUserID hsecret hrequest hdated ⟨e, he, hev⟩
  complete sessionID u L h := outline_completeAuthorization h
  login username password L _ := by
    refine (keeps w (by simp [Op.effect])).outline fun s L1 e _ _ _ => ?_
    intro token htoken
    refine .inl ⟨_, .head _, username, password, token, ?_, rfl⟩
    rw [System.entry, htoken]
  callback r sessionID L hcall hcookie hempty hsub hmet := by
    obtain ⟨e, he, hev, hA⟩ := hmet
    rw [hcall] at hA
    have hgenuine := hA sessionID hcookie hempty hsub
    refine .inr ⟨e, he, hev, ?_⟩
    rw [hcall]
    exact hgenuine
  token r L _ _ := (outline_quiet (performs_handleToken cfg r) (by simp) L).imp fun _ _ _ _ _ =>
    trivial
  register r body L _ _ := outline_quiet (performs_handleRegister r body) (by simp) L

/-- The portal is verified from every state. -/
theorem verified (hsecret : cfg.secret ≠ []) (s0 : State) :
    Verified (portal cfg) (genuine cfg) (Inv cfg) s0 where
  init := ⟨by simp, by simp⟩
  call s L w h _ hA := by
    refine ⟨h.cons _ rfl le_rfl fun w' c hc => by simp [StoresCode] at hc, ?_⟩
    exact ((parts hsecret w).handle (has_cons.2 (.inl ⟨rfl, hA⟩))).imp fun a _ _ _ => delivers a
  env s L d h _ := by
    have hclock : s.now ≤ ((portal cfg).env d s).now :=
      le_add_of_nonneg_right (Int.natCast_nonneg d)
    exact h.cons _ rfl hclock fun w' c hc => by simp [StoresCode] at hc
  crash s L h _ := h.cons _ rfl le_rfl fun w' c hc => by simp [StoresCode] at hc

/-- In every run in which the callbacks for pending sessions present genuine tokens, and the session
cookies that verify have a positive `exp` or none, every code that is stored is for a user that the
very request authenticated. -/
theorem code_authenticated (hsecret : cfg.secret ≠ []) {s0 : State}
    {c : Config Op Reply State ℕ Call Response} (hc : Reachable (portal cfg) (genuine cfg) s0 c)
    {w : Caller Call} {ac : AuthCode} (hstored : Has (StoresCode w ac) c.log) :
    Authenticated cfg w ac.userID c.log :=
  (hc.invariant (verified hsecret s0)).stored w ac hstored

/-- The functions of the standard library at the token of Alice and at the made-up one below. -/
def sampleCodec : Codec :=
  { aliceCodec with
    unmarshal := fun text =>
      if text = "\x7b\"sub\":\"victim\"\x7d"
        then some (.object [("sub", .string "victim")])
      else aliceCodec.unmarshal text }

/-- A portal with the secret `k` and no backend. -/
def sampleSettings : Settings := ⟨false, "k", sampleCodec⟩

/-- A token for the victim with no signature. -/
def forged : Str := "x.eyJzdWIiOiJ2aWN0aW0ifQ.x"

/-- An authorization request with the given cookies. -/
def authorization (cookies : List Cookie) : Request where
  query := sampleQuery "https://m/cb" "h" "x"
  cookies := cookies

/-- An authorization by alice's browser. -/
def byCookie : List (Label Env ℕ Call) :=
  [.call (.authorize (authorization [⟨"vire_session", aliceToken⟩])), .step 0 {}, .step 0 {},
    .step 0 {}, .step 0 { random := .ok "s" }, .step 0 {}, .step 0 {}, .step 0 {}, .step 0 {},
    .step 0 {}, .step 0 {}, .step 0 { random := .ok "c" }, .step 0 {}, .step 0 {}]

/-- The two conditions are about the requests, and every other step meets them. -/
theorem genuine_allows_step (cfg : Settings) (c : Config Op Reply State ℕ Call Response) (tid : ℕ)
    (e : Env) : (genuine cfg).Allows c (.step tid e) := by
  rcases ht : c.threads tid with _ | ⟨q, a | ⟨o, k⟩⟩ <;> simp [Assumption.Allows, ht, genuine]

/-- The code that the portal stores for it. -/
def aliceCode : AuthCode where
  code := "c"
  clientID := "m"
  userID := "alice"
  redirectURI := "https://m/cb"
  codeChallenge := "h"
  scope := defaultScope
  expiresAt := seconds 300

set_option maxRecDepth 20000 in
/-- The code is stored for alice, whose cookie was sent. -/
theorem code_authenticated_byCookie :
    Authenticated sampleSettings ⟨0, .authorize (authorization [⟨"vire_session", aliceToken⟩])⟩
      "alice" ((portal sampleSettings).run (.init {}) byCookie).log := by
  have hdated : CookieDated sampleSettings (authorization [⟨"vire_session", aliceToken⟩]) := by
    intro token members sub exp htoken hv hsub _ hexp
    obtain rfl : aliceToken = token := Option.some.inj htoken
    have heval : subAndExp sampleSettings.codec sampleSettings.secret aliceToken =
        some (ascii "alice", 3600) := by
      decide +kernel
    have hsame := heval.symm.trans (subAndExp_eq_some.2 ⟨members, hv, hsub, hexp⟩)
    obtain ⟨-, rfl⟩ := Prod.mk.inj (Option.some.inj hsame)
    exact .inl (by decide)
  have hstep := genuine_allows_step sampleSettings
  have hrun : Reachable (portal sampleSettings) (genuine sampleSettings) {}
      ((portal sampleSettings).run (.init {}) byCookie) :=
    Reachable.init.run byCookie ⟨hdated, hstep _ _ _, hstep _ _ _, hstep _ _ _, hstep _ _ _,
      hstep _ _ _, hstep _ _ _, hstep _ _ _, hstep _ _ _, hstep _ _ _, hstep _ _ _, hstep _ _ _,
      hstep _ _ _, hstep _ _ _, trivial⟩
  have hstored : Has (StoresCode ⟨0, .authorize (authorization [⟨"vire_session", aliceToken⟩])⟩
      aliceCode) ((portal sampleSettings).run (.init {}) byCookie).log := ⟨_, .head _, rfl⟩
  exact code_authenticated (by decide) hrun hstored

/-- The callback of a browser that holds the pending session, with the made-up token. -/
def forgedCallback : Call :=
  .callback { query := [("token", [forged])],
              cookies := [⟨"mcp_session_id", "s"⟩] }

/-- A session is created, and a made-up token completes it. -/
def byCallback : List (Label Env ℕ Call) :=
  [.call (.authorize (authorization [])), .step 0 {}, .step 0 {}, .step 0 {},
    .step 0 { random := .ok "s" }, .step 0 {}, .step 0 {}, .step 0 {}, .call forgedCallback,
    .step 1 {}, .step 1 {}, .step 1 {}, .step 1 { random := .ok "c" }, .step 1 {}, .step 1 {}]

/-- The entry is no login. -/
def noLogin (e : PortalEntry) : Bool :=
  match e.event with
  | .op _ (.postLogin _ _) _ => false
  | _ => true

/-- A callback with a made-up token makes the portal store a code for the user that the token names,
though nobody authenticated that user. -/
theorem callback_forges : sampleSettings.secret ≠ [] ∧ ∃ c w ac,
    Reachable (portal sampleSettings) {} {} c ∧ Has (StoresCode w ac) c.log ∧
      ¬ Authenticated sampleSettings w ac.userID c.log := by
  refine ⟨by decide, (portal sampleSettings).run (.init {}) byCallback, ⟨1, forgedCallback⟩,
    { aliceCode with userID := "victim" }, ?_, ⟨_, .head _, rfl⟩, ?_⟩
  · exact Reachable.init.run byCallback (by repeat' constructor)
  · rintro (⟨e, he, username, password, token, hop, -⟩ | ⟨e, -, -, token, hpresents, hgenuine⟩)
    · have hall : ((portal sampleSettings).run (.init {}) byCallback).log.all noLogin = true := rfl
      have hno := List.all_eq_true.1 hall e he
      rw [noLogin, hop] at hno
      cases hno
    · rcases hpresents with hcookie | rfl
      · -- The request has no session cookie.
        rw [show (request forgedCallback).cookie "vire_session" = none from rfl] at hcookie
        cases hcookie
      · -- The third part of its token is no base64.
        obtain ⟨header, payload, signature, -, -, hparts, hsig, -⟩ := hgenuine
        have hsplit : splitN 46 4 forged = ["x", "eyJzdWIiOiJ2aWN0aW0ifQ", "x"] := by decide
        rw [show (request forgedCallback).query.get "token" = forged from rfl, hsplit] at hparts
        obtain ⟨-, -, rfl⟩ : "x" = header ∧ "eyJzdWIiOiJ2aWN0aW0ifQ" = payload ∧
            "x" = signature := by simpa using hparts
        rw [show base64Decode "x" = none from by decide] at hsig
        cases hsig

end VirePortal.Auth.Identity
