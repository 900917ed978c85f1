import VirePortal.Concurrent.History
import VirePortal.Server.Proxy

/-!
# The identity headers of proxied requests

vire-server trusts `X-Vire-User-ID` and `X-Vire-Service-ID`. `handleAPIProxy` copies every header of
the client and then sets `X-Vire-User-ID`, but only for a request with a session. So the headers
that the portal is to derive reach vire-server as the client sent them, when there is no session,
and `X-Vire-Service-ID` always does (`identity_forged`).

`derived_iff` says exactly when a forwarded request carries derived values only: the client sent no
`X-Vire-Service-ID`, and no `X-Vire-User-ID` either unless its session replaces it. Names are
compared as HTTP compares them, up to case (`Header.received`). `identity_derived` is the same for
every request that the proxy sends in a run.
-/

namespace VirePortal.Server.IdentityHeaders

open Go Auth Concurrent

/-- The header that names the user. -/
def userHeader : Str := "X-Vire-User-ID"

/-- The header that names a service. -/
def serviceHeader : Str := "X-Vire-Service-ID"

/-- The values of `X-Vire-User-ID` that the portal derives from a session. -/
def derivedUser (login : Option JWTClaims) : List Str :=
  if sessionUser login = [] then [] else [sessionUser login]

/-- What vire-server receives under the identity headers is what the portal derived. -/
def Derived (login : Option JWTClaims) (h : Header) : Prop :=
  h.received userHeader = derivedUser login ∧ h.received serviceHeader = []

/-- The client sent no `X-Vire-Service-ID`, and without a user of a session no `X-Vire-User-ID`. -/
def Unforged (login : Option JWTClaims) (h : Header) : Prop :=
  h.received serviceHeader = [] ∧ (sessionUser login = [] → h.received userHeader = [])

instance (login : Option JWTClaims) (h : Header) : Decidable (Derived login h) := by
  unfold Derived
  infer_instance

/-- The two headers are told apart. -/
theorem foldKey_userHeader_ne : foldKey userHeader ≠ foldKey serviceHeader := by
  decide

/-- A peer receives something of the copied headers exactly when the client sent something. -/
theorem received_copied_eq_nil (h : Header) (name : Str) :
    (Header.addAll [] h).received name = [] ↔ h.received name = [] := by
  have hmem : ∀ v, v ∈ (Header.addAll [] h).received name ↔ v ∈ h.received name := by
    intro v
    rw [Header.mem_received_addAll]
    simp [Header.received]
  rw [List.eq_nil_iff_forall_not_mem, List.eq_nil_iff_forall_not_mem]
  exact forall_congr' fun v => not_congr (hmem v)

/-- The user of a session takes the place of what the client sent. -/
theorem received_user (r : Request) {u : Str} (hu : u ≠ []) :
    (forwardedHeader r u).received userHeader = [u] := by
  unfold forwardedHeader
  dsimp only
  rw [if_pos hu]
  exact Header.received_set (Header.CanonicalFor.addAll nofun (by decide))

/-- The identity headers of a forwarded request are derived exactly when the client forged none. -/
theorem derived_iff (r : Request) (login : Option JWTClaims) :
    Derived login (forwardedHeader r (sessionUser login)) ↔ Unforged login r.header := by
  unfold Derived Unforged derivedUser
  by_cases huser : sessionUser login = []
  · -- No user: the headers are those of the client.
    simp only [forwardedHeader, huser, ne_eq, not_true_eq_false, if_false, if_true, forall_const]
    rw [received_copied_eq_nil, received_copied_eq_nil]
    exact and_comm
  · have hservice : (forwardedHeader r (sessionUser login)).received serviceHeader =
        (Header.addAll [] r.header).received serviceHeader := by
      unfold forwardedHeader
      dsimp only
      rw [if_pos huser]
      exact Header.received_set_of_ne foldKey_userHeader_ne
    rw [if_neg huser, received_user r huser, hservice, received_copied_eq_nil]
    simp [huser]

/-- The request reads the clock. -/
def Reads (w : Caller Request) (now : Time) (e : ProxyEntry) : Prop := e.event = .op w .now now

/-- What the log behind an exchange says of the request that was sent. -/
def Sent (cfg : ProxySettings) (e : ProxyEntry) (L : List ProxyEntry) : Prop :=
  ∀ w req reply, e.event = .op w (.exchange req) reply → ∃ now now',
    Has (Reads w now) L ∧ Has (Reads w now') L ∧
    req.header = forwardedHeader w.call
      (sessionUser (isLoggedIn cfg.codec w.call cfg.secret now now'))

/-- The invariant. -/
def Inv (cfg : ProxySettings) (_ : ProxyState) (L : List ProxyEntry) : Prop := Each (Sent cfg) L

variable {cfg : ProxySettings} {w : Caller Request} {L : List ProxyEntry}

/-- An operation other than an exchange keeps the invariant. -/
theorem keeps (w : Caller Request) {o : ProxyOp} (ho : ∀ req, o ≠ .exchange req) :
    Keeps (proxy cfg) {} (Inv cfg) w o := by
  intro s L e hI _
  refine ⟨fun w' req reply hop => ?_, hI⟩
  obtain ⟨-, heq, -⟩ := Event.op.inj hop
  exact absurd heq (ho req)

/-- The outline of a program that exchanges nothing. -/
theorem outline_quiet {α : Type} {m : P α} (hm : m.All fun o => ∀ req, o ≠ .exchange req)
    (L : List ProxyEntry) : Outline (proxy cfg) {} (Inv cfg) w (fun _ _ => True) m L :=
  Outline.of_all (Prog.All.imp (fun _ ho => keeps w ho) hm) L

/-- The outline of `handleAPIProxy`: what it sends has the headers of the request and the user of
its session. -/
theorem outline_handleAPIProxy (w : Caller Request) (L : List ProxyEntry) :
    Outline (proxy cfg) {} (Inv cfg) w (fun _ _ => True) (handleAPIProxy cfg w.call) L := by
  unfold handleAPIProxy
  split_ifs
  · trivial
  · trivial
  · refine (keeps w (by simp)).bind fun s1 L1 e1 hL1 _ _ => ?_
    generalize hnow : ((proxy cfg).exec .now e1 s1).1 = now
    refine (keeps w (by simp)).bind fun s2 L2 e2 hL2 _ _ => ?_
    generalize hnow' : ((proxy cfg).exec .now e2 s2).1 = now'
    -- `IsLoggedIn` reads the clock twice, and the user depends on both readings.
    have hreads : Has (Reads w now) ((proxy cfg).entry w .now e2 s2 :: L2) := by
      refine has_cons.2 (.inr (Has.extends (has_cons.2 (.inl ?_)) hL2.extends))
      rw [← hnow]
      rfl
    have hreads' : Has (Reads w now') ((proxy cfg).entry w .now e2 s2 :: L2) := by
      refine has_cons.2 (.inl ?_)
      rw [← hnow']
      rfl
    dsimp only
    refine (outline_quiet (quiet_lookup _ _) _).bind fun cached L3 hL3 _ => ?_
    rcases cached with _ | cached
    · unfold forward
      dsimp only
      rcases hreq : proxyRequest cfg w.call
          (sessionUser (isLoggedIn cfg.codec w.call cfg.secret now now')) with _ | req
      · trivial
      · have hheader := (proxyRequest_eq_some hreq).2
        dsimp only
        refine outline_step.2 fun s4 L4 e4 hL4 hI4 _ => ⟨⟨fun w' req' reply hop => ?_, hI4⟩, ?_⟩
        · obtain ⟨rfl, heq, -⟩ := Event.op.inj hop
          cases heq
          have hext := hL3.trans hL4.extends
          exact ⟨now, now', hreads.extends hext, hreads'.extends hext, hheader⟩
        · rcases ((proxy cfg).exec (.exchange req) e4 s4).1 with _ | _ | ⟨statusCode, header, body⟩
          · trivial
          · trivial
          · exact outline_quiet (quiet_relayReply _ _ _ _ _) _
    · trivial

/-- The proxy is verified. -/
theorem verified (s0 : ProxyState) : Verified (proxy cfg) {} (Inv cfg) s0 where
  init := trivial
  call s L w h _ _ := by
    refine ⟨⟨fun w' req reply hop => ?_, h⟩, ?_⟩
    · cases hop
    · refine (outline_handleAPIProxy w _).imp fun a L1 _ _ => ?_
      intro s' L' _ hI _
      refine ⟨fun w' req reply hop => ?_, hI⟩
      cases hop
  env s L d h _ := by
    refine ⟨fun w' req reply hop => ?_, h⟩
    cases hop
  crash s L h _ := by
    refine ⟨fun w' req reply hop => ?_, h⟩
    cases hop

/-- Every request that the proxy sends to vire-server carries identity headers that the portal
derived, exactly when the client forged none. The session is the one that `IsLoggedIn` validated at
the times that the request read. -/
theorem identity_derived {s0 : ProxyState}
    {c : Config ProxyOp ProxyReply ProxyState ℕ Request ProxyResponse}
    (hc : Reachable (proxy cfg) {} s0 c) {later earlier : List ProxyEntry} {s : ProxyState}
    {req : ProxyRequest} {reply : ExchangeReply}
    (hlog : c.log = later ++ ⟨s, .op w (.exchange req) reply⟩ :: earlier) :
    ∃ now now', Has (Reads w now) earlier ∧ Has (Reads w now') earlier ∧
      (Derived (isLoggedIn cfg.codec w.call cfg.secret now now') req.header ↔
        Unforged (isLoggedIn cfg.codec w.call cfg.secret now now') w.call.header) := by
  have hsent : Each (Sent cfg) c.log := hc.invariant (verified s0)
  rw [hlog] at hsent
  obtain ⟨now, now', hreads, hreads', hheader⟩ := hsent.append.1 w req reply rfl
  refine ⟨now, now', hreads, hreads', ?_⟩
  rw [hheader]
  exact derived_iff w.call _

/-- A proxy with the secret `k`. -/
def sampleSettings : ProxySettings := ⟨"http://v", "k", aliceCodec⟩

/-- An empty cache. -/
def emptyCache : ProxyState := { cache := { ttl := seconds 30, maxEntries := 1000 } }

/-- The session cookie of Alice. -/
def aliceCookie : Cookie := ⟨"vire_session", aliceToken⟩

/-- A request for the portfolios with the given cookies and headers. -/
def portfolios (cookies : List Cookie) (header : Header) : Request :=
  { url := { path := "/api/portfolios" }, cookies := cookies, header := header }

/-- A request that arrives and takes `n` steps, the last of which is its exchange. -/
def upToExchange (r : Request) (n : ℕ) : List (Label ExchangeReply ℕ Request) :=
  .call r :: List.replicate n (.step 0 .unavailable)

set_option maxRecDepth 20000 in
/-- The user of alice's session is derived. -/
theorem identity_derived_session :
    ∃ now now', Has (Reads ⟨0, portfolios [aliceCookie] []⟩ now)
        ((proxy sampleSettings).run (.init emptyCache)
          (upToExchange (portfolios [aliceCookie] []) 4)).log.tail ∧
      Has (Reads ⟨0, portfolios [aliceCookie] []⟩ now')
        ((proxy sampleSettings).run (.init emptyCache)
          (upToExchange (portfolios [aliceCookie] []) 4)).log.tail ∧
      (Derived (isLoggedIn aliceCodec (portfolios [aliceCookie] []) "k" now now')
          [("X-Vire-User-Id", ["alice"])] ↔
        Unforged (isLoggedIn aliceCodec (portfolios [aliceCookie] []) "k" now now') []) := by
  have hlast : ∃ s reply, ((proxy sampleSettings).run (.init emptyCache)
      (upToExchange (portfolios [aliceCookie] []) 4)).log =
      [] ++ ⟨s, .op ⟨0, portfolios [aliceCookie] []⟩ (.exchange ⟨"GET",
        "http://v/api/portfolios", [("X-Vire-User-Id", ["alice"])]⟩) reply⟩ ::
        ((proxy sampleSettings).run (.init emptyCache)
          (upToExchange (portfolios [aliceCookie] []) 4)).log.tail := ⟨_, _, rfl⟩
  obtain ⟨s, reply, hlog⟩ := hlast
  exact identity_derived (Reachable.of_run ..) hlog

/-- A request without a session that names a user and a service. -/
def forged : Request :=
  portfolios [] [("X-Vire-User-Id", ["victim"]), ("X-Vire-Service-Id", ["admin"])]

/-- A client without a session is taken for the user and for the service that it names. -/
theorem identity_forged : ∃ c w s req reply earlier,
    Reachable (proxy sampleSettings) {} emptyCache c ∧
    c.log = ⟨s, .op w (.exchange req) reply⟩ :: earlier ∧
    (∀ now now', isLoggedIn aliceCodec w.call "k" now now' = none) ∧
    req.header.received userHeader = [ascii "victim"] ∧
    req.header.received serviceHeader = [ascii "admin"] := by
  exact ⟨_, ⟨0, forged⟩, _, ⟨"GET", "http://v/api/portfolios", forged.header⟩, _, _,
    Reachable.of_run _ _ (upToExchange forged 3), rfl, fun _ _ => rfl, rfl, rfl⟩

end VirePortal.Server.IdentityHeaders
