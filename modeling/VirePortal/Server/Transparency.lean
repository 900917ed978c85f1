import VirePortal.Server.CacheIsolation

/-!
# Replies as the client receives them

`handleAPIProxy` reads at most one byte more than `maxCacheableBody` of a reply, to tell whether it
may be cached, and relays what it read. So the status and the header of a reply always reach the
client, and the body does exactly when it is at most that long (`transparency`). A longer one is cut
off (`body_truncated`).

A response from the cache is the one that the request that filled the entry relayed, and only
replies with a status of success to `GET` requests are in the cache.
-/

namespace VirePortal.Server.Transparency

open Go Auth Concurrent IdentityHeaders CacheIsolation

/-- The answer of a request is the reply that it got, as it is. -/
def Intact (a : ProxyResponse) (statusCode : ℕ) (header : Header) (body : Str) : Prop :=
  a = .relay statusCode header body

/-- A response of the cache, with the request that filled the entry: a `GET` request that got a
reply with a status of success, and whose own answer is the same. -/
def FromCache (a : ProxyResponse) (log earlier : List ProxyEntry) : Prop :=
  ∃ f : Fill, Has (Replied f.caller f.req f.statusCode f.header f.body) earlier ∧
    f.caller.call.method = "GET" ∧ (200 ≤ f.statusCode ∧ f.statusCode < 300) ∧
    a = .relay f.statusCode (Header.addAll [] f.header) f.body ∧
    ∀ e ∈ log, ∀ a', e.event = .done f.caller a' → a' = a

variable {cfg : ProxySettings} {w : Caller Request} {a : ProxyResponse} {L log : List ProxyEntry}

/-- A request has one reply. -/
theorem replied_unique (honce : AtMostOne (IsExchange w) L) {req req' : ProxyRequest}
    {statusCode statusCode' : ℕ} {header header' : Header} {body body' : Str}
    (h : Has (Replied w req statusCode header body) L)
    (h' : Has (Replied w req' statusCode' header' body') L) :
    statusCode = statusCode' ∧ header = header' ∧ body = body' := by
  obtain ⟨x, hx, hreplied⟩ := h
  obtain ⟨x', hx', hreplied'⟩ := h'
  obtain rfl := honce.eq hx hx' hreplied.isExchange hreplied'.isExchange
  obtain ⟨-, hop, hreply⟩ := Event.op.inj (hreplied.symm.trans hreplied')
  cases hop
  exact ExchangeReply.reply.inj (eq_of_heq hreply)

/-- The answer to a request that got a reply. -/
theorem answer_of_replied (honce : AtMostOne (IsExchange w) L) (hanswered : Answered cfg w a L)
    {req : ProxyRequest} {statusCode : ℕ} {header : Header} {body : Str}
    (h : Has (Replied w req statusCode header body) L) :
    a = .relay statusCode (Header.addAll [] header) (body.take (maxCacheableBody + 1)) := by
  rcases hanswered with ⟨text, code, -, hnone⟩ | ⟨statusCode', header', body', hrelayed, ha⟩ |
    ⟨u, f, earlier, mid, back, hfound, -⟩
  · exact absurd h (hnone req statusCode header body)
  · obtain ⟨req', hreplied⟩ := hrelayed.replied
    obtain ⟨rfl, rfl, rfl⟩ := replied_unique honce h hreplied
    exact ha
  · obtain ⟨x, hx, hreplied⟩ := h
    exact absurd ⟨x, hx, hreplied.isExchange⟩ hfound.quiet

/-- A body arrives whole exactly when it is short enough. -/
theorem intact_iff {statusCode : ℕ} {header : Header} {body : Str} (hheader : header.Canonical)
    (ha : a = .relay statusCode (Header.addAll [] header) (body.take (maxCacheableBody + 1))) :
    Intact a statusCode header body ↔ body.length ≤ maxCacheableBody + 1 := by
  have hcopy : Header.addAll [] header = header := by
    rw [Header.addAll_canonical [] hheader (by simp)]
    rfl
  unfold Intact
  rw [ha, hcopy]
  constructor
  · intro h
    rw [← List.take_eq_self_iff]
    exact (ProxyResponse.relay.inj h).2.2
  · intro h
    rw [List.take_of_length_le h]

/-- In every run from an empty cache, the answer to a request that got a reply is the reply exactly
when the body is at most one byte longer than `maxCacheableBody`, and any other relayed answer is
that of the request that filled the cache. What is in the cache is the reply to a `GET` request,
with a status of success. -/
theorem transparency {s0 : ProxyState} (hs0 : s0.cache.items = ∅)
    {c : Config ProxyOp ProxyReply ProxyState ℕ Request ProxyResponse}
    (hc : Reachable (proxy cfg) {} s0 c) :
    (∀ later earlier s w a, c.log = later ++ ⟨s, .done w a⟩ :: earlier →
      (∀ req statusCode header body, Has (Replied w req statusCode header body) earlier →
        header.Canonical → (Intact a statusCode header body ↔ body.length ≤ maxCacheableBody + 1)) ∧
      ((∃ statusCode header body, a = .relay statusCode header body) →
        ¬ Has (IsExchange w) earlier →
        FromCache a c.log earlier)) ∧
    ∀ key e, c.state.cache.items.lookup key = some e →
      (200 ≤ e.resp.statusCode ∧ e.resp.statusCode < 300) ∧
      ∃ w req, w.call.method = ascii "GET" ∧
        Has (Replied w req e.resp.statusCode e.resp.headers e.resp.body) c.log := by
  have hhistory := history hs0 hc
  -- The answer of every request that got its reply before it returned.
  have hanswer : ∀ later earlier s w a, c.log = later ++ ⟨s, .done w a⟩ :: earlier →
      ∀ req statusCode header body, Has (Replied w req statusCode header body) earlier →
        a = .relay statusCode (Header.addAll [] header) (body.take (maxCacheableBody + 1)) := by
    intro later earlier s w a hlog req statusCode header body hreplied
    have heach := hhistory.each
    have honce := hhistory.once w
    rw [hlog] at heach honce
    exact answer_of_replied (honce.sublist
      ((List.sublist_cons_self _ earlier).trans (List.sublist_append_right _ _)))
        heach.append.1 hreplied
  refine ⟨fun later earlier s w a hlog => ⟨?_, ?_⟩, ?_⟩
  · intro req statusCode header body hreplied hheader
    exact intact_iff hheader (hanswer later earlier s w a hlog req statusCode header body hreplied)
  · rintro ⟨statusCode, header, body, ha⟩ hnone
    have heach := hhistory.each
    rw [hlog] at heach
    rcases heach.append.1 with ⟨text, code, ha', -⟩ | ⟨_, _, _, hrelayed, -⟩ |
      ⟨u, f, earlier', mid, back, hfound, ha'⟩
    · rw [ha] at ha'
      cases ha'
    · obtain ⟨req, x, hx, hreplied⟩ := hrelayed.replied
      exact absurd ⟨x, hx, hreplied.isExchange⟩ hnone
    · obtain ⟨x, hsuffix, hreplied, hsound⟩ := hfound.filled.exchange
      have hmem : x ∈ earlier := (hsuffix.trans hfound.suffix).subset (.head _)
      refine ⟨f, ⟨x, hmem, hreplied⟩, hsound.get, hsound.ok, ha', ?_⟩
      rintro ⟨s', ev⟩ he a' rfl
      -- The request that filled the entry had its reply when it returned.
      obtain ⟨later', earlier'', hlog'⟩ := List.append_of_mem he
      have hbefore : x ∈ earlier'' := by
        have hx : x ∈ later' ++ ⟨s', .done f.caller a'⟩ :: earlier'' := by
          rw [← hlog', hlog]
          simp [hmem]
        rcases List.mem_append.1 hx with hx | hx
        · exact absurd hreplied.isExchange.thread ((hc.numbered.2 _ _ _ _ _ hlog').2.2 x hx)
        · rcases List.mem_cons.1 hx with rfl | hx
          · cases hreplied
          · exact hx
      have hsame := hanswer _ _ _ _ _ hlog' f.req f.statusCode f.header f.body
        ⟨x, hbefore, hreplied⟩
      have hshort := hsound.short
      rw [hsame, ha', List.take_of_length_le (by omega)]
      rfl
  · intro key e he
    obtain ⟨f, mid, back, hfilled, -, hresp⟩ := hhistory.cached key e he
    obtain ⟨x, hsuffix, hreplied, hsound⟩ := hfilled.exchange
    rw [← hresp]
    exact ⟨hsound.ok, f.caller, f.req, hsound.get, x, hsuffix.subset (.head _),
      hreplied⟩

/-- A request without a session that gets the body as its reply. -/
def fetching (body : Str) : List (Label ExchangeReply ℕ Request) :=
  .call (portfolios [] []) :: List.replicate 2 (.step 0 .unavailable) ++
    [.step 0 (.reply 200 [] body), .step 0 .unavailable]

/-- The run of the request. -/
def fetchingRun (body : Str) : Config ProxyOp ProxyReply ProxyState ℕ Request ProxyResponse :=
  (proxy sampleSettings).run (.init emptyCache) (fetching body)

/-- The request that it sends. -/
def fetched : ProxyRequest := ⟨"GET", "http://v/api/portfolios", []⟩

/-- The header of a reply. -/
def jsonHeader : Header := [("Content-Type", ["application/json"])]

/-- A user sends the same request twice, the second time when the cache has the reply to the
first. -/
def askedTwice : Config ProxyOp ProxyReply ProxyState ℕ Request ProxyResponse :=
  (proxy twoUsersSettings).run (.init emptyCache)
    (.call (ofA "/api/p") :: List.replicate 3 (.step 0 .unavailable) ++
      .step 0 (.reply 200 jsonHeader "ok") :: List.replicate 2 (.step 0 .unavailable) ++
      .call (ofA "/api/p") :: List.replicate 5 (.step 1 .unavailable))

/-- The first answer is the reply of vire-server, and the second one comes from the cache. -/
theorem transparency_askedTwice :
    (∃ later s earlier, askedTwice.log = later ++ ⟨s, .done ⟨0, ofA "/api/p"⟩
        (.relay 200 jsonHeader "ok")⟩ :: earlier ∧
      Intact (.relay 200 jsonHeader "ok") 200 jsonHeader "ok") ∧
    ∃ s earlier, askedTwice.log =
      ⟨s, .done ⟨1, ofA "/api/p"⟩ (.relay 200 jsonHeader "ok")⟩ :: earlier ∧
      FromCache (.relay 200 jsonHeader "ok") askedTwice.log earlier := by
  have hc : Reachable (proxy twoUsersSettings) {} emptyCache askedTwice := Reachable.of_run ..
  have hfirst : ∃ s, askedTwice.log.drop 6 =
      ⟨s, .done ⟨0, ofA "/api/p"⟩ (.relay 200 jsonHeader "ok")⟩ ::
        (askedTwice.log.drop 6).tail := ⟨_, rfl⟩
  have hsecond : ∃ s, askedTwice.log =
      [] ++ ⟨s, .done ⟨1, ofA "/api/p"⟩ (.relay 200 jsonHeader "ok")⟩ ::
        askedTwice.log.tail := ⟨_, rfl⟩
  have hreplied : Has (Replied ⟨0, ofA "/api/p"⟩
      ⟨ascii "GET", ascii "http://v/api/p", [(ascii "X-Vire-User-Id", [ascii "a"])]⟩ 200 jsonHeader
      (ascii "ok")) (askedTwice.log.drop 6).tail := ⟨_, .tail _ (.head _),
        rfl⟩
  have hheader : jsonHeader.Canonical := ⟨List.nodup_singleton _, by decide, by decide⟩
  obtain ⟨s, hfirst⟩ := hfirst
  replace hfirst := (List.take_append_drop 6 askedTwice.log).symm.trans (congrArg _ hfirst)
  obtain ⟨s', hsecond⟩ := hsecond
  refine ⟨⟨_, s, _, hfirst, ?_⟩, s', _, hsecond, ?_⟩
  · exact (((transparency rfl hc).1 _ _ _ _ _ hfirst).1 _ _ _ _ hreplied hheader).2 (by decide)
  · exact ((transparency rfl hc).1 _ _ _ _ _ hsecond).2 ⟨_, _, _, rfl⟩ (not_has_of_any rfl)

/-- The body of a reply that is two bytes longer than `maxCacheableBody` loses its last byte. -/
theorem body_truncated : ∃ s earlier a,
    Reachable (proxy sampleSettings) {} emptyCache
      (fetchingRun (List.replicate (maxCacheableBody + 2) 65)) ∧
    (fetchingRun (List.replicate (maxCacheableBody + 2) 65)).log =
      ⟨s, .done ⟨0, portfolios [] []⟩ a⟩ :: earlier ∧
    Has (Replied ⟨0, portfolios [] []⟩ fetched 200 []
      (List.replicate (maxCacheableBody + 2) 65)) earlier ∧
    a = .relay 200 [] (List.replicate (maxCacheableBody + 1) 65) ∧
    ¬ Intact a 200 [] (List.replicate (maxCacheableBody + 2) 65) := by
  have htake : (List.replicate (maxCacheableBody + 2) (65 : UInt8)).take (maxCacheableBody + 1) =
      List.replicate (maxCacheableBody + 1) 65 := by
    rw [List.take_replicate, Nat.min_eq_left (Nat.le_succ _)]
  refine ⟨_, _, .relay 200 [] ((List.replicate (maxCacheableBody + 2) 65).take
    (maxCacheableBody + 1)),
    Reachable.of_run _ _ _, rfl, ⟨_, .head _, rfl⟩, by rw [htake], ?_⟩
  rw [htake]
  intro h
  have hlength := congrArg List.length (ProxyResponse.relay.inj h).2.2
  rw [List.length_replicate, List.length_replicate] at hlength
  omega

end VirePortal.Server.Transparency
