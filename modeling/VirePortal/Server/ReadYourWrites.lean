import VirePortal.Server.CacheIsolation

/-!
# Reading after a write

A write invalidates the path that it wrote to, once vire-server has replied. A slow `GET` request
can have exchanged before the write and store its reply after the invalidation. Then the old
response stays in the cache, and a `GET` request that starts after the write is answered with it
(`stale_read`). The same happens when the reply of the write is lost, since nothing is invalidated
then.

`read_your_writes` says that there is no other way. When every `Set` comes before any invalidation
of its key that follows its exchange, and every write of a user gets its reply, then a response from
the cache was exchanged after every write that had returned.
-/

namespace VirePortal.Server.ReadYourWrites

open Go Auth Concurrent IdentityHeaders CacheIsolation

/-- The request is a write of a user. -/
def IsWrite (cfg : ProxySettings) (v : Caller Request) (L : List ProxyEntry) : Prop :=
  v.call.method ≠ "GET" ∧ ∃ u, Session cfg v u L ∧ u ≠ []

/-- The runs in which nothing invalidates a key between the exchange of a request and its `Set`, and
the writes of users get their replies. -/
def prompt (cfg : ProxySettings) :
    Assumption ProxyOp ProxyReply ProxyState ExchangeReply ℕ Request ProxyResponse where
  op w o e _ L := match o with
    | .cacheSet key _ => NoneSince (IsExchange w) (Removes key) L
    | .exchange _ => IsWrite cfg w L → ∃ statusCode header body, e = .reply statusCode header body
    | _ => True

variable {cfg : ProxySettings} {v w : Caller Request} {L : List ProxyEntry}
variable {c : Config ProxyOp ProxyReply ProxyState ℕ Request ProxyResponse} {s0 : ProxyState}

/-- The key of a path without escapes contains the path. -/
theorem contains_makeKey {url : URL} (h : url.Accepted) (hplain : url.escapedPath = url.path)
    (u method : Str) : contains (makeKey u method (requestURI url)) url.path = true := by
  have huri : url.path <+: requestURI url := by
    rw [requestURI_of_accepted h, hplain]
    exact List.prefix_append _ _
  have hsuffix : requestURI url <:+ makeKey u method (requestURI url) := by
    unfold makeKey
    exact (List.suffix_cons 58 _).trans (List.suffix_append _ _)
  exact contains_iff.2 (huri.isInfix.trans hsuffix.isInfix)

/-- Between the exchange of a fill and its `Set` nothing removed its key. -/
theorem not_removes_mid (hc : Reachable (proxy cfg) (prompt cfg) s0 c)
    (honce : ∀ w, AtMostOne (IsExchange w) c.log) {f : Fill} {mid back : List ProxyEntry}
    (hL : L <:+ c.log) (hfilled : FilledBy cfg f L mid back) : ∀ e ∈ mid, ¬ Removes f.key e := by
  obtain ⟨later, s, x, hlog, hreplied, -, -⟩ := hfilled
  obtain ⟨new, hnew⟩ := hL
  have heach := hc.each_op
  have honce' := honce f.caller
  rw [← hnew, hlog] at heach honce'
  obtain ⟨_, hprompt, -⟩ := heach.append.append.1 f.caller (.cacheSet f.key f.resp) () rfl
  refine NoneSince.append hprompt fun e he hx => ?_
  -- The exchange of the fill is the one behind `mid`, and it has no other.
  have htail : AtMostOne (IsExchange f.caller) (mid ++ x :: back) := by
    refine honce'.sublist ?_
    exact ((List.sublist_cons_self _ _).trans (List.sublist_append_right later _)).trans
      (List.sublist_append_right new _)
  have hpair := (List.pairwise_append.1 htail).2.2 e he x (.head _)
  exact hpair ⟨hx, hreplied.isExchange⟩

/-- A write of a user that returned after an exchange had invalidated its path. -/
theorem invalidates_of_done (hs0 : s0.cache.items = ∅)
    (hc : Reachable (proxy cfg) (prompt cfg) s0 c) {later earlier : List ProxyEntry}
    {s : ProxyState} {a : ProxyResponse} (hlog : c.log = later ++ ⟨s, .done v a⟩ :: earlier)
    (hwrite : IsWrite cfg v earlier) (hexchange : Has (IsExchange v) earlier) :
    Has (Invalidates v v.call.url.path) earlier := by
  obtain ⟨hmethod, u, hsession, huser⟩ := hwrite
  have heach := (history hs0 hc).each
  have hops := hc.each_op
  rw [hlog] at heach hops
  rcases heach.append.1 with ⟨text, code, -, hnone⟩ | ⟨statusCode, header, body, hrelayed, -⟩ |
    ⟨u', f, earlier', mid, back, hfound, -⟩
  · -- The exchange had a reply, so the answer is no error.
    obtain ⟨x, hx, req, reply, hev⟩ := hexchange
    obtain ⟨between, rest, rfl⟩ := List.append_of_mem hx
    obtain ⟨e, hprompt, hreply⟩ := hops.append.2.append.1 v (.exchange req) reply hev
    have hsession' : IsWrite cfg v rest := by
      have hjust := heach.append.2.append.1
      rw [Justified, hev] at hjust
      obtain ⟨u', hu'⟩ := hjust
      rw [List.append_cons] at hsession
      obtain rfl := hu'.unique hsession
      exact ⟨hmethod, u', hu', huser⟩
    obtain ⟨statusCode, header, body, rfl⟩ := hprompt hsession'
    refine absurd ⟨x, hx, ?_⟩ (hnone req statusCode header body)
    rw [Replied, hev, hreply]
    rfl
  · exact hrelayed.write u hsession huser hmethod
  · exact absurd hexchange hfound.quiet

/-- What removed the key of a fill came before the fill's exchange, unless it came between the
exchange and the `Set`. -/
theorem mem_back_of_removes {f : Fill} {mid back : List ProxyEntry}
    (hfilled : FilledBy cfg f L mid back) (hmid : ∀ e ∈ mid, ¬ Removes f.key e) {x : ProxyEntry}
    (hx : x ∈ L) (hremoves : Removes f.key x) :
    x ∈ back := by
  obtain ⟨later, s, y, rfl, hreplied, -, hlater⟩ := hfilled
  obtain ⟨v, path, -, hinvalidates⟩ := id hremoves
  have hset : x ≠ ⟨s, .op f.caller (.cacheSet f.key f.resp) ()⟩ := by
    rintro rfl
    cases hinvalidates
  have hy : x ≠ y := by
    rintro rfl
    cases hinvalidates.symm.trans hreplied
  have hnotLater : x ∉ later := fun hmem => hlater x hmem (.inr hremoves)
  have hnotMid : x ∉ mid := fun hmem => hmid x hmem hremoves
  simpa [hset, hy, hnotLater, hnotMid] using hx

/-- A request invalidates after its exchange. -/
theorem exchanged_of_invalidates {path : Str} (heach : Each (Justified cfg) L)
    (h : Has (Invalidates v path) L) : Has (IsExchange v) L := by
  obtain ⟨x, hx, hinvalidates⟩ := h
  obtain ⟨later, earlier, rfl, hjustified⟩ := heach.of_mem hx
  rw [Justified, hinvalidates] at hjustified
  refine hjustified.mono fun e he => ?_
  simp [he]

/-- In a run whose steps are prompt, a `GET` request that arrived after a write to its path returned
is answered from the cache only with a response that was exchanged after the exchange of the
write. -/
theorem read_your_writes (hs0 : s0.cache.items = ∅) (hc : Reachable (proxy cfg) (prompt cfg) s0 c)
    {l1 l2 l3 l4 : List ProxyEntry} {s s' s'' : ProxyState} {a : ProxyResponse} {statusCode : ℕ}
    {header : Header} {body : Str}
    (hlog : c.log = l1 ++ ⟨s, .done w (.relay statusCode header body)⟩ ::
      (l2 ++ ⟨s', .call w⟩ :: (l3 ++ ⟨s'', .done v a⟩ :: l4)))
    (hwrite : IsWrite cfg v l4) (hexchange : Has (IsExchange v) l4)
    (hpath : v.call.url.path = w.call.url.path) (haccepted : w.call.url.Accepted)
    (hplain : w.call.url.escapedPath = w.call.url.path)
    (hcache : ¬ Has (IsExchange w) (l2 ++ ⟨s', .call w⟩ :: (l3 ++ ⟨s'', .done v a⟩ :: l4))) :
    ∃ u f found mid back,
      Found cfg w u f (l2 ++ ⟨s', .call w⟩ :: (l3 ++ ⟨s'', .done v a⟩ :: l4)) found mid back ∧
      .relay statusCode header body = f.answer ∧ Has (IsExchange v) back := by
  have hhistory := history hs0 hc
  have heach := hhistory.each
  rw [hlog] at heach
  rcases heach.append.1 with ⟨text, code, ha, -⟩ | ⟨statusCode', header', body', hrelayed, -⟩ |
    ⟨u, f, found, mid, back, hfound, ha⟩
  · cases ha
  · obtain ⟨req, x, hx, hreplied⟩ := hrelayed.replied
    exact absurd ⟨x, hx, hreplied.isExchange⟩ hcache
  · refine ⟨u, f, found, mid, back, hfound, ha, ?_⟩
    -- The write had invalidated the path when the request arrived.
    have hlog' : c.log = (l1 ++ ⟨s, .done w (.relay statusCode header body)⟩ ::
        (l2 ++ ⟨s', .call w⟩ :: l3)) ++ ⟨s'', .done v a⟩ :: l4 := by
      rw [hlog]
      simp
    obtain ⟨x, hx, hinvalidates⟩ := invalidates_of_done hs0 hc hlog' hwrite hexchange
    rw [hpath] at hinvalidates
    -- It is behind the lookup, so what it removed is not the entry that the lookup found.
    have hbehind : l4 <:+ found := by
      have hfresh : Fresh w.tid (l3 ++ ⟨s'', .done v a⟩ :: l4) := heach.append.2.append.1
      have hlookup := hfound.suffix_of_fresh hfresh
        ((List.suffix_cons ⟨s', .call w⟩ _).trans (List.suffix_append l2 _))
      exact ((List.suffix_cons _ l4).trans (List.suffix_append l3 _)).trans hlookup
    have hremoves : Removes f.key x := by
      refine ⟨v, w.call.url.path, ?_, hinvalidates⟩
      rw [hfound.key]
      exact contains_makeKey haccepted hplain _ _
    have hsuffix : found <:+ c.log := by
      rw [hlog]
      exact hfound.suffix.trans ((List.suffix_cons _ _).trans (List.suffix_append l1 _))
    have hmid := not_removes_mid hc hhistory.once hsuffix hfound.filled
    have hback := mem_back_of_removes hfound.filled hmid (hbehind.subset hx) hremoves
    obtain ⟨y, hexchanged, -, -⟩ := hfound.filled.exchange
    obtain ⟨new, hnew⟩ := ((List.suffix_cons y back).trans hexchanged).trans hsuffix
    have heach' := hhistory.each
    rw [← hnew] at heach'
    exact exchanged_of_invalidates heach'.append ⟨x, hback, hinvalidates⟩

/-- The user `a` changes the resource. -/
def change : Request := { ofA "/api/p" with method := "PUT" }

/-- The program `tid` changes the resource, and returns. -/
def changing (tid : ℕ) : List (Label ExchangeReply ℕ Request) :=
  .call change :: List.replicate 2 (.step tid .unavailable) ++
    .step tid (.reply 200 [] []) :: List.replicate 2 (.step tid .unavailable)

/-- The program `tid` asks for the resource, and gets the body from vire-server. -/
def fetching (tid : ℕ) (body : Str) : List (Label ExchangeReply ℕ Request) :=
  .call (ofA "/api/p") :: List.replicate 3 (.step tid .unavailable) ++
    [.step tid (.reply 200 [] body)]

/-- The program `tid` stores what it got, and returns. -/
def storing (tid : ℕ) : List (Label ExchangeReply ℕ Request) :=
  List.replicate 2 (.step tid .unavailable)

/-- The program `tid` asks for the resource, and gets it from the cache. -/
def hitting (tid : ℕ) : List (Label ExchangeReply ℕ Request) :=
  .call (ofA "/api/p") :: List.replicate 5 (.step tid .unavailable)

/-- A change, a request that fills the cache, and one that finds the entry. -/
def changeThenRead : List (Label ExchangeReply ℕ Request) :=
  changing 0 ++ fetching 1 "new" ++ storing 1 ++ hitting 2

/-- A request that gets the old body before a change and stores it after it, and one that finds the
entry. -/
def readAroundChange : List (Label ExchangeReply ℕ Request) :=
  fetching 0 "old" ++ changing 1 ++ storing 0 ++ hitting 2

/-- The run of a list of labels. -/
def runOf (labels : List (Label ExchangeReply ℕ Request)) :
    Config ProxyOp ProxyReply ProxyState ℕ Request ProxyResponse :=
  (proxy twoUsersSettings).run (.init emptyCache) labels

/-- The run with a change and a read. -/
theorem changeThenRead_prompt :
    Reachable (proxy twoUsersSettings) (prompt twoUsersSettings) emptyCache
      (runOf changeThenRead) := by
  refine Reachable.init.run _ ?_
  repeat' first | exact trivial | apply And.intro
  -- Both exchanges get a reply, and the `Set` follows its exchange at once.
  exacts [fun _ => ⟨_, _, _, rfl⟩, fun _ => ⟨_, _, _, rfl⟩, .inl ⟨_, _, rfl⟩]

/-- The read gets the new reply. -/
theorem read_your_writes_after_change : ∃ u f found mid back,
    Found twoUsersSettings ⟨2, ofA "/api/p"⟩ u f (runOf changeThenRead).log.tail found mid back ∧
    .relay 200 [] "new" = f.answer ∧ Has (IsExchange ⟨0, change⟩) back := by
  -- The last six entries are those of the second request, and the seven before those of the first.
  have hlog : ∃ s s' s'' a, (runOf changeThenRead).log =
      [] ++ ⟨s, .done ⟨2, ofA "/api/p"⟩ (.relay 200 [] "new")⟩ ::
        (((runOf changeThenRead).log.drop 1).take 4 ++ ⟨s', .call ⟨2, ofA "/api/p"⟩⟩ ::
          (((runOf changeThenRead).log.drop 6).take 7 ++ ⟨s'', .done ⟨0, change⟩ a⟩ ::
            (runOf changeThenRead).log.drop 14)) := ⟨_, _, _, _, rfl⟩
  obtain ⟨s, s', s'', a, hlog⟩ := hlog
  have hwrite : IsWrite twoUsersSettings ⟨0, change⟩ ((runOf changeThenRead).log.drop 14) :=
    ⟨by decide, "a", ⟨0, 0, [], rfl, rfl⟩, by decide⟩
  have hexchange : Has (IsExchange ⟨0, change⟩) ((runOf changeThenRead).log.drop 14) :=
    ⟨_, .tail _ (.head _), _, _, rfl⟩
  have htail : (runOf changeThenRead).log.tail =
      ((runOf changeThenRead).log.drop 1).take 4 ++ ⟨s', .call ⟨2, ofA "/api/p"⟩⟩ ::
          (((runOf changeThenRead).log.drop 6).take 7 ++ ⟨s'', .done ⟨0, change⟩ a⟩ ::
            (runOf changeThenRead).log.drop 14) := by
    rw [hlog]
    rfl
  rw [htail]
  refine read_your_writes rfl changeThenRead_prompt hlog hwrite hexchange rfl
    ⟨⟨"/api/p", by decide⟩, by decide⟩ (by decide) ?_
  rw [← htail]
  exact not_has_of_any rfl

/-- Whether an entry changes the cache. -/
def changesCache (e : ProxyEntry) : Bool :=
  match e.event with
  | .op _ (.cacheSet _ _) _ | .op _ (.cacheInvalidate _) _ => true
  | _ => false

/-- No entry changes the cache. -/
theorem not_touches_of_any {key : Str} (h : L.any changesCache = false) :
    ∀ e ∈ L, ¬ Touches key e := by
  intro e he htouches
  refine absurd ?_ (List.any_eq_false.1 h e he)
  rcases htouches with ⟨w, resp, hev⟩ | ⟨w, path, -, hev⟩
  · rw [changesCache, hev]
  · rw [changesCache, hev]

/-- The first request of the run stored what it got before the change. -/
def oldFill : Fill where
  caller := ⟨0, ofA "/api/p"⟩
  userID := "a"
  req := ⟨"GET", "http://v/api/p", [("X-Vire-User-Id", ["a"])]⟩
  statusCode := 200
  header := []
  body := "old"

/-- The old reply fills the cache. -/
theorem oldFill_filled : FilledBy twoUsersSettings oldFill ((runOf readAroundChange).log.drop 3)
    (((runOf readAroundChange).log.drop 8).take 6) ((runOf readAroundChange).log.drop 15) := by
  refine ⟨((runOf readAroundChange).log.drop 3).take 4, _, _, rfl, rfl, ?_, not_touches_of_any rfl⟩
  exact ⟨rfl, by decide, ⟨0, 0, [], rfl, rfl⟩, rfl, by decide, by decide⟩

/-- The old reply is found. -/
theorem oldFill_found : Found twoUsersSettings ⟨2, ofA "/api/p"⟩ "a" oldFill
    (runOf readAroundChange).log.tail ((runOf readAroundChange).log.drop 3)
    (((runOf readAroundChange).log.drop 8).take 6) ((runOf readAroundChange).log.drop 15) where
  get := rfl
  user := by decide
  session := ⟨0, 0, [], rfl, rfl⟩
  key := rfl
  looked := ⟨(runOf readAroundChange).log.tail.take 1, _, _, rfl⟩
  filled := oldFill_filled
  quiet := not_has_of_any rfl

/-- A request that starts after a change has returned is answered with what another request got from
vire-server before the change. -/
theorem stale_read : ∃ s s' s'' l2 l3 l4 u f found mid back,
    Reachable (proxy twoUsersSettings) {} emptyCache (runOf readAroundChange) ∧
    (runOf readAroundChange).log =
      ⟨s, .done ⟨2, ofA "/api/p"⟩ (.relay 200 [] "old")⟩ :: (l2 ++ ⟨s', .call ⟨2, ofA "/api/p"⟩⟩ ::
          (l3 ++ ⟨s'', .done ⟨1, change⟩ (.relay 200 [] [])⟩ :: l4)) ∧
    IsWrite twoUsersSettings ⟨1, change⟩ l4 ∧ Has (IsExchange ⟨1, change⟩) l4 ∧
    Found twoUsersSettings ⟨2, ofA "/api/p"⟩ u f (runOf readAroundChange).log.tail found mid back ∧
    .relay 200 [] "old" = f.answer ∧ ¬ Has (IsExchange ⟨1, change⟩) back := by
  refine ⟨_, _, _, ((runOf readAroundChange).log.drop 1).take 4,
    ((runOf readAroundChange).log.drop 6).take 2, (runOf readAroundChange).log.drop 9, _, oldFill,
      _, _, _,
    Reachable.of_run .., rfl, ?_, ?_, oldFill_found, rfl, not_has_of_any rfl⟩
  · exact ⟨by decide, "a", ⟨0, 0, [], rfl, rfl⟩, by decide⟩
  · exact ⟨_, .tail _ (.head _), _, _, rfl⟩

end VirePortal.Server.ReadYourWrites
