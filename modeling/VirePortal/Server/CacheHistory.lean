import VirePortal.Server.IdentityHeaders

/-!
# Where cached responses come from

An entry of the response cache was stored by a `GET` request after its exchange with vire-server
(`Fill`). The invariant of this module ties every entry to the log: `FilledBy` says that the fill's
`Set` is the last change of the key, and what came between the exchange of the fill and its `Set` is
a part of the log by itself, since that is where other requests can get ahead of it. The answer of a
request is an error, the reply of its own exchange, or the response of a fill that its lookup found
(`Answered`).

The user of a request is decided by the first two times that it reads from the clock (`Session`), so
a request has one user. `history` collects what holds in every run, from an empty cache.
-/

namespace VirePortal.Server

open Go Auth Concurrent

/-- The times that a request has read from the clock, the first one first. -/
def clockReads (w : Caller Request) : List ProxyEntry → List Time
  | [] => []
  | ⟨_, .op w' .now now⟩ :: L => if w' = w then clockReads w L ++ [now] else clockReads w L
  | _ :: L => clockReads w L

/-- The request is one of the user `u`: the session is validated at the first two times. -/
def Session (cfg : ProxySettings) (w : Caller Request) (u : Str) (L : List ProxyEntry) : Prop :=
  ∃ now now' rest, clockReads w L = now :: now' :: rest ∧ userAt cfg w.call now now' = u

/-- The request exchanges with vire-server. -/
def IsExchange (w : Caller Request) (e : ProxyEntry) : Prop :=
  ∃ req reply, e.event = .op w (.exchange req) reply

/-- Whether an entry is an exchange of the program `tid`. -/
def exchangeOf (tid : ℕ) (e : ProxyEntry) : Bool :=
  match e.event with
  | .op w (.exchange _) _ => w.tid = tid
  | _ => false

/-- The request gets a reply from vire-server. -/
def Replied (w : Caller Request) (req : ProxyRequest) (statusCode : ℕ) (header : Header)
    (body : Str) (e : ProxyEntry) : Prop :=
  e.event = .op w (.exchange req) (.reply statusCode header body)

/-- The request invalidates a path. -/
def Invalidates (w : Caller Request) (path : Str) (e : ProxyEntry) : Prop :=
  e.event = .op w (.cacheInvalidate path) ()

/-- The entry of a key is removed because its key contains the path. -/
def Removes (key : Str) (e : ProxyEntry) : Prop :=
  ∃ w path, contains key path = true ∧ Invalidates w path e

/-- The entry of a key is stored or removed. -/
def Touches (key : Str) (e : ProxyEntry) : Prop :=
  (∃ w resp, e.event = .op w (.cacheSet key resp) ()) ∨ Removes key e

/-- A request that stores the reply to its exchange in the cache. -/
structure Fill where
  caller : Caller Request
  userID : Str
  req : ProxyRequest
  statusCode : ℕ
  header : Header
  body : Str

namespace Fill

/-- The key that it stores under. -/
def key (f : Fill) : Str := makeKey f.userID "GET" (requestURI f.caller.call.url)

/-- The response that it stores. -/
def resp (f : Fill) : CachedResponse := ⟨f.statusCode, f.header, f.body⟩

/-- The answer with this response. -/
def answer (f : Fill) : ProxyResponse := .relay f.statusCode (Header.addAll [] f.header) f.body

/-- What is known of the request at its exchange, which found the log `back`. -/
structure Sound (cfg : ProxySettings) (f : Fill) (back : List ProxyEntry) : Prop where
  get : f.caller.call.method = "GET"
  user : f.userID ≠ []
  session : Session cfg f.caller f.userID back
  made : proxyRequest cfg f.caller.call f.userID = some f.req
  ok : 200 ≤ f.statusCode ∧ f.statusCode < 300
  short : f.body.length ≤ maxCacheableBody

end Fill

/-- The last change of the fill's key was its `Set`. Its exchange found the log `back`, and `mid` is
what came between the exchange and the `Set`. -/
def FilledBy (cfg : ProxySettings) (f : Fill) (L mid back : List ProxyEntry) : Prop :=
  ∃ later s x, L = later ++ ⟨s, .op f.caller (.cacheSet f.key f.resp) ()⟩ :: (mid ++ x :: back) ∧
    Replied f.caller f.req f.statusCode f.header f.body x ∧ f.Sound cfg back ∧
    ∀ e ∈ later, ¬ Touches f.key e

/-- The request of user `u` found the entry of the fill in the cache, at the log `earlier`, and
exchanged nothing. -/
structure Found (cfg : ProxySettings) (w : Caller Request) (u : Str) (f : Fill)
    (L earlier mid back : List ProxyEntry) : Prop where
  get : w.call.method = "GET"
  user : u ≠ []
  session : Session cfg w u earlier
  key : f.key = makeKey u "GET" (requestURI w.call.url)
  looked : ∃ later s e, L = later ++ ⟨s, .op w (.cacheLookup f.key) (some e)⟩ :: earlier
  filled : FilledBy cfg f earlier mid back
  quiet : ¬ Has (IsExchange w) L

/-- The request got its reply, and invalidated its path if it is a write. -/
structure Relayed (cfg : ProxySettings) (w : Caller Request) (statusCode : ℕ) (header : Header)
    (body : Str) (L : List ProxyEntry) : Prop where
  session : ∃ u, Session cfg w u L
  replied : ∃ req, Has (Replied w req statusCode header body) L
  write : ∀ u, Session cfg w u L → u ≠ [] → w.call.method ≠ "GET" →
    Has (Invalidates w w.call.url.path) L

/-- What the log behind the answer of a request says of it. -/
def Answered (cfg : ProxySettings) (w : Caller Request) (a : ProxyResponse)
    (L : List ProxyEntry) : Prop :=
  (∃ text code, a = .error text code ∧
    ∀ req statusCode header body, ¬ Has (Replied w req statusCode header body) L) ∨
  (∃ statusCode header body, Relayed cfg w statusCode header body L ∧
    a = .relay statusCode (Header.addAll [] header) (body.take (maxCacheableBody + 1))) ∨
  ∃ u f earlier mid back, Found cfg w u f L earlier mid back ∧ a = f.answer

/-- What the log behind an entry says of it. -/
def Justified (cfg : ProxySettings) (e : ProxyEntry) (L : List ProxyEntry) : Prop :=
  match e.event with
  | .call w => Fresh w.tid L
  | .op w (.exchange _) _ => ∃ u, Session cfg w u L
  | .op w (.cacheInvalidate _) _ => Has (IsExchange w) L
  | .done w a => Answered cfg w a L
  | _ => True

/-- The invariant. -/
structure History (cfg : ProxySettings) (s : ProxyState) (L : List ProxyEntry) : Prop where
  cached : ∀ key e, s.cache.items.lookup key = some e →
    ∃ f mid back, FilledBy cfg f L mid back ∧ f.key = key ∧ f.resp = e.resp
  once : ∀ w, AtMostOne (IsExchange w) L
  each : Each (Justified cfg) L

variable {cfg : ProxySettings} {w : Caller Request} {u : Str} {s : ProxyState}
variable {L L' new : List ProxyEntry}

/-! ### The user of a request -/

variable {e : ProxyEntry} {f : Fill} {mid back earlier : List ProxyEntry} {o : ProxyOp}

/-- The clock readings of a request are its own entries. -/
theorem clockReads_cons (he : e.event.thread ≠ some w.tid) :
    clockReads w (e :: L) = clockReads w L := by
  rcases e with ⟨s, w' | ⟨w', o, r⟩ | ⟨w', a⟩ | x | _⟩
  case op =>
    cases o with
    | now =>
      have hne : w' ≠ w := by
        rintro rfl
        exact he rfl
      exact if_neg hne
    | _ => rfl
  all_goals rfl

/-- The entries of others read no clock for it. -/
theorem clockReads_append (h : ∀ e ∈ new, e.event.thread ≠ some w.tid) :
    clockReads w (new ++ L) = clockReads w L := by
  induction new with
  | nil => rfl
  | cons e new ih =>
    rw [List.cons_append, clockReads_cons (h e (by simp)), ih fun e he => h e (by simp [he])]

/-- No clock is read while the request waits. -/
theorem clockReads_others (h : Others w.tid L L') : clockReads w L' = clockReads w L := by
  obtain ⟨new, rfl, hnew⟩ := h
  exact clockReads_append fun e he => (hnew e he).2

/-- A new request has read no clock. -/
theorem clockReads_fresh (h : Fresh w.tid L) : clockReads w L = [] := by
  have happend := clockReads_append (w := w) (L := []) h
  rwa [List.append_nil] at happend

/-- A further entry adds at most a reading at the end. -/
theorem clockReads_prefix (new L : List ProxyEntry) :
    clockReads w L <+: clockReads w (new ++ L) := by
  induction new with
  | nil => exact List.prefix_rfl
  | cons e new ih =>
    -- The new entry is at the front of the log, and what it reads at the end of the readings.
    refine ih.trans ?_
    rcases e with ⟨s, w' | ⟨w', o, r⟩ | ⟨w', a⟩ | x | _⟩
    case op =>
      cases o with
      | now =>
        show _ <+: if w' = w then clockReads w (new ++ L) ++ [r] else clockReads w (new ++ L)
        split_ifs
        · exact List.prefix_append _ _
        · exact List.prefix_rfl
      | _ => exact List.prefix_rfl
    all_goals exact List.prefix_rfl

/-- A session is that of every longer log. -/
theorem Session.append (h : Session cfg w u L) (new : List ProxyEntry) :
    Session cfg w u (new ++ L) := by
  obtain ⟨now, now', rest, hreads, huser⟩ := h
  obtain ⟨more, hmore⟩ := clockReads_prefix (w := w) new L
  refine ⟨now, now', rest ++ more, ?_, huser⟩
  rw [← hmore, hreads]
  rfl

/-- A session is that of every later log. -/
theorem Session.extends (h : Session cfg w u L) (hL : Extends L L') : Session cfg w u L' := by
  obtain ⟨new, rfl, -⟩ := hL
  exact h.append new

/-- A session is that of every longer log. -/
theorem Session.of_suffix (h : Session cfg w u L) (hL : L <:+ L') : Session cfg w u L' := by
  obtain ⟨new, rfl⟩ := hL
  exact h.append new

/-- A request has one user. -/
theorem Session.unique {u' : Str} (h : Session cfg w u L) (h' : Session cfg w u' (new ++ L)) :
    u = u' := by
  obtain ⟨now1, now1', rest1, hreads1, rfl⟩ := h.append new
  obtain ⟨now2, now2', rest2, hreads2, rfl⟩ := h'
  obtain ⟨rfl, htail⟩ := List.cons.inj (hreads1.symm.trans hreads2)
  obtain ⟨rfl, -⟩ := List.cons.inj htail
  rfl

/-! ### What others leave alone -/

/-- An exchange is an entry of the request. -/
theorem IsExchange.thread (h : IsExchange w e) : e.event.thread = some w.tid := by
  obtain ⟨req, reply, he⟩ := h
  rw [he]
  rfl

/-- An exchange is found by the check. -/
theorem IsExchange.exchangeOf (h : IsExchange w e) : exchangeOf w.tid e = true := by
  obtain ⟨req, reply, he⟩ := h
  unfold Server.exchangeOf
  rw [he]
  exact decide_eq_true rfl

/-- A request without an exchange in the log, by evaluation. -/
theorem not_has_of_any (h : L.any (exchangeOf w.tid) = false) : ¬ Has (IsExchange w) L := by
  rintro ⟨e, he, hx⟩
  exact absurd hx.exchangeOf (List.any_eq_false.1 h e he)

/-- A reply is that of an exchange. -/
theorem Replied.isExchange {req : ProxyRequest} {statusCode : ℕ} {header : Header} {body : Str}
    (h : Replied w req statusCode header body e) : IsExchange w e := ⟨_, _, h⟩

/-- A fill stays when the key is not touched. -/
theorem FilledBy.cons (h : FilledBy cfg f L mid back) (he : ¬ Touches f.key e) :
    FilledBy cfg f (e :: L) mid back := by
  obtain ⟨later, s, x, rfl, hx, hsound, hlater⟩ := h
  refine ⟨e :: later, s, x, rfl, hx, hsound, fun e' he' => ?_⟩
  rcases List.mem_cons.1 he' with rfl | he'
  · exact he
  · exact hlater e' he'

/-- The exchange of the fill is in the log. -/
theorem FilledBy.exchange (h : FilledBy cfg f L mid back) :
    ∃ x, x :: back <:+ L ∧ Replied f.caller f.req f.statusCode f.header f.body x ∧
      f.Sound cfg back := by
  obtain ⟨later, s, x, rfl, hx, hsound, -⟩ := h
  refine ⟨x, ?_, hx, hsound⟩
  have htail : x :: back <:+ mid ++ x :: back := List.suffix_append _ _
  exact (htail.trans (List.suffix_cons _ _)).trans (List.suffix_append _ _)

/-- What the lookup found lies behind it. -/
theorem Found.suffix (h : Found cfg w u f L earlier mid back) : earlier <:+ L := by
  obtain ⟨later, s, e, rfl⟩ := h.looked
  exact (List.suffix_cons _ earlier).trans (List.suffix_append _ _)

/-- The lookup comes after everything that happened before the request arrived. -/
theorem Found.suffix_of_fresh (h : Found cfg w u f L earlier mid back) (hfresh : Fresh w.tid L')
    (hL : L' <:+ L) :
    L' <:+ earlier := by
  obtain ⟨later, s, e, rfl⟩ := h.looked
  have hown : (⟨s, .op w (.cacheLookup f.key) (some e)⟩ : ProxyEntry) ∉ L' :=
    fun hmem => hfresh _ hmem rfl
  rcases List.suffix_or_suffix_of_suffix hL (List.suffix_append later _) with hsuffix | hsuffix
  · rcases List.suffix_cons_iff.1 hsuffix with rfl | hsuffix
    · exact absurd (.head _) hown
    · exact hsuffix
  · exact absurd (hsuffix.subset (.head _)) hown

/-- What was found stays while the request waits. -/
theorem Found.others (h : Found cfg w u f L earlier mid back) (hL : Others w.tid L L') :
    Found cfg w u f L' earlier mid back := by
  obtain ⟨later, s, e, hlooked⟩ := h.looked
  have hquiet := (hL.has_iff fun e => IsExchange.thread).not.2 h.quiet
  obtain ⟨new, rfl, -⟩ := hL
  refine { h with quiet := hquiet, looked := ⟨new ++ later, s, e, ?_⟩ }
  rw [hlooked, List.append_assoc]

/-- What was relayed stays while the request waits. -/
theorem Relayed.others {statusCode : ℕ} {header : Header} {body : Str}
    (h : Relayed cfg w statusCode header body L) (hL : Others w.tid L L') :
    Relayed cfg w statusCode header body L' := by
  obtain ⟨u, hu⟩ := h.session
  obtain ⟨req, hreplied⟩ := h.replied
  refine ⟨⟨u, hu.extends hL.extends⟩, ⟨req, hreplied.extends hL.extends⟩,
    fun u' hu' hne hmethod => ?_⟩
  obtain ⟨new, rfl, hnew⟩ := hL
  obtain rfl := hu.unique hu'
  exact (h.write u hu hne hmethod).mono (List.subset_append_right new L)

/-- An answer stays while the request waits. -/
theorem Answered.others {a : ProxyResponse} (h : Answered cfg w a L) (hL : Others w.tid L L') :
    Answered cfg w a L' := by
  rcases h with ⟨text, code, ha, hnone⟩ | ⟨statusCode, header, body, hrelayed, ha⟩ |
    ⟨u, f, earlier, mid, back, hfound, ha⟩
  · refine .inl ⟨text, code, ha, fun req statusCode header body hhas => ?_⟩
    exact hnone req statusCode header body
      ((hL.has_iff fun e he => (Replied.isExchange he).thread).1 hhas)
  · exact .inr (.inl ⟨statusCode, header, body, hrelayed.others hL, ha⟩)
  · exact .inr (.inr ⟨u, f, earlier, mid, back, hfound.others hL, ha⟩)

/-! ### Operations -/

/-- An entry that leaves the cache as it is, and is justified. -/
theorem History.quiet {s' : ProxyState} (h : History cfg s L)
    (hcache : ∀ key x, s'.cache.items.lookup key = some x → s.cache.items.lookup key = some x ∧
      ¬ Touches key e)
    (honce : ∀ w, IsExchange w e → ¬ Has (IsExchange w) L) (heach : Justified cfg e L) :
    History cfg s' (e :: L) := by
  refine ⟨fun key x hx => ?_, fun w => atMostOne_cons.2 ⟨honce w, h.once w⟩, heach, h.each⟩
  obtain ⟨hlookup, htouch⟩ := hcache key x hx
  obtain ⟨f, mid, back, hfilled, rfl, hresp⟩ := h.cached key x hlookup
  exact ⟨f, mid, back, hfilled.cons htouch, rfl, hresp⟩

/-- An event that is no operation. -/
theorem History.idle {ev : Event ProxyOp ProxyReply ℕ Request ProxyResponse} {s' : ProxyState}
    (h : History cfg s L) (hev : ∀ w o r, ev ≠ .op w o r)
    (hcache : ∀ key x, s'.cache.items.lookup key = some x → s.cache.items.lookup key = some x)
    (heach : Justified cfg ⟨s, ev⟩ L) : History cfg s' (⟨s, ev⟩ :: L) := by
  refine h.quiet (fun key x hx => ⟨hcache key x hx, ?_⟩) ?_ heach
  · rintro (⟨w', resp, he⟩ | ⟨w', path, -, he⟩)
    · exact hev _ _ _ he
    · exact hev _ _ _ he
  · rintro w' ⟨req, reply, he⟩
    exact absurd he (hev _ _ _)

/-- The operations that neither exchange nor change what a key holds. -/
def ReadsOnly : ProxyOp → Prop
  | .now | .cacheLookup _ | .cacheExpire _ => True
  | _ => False

/-- A read touches no key. -/
theorem not_touches_of_readsOnly (ho : ReadsOnly o) {key : Str} {r : ProxyReply o} :
    ¬ Touches key ⟨s, .op w o r⟩ := by
  rintro (⟨w', resp, he⟩ | ⟨w', path, -, he⟩)
  · obtain ⟨-, rfl, -⟩ := Event.op.inj he
    exact ho
  · obtain ⟨-, rfl, -⟩ := Event.op.inj he
    exact ho

/-- A read keeps the history. -/
theorem keeps_readsOnly (ho : ReadsOnly o) (w : Caller Request) :
    Keeps (proxy cfg) {} (History cfg) w o := by
  intro s L e h _
  refine h.quiet (fun key x hx => ⟨?_, not_touches_of_readsOnly ho⟩) ?_ ?_
  · -- Removing an expired entry adds none.
    cases o with
    | now => exact hx
    | cacheLookup k => exact hx
    | cacheExpire k => exact ResponseCache.lookup_removeExpired hx
    | _ => exact ho.elim
  · rintro w' ⟨req, reply, he⟩
    obtain ⟨-, rfl, -⟩ := Event.op.inj he
    exact ho.elim
  · cases o with
    | exchange req => exact ho.elim
    | cacheInvalidate p => exact ho.elim
    | _ => trivial

/-- What a request knows before its exchange. -/
structure Unsent (cfg : ProxySettings) (w : Caller Request) (u : Str)
    (L : List ProxyEntry) : Prop where
  session : Session cfg w u L
  unsent : ¬ Has (IsExchange w) L

/-- Other operations send nothing. -/
theorem not_has_isExchange (ho : ∀ req, o ≠ .exchange req) {r : ProxyReply o}
    (h : ¬ Has (IsExchange w) L) (hL : Others w.tid L L') :
    ¬ Has (IsExchange w) (⟨s, .op w o r⟩ :: L') := by
  rw [has_cons, not_or]
  refine ⟨?_, (hL.has_iff fun _ => IsExchange.thread).not.2 h⟩
  rintro ⟨req, reply, he⟩
  exact ho req (Event.op.inj he).2.1

/-- A request that sent nothing does something else. -/
theorem Unsent.entry (h : Unsent cfg w u L) (hL : Others w.tid L L') (ho : ∀ req, o ≠ .exchange req)
    (e : ExchangeReply) (s : ProxyState) :
    Unsent cfg w u ((proxy cfg).entry w o e s :: L') :=
  ⟨h.session.extends ((proxy cfg).entry_extends hL o e s), not_has_isExchange ho h.unsent hL⟩

/-- A request that found an entry does something else. -/
theorem Found.entry (h : Found cfg w u f L earlier mid back) (hL : Others w.tid L L')
    (ho : ∀ req, o ≠ .exchange req) (e : ExchangeReply) (s : ProxyState) :
    Found cfg w u f ((proxy cfg).entry w o e s :: L') earlier mid back := by
  have hothers := h.others hL
  obtain ⟨later, s', x, hlooked⟩ := hothers.looked
  refine { hothers with looked := ⟨_ :: later, s', x, by rw [hlooked]; rfl⟩, quiet := ?_ }
  exact not_has_isExchange ho h.quiet hL

/-- The request has sent nothing yet. -/
theorem Found.toUnsent (h : Found cfg w u f L earlier mid back) : Unsent cfg w u L :=
  ⟨h.session.of_suffix h.suffix, h.quiet⟩

/-- What the lookup of a request returns: nothing, or the response of a fill. -/
def LookedUp (cfg : ProxySettings) (w : Caller Request) (u : Str) (cached : Option CachedResponse)
    (L : List ProxyEntry) : Prop :=
  match cached with
  | none => Unsent cfg w u L
  | some resp => ∃ f earlier mid back, Found cfg w u f L earlier mid back ∧ resp = f.resp

/-- The outline of the lookup. -/
theorem outline_lookup (w : Caller Request) (hL : Unsent cfg w u L) :
    Outline (proxy cfg) {} (History cfg) w (LookedUp cfg w u) (lookup w.call u) L := by
  unfold lookup
  split_ifs with hget
  · obtain ⟨hget, huser⟩ := hget
    unfold cacheGet
    refine (keeps_readsOnly (o := .cacheLookup _) trivial w).bind fun s1 L1 e1 hL1 h1 _ => ?_
    have hL1' := hL.entry hL1 (o := .cacheLookup (makeKey u w.call.method (requestURI w.call.url)))
      (by simp) e1 s1
    rcases hx : ((proxy cfg).exec (.cacheLookup (makeKey u w.call.method (requestURI w.call.url)))
        e1 s1).1 with _ | x
    · exact hL1'
    · obtain ⟨f, mid, back, hfilled, hkey, hresp⟩ := h1.cached _ x hx
      rw [hget] at hkey
      -- The entry is in the cache at the lookup, whatever happens to it later.
      have hfound : Found cfg w u f ((proxy cfg).entry w
          (.cacheLookup (makeKey u w.call.method (requestURI w.call.url))) e1 s1 ::
            L1) L1 mid back := by
        refine ⟨hget, huser, hL.session.extends hL1.extends, hkey, ⟨[], s1, x, ?_⟩, hfilled,
          hL1'.unsent⟩
        show (⟨s1, .op w _ _⟩ : ProxyEntry) :: L1 = _
        rw [hx, hget, hkey]
        rfl
      refine (keeps_readsOnly (o := .now) trivial w).bind fun s2 L2 e2 hL2 _ _ => ?_
      have hfound2 := hfound.entry hL2 (o := .now) (by simp) e2 s2
      split_ifs
      · -- An expired entry is removed and not used.
        refine (keeps_readsOnly (o := .cacheExpire _) trivial w).bind fun s3 L3 e3 hL3 _ _ => ?_
        exact (hfound2.entry hL3 (o := .cacheExpire _) (by simp) e3 s3).toUnsent
      · exact ⟨f, L1, mid, back, hfound2, hresp.symm⟩
  · exact hL

/-! ### After the reply -/

/-- The request got its reply. -/
structure Got (cfg : ProxySettings) (w : Caller Request) (u : Str) (req : ProxyRequest)
    (statusCode : ℕ) (header : Header) (body : Str) (L : List ProxyEntry) : Prop where
  made : proxyRequest cfg w.call u = some req
  replied : ∃ mid x back, L = mid ++ x :: back ∧ Replied w req statusCode header body x ∧
    Session cfg w u back

variable {req : ProxyRequest} {statusCode : ℕ} {header : Header} {body : Str}

section

variable (h : Got cfg w u req statusCode header body L)
include h

/-- A reply stays in the log. -/
theorem Got.extends (hL : Extends L L') :
    Got cfg w u req statusCode header body L' := by
  obtain ⟨mid, x, back, rfl, hx, hsession⟩ := h.replied
  obtain ⟨new, rfl, -⟩ := hL
  exact ⟨h.made, new ++ mid, x, back, by simp, hx, hsession⟩

/-- The reply is in the log. -/
theorem Got.has_replied :
    Has (Replied w req statusCode header body) L := by
  obtain ⟨mid, x, back, rfl, hx, -⟩ := h.replied
  exact ⟨x, by simp, hx⟩

/-- The request has its session. -/
theorem Got.session : Session cfg w u L := by
  obtain ⟨mid, x, back, rfl, -, hsession⟩ := h.replied
  rw [List.append_cons]
  exact hsession.append _

/-- The reply is relayed. -/
theorem Got.relayed
    (hwrite : w.call.method ≠ "GET" ∧ u ≠ [] → Has (Invalidates w w.call.url.path) L) :
    Relayed cfg w statusCode header body L := by
  refine ⟨⟨u, h.session⟩, ⟨req, h.has_replied⟩, fun u' hu' hne hmethod => ?_⟩
  obtain rfl := h.session.unique (show Session cfg w u' ([] ++ L) from hu')
  exact hwrite ⟨hmethod, hne⟩

end

/-- What `cacheable` says of a reply. -/
theorem cacheable_iff {r : Request} :
    cacheable r u statusCode (body.take (maxCacheableBody + 1)) = true ↔
    r.method = "GET" ∧ u ≠ [] ∧ (200 ≤ statusCode ∧ statusCode < 300) ∧
      body.length ≤ maxCacheableBody := by
  have hlength : (body.take (maxCacheableBody + 1)).length ≤ maxCacheableBody ↔
      body.length ≤ maxCacheableBody := by
    rw [List.length_take]
    omega
  simp only [cacheable, Bool.and_eq_true, decide_eq_true_eq, hlength]
  tauto

/-- `Set` of a request that got its reply. -/
theorem History.set (h : History cfg s L) (hgot : Got cfg w u req statusCode header body L)
    (hcache : cacheable w.call u statusCode (body.take (maxCacheableBody + 1)) = true)
    (e : ExchangeReply) :
    History cfg ((proxy cfg).exec (.cacheSet (makeKey u w.call.method (requestURI w.call.url))
        ⟨statusCode, header, body.take (maxCacheableBody + 1)⟩) e s).2
      ((proxy cfg).entry w (.cacheSet (makeKey u w.call.method (requestURI w.call.url))
        ⟨statusCode, header, body.take (maxCacheableBody + 1)⟩) e s :: L) := by
  obtain ⟨hget, huser, hok, hshort⟩ := cacheable_iff.1 hcache
  rw [hget, List.take_of_length_le (by omega)]
  refine ⟨fun key x hx => ?_, fun w' => atMostOne_cons.2 ⟨?_, h.once w'⟩, trivial, h.each⟩
  · -- The new entry is filled by the request itself. The others keep the fill that they had.
    rcases ResponseCache.lookup_set hx with ⟨rfl, rfl⟩ | ⟨hne, hx⟩
    · obtain ⟨mid, x, back, rfl, hreplied, hsession⟩ := hgot.replied
      refine ⟨⟨w, u, req, statusCode, header, body⟩, mid, back, ?_, rfl, rfl⟩
      refine ⟨[], s, x, rfl, hreplied, ?_, by simp⟩
      exact ⟨hget, huser, hsession, hgot.made, hok, hshort⟩
    · obtain ⟨f, mid, back, hfilled, rfl, hresp⟩ := h.cached key x hx
      refine ⟨f, mid, back, hfilled.cons ?_, rfl, hresp⟩
      rintro (⟨w', resp, he⟩ | ⟨w', path, -, he⟩)
      · obtain ⟨-, hop, -⟩ := Event.op.inj he
        exact hne (ProxyOp.cacheSet.inj hop).1.symm
      · cases he
  · rintro ⟨req, reply, he⟩
    cases he

/-- `InvalidatePrefix` of a request that got its reply. -/
theorem History.invalidate (h : History cfg s L) (hgot : Got cfg w u req statusCode header body L)
    (path : Str) (e : ExchangeReply) :
    History cfg ((proxy cfg).exec (.cacheInvalidate path) e s).2
      ((proxy cfg).entry w (.cacheInvalidate path) e s :: L) := by
  refine h.quiet (fun key x hx => ?_) ?_ ?_
  · -- A key that stays does not contain the path, so the entry does not touch it.
    obtain ⟨hlookup, hnot⟩ := ResponseCache.lookup_invalidatePrefix.1 hx
    refine ⟨hlookup, ?_⟩
    rintro (⟨w', resp, he⟩ | ⟨w', path', hcontains, he⟩)
    · cases he
    · obtain ⟨-, hop, -⟩ := Event.op.inj he
      cases hop
      rw [hnot] at hcontains
      cases hcontains
  · rintro w' ⟨req, reply, he⟩
    cases he
  · obtain ⟨x, hx, hreplied⟩ := hgot.has_replied
    exact ⟨x, hx, hreplied.isExchange⟩

section

variable {Q : ProxyResponse → List ProxyEntry → Prop} {m : P ProxyResponse}

/-- The outline of `Set` after the reply. -/
theorem outline_set (hgot : Got cfg w u req statusCode header body L)
    (hcache : cacheable w.call u statusCode (body.take (maxCacheableBody + 1)) = true)
    (hm : ∀ L', Got cfg w u req statusCode header body L' →
      Outline (proxy cfg) {} (History cfg) w Q m L') :
    Outline (proxy cfg) {} (History cfg) w Q
      (step (.cacheSet (makeKey u w.call.method (requestURI w.call.url))
        ⟨statusCode, header, body.take (maxCacheableBody + 1)⟩) >>= fun _ => m) L := by
  refine outline_step.2 fun s1 L1 e1 hL1 h1 _ => ⟨h1.set (hgot.extends hL1.extends) hcache e1, ?_⟩
  exact hm _ (hgot.extends ((proxy cfg).entry_extends hL1 _ e1 s1))

/-- The outline of the invalidation after the reply. -/
theorem outline_invalidate (hgot : Got cfg w u req statusCode header body L) (path : Str)
    (hm : ∀ L', Got cfg w u req statusCode header body L' → Has (Invalidates w path) L' →
      Outline (proxy cfg) {} (History cfg) w Q m L') :
    Outline (proxy cfg) {} (History cfg) w Q (step (.cacheInvalidate path) >>= fun _ => m) L := by
  refine outline_step.2 fun s1 L1 e1 hL1 h1 _ =>
    ⟨h1.invalidate (hgot.extends hL1.extends) path e1, ?_⟩
  exact hm _ (hgot.extends ((proxy cfg).entry_extends hL1 _ e1 s1)) (has_cons.2 (.inl rfl))

end

/-- The outline of what follows the reply. -/
theorem outline_relayReply (hgot : Got cfg w u req statusCode header body L) :
    Outline (proxy cfg) {} (History cfg) w (Answered cfg w)
      (relayReply w.call u statusCode header body) L := by
  have hanswer : ∀ L', Got cfg w u req statusCode header body L' →
      (w.call.method ≠ "GET" ∧ u ≠ [] → Has (Invalidates w w.call.url.path) L') →
      Answered cfg w (.relay statusCode (Header.addAll [] header)
        (body.take (maxCacheableBody + 1)))
        L' :=
    fun L' hgot hwrite => .inr (.inl ⟨statusCode, header, body, hgot.relayed hwrite, rfl⟩)
  unfold relayReply
  dsimp only
  -- Only replies to a `GET` are stored, so a request that stores does not write.
  split_ifs with hcache hforce hwrite hwrite hforce hwrite hwrite
  · exact absurd (cacheable_iff.1 hcache).1 hwrite.1
  · refine outline_set hgot hcache fun L1 h1 => ?_
    refine outline_invalidate h1 _ fun L2 h2 _ => ?_
    exact hanswer L2 h2 fun h => absurd h hwrite
  · exact absurd (cacheable_iff.1 hcache).1 hwrite.1
  · refine outline_set hgot hcache fun L1 h1 => ?_
    exact hanswer L1 h1 fun h => absurd h hwrite
  · refine outline_invalidate hgot _ fun L1 h1 _ => ?_
    exact outline_invalidate h1 _ fun L2 h2 hinv => hanswer L2 h2 fun _ => hinv
  · exact outline_invalidate hgot _ fun L1 h1 hinv => hanswer L1 h1 fun _ => hinv
  · exact outline_invalidate hgot _ fun L1 h1 hinv => hanswer L1 h1 fun _ => hinv
  · exact hanswer L hgot fun h => absurd h hwrite

/-- The outline of what follows the lookup. -/
theorem outline_forward (hL : Unsent cfg w u L) :
    Outline (proxy cfg) {} (History cfg) w (Answered cfg w) (forward cfg w.call u) L := by
  have herror : ∀ (L' : List ProxyEntry) (text : Str) (code : ℕ),
      (∀ req statusCode header body, ¬ Has (Replied w req statusCode header body) L') →
      Answered cfg w (.error text code) L' :=
    fun L' text code hnone => .inl ⟨text, code, rfl, hnone⟩
  have hunsent : ∀ {L' : List ProxyEntry}, ¬ Has (IsExchange w) L' →
      ∀ req statusCode header body, ¬ Has (Replied w req statusCode header body) L' := by
    rintro L' hnone req statusCode header body ⟨x, hx, hreplied⟩
    exact hnone ⟨x, hx, hreplied.isExchange⟩
  unfold forward
  rcases hreq : proxyRequest cfg w.call u with _ | req
  · exact herror L _ _ (hunsent hL.unsent)
  · dsimp only
    refine outline_step.2 fun s1 L1 e1 hL1 h1 _ => ?_
    have hnone := (hL1.has_iff fun _ => IsExchange.thread).not.2 hL.unsent
    refine ⟨?_, ?_⟩
    · -- The exchange is the only one of the request, and leaves the cache alone.
      refine h1.quiet (fun key x hx => ⟨hx, ?_⟩) ?_ ⟨u, hL.session.extends hL1.extends⟩
      · rintro (⟨w', resp, he⟩ | ⟨w', path, -, he⟩)
        all_goals cases he
      · rintro w' ⟨req', reply, he⟩
        obtain ⟨rfl, -⟩ := Event.op.inj he
        exact hnone
    · -- The reply is what the environment gives.
      have hreply : ∀ statusCode header body, e1 ≠ .reply statusCode header body →
          ∀ req', ¬ Has (Replied w req' statusCode header body)
            ((proxy cfg).entry w (.exchange req) e1 s1 :: L1) := by
        intro statusCode header body hne req' hhas
        rcases has_cons.1 hhas with he | hhas
        · obtain ⟨-, -, hr⟩ := Event.op.inj he
          exact hne (eq_of_heq hr)
        · exact hunsent hnone req' statusCode header body hhas
      rcases e1 with _ | _ | ⟨statusCode, header, body⟩
      · exact herror _ _ _ fun req' statusCode header body => hreply _ _ _ (by simp) req'
      · exact herror _ _ _ fun req' statusCode header body => hreply _ _ _ (by simp) req'
      · refine outline_relayReply ⟨hreq, [], _, L1, rfl, rfl, ?_⟩
        exact hL.session.extends hL1.extends

/-- The outline of `handleAPIProxy`. -/
theorem outline_handleAPIProxy (w : Caller Request) (hreads : clockReads w L = [])
    (hunsent : ¬ Has (IsExchange w) L) :
    Outline (proxy cfg) {} (History cfg) w (Answered cfg w) (handleAPIProxy cfg w.call) L := by
  have herror : ∀ text code, Answered cfg w (.error text code) L := by
    refine fun text code => .inl ⟨text, code, rfl, ?_⟩
    rintro req statusCode header body ⟨x, hx, hreplied⟩
    exact hunsent ⟨x, hx, hreplied.isExchange⟩
  unfold handleAPIProxy
  split_ifs
  · exact herror _ _
  · exact herror _ _
  · refine (keeps_readsOnly (o := .now) trivial w).bind fun s1 L1 e1 hL1 _ _ => ?_
    -- The first two readings of the clock decide the user.
    have hreads1 : clockReads w ((proxy cfg).entry w .now e1 s1 :: L1) = [s1.now] := by
      show (if w = w then clockReads w L1 ++ [s1.now] else clockReads w L1) = _
      rw [if_pos rfl, clockReads_others hL1, hreads]
      rfl
    have hunsent1 := not_has_isExchange (s := s1) (o := .now) (r := s1.now) (by simp) hunsent hL1
    refine (keeps_readsOnly (o := .now) trivial w).bind fun s2 L2 e2 hL2 _ _ => ?_
    have hreads2 : clockReads w ((proxy cfg).entry w .now e2 s2 :: L2) = [s1.now, s2.now] := by
      show (if w = w then clockReads w L2 ++ [s2.now] else clockReads w L2) = _
      rw [if_pos rfl, clockReads_others hL2, hreads1]
      rfl
    have hunsent2 := not_has_isExchange (s := s2) (o := .now) (r := s2.now) (by simp) hunsent1 hL2
    dsimp only
    refine (outline_lookup w ⟨⟨s1.now, s2.now, [], hreads2, rfl⟩, hunsent2⟩).bind
      fun cached L3 hL3 hlooked => ?_
    rcases cached with _ | cached
    · exact outline_forward hlooked
    · obtain ⟨f, earlier, mid, back, hfound, rfl⟩ := hlooked
      exact .inr (.inr ⟨_, f, earlier, mid, back, hfound, rfl⟩)

/-- What holds in every run from an empty cache. -/
theorem history_verified {s0 : ProxyState} (hs0 : s0.cache.items = ∅) :
    Verified (proxy cfg) {} (History cfg) s0 where
  init := ⟨fun key e he => by simp [hs0] at he, fun _ => atMostOne_nil _, trivial⟩
  call s L w h hfresh _ := by
    refine ⟨h.idle (by simp) (fun _ _ hx => hx) hfresh, ?_⟩
    -- A request that arrives has read no clock and sent nothing.
    have hreads : clockReads w (⟨s, .call w⟩ :: L) = [] := by
      show clockReads w L = []
      exact clockReads_fresh hfresh
    have hunsent : ¬ Has (IsExchange w) (⟨s, .call w⟩ :: L) := by
      rw [has_cons, not_or]
      refine ⟨?_, hfresh.not_has fun _ => IsExchange.thread⟩
      rintro ⟨req, reply, he⟩
      cases he
    refine (outline_handleAPIProxy w hreads hunsent).imp fun a L1 _ hanswered => ?_
    exact fun s' L' hL' h' _ => h'.idle (by simp) (fun _ _ hx => hx) (hanswered.others hL')
  env s L d h _ := h.idle (by simp) (fun _ _ hx => hx) trivial
  crash s L h _ := by
    refine h.idle (by simp) (fun key x hx => ?_) trivial
    have hnone : (∅ : Table CacheEntry).lookup key = some x := hx
    simp at hnone

/-- The history of every configuration that a run reaches. -/
theorem history {s0 : ProxyState} (hs0 : s0.cache.items = ∅)
    {A : Assumption ProxyOp ProxyReply ProxyState ExchangeReply ℕ Request ProxyResponse}
    {c : Config ProxyOp ProxyReply ProxyState ℕ Request ProxyResponse}
    (hc : Reachable (proxy cfg) A s0 c) : History cfg c.state c.log := by
  have hfree : Reachable (proxy cfg) {} s0 c :=
    hc.imp ⟨fun _ => trivial, fun _ => trivial, fun _ => trivial, fun _ => trivial,
      fun _ => trivial⟩
  exact hfree.invariant (history_verified hs0)

end VirePortal.Server
