import VirePortal.Pages.Dashboard

/-!
# The store of the pages

`vireStore` of `common.js` for any callers: calls of `fetch` and `invalidate`, the responses and
errors of the requests that the store has made, and time, in any order. Requests are numbered in the
order in which they are sent, and a call and a cached response keep the number of the request that
they belong to. The script has no such numbers; they are what "sent after" means. So is the record
of the answers (`answers`).

`fetch` does one of three things (`fetch_cases`), from which the invariant of the store follows:
there is one request for a URL at a time, and what is cached is a response that was ok (`Good`). A
call after `invalidate` gets the answer to a later request if no request for its URL is under way
when `invalidate` is called (`Later`). If one is, the call joins it (`joins_of_inflight`).
-/

namespace VirePortal.Pages.VireStore

open Go Dashboard

/-- `{data, expiry}` of `_cache`, with the request that brought the response. -/
structure Entry (V : Type) where
  resp : Response V
  expiry : ℕ
  request : ℕ

/-- A call of `fetch`, with the request whose answer it gets, whether it was served from the cache,
and its outcome once it has one, a response or the error, which is `none`. -/
structure Call (V : Type) where
  url : Str
  request : ℕ
  hit : Bool
  outcome : Option (Option (Response V))

/-- A request that has not been answered. -/
structure Sent where
  id : ℕ
  url : Str
  deriving DecidableEq

/-- The store and the network. -/
structure Store (V : Type) where
  /-- `_cache`. -/
  cache : Str → Option (Entry V) := fun _ => none
  /-- `_inflight`. -/
  inflight : Str → Option ℕ := fun _ => none
  /-- `Date.now()`. -/
  now : ℕ := 0
  requests : List Sent := []
  nextId : ℕ := 0
  calls : List (Call V) := []
  answers : List (ℕ × Option (Response V)) := []

variable {V : Type}

/-- A call after the answer to a request. -/
def Call.answered (id : ℕ) (outcome : Option (Response V)) (c : Call V) : Call V :=
  if c.outcome.isNone ∧ c.request = id then { c with outcome := some outcome } else c

namespace Store

/-- A call that is served from the cache. -/
def hit (s : Store V) (url : Str) (e : Entry V) : Store V :=
  { s with calls := s.calls ++ [⟨url, e.request, true, some (some e.resp)⟩] }

/-- A call that waits for a request. -/
def join (s : Store V) (url : Str) (id : ℕ) : Store V :=
  { s with calls := s.calls ++ [⟨url, id, false, none⟩] }

/-- A call that sends a request. -/
def send (s : Store V) (url : Str) : Store V :=
  { s with
    inflight := Function.update s.inflight url (some s.nextId)
    requests := s.requests ++ [⟨s.nextId, url⟩]
    nextId := s.nextId + 1
    calls := s.calls ++ [⟨url, s.nextId, false, none⟩] }

/-- `fetch` without a cached response. -/
def miss (s : Store V) (url : Str) : Store V :=
  match s.inflight url with
  | some id => s.join url id
  | none => s.send url

/-- `fetch`. -/
def fetch (s : Store V) (url : Str) : Store V :=
  match s.cache url with
  | some e => if s.now < e.expiry then s.hit url e else s.miss url
  | none => s.miss url

/-- The callbacks of a request: only a response that is ok is kept, and the calls that wait get the
outcome. -/
def settle (s : Store V) (r : Sent) (outcome : Option (Response V)) : Store V :=
  { s with
    cache := match outcome with
      | some resp => if resp.ok then Function.update s.cache r.url
          (some ⟨resp, s.now + 30000, r.id⟩) else s.cache
      | none => s.cache
    inflight := Function.update s.inflight r.url none
    requests := s.requests.filter (· ≠ r)
    calls := s.calls.map (Call.answered r.id outcome)
    answers := s.answers ++ [(r.id, outcome)] }

/-- `invalidate`. -/
def invalidate (s : Store V) (p : Str) : Store V :=
  { s with cache := fun url => if hasPrefix url p then none else s.cache url }

end Store

/-- What happens next: a call, an answer, or time passes. Other requests of the page take numbers
too. -/
inductive Event (V : Type) where
  | fetch (url : Str)
  | invalidate (p : Str)
  | settle (r : Sent) (outcome : Option (Response V))
  | tick (ms : ℕ)
  | other

namespace Store

/-- One step. -/
def step (s : Store V) : Event V → Store V
  | .fetch url => s.fetch url
  | .invalidate p => s.invalidate p
  | .settle r outcome => if r ∈ s.requests then s.settle r outcome else s
  | .tick ms => { s with now := s.now + ms }
  | .other => { s with nextId := s.nextId + 1 }

/-- A run. -/
def run (s : Store V) (es : List (Event V)) : Store V := es.foldl step s

/-! ### A call -/

/-- A call is served from the cache, joins a request that is under way, or sends one. -/
@[elab_as_elim]
theorem fetch_cases {motive : Store V → Prop} (s : Store V) (url : Str)
    (hit : ∀ e, s.cache url = some e → motive (s.hit url e))
    (join : ∀ id, s.inflight url = some id → motive (s.join url id))
    (send : s.inflight url = none → motive (s.send url)) : motive (s.fetch url) := by
  have hmiss : motive (s.miss url) := by
    unfold miss
    split
    case h_1 id hid => exact join id hid
    case h_2 hid => exact send hid
  unfold fetch
  split
  case h_1 e he =>
    split_ifs
    · exact hit e he
    · exact hmiss
  case h_2 => exact hmiss

/-- A settled request is no longer under way. -/
theorem inflight_settle (s : Store V) (r : Sent) (outcome : Option (Response V)) :
    (s.settle r outcome).inflight r.url = none := by
  simp only [settle, Function.update_self]

/-- `invalidate` drops what the prefix matches. -/
theorem cache_invalidate (s : Store V) {url p : Str} (hp : hasPrefix url p = true) :
    (s.invalidate p).cache url = none := if_pos hp

/-! ### The invariant -/

/-- What holds in every state. -/
structure Good (s : Store V) : Prop where
  /-- `_inflight` has the requests of the store that are under way. -/
  inflight_iff (url : Str) (id : ℕ) : s.inflight url = some id ↔ ⟨id, url⟩ ∈ s.requests
  /-- No two of them are for the same URL. -/
  urls : (s.requests.map Sent.url).Nodup
  numbered {r : Sent} (hr : r ∈ s.requests) : r.id < s.nextId
  /-- What is cached was ok, and came as the answer to its request. -/
  cached {url : Str} {e : Entry V} (h : s.cache url = some e) :
    e.resp.ok = true ∧ (e.request, some e.resp) ∈ s.answers
  /-- A call has the answer to its request. -/
  answered {c : Call V} (hc : c ∈ s.calls) {outcome : Option (Response V)}
    (h : c.outcome = some outcome) :
    (c.request, outcome) ∈ s.answers
  /-- What was served from the cache was ok. -/
  served {c : Call V} (hc : c ∈ s.calls) (h : c.hit = true) : ∃ resp, c.outcome = some (some resp) ∧
    resp.ok = true

variable {s : Store V}

/-- A call changes nothing but the list of the calls. -/
theorem Good.call (h : s.Good) {c : Call V}
    (hanswered : ∀ outcome, c.outcome = some outcome → (c.request, outcome) ∈ s.answers)
    (hserved : c.hit = true → ∃ resp, c.outcome = some (some resp) ∧ resp.ok = true) :
    Good { s with calls := s.calls ++ [c] } where
  inflight_iff := h.inflight_iff
  urls := h.urls
  numbered := h.numbered
  cached := h.cached
  answered := by
    intro c' hc' outcome houtcome
    obtain hold | hnew := List.mem_append.1 hc'
    · exact h.answered hold houtcome
    · rw [List.mem_singleton.1 hnew] at houtcome ⊢
      exact hanswered outcome houtcome
  served := by
    intro c' hc' hhit
    obtain hold | hnew := List.mem_append.1 hc'
    · exact h.served hold hhit
    · rw [List.mem_singleton.1 hnew] at hhit ⊢
      exact hserved hhit

/-- A request for a URL without one. -/
theorem Good.request (h : s.Good) {url : Str} (hnone : s.inflight url = none) :
    Good { s with
      inflight := Function.update s.inflight url (some s.nextId)
      requests := s.requests ++ [⟨s.nextId, url⟩]
      nextId := s.nextId + 1 } where
  inflight_iff := by
    intro url' id
    by_cases hurl : url' = url
    · subst hurl
      have hnot : ⟨id, url'⟩ ∉ s.requests := fun hmem => by
        rw [(h.inflight_iff url' id).2 hmem] at hnone
        exact absurd hnone (Option.some_ne_none id)
      simp only [Function.update_self, Option.some.injEq, List.mem_append, hnot, List.mem_singleton,
        Sent.mk.injEq, and_true, false_or]
      exact eq_comm
    · simp only [Function.update_of_ne hurl, List.mem_append, List.mem_singleton, Sent.mk.injEq,
        hurl, and_false, or_false]
      exact h.inflight_iff url' id
  urls := by
    -- A request for the URL would be under way.
    have hnot : url ∉ s.requests.map Sent.url := by
      intro hmem
      obtain ⟨r, hr, rfl⟩ := List.mem_map.1 hmem
      rw [(h.inflight_iff r.url r.id).2 hr] at hnone
      exact absurd hnone (Option.some_ne_none r.id)
    rw [List.map_append]
    exact List.Nodup.append h.urls (List.nodup_singleton url) (List.disjoint_singleton.2 hnot)
  numbered := by
    intro r hr
    obtain hold | hnew := List.mem_append.1 hr
    · exact (h.numbered hold).trans (Nat.lt_succ_self _)
    · rw [List.mem_singleton.1 hnew]
      exact Nat.lt_succ_self _
  cached := h.cached
  answered := h.answered
  served := h.served

/-- A call keeps the invariant. -/
theorem Good.fetch (h : s.Good) (url : Str) : (s.fetch url).Good := by
  refine fetch_cases s url ?hit ?join ?send
  case hit =>
    intro e he
    obtain ⟨hok, hanswer⟩ := h.cached he
    apply h.call
    · rintro outcome ⟨⟩
      exact hanswer
    · exact fun _ => ⟨_, rfl, hok⟩
  case join => exact fun _ _ => h.call nofun nofun
  case send => exact fun hnone => (h.request hnone).call nofun nofun

/-- A response keeps the invariant. -/
theorem Good.settle (h : s.Good) {r : Sent} (hr : r ∈ s.requests) (outcome : Option (Response V)) :
    (s.settle r outcome).Good where
  inflight_iff := by
    intro url id
    by_cases hurl : url = r.url
    · subst hurl
      simp only [Store.settle, Function.update_self]
      refine iff_of_false (Option.some_ne_none id).symm fun hmem => ?_
      -- the request that has settled was the only one for its URL
      obtain ⟨hmem, hne⟩ := List.mem_filter.1 hmem
      have hid : some id = some r.id :=
        ((h.inflight_iff r.url id).2 hmem).symm.trans ((h.inflight_iff r.url r.id).2 hr)
      rw [Option.some.inj hid] at hne
      exact of_decide_eq_true hne rfl
    · have hne : Sent.mk id url ≠ r := fun heq => hurl (congrArg Sent.url heq)
      simp only [Store.settle, Function.update_of_ne hurl, List.mem_filter, hne, ne_eq,
        not_false_iff, decide_true, and_true]
      exact h.inflight_iff url id
  urls := h.urls.sublist (List.filter_sublist.map Sent.url)
  numbered hr := h.numbered (List.mem_of_mem_filter hr)
  cached := by
    intro url e he
    have hold (he : s.cache url = some e) :
        e.resp.ok = true ∧ (e.request, some e.resp) ∈ s.answers ++ [(r.id, outcome)] :=
      ⟨(h.cached he).1, List.mem_append_left _ (h.cached he).2⟩
    cases outcome with
    | none => exact hold he
    | some resp =>
      simp only [Store.settle] at he
      split_ifs at he with hok
      · by_cases hurl : url = r.url
        · rw [hurl, Function.update_self] at he
          cases he
          exact ⟨hok, List.mem_append_right _ (.head _)⟩
        · rw [Function.update_of_ne hurl] at he
          exact hold he
      · exact hold he
  answered := by
    intro c hc o ho
    obtain ⟨c, hmem, rfl⟩ := List.mem_map.1 hc
    unfold Call.answered at ho ⊢
    split_ifs at ho ⊢ with hwaits
    · cases ho
      rw [hwaits.2]
      exact List.mem_append_right _ (.head _)
    · exact List.mem_append_left _ (h.answered hmem ho)
  served := by
    intro c hc hhit
    obtain ⟨c, hmem, rfl⟩ := List.mem_map.1 hc
    unfold Call.answered at hhit ⊢
    split_ifs at hhit ⊢ with hwaits
    · obtain ⟨resp, houtcome, -⟩ := h.served hmem hhit
      rw [houtcome] at hwaits
      exact absurd hwaits.1 Bool.false_ne_true
    · exact h.served hmem hhit

/-- `invalidate` keeps the invariant. -/
theorem Good.invalidate (h : s.Good) (p : Str) : (s.invalidate p).Good where
  inflight_iff := h.inflight_iff
  urls := h.urls
  numbered := h.numbered
  cached := by
    intro url e he
    simp only [Store.invalidate] at he
    split_ifs at he
    exact h.cached he
  answered := h.answered
  served := h.served

/-- Every event keeps the invariant. -/
theorem Good.step (h : s.Good) (e : Event V) : (s.step e).Good := by
  cases e with
  | fetch url => exact h.fetch url
  | invalidate p => exact h.invalidate p
  | settle r outcome =>
    simp only [Store.step]
    split_ifs with hr
    · exact h.settle hr outcome
    · exact h
  | tick ms => exact ⟨h.inflight_iff, h.urls, h.numbered, h.cached, h.answered, h.served⟩
  | other =>
    exact ⟨h.inflight_iff, h.urls, fun hr => (h.numbered hr).trans (Nat.lt_succ_self _), h.cached,
      h.answered, h.served⟩

/-- The invariant holds in every run. -/
theorem Good.run (h : s.Good) (es : List (Event V)) : (s.run es).Good := by
  induction es generalizing s with
  | nil => exact h
  | cons e es ih => exact ih (h.step e)

/-- The store of a new page. -/
def start : Store V := {}

/-- The empty store is good. -/
theorem good_start : (start : Store V).Good where
  inflight_iff _ _ := iff_of_false nofun (List.not_mem_nil)
  urls := List.nodup_nil
  numbered hr := absurd hr List.not_mem_nil
  cached := nofun
  answered hc := absurd hc List.not_mem_nil
  served hc := absurd hc List.not_mem_nil

/-! ### After `invalidate` -/

/-- What the store has for `url`, and what the calls for it from the `k`th on have got, are requests
from the `n`th on. -/
structure Later (n k : ℕ) (url : Str) (s : Store V) : Prop where
  le_nextId : n ≤ s.nextId
  cached {e : Entry V} (h : s.cache url = some e) : n ≤ e.request
  inflight {id : ℕ} (h : s.inflight url = some id) : n ≤ id
  calls {i : ℕ} {c : Call V} (hi : k ≤ i) (hc : s.calls[i]? = some c) (hurl : c.url = url) :
    n ≤ c.request

section

variable {n k : ℕ} {url : Str}

/-- A call with a later request stays later. -/
theorem Later.call (h : s.Later n k url) {c : Call V} (hc : c.url = url → n ≤ c.request) :
    Later n k url { s with calls := s.calls ++ [c] } where
  le_nextId := h.le_nextId
  cached := h.cached
  inflight := h.inflight
  calls := by
    intro i c' hi hc' hurl
    obtain hlt | hge := lt_or_ge i s.calls.length
    · rw [List.getElem?_append_left hlt] at hc'
      exact h.calls hi hc' hurl
    · rw [List.getElem?_append_right hge] at hc'
      rw [List.mem_singleton.1 (List.mem_of_getElem? hc')] at hurl ⊢
      exact hc hurl

/-- A call after the invalidation is answered later. -/
theorem Later.fetch (h : s.Later n k url) (url' : Str) : (s.fetch url').Later n k url := by
  refine fetch_cases s url' ?hit ?join ?send
  case hit =>
    intro e he
    apply h.call
    rintro rfl
    exact h.cached he
  case join =>
    intro id hid
    apply h.call
    rintro rfl
    exact h.inflight hid
  case send =>
    intro _
    have hrequest : Later n k url { s with
        inflight := Function.update s.inflight url' (some s.nextId)
        requests := s.requests ++ [⟨s.nextId, url'⟩]
        nextId := s.nextId + 1 } := by
      refine ⟨h.le_nextId.trans (Nat.le_succ _), h.cached, fun {id} hid => ?_, h.calls⟩
      simp only [Function.update_apply] at hid
      split_ifs at hid
      · exact Option.some.inj hid ▸ h.le_nextId
      · exact h.inflight hid
    exact hrequest.call fun _ => h.le_nextId

/-- A response caches what is later. -/
theorem Later.settle (h : s.Later n k url) (hgood : s.Good) {r : Sent} (hr : r ∈ s.requests)
    (outcome : Option (Response V)) : (s.settle r outcome).Later n k url where
  le_nextId := h.le_nextId
  cached := by
    intro e he
    cases outcome with
    | none => exact h.cached he
    | some resp =>
      simp only [Store.settle] at he
      split_ifs at he
      · by_cases hurl : url = r.url
        · -- the request was under way for `url`
          have hid : n ≤ r.id := h.inflight (hurl ▸ (hgood.inflight_iff r.url r.id).2 hr)
          rw [hurl, Function.update_self] at he
          cases he
          exact hid
        · rw [Function.update_of_ne hurl] at he
          exact h.cached he
      · exact h.cached he
  inflight := by
    intro id hid
    simp only [Store.settle, Function.update_apply] at hid
    split_ifs at hid
    exact h.inflight hid
  calls := by
    intro i c hi hc hurl
    obtain ⟨c, hold, rfl⟩ := Option.map_eq_some_iff.1 (List.getElem?_map.symm.trans hc)
    have hsame : (c.answered r.id outcome).url = c.url ∧ (c.answered r.id outcome).request =
        c.request := by
      unfold Call.answered
      split_ifs <;> exact ⟨rfl, rfl⟩
    rw [hsame.1] at hurl
    rw [hsame.2]
    exact h.calls hi hold hurl

/-- Every event keeps the calls later. -/
theorem Later.step (h : s.Later n k url) (hgood : s.Good) (e : Event V) :
    (s.step e).Later n k url := by
  cases e with
  | fetch url' => exact h.fetch url'
  | invalidate p =>
    refine ⟨h.le_nextId, fun {e} he => ?_, h.inflight, h.calls⟩
    simp only [Store.step, Store.invalidate] at he
    split_ifs at he
    exact h.cached he
  | settle r outcome =>
    simp only [Store.step]
    split_ifs with hr
    · exact h.settle hgood hr outcome
    · exact h
  | tick ms => exact ⟨h.le_nextId, h.cached, h.inflight, h.calls⟩
  | other => exact ⟨h.le_nextId.trans (Nat.le_succ _), h.cached, h.inflight, h.calls⟩

/-- The calls are later in every run. -/
theorem Later.run (h : s.Later n k url) (hgood : s.Good) (es : List (Event V)) :
    (s.run es).Later n k url := by
  induction es generalizing s with
  | nil => exact h
  | cons e es ih => exact ih (h.step hgood e) (hgood.step e)

/-- After `invalidate` nothing old is left. -/
theorem later_invalidate {p : Str} (hp : hasPrefix url p = true) (hnone : s.inflight url = none) :
    (s.invalidate p).Later s.nextId s.calls.length url where
  le_nextId := le_rfl
  cached he := absurd ((s.cache_invalidate hp).symm.trans he) (Option.some_ne_none _).symm
  inflight hid := absurd (hnone.symm.trans hid) (Option.some_ne_none _).symm
  calls hi hc := absurd (List.getElem?_eq_none hi) (hc ▸ Option.some_ne_none _)

/-- A call after `invalidate` joins the request that is under way, which is an earlier one. -/
theorem joins_of_inflight (hgood : s.Good) {p : Str} (hp : hasPrefix url p = true) {id : ℕ}
    (hid : s.inflight url = some id) :
    ((s.invalidate p).fetch url).calls[s.calls.length]? = some ⟨url, id, false, none⟩ ∧
      id < s.nextId := by
  have hcache := s.cache_invalidate hp
  have hfetch : (s.invalidate p).fetch url = (s.invalidate p).join url id := by
    have hinflight : (s.invalidate p).inflight url = some id := hid
    rw [Store.fetch, hcache]
    simp only [miss, hinflight]
  rw [hfetch]
  exact ⟨List.getElem?_concat_length, hgood.numbered ((hgood.inflight_iff url id).1 hid)⟩

end

end Store

/-- In every state no two requests for the same URL are under way, a call has the outcome of its
request, and what was served from the cache was ok. After `invalidate`, for a URL that it covers: if
no request is under way then, every later call gets the outcome of a request that was sent after it;
if one is under way, the next call joins it. -/
theorem fetch_after_invalidate (es : List (Event V)) :
    let s : Store V := Store.run .start es
    (s.requests.map Sent.url).Nodup ∧
      (∀ c ∈ s.calls, ∀ outcome, c.outcome = some outcome → (c.request, outcome) ∈ s.answers) ∧
      (∀ c ∈ s.calls, c.hit = true → ∃ resp, c.outcome = some (some resp) ∧ resp.ok = true) ∧
      (∀ p url, hasPrefix url p = true → s.inflight url = none → ∀ es' i c,
        s.calls.length ≤ i → ((s.invalidate p).run es').calls[i]? = some c → c.url = url →
          s.nextId ≤ c.request) ∧
      ∀ p url id, hasPrefix url p = true → s.inflight url = some id →
        ((s.invalidate p).fetch url).calls[s.calls.length]? = some ⟨url, id, false, none⟩ ∧
          id < s.nextId := by
  intro s
  have hgood : s.Good := Store.good_start.run es
  refine ⟨hgood.urls, fun c hc outcome => hgood.answered hc, fun c hc => hgood.served hc, ?_, ?_⟩
  · intro p url hp hnone es' i c
    exact ((Store.later_invalidate hp hnone).run (hgood.invalidate p) es').calls
  · intro p url id hp hid
    exact Store.joins_of_inflight hgood hp hid

/-- A response for the examples. -/
def sampleResponse : Response Value := ⟨true, some .null⟩

/-- The response to the first request is cached, so the call after `invalidate` sends a second
one. -/
theorem fetch_after_invalidate_cached :
    let url := ascii "/api/portfolios"
    let s : Store Value := Store.run .start [.fetch url, .settle ⟨0, url⟩ (some sampleResponse)]
    (hasPrefix url url = true ∧ s.inflight url = none) ∧
      ∃ c, ((s.invalidate url).run [.fetch url]).calls[1]? = some c ∧ c.url = url ∧
        s.nextId ≤ c.request := by
  intro url s
  have hp : hasPrefix url url = true := rfl
  have hnone : s.inflight url = none := rfl
  obtain ⟨-, -, -, hlater, -⟩ :=
    fetch_after_invalidate [.fetch url, .settle ⟨0, url⟩ (some sampleResponse)]
  exact ⟨⟨hp, hnone⟩, _, rfl, rfl, hlater url url hp hnone [.fetch url] 1 _ le_rfl rfl rfl⟩

/-- `invalidate` comes while the first request is under way. The call after it joins that request
and gets its response, and so does a third call, from the cache. -/
theorem fetch_after_invalidate_joined :
    let url := ascii "/api/portfolios"
    let s : Store Value := Store.run .start [.fetch url]
    let s' := (s.invalidate url).run [.fetch url, .settle ⟨0, url⟩ (some sampleResponse),
      .fetch url]
    hasPrefix url url = true ∧ s.nextId = 1 ∧ s.calls.length = 1 ∧
      s'.calls[1]? = some ⟨url, 0, false, some (some sampleResponse)⟩ ∧
      s'.calls[2]? = some ⟨url, 0, true, some (some sampleResponse)⟩ :=
  ⟨rfl, rfl, rfl, rfl, rfl⟩

/-! ### The dashboard

The model of the dashboard has the store as a part of the page. It is the same store. -/

/-- The store of the page is `s`. -/
structure Mirrors (w : World V) (s : Store V) : Prop where
  cache_eq (url : Str) : w.cache url = (s.cache url).map fun e => (e.resp, e.expiry)
  inflight_eq : w.inflight = s.inflight
  now_eq : w.now = s.now
  nextId_eq : w.nextId = s.nextId
  requests_eq : (w.requests.filter (·.stored)).map (fun r => Sent.mk r.id r.url) = s.requests
  ids : (w.requests.map Dashboard.Request.id).Nodup
  numbered {r : Dashboard.Request} (hr : r ∈ w.requests) : r.id < w.nextId

namespace Mirrors

variable {w : World V} {s : Store V} (h : Mirrors w s)

include h

/-- A new request has a new number. -/
theorem nodup_ids (url : Str) (stored : Bool) :
    ((w.requests ++ [Dashboard.Request.mk w.nextId url stored]).map
      Dashboard.Request.id).Nodup := by
  have hnot : w.nextId ∉ w.requests.map Dashboard.Request.id := by
    intro hmem
    obtain ⟨r, hr, heq⟩ := List.mem_map.1 hmem
    exact absurd heq (h.numbered hr).ne
  rw [List.map_append]
  exact List.Nodup.append h.ids (List.nodup_singleton w.nextId) (List.disjoint_singleton.2 hnot)

/-- The numbers are below the next one. -/
theorem lt_succ_nextId {url : Str} {stored : Bool} {r : Dashboard.Request}
    (hr : r ∈ w.requests ++ [Dashboard.Request.mk w.nextId url stored]) : r.id < w.nextId + 1 := by
  obtain hold | hnew := List.mem_append.1 hr
  · exact (h.numbered hold).trans (Nat.lt_succ_self _)
  · rw [List.mem_singleton.1 hnew]
    exact Nat.lt_succ_self _

/-- A request that is not the store's. -/
theorem fetch (url : Str) : Mirrors (w.fetch url false).1 (s.step .other) where
  cache_eq := h.cache_eq
  inflight_eq := h.inflight_eq
  now_eq := h.now_eq
  nextId_eq := congrArg (· + 1) h.nextId_eq
  requests_eq := by
    simp only [World.fetch, List.filter_append, List.map_append]
    rw [h.requests_eq]
    exact List.append_nil _
  ids := h.nodup_ids url false
  numbered := h.lt_succ_nextId

/-- A miss is mirrored. -/
theorem storeMiss (url : Str) : Mirrors (w.storeMiss url).1 (s.miss url) := by
  unfold World.storeMiss Store.miss
  rw [h.inflight_eq]
  cases s.inflight url with
  | some id =>
    exact ⟨h.cache_eq, h.inflight_eq, h.now_eq, h.nextId_eq, h.requests_eq, h.ids, h.numbered⟩
  | none =>
    exact {
      cache_eq := h.cache_eq
      inflight_eq := by
        simp only [World.fetch, Store.send, h.inflight_eq, h.nextId_eq]
      now_eq := h.now_eq
      nextId_eq := congrArg (· + 1) h.nextId_eq
      requests_eq := by
        simp only [World.fetch, Store.send, List.filter_append, List.map_append]
        rw [h.requests_eq, ← h.nextId_eq]
        rfl
      ids := h.nodup_ids url true
      numbered := h.lt_succ_nextId }

/-- A call of the store is mirrored. -/
theorem storeFetch (url : Str) : Mirrors (w.storeFetch url).1 (s.fetch url) := by
  unfold World.storeFetch Store.fetch
  rw [h.cache_eq, h.now_eq]
  cases s.cache url with
  | none => exact h.storeMiss url
  | some e =>
    simp only [Option.map_some]
    split_ifs
    · exact ⟨h.cache_eq, h.inflight_eq, h.now_eq, h.nextId_eq, h.requests_eq, h.ids, h.numbered⟩
    · exact h.storeMiss url

/-- The requests of the page have different numbers, so the one that settles is the only one to
go. -/
theorem requests_filter {r : Dashboard.Request} (hr : r ∈ w.requests) :
    ((w.requests.filter (·.id ≠ r.id)).filter (·.stored)).map (fun q => Sent.mk q.id q.url) =
      s.requests.filter (· ≠ Sent.mk r.id r.url) := by
  rw [← h.requests_eq, List.filter_map, List.filter_filter, List.filter_filter]
  congr 1
  apply List.filter_congr
  intro q hq
  by_cases hid : q.id = r.id
  · have heq : q = r := List.inj_on_of_nodup_map h.ids hq hr hid
    simp [heq]
  · simp [hid]

/-- A request past the store is not one of the store. -/
theorem notMem_requests {r : Dashboard.Request} (hr : r ∈ w.requests)
    (hstored : r.stored = false) :
    Sent.mk r.id r.url ∉ s.requests := by
  rw [← h.requests_eq]
  intro hmem
  obtain ⟨q, hq, heq⟩ := List.mem_map.1 hmem
  obtain ⟨hq, hqstored⟩ := List.mem_filter.1 hq
  have hqr : q = r := List.inj_on_of_nodup_map h.ids hq hr (congrArg Sent.id heq)
  rw [hqr, hstored] at hqstored
  exact Bool.false_ne_true hqstored

/-- The answer to a request is one to the store if the store made it. -/
theorem settle {r : Dashboard.Request} (hr : r ∈ w.requests)
    (outcome : Option (Response V)) :
    Mirrors (w.settle r outcome) (s.step (.settle ⟨r.id, r.url⟩ outcome)) := by
  have hids := h.ids.sublist ((List.filter_sublist (p := (·.id ≠ r.id))).map Dashboard.Request.id)
  have hnumbered {q : Dashboard.Request} (hq : q ∈ w.requests.filter (·.id ≠ r.id)) :
      q.id < w.nextId :=
    h.numbered (List.mem_of_mem_filter hq)
  unfold World.settle
  -- Of a request that the page made past the store the store learns nothing.
  split_ifs with hstored
  · have hmem : ⟨r.id, r.url⟩ ∈ s.requests := by
      rw [← h.requests_eq]
      exact List.mem_map.2 ⟨r, List.mem_filter.2 ⟨hr, hstored⟩, rfl⟩
    rw [Store.step, if_pos hmem]
    exact {
      cache_eq := by
        intro url
        cases outcome with
        | none => exact h.cache_eq url
        | some resp =>
          simp only [World.storeSettle, World.answer, Store.settle, h.now_eq]
          split_ifs
          · simp only [Function.update_apply]
            split_ifs
            · rfl
            · exact h.cache_eq url
          · exact h.cache_eq url
      inflight_eq := by
        simp only [World.storeSettle, World.answer, Store.settle, h.inflight_eq]
      now_eq := h.now_eq
      nextId_eq := h.nextId_eq
      requests_eq := h.requests_filter hr
      ids := hids
      numbered := hnumbered }
  · have hnot := h.notMem_requests hr (by simpa using hstored)
    have hall : s.requests.filter (· ≠ Sent.mk r.id r.url) = s.requests :=
      List.filter_eq_self.2 fun q hq => decide_eq_true (ne_of_mem_of_not_mem hq hnot)
    rw [Store.step, if_neg hnot]
    exact ⟨h.cache_eq, h.inflight_eq, h.now_eq, h.nextId_eq, (h.requests_filter hr).trans hall,
      hids, hnumbered⟩

/-- `invalidate` is mirrored. -/
theorem invalidate (p : Str) : Mirrors (w.invalidate p) (s.invalidate p) where
  cache_eq url := by
    simp only [World.invalidate, Store.invalidate]
    split_ifs
    · rfl
    · exact h.cache_eq url
  inflight_eq := h.inflight_eq
  now_eq := h.now_eq
  nextId_eq := h.nextId_eq
  requests_eq := h.requests_eq
  ids := h.ids
  numbered := h.numbered

/-- Nothing else of the page matters. -/
theorem of_eq (comp : Component V) (tasks : List (Dashboard.Task V)) :
    Mirrors { w with comp := comp, tasks := tasks } s :=
  ⟨h.cache_eq, h.inflight_eq, h.now_eq, h.nextId_eq, h.requests_eq, h.ids, h.numbered⟩

/-- Waiting for the store is mirrored. -/
theorem await (kind : Kind) (url : Str) :
    Mirrors (World.await kind url (w.storeFetch url)) (s.fetch url) :=
  (h.storeFetch url).of_eq _ _

/-- What follows the assignments of a function: calls of `fetch`. -/
theorem goOn (kind : Kind) : ∃ es, Mirrors (w.goOn kind) (s.run es) := by
  cases kind with
  | load =>
    exact ⟨[.fetch _, .fetch _], (h.await .growth _).await .watchlist _⟩
  | refresh => exact ⟨[.fetch _, .fetch _], ((h.await .growth _).await .watchlist _).of_eq _ _⟩
  | closed | growth | watchlist => exact ⟨[], h⟩

/-- `loadPortfolio` is mirrored. -/
theorem loadPortfolio : ∃ es, Mirrors w.loadPortfolio (s.run es) := by
  unfold World.loadPortfolio
  split_ifs
  · exact ⟨[], h⟩
  · exact ⟨[.fetch _], (h.of_eq _ w.tasks).await .load _⟩

/-- `fetchClosedHoldings` is mirrored. -/
theorem fetchClosedHoldings : ∃ es, Mirrors w.fetchClosedHoldings (s.run es) := by
  unfold World.fetchClosedHoldings
  split_ifs
  · exact ⟨[], h⟩
  · exact ⟨[.other], (h.fetch _).of_eq _ _⟩

/-- `toggleClosed` is mirrored. -/
theorem toggleClosed : ∃ es, Mirrors w.toggleClosed (s.run es) := by
  simp only [World.toggleClosed]
  split_ifs
  · exact (h.of_eq _ w.tasks).fetchClosedHoldings
  · exact ⟨[], h.of_eq _ _⟩

/-- Every step of the dashboard is a run of the store. -/
theorem step (js : Js V) (l : Label V) :
    ∃ es, Mirrors (w.step js l) (s.run es) := by
  cases l with
  | select name => exact (h.of_eq _ w.tasks).loadPortfolio
  | toggleClosed => exact h.toggleClosed
  | refresh =>
    simp only [World.step, World.refreshPortfolio]
    split_ifs
    · exact ⟨[], h⟩
    · -- The forced refresh fetches past the store, after it has invalidated the URL.
      exact ⟨[.invalidate _, .other], (((h.of_eq _ w.tasks).invalidate _).fetch _).of_eq _ _⟩
  | settle id outcome =>
    simp only [World.step]
    split
    case h_1 r hr => exact ⟨[.settle ⟨r.id, r.url⟩ outcome],
      h.settle (List.mem_of_find?_eq_some hr) outcome⟩
    case h_2 => exact ⟨[], h⟩
  | resume i =>
    simp only [World.step]
    split
    case h_1 t _ =>
      unfold World.resume
      split
      case h_1 => exact ⟨[], h⟩
      case h_2 => exact ⟨[], h.of_eq _ _⟩
      case h_3 => exact (h.of_eq _ _).goOn t.kind
      case h_4 => exact (h.of_eq _ _).goOn t.kind
      case h_5 => exact ⟨[], h.of_eq _ _⟩
    case h_2 => exact ⟨[], h⟩
  | tick ms =>
    exact ⟨[.tick ms], h.cache_eq, h.inflight_eq, congrArg (· + ms) h.now_eq, h.nextId_eq,
      h.requests_eq, h.ids, h.numbered⟩

end Mirrors

/-- What else the page does with the store. `toggleDefault` sends its request past the store, and
invalidates the store when it has been answered; the client-side path of `init` fetches the list of
the portfolios, and the glossary at its end. Here each may come at any time, so every run of the
page is one of these. -/
inductive PageLabel (V : Type) where
  | component (l : Label V)
  | toggleDefault
  | defaultUpdated
  | fetchPortfolios
  | fetchGlossary

/-- One step of the page. -/
def pageStep (js : Js V) (w : World V) : PageLabel V → World V
  | .component l => w.step js l
  | .toggleDefault => (w.fetch "/api/portfolios/default" false).1
  | .defaultUpdated => w.invalidate "/api/portfolios"
  | .fetchPortfolios => (w.storeFetch "/api/portfolios").1
  | .fetchGlossary => (w.storeFetch "/api/glossary").1

/-- Every step of the page is a run of the store. -/
theorem Mirrors.pageStep (js : Js V) {w : World V} {s : Store V} (h : Mirrors w s)
    (l : PageLabel V) :
    ∃ es, Mirrors (pageStep js w l) (s.run es) := by
  cases l with
  | component l => exact h.step js l
  | toggleDefault => exact ⟨[.other], h.fetch _⟩
  | defaultUpdated => exact ⟨[.invalidate _], h.invalidate _⟩
  | fetchPortfolios | fetchGlossary => exact ⟨[.fetch _], h.storeFetch _⟩

/-- The store of every run of the page is that of a run of the store, so what holds of these holds
of it. -/
theorem dashboard_store (js : Js V) (selected : Str) (portfolio timeline watchlist : V)
    (ls : List (PageLabel V)) :
    ∃ es, Mirrors
      (ls.foldl (pageStep js) (Dashboard.start js selected portfolio timeline watchlist))
      (Store.run .start es) := by
  induction ls using List.reverseRecOn with
  | nil =>
    exact ⟨[], fun _ => rfl, rfl, rfl, rfl, rfl, List.nodup_nil,
      fun hr => absurd hr List.not_mem_nil⟩
  | append_singleton ls l ih =>
    obtain ⟨es, h⟩ := ih
    obtain ⟨es', h'⟩ := h.pageStep js l
    refine ⟨es ++ es', ?_⟩
    rw [List.foldl_append, Store.run, List.foldl_append]
    exact h'

/-- The dashboard has one request of the store for a URL under way at a time. A page without
embedded data starts from data that are not truthy. -/
theorem dashboard_singleFlight (js : Js V) (selected : Str) (portfolio timeline watchlist : V)
    (ls : List (PageLabel V)) :
    let w := ls.foldl (pageStep js) (Dashboard.start js selected portfolio timeline watchlist)
    ((w.requests.filter (·.stored)).map Dashboard.Request.url).Nodup := by
  intro w
  obtain ⟨es, h⟩ := dashboard_store js selected portfolio timeline watchlist ls
  have hurls := (Store.good_start.run es).urls
  rw [← h.requests_eq, List.map_map] at hurls
  exact hurls

end VirePortal.Pages.VireStore
