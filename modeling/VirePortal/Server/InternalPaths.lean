import VirePortal.Go.Routing
import VirePortal.Server.Forwarding

/-!
# The internal API behind the proxy

`handleAPIProxy` answers 404 to a path that starts with `/api/internal/`. The path that it compares
is the decoded one, and the path that vire-server routes is read from it once more and cleaned. So a
dot segment that was escaped for `ServeMux` is decoded behind the guard's back, and vire-server
removes it (`internal_reached`).

`internal_hidden_iff` says for which requests the internal API stays out of reach: the guard
answers, or the URL cannot be read, or what the path names when it is read as URL text and cleaned
is not in the directory.
-/

namespace VirePortal.Server.InternalPaths

open Go Auth Concurrent IdentityHeaders Forwarding

/-- The directory of the internal API, below the path of the API. -/
def internalDir (b : Base) : List Str := b.segments ++ [ascii "api", ascii "internal"]

/-- The answer of the guard. -/
def notFound : ProxyResponse := .error "\x7b\"error\":\"Not Found\"\x7d" 404

/-- The proxy answers 404 itself, or what it sends to vire-server names nothing of the internal
API. -/
def Hidden (b : Base) (cfg : ProxySettings) (r : Request) : Prop :=
  handleAPIProxy cfg r = pure notFound ∨
    (handleAPIProxy cfg r).All fun o => ∀ req, o = .exchange req →
      ∀ v, URL.parse req.url = some v → ¬ v.Below (internalDir b)

/-- The text of the path in the forwarded URL: what the path of the API and the decoded path hold up
to a `#` or a `?`. -/
def forwardedPath (b : Base) (path : Str) : Str := slashed b.segments ++ pathPart path

/-- The path starts as the guard expects, or the URL cannot be read, or the forwarded path is not
one of the internal API. -/
def Guarded (b : Base) (u : URL) : Prop :=
  hasPrefix u.path "/api/internal/" = true ∨ Refused (u.path ++ queryText u.rawQuery) ∨
    ¬ PathBelow (internalDir b) (forwardedPath b u.path)

variable {b : Base} {r : Request} {secret : Str} {codec : Codec}

/-- Whether the URL is refused does not depend on the path of the API. -/
theorem parse_eq_none_iff (hpath : r.url.path.head? = some 47) :
    URL.parse (targetURL ⟨b.apiURL, secret, codec⟩ r) = none ↔
      Refused (r.url.path ++ queryText r.url.rawQuery) := by
  obtain ⟨hhash, hpercent, hmark, hctl⟩ := PathTemplate.not_mem_of_plain b.plain
  rw [parse_targetURL hpath, Origin.url_eq_none_iff, refused_append_left hhash hmark hpercent hctl]

/-- The directory of the forwarded URL. -/
theorem below_targetURL (hpath : r.url.path.head? = some 47) {v : URL}
    (hv : URL.parse (targetURL ⟨b.apiURL, secret, codec⟩ r) = some v) (dir : List Str) :
    v.Below dir ↔ PathBelow dir (forwardedPath b r.url.path) := by
  rw [parse_targetURL hpath] at hv
  obtain ⟨u, hset, -, f, g, rfl⟩ := Origin.url_eq_some hv
  obtain ⟨hhash, -, hmark, -⟩ := PathTemplate.not_mem_of_plain b.plain
  rw [pathPart_append_left hhash hmark, pathPart_append_queryText] at hset
  -- The path is cut at a separator, and its first byte is none.
  have hhead : (forwardedPath b r.url.path).head? = some 47 := by
    refine head_slashed_append b.segments ?_
    obtain ⟨rest, hrest⟩ := List.head?_eq_some_iff.1 hpath
    rw [hrest, pathPart, cut, if_neg (by decide), cut, if_neg (by decide)]
    rfl
  exact URL.below_iff hset hhead dir

/-- The internal API stays out of reach of exactly the requests that are guarded. -/
theorem internal_hidden_iff (b : Base) (secret : Str) (codec : Codec) {r : Request}
    (hpath : r.url.path.head? = some 47) (hmethod : validMethod r.method = true) :
    Hidden b ⟨b.apiURL, secret, codec⟩ r ↔ Guarded b r.url := by
  have hsends := @handleAPIProxy_sends ⟨b.apiURL, secret, codec⟩ r
    fun req => ∀ v, URL.parse req.url = some v → ¬ v.Below (internalDir b)
  rw [or_iff_right (apiURL_ne_nil b)] at hsends
  -- To answer 404 is a way of sending nothing.
  have hanswers : handleAPIProxy ⟨b.apiURL, secret, codec⟩ r = pure notFound →
      (handleAPIProxy ⟨b.apiURL, secret, codec⟩ r).All fun o => ∀ req, o = .exchange req →
        ∀ v, URL.parse req.url = some v → ¬ v.Below (internalDir b) := by
    intro h
    rw [h]
    trivial
  unfold Hidden Guarded
  rw [or_iff_right_of_imp hanswers, hsends]
  refine or_congr Iff.rfl ?_
  rw [← parse_eq_none_iff hpath]
  constructor
  · -- The URL is the same for every user, so the request at one time decides.
    intro hall
    by_cases hnone : URL.parse (targetURL ⟨b.apiURL, secret, codec⟩ r) = none
    · exact .inl hnone
    · refine .inr ?_
      obtain ⟨v, hv⟩ := Option.ne_none_iff_exists'.1 hnone
      have hmade := @proxyRequest_isSome ⟨b.apiURL, secret, codec⟩ r hmethod
        (userAt ⟨b.apiURL, secret, codec⟩ r 0 0)
      rw [hv] at hmade
      obtain ⟨req, hreq⟩ := Option.isSome_iff_exists.1 hmade
      have hnot := hall 0 0 req hreq v ((proxyRequest_eq_some hreq).1 ▸ hv)
      exact fun hbelow => hnot ((below_targetURL hpath hv _).2 hbelow)
  · intro hguarded now now' req hreq v hv
    rw [(proxyRequest_eq_some hreq).1] at hv
    rcases hguarded with hnone | hnot
    · rw [hnone] at hv
      cases hv
    · exact fun hbelow => hnot ((below_targetURL hpath hv _).1 hbelow)

/-- A portfolio's path hides nothing internal. -/
theorem internal_hidden_portfolio :
    Hidden sampleBase ⟨sampleBase.apiURL, "k", aliceCodec⟩ (named "a") :=
  (internal_hidden_iff sampleBase (ascii "k") aliceCodec (by decide) (by decide)).2
    (.inr (.inr (by
      unfold PathBelow
      rw [if_pos (by decide)]
      rintro ⟨rest, hrest, -⟩
      have hresource : (cleanSegments (split 47 (forwardedPath sampleBase
          (named "a").url.path))).mapM (unescape .pathSegment) =
          some [ascii "api", ascii "portfolios", ascii "a"] := by decide
      have hsegments := Option.some.inj (hresource.symm.trans hrest)
      obtain ⟨-, htail⟩ := List.cons.inj hsegments
      obtain ⟨hsecond, -⟩ := List.cons.inj htail
      exact absurd hsecond (by decide))))

/-- A request whose dot segment is escaped on the request line. -/
def dotted : Request :=
  { url := { path := "/api/x/../internal/oauth/sessions",
             rawPath := "/api/x/%2e%2e/internal/oauth/sessions" } }

/-- The URL that it is forwarded to. -/
def dottedTarget : URL :=
  { scheme := "http", host := "v", path := "/api/x/../internal/oauth/sessions" }

/-- A dot segment that is escaped on the request line passes `ServeMux` and the guard, and
vire-server removes it. -/
theorem internal_reached :
    URL.parseRequestURI "/api/x/%2e%2e/internal/oauth/sessions" = some dotted.url ∧
    dotted.url.Routed ∧ validMethod dotted.method = true ∧
    URL.parse (targetURL sampleSettings dotted) = some dottedTarget ∧
    dottedTarget.resource = some [ascii "api", ascii "internal", ascii "oauth", ascii "sessions"] ∧
    ¬ Hidden sampleBase sampleSettings dotted := by
  have hparse : URL.parse (targetURL sampleSettings dotted) = some dottedTarget := by decide
  have hresource : dottedTarget.resource =
      some [ascii "api", ascii "internal", ascii "oauth", ascii "sessions"] := by decide
  have hreq : proxyRequest sampleSettings dotted [] =
      some ⟨"GET", targetURL sampleSettings dotted, []⟩ := by decide
  refine ⟨by decide, by unfold URL.Routed; decide, by decide, hparse, hresource, ?_⟩
  rintro (hanswer | hall)
  · cases hanswer
  · rw [handleAPIProxy_sends] at hall
    rcases hall with hnone | hguard | hall
    · exact absurd hnone (by decide)
    · exact absurd hguard (by decide)
    · -- Without a cookie there is no user, whatever the clock says.
      have huser : userAt sampleSettings dotted 0 0 = [] := rfl
      rw [← huser] at hreq
      refine hall 0 0 _ hreq _ hparse ⟨["oauth", "sessions"], hresource, .inl ?_⟩
      simp

end VirePortal.Server.InternalPaths
