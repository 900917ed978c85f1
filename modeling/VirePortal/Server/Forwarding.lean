import VirePortal.Auth.Backend
import VirePortal.Go.RequestUri
import VirePortal.Server.IdentityHeaders

/-!
# The URL that vire-server is asked for

`handleAPIProxy` puts the decoded path of a request behind the URL of the API, and the raw query
behind that. The result is read as URL text again. So a path that holds a byte of that text (`#`,
`%` or `?`) reads as something else, and one with a control byte or a malformed escape is refused,
after the server accepted it (`portfolio_lost`).

`forwarding_iff` says for which requests vire-server is asked for the path and the query of the
client: those whose path and query have none of these bytes. In particular a portfolio's name that
the browser encoded arrives as one segment exactly when it would be one segment without the
encoding.
-/

namespace VirePortal.Server.Forwarding

open Go Auth Concurrent IdentityHeaders

/-- Whatever the clock, the cache and vire-server reply, the request can be made, and what is sent
satisfies `Q`. -/
def Forwards (cfg : ProxySettings) (r : Request) (Q : ProxyRequest → Prop) : Prop :=
  (handleAPIProxy cfg r).Results (fun a => a ≠ failedRequest) ∧
    (handleAPIProxy cfg r).All fun o => ∀ req, o = .exchange req → Q req

/-- The URL asks for the path and the query, below the path of the API. -/
def AsksFor (b : Base) (path query : Str) (req : ProxyRequest) : Prop :=
  ∃ v, URL.parse req.url = some v ∧ v.path = slashed b.segments ++ path ∧ v.rawQuery = query

/-- The URL names the portfolio by one segment. -/
def NamesPortfolio (b : Base) (name : Str) (req : ProxyRequest) : Prop :=
  ∃ v, URL.parse req.url = some v ∧
    v.resource = some (b.segments ++ [ascii "api", ascii "portfolios", name])

/-- The path and the query are URL text for themselves: the path has none of `#`, `%` and `?` and no
control byte, and the query has no `#`. -/
def Verbatim (u : URL) : Prop :=
  35 ∉ u.path ∧ 37 ∉ u.path ∧ 63 ∉ u.path ∧ containsCTL u.path = false ∧ 35 ∉ u.rawQuery

variable {b : Base} {r : Request} {secret : Str} {codec : Codec}

/-- What follows the path in the URL. -/
def queryText (query : Str) : Str := if query ≠ [] then 63 :: query else []

/-- The URL of vire-server is not empty. -/
theorem apiURL_ne_nil (b : Base) : b.apiURL ≠ [] := by
  simp [Base.apiURL, Origin.string]

/-- The URL that is asked for. -/
theorem targetURL_eq (b : Base) (secret : Str) (codec : Codec) (r : Request) :
    targetURL ⟨b.apiURL, secret, codec⟩ r =
      b.origin.string ++ (slashed b.segments ++ (r.url.path ++ queryText r.url.rawQuery)) := by
  simp only [targetURL, Base.apiURL, queryText, List.append_assoc]

/-- The path begins with a slash. -/
theorem head_slashed_append (segments : List Str) {s : Str} (hs : s.head? = some 47) :
    (slashed segments ++ s).head? = some 47 := by
  cases segments with
  | nil => exact hs
  | cons x segments => rfl

/-- How the URL is read. -/
theorem parse_targetURL (hpath : r.url.path.head? = some 47) :
    URL.parse (targetURL ⟨b.apiURL, secret, codec⟩ r) =
      b.origin.url (slashed b.segments ++ (r.url.path ++ queryText r.url.rawQuery)) := by
  rw [targetURL_eq]
  refine b.origin.parse_append (head_slashed_append b.segments ?_)
  rw [List.head?_append, hpath]
  rfl

/-- The path ends where the path of the request has a separator, or else with it. -/
theorem pathPart_append_queryText (path query : Str) :
    pathPart (path ++ queryText query) = pathPart path := by
  by_cases hmem : 35 ∈ path ∨ 63 ∈ path
  · exact (pathPart_append_of_mem hmem _).1
  · obtain ⟨hhash, hmark⟩ := not_or.1 hmem
    rw [pathPart_append_left hhash hmark, pathPart_of_not_mem hhash hmark]
    unfold queryText
    split_ifs
    · have hnil : pathPart (63 :: query) = [] := by
        rw [pathPart, cut, if_neg (by decide)]
        simp [cut]
      rw [hnil, List.append_nil]
    · exact List.append_nil path

/-- The path is no longer than the text. -/
theorem pathPart_length_le (s : Str) : (pathPart s).length ≤ s.length :=
  (cut_fst_spec 63 _).2.length_le.trans (cut_fst_spec 35 s).2.length_le

/-- The query of the URL when the path has no separator. -/
theorem splitQuery_queryText {p : Str} (hp : 63 ∉ p) (query : Str) :
    splitQuery (p ++ queryText query) = (p, query, false) := by
  rw [Origin.splitQuery_append hp]
  unfold queryText
  cases query with
  | nil => simp [splitQuery, cut]
  | cons c query => simp [splitQuery, cut]

/-- The query behind the first mark. -/
theorem splitQuery_mark {p : Str} (hp : 63 ∉ p) (query : Str) :
    (splitQuery (p ++ 63 :: query)).2.1 = query := by
  rw [Origin.splitQuery_append hp]
  cases query with
  | nil => simp [splitQuery, cut]
  | cons c query => simp [splitQuery, cut]

section

variable (hpath : r.url.path.head? = some 47)
include hpath

/-- A verbatim path and query are read as they are. -/
theorem asksFor_of_verbatim (hquery : containsCTL r.url.rawQuery = false) (hr : Verbatim r.url) :
    ∃ v, URL.parse (targetURL ⟨b.apiURL, secret, codec⟩ r) = some v ∧
      v.path = slashed b.segments ++ r.url.path ∧ v.rawQuery = r.url.rawQuery := by
  obtain ⟨hhash, hpercent, hmark, hctl, hhash'⟩ := hr
  obtain ⟨hbase, hbase', hbase'', hbasectl⟩ := PathTemplate.not_mem_of_plain b.plain
  generalize hp : slashed b.segments ++ r.url.path = p at *
  -- Nothing in the path ends it early or is decoded.
  have hphash : 35 ∉ p := by rw [← hp]; simp [hbase, hhash]
  have hpmark : 63 ∉ p := by rw [← hp]; simp [hbase'', hmark]
  have hppercent : 37 ∉ p := by rw [← hp]; simp [hbase', hpercent]
  have hpctl : containsCTL p = false := by
    rw [← hp, Origin.containsCTL_append, hbasectl, hctl]
    rfl
  -- Nothing in the query ends it early.
  have hqhash : 35 ∉ queryText r.url.rawQuery := by
    unfold queryText
    split_ifs
    · simp [hhash']
    · simp
  have hqctl : containsCTL (queryText r.url.rawQuery) = false := by
    unfold queryText
    split_ifs
    · exact hquery
    · rfl
  have hall : 35 ∉ p ++ queryText r.url.rawQuery := by simp [hphash, hqhash]
  have hallctl : containsCTL (p ++ queryText r.url.rawQuery) = false := by
    rw [Origin.containsCTL_append, hpctl, hqctl]
    rfl
  rw [parse_targetURL hpath, ← List.append_assoc, hp, Origin.url, cut_of_not_mem hall,
    if_neg (by rw [hallctl]; simp), splitQuery_queryText hpmark, URL.setPath,
    unescape_path_of_not_mem hppercent]
  exact ⟨_, rfl, rfl, rfl⟩

/-- Only a verbatim path and query are read as they are: what is read has no more bytes than the
text that it is read from. -/
theorem verbatim_of_asksFor {v : URL}
    (hv : URL.parse (targetURL ⟨b.apiURL, secret, codec⟩ r) = some v)
    (hvpath : v.path = slashed b.segments ++ r.url.path) (hvquery : v.rawQuery = r.url.rawQuery) :
    Verbatim r.url := by
  rw [parse_targetURL hpath] at hv
  have haccepted : ¬ Refused (slashed b.segments ++ (r.url.path ++ queryText r.url.rawQuery)) := by
    rw [← b.origin.url_eq_none_iff, hv]
    simp
  obtain ⟨u, hset, huquery, f, g, rfl⟩ := Origin.url_eq_some hv
  obtain ⟨hbase, -, hbase', -⟩ := PathTemplate.not_mem_of_plain b.plain
  rw [pathPart_append_left hbase hbase', pathPart_append_queryText] at hset
  have hdecode : unescape .path (slashed b.segments ++ pathPart r.url.path) = some u.path := by
    obtain ⟨t, ht, rfl⟩ := URL.setPath_eq_some hset
    exact ht
  -- The path was neither cut short nor decoded.
  change u.path = slashed b.segments ++ r.url.path at hvpath
  obtain ⟨hle, heq⟩ := unescape_length hdecode
  have hpart := pathPart_length_le r.url.path
  rw [hvpath, List.length_append, List.length_append] at hle heq
  have hmem : ¬ (35 ∈ r.url.path ∨ 63 ∈ r.url.path) := by
    intro hmem
    have hlt := (pathPart_append_of_mem hmem []).2
    omega
  obtain ⟨hhash, hmark⟩ := not_or.1 hmem
  have hpercent : 37 ∉ r.url.path := by
    have hnone := heq (by omega)
    rw [pathPart_of_not_mem hhash hmark, List.mem_append, not_or] at hnone
    exact hnone.2
  have hall : 35 ∉ slashed b.segments ++ r.url.path := by simp [hbase, hhash]
  have hall' : 63 ∉ slashed b.segments ++ r.url.path := by simp [hbase', hmark]
  have hctl : containsCTL r.url.path = false := by
    unfold Refused at haccepted
    simp only [not_or, Bool.not_eq_true] at haccepted
    refine containsCTL_sublist ?_ haccepted.1
    rw [← List.append_assoc, cut_append hall, List.append_assoc]
    exact (List.sublist_append_left _ _).trans (List.sublist_append_right _ _)
  -- The query was not cut short either.
  have hquery : 35 ∉ r.url.rawQuery := by
    intro hhash'
    have hlt := cut_fst_length hhash'
    have hfront : (cut 35 (slashed b.segments ++ r.url.path ++ queryText r.url.rawQuery)).1 =
        slashed b.segments ++ r.url.path ++ 63 :: (cut 35 r.url.rawQuery).1 := by
      rw [cut_append hall, queryText, if_pos (List.ne_nil_of_mem hhash'), cut, if_neg (by decide)]
    change u.rawQuery = r.url.rawQuery at hvquery
    rw [← List.append_assoc, hfront, splitQuery_mark hall', hvquery] at huquery
    rw [← huquery] at hlt
    exact absurd hlt (lt_irrefl _)
  exact ⟨hhash, hpercent, hmark, hctl, hquery⟩

end

/-- What `Forwards` says of a request that is not blocked: its URL is well formed and satisfies the
property. -/
theorem forwards_iff {Q : Str → Prop} (hmethod : validMethod r.method = true)
    (hguard : hasPrefix r.url.path "/api/internal/" = false) :
    Forwards ⟨b.apiURL, secret, codec⟩ r (fun req => Q req.url) ↔
      (URL.parse (targetURL ⟨b.apiURL, secret, codec⟩ r)).isSome = true ∧
        Q (targetURL ⟨b.apiURL, secret, codec⟩ r) := by
  have hguard' : ¬ hasPrefix r.url.path "/api/internal/" = true := by simp [hguard]
  unfold Forwards
  rw [handleAPIProxy_created, handleAPIProxy_sends, or_iff_right (apiURL_ne_nil b),
    or_iff_right (apiURL_ne_nil b), or_iff_right hguard', or_iff_right hguard']
  -- The URL does not depend on the user, so the users at one time decide for all.
  simp only [proxyRequest_isSome hmethod]
  constructor
  · rintro ⟨hsome, hall⟩
    refine ⟨hsome 0 0, ?_⟩
    have hmade := (proxyRequest_isSome hmethod
      (userAt ⟨b.apiURL, secret, codec⟩ r 0 0)).trans (hsome 0 0)
    obtain ⟨req, hreq⟩ := Option.isSome_iff_exists.1 hmade
    have hQ := hall 0 0 req hreq
    rw [(proxyRequest_eq_some hreq).1] at hQ
    exact hQ
  · rintro ⟨hsome, hQ⟩
    refine ⟨fun _ _ => hsome, fun now now' req hreq => ?_⟩
    rw [(proxyRequest_eq_some hreq).1]
    exact hQ

/-- The URL of a portfolio's name. -/
def portfolioTemplate (b : Base) : PathTemplate where
  origin := b.origin
  before := b.segments ++ [ascii "api", ascii "portfolios"]
  after := []
  before_plain x hx := by
    have hfixed : ∀ x ∈ [ascii "api", ascii "portfolios"], PlainSegment x := by decide
    rcases List.mem_append.1 hx with hx | hx
    · exact b.plain x hx
    · exact hfixed x hx
  after_plain := plainSegment_nil

/-- A segment without a separator and without an escape is refused only for a control byte. -/
theorem refused_iff_of_oneSegment {s : Str} (hs : OneSegment s) :
    Refused s ↔ containsCTL s = true := by
  obtain ⟨-, hhash, hpercent, -, hmark⟩ := hs
  unfold Refused
  rw [cut_of_not_mem hhash, pathPart_of_not_mem hhash hmark, badEscape_of_not_mem hpercent]
  simp [badEscape]

/-- The URL of a portfolio's name is read as one that names it exactly when the name is one segment
as it stands, without control bytes. -/
theorem namesPortfolio_iff (b : Base) (name : Str) :
    (∃ v, URL.parse ((portfolioTemplate b).fill name) = some v ∧
      v.resource = some (b.segments ++ [ascii "api", ascii "portfolios", name])) ↔
      OneSegment name ∧ containsCTL name = false := by
  -- To name the portfolio is to have its name where the template has its gap.
  have hkey : ∀ v : URL, v.resource = some (b.segments ++ [ascii "api", ascii "portfolios", name]) ↔
      (portfolioTemplate b).key v = some name := by
    intro v
    rw [PathTemplate.key, Option.bind_eq_some_iff]
    simp only [between_eq_some]
    constructor
    · exact fun h => ⟨_, h, by simp [portfolioTemplate]⟩
    · rintro ⟨segments, hsegments, rfl⟩
      rw [hsegments]
      simp [portfolioTemplate]
  constructor
  · rintro ⟨v, hv, hresource⟩
    have hone := (portfolioTemplate b).oneSegment_of_key hv ((hkey v).1 hresource)
    have hsome : ¬ Refused name := by
      rw [← (portfolioTemplate b).parse_eq_none_iff, hv]
      simp
    rw [refused_iff_of_oneSegment hone, Bool.not_eq_true] at hsome
    exact ⟨hone, hsome⟩
  · rintro ⟨hone, hctl⟩
    have hsome : URL.parse ((portfolioTemplate b).fill name) ≠ none := by
      rw [ne_eq, (portfolioTemplate b).parse_eq_none_iff, refused_iff_of_oneSegment hone, hctl]
      simp
    obtain ⟨v, hv⟩ := Option.ne_none_iff_exists'.1 hsome
    exact ⟨v, hv, (hkey v).2 ((portfolioTemplate b).key_of_oneSegment hv hone)⟩

/-- The request for a portfolio is made for the URL of its name. -/
theorem targetURL_portfolio {name : Str} (hpath : r.url.path = ascii "/api/portfolios/" ++ name)
    (hquery : r.url.rawQuery = []) :
    targetURL ⟨b.apiURL, secret, codec⟩ r = (portfolioTemplate b).fill name := by
  have hfixed : ascii "/api/portfolios/" = slashed [ascii "api", ascii "portfolios"] ++ [47] :=
    by decide
  rw [targetURL_eq, hpath, hquery, hfixed]
  simp [PathTemplate.fill, PathTemplate.lead, portfolioTemplate, slashed, queryText]

/-- Of a request that the server accepted and that is not blocked, vire-server is asked for the path
and the query exactly when they are URL text for themselves. A portfolio's name that a browser
encoded is one segment for vire-server exactly when it is one segment as it stands and has no
control byte. -/
theorem forwarding_iff (b : Base) (secret : Str) (codec : Codec) :
    (∀ r : Request, r.url.Accepted → validMethod r.method = true →
      hasPrefix r.url.path "/api/internal/" = false →
      (Forwards ⟨b.apiURL, secret, codec⟩ r (AsksFor b r.url.path r.url.rawQuery) ↔
        Verbatim r.url)) ∧
    ∀ (name : Str) (r : Request),
      URL.parseRequestURI ("/api/portfolios/" ++ encodeURIComponent name) = some r.url →
      validMethod r.method = true →
      (Forwards ⟨b.apiURL, secret, codec⟩ r (NamesPortfolio b name) ↔
        OneSegment name ∧ containsCTL name = false) := by
  constructor
  · intro r haccepted hmethod hguard
    refine (forwards_iff (Q := fun url => ∃ v, URL.parse url = some v ∧
      v.path = slashed b.segments ++ r.url.path ∧ v.rawQuery = r.url.rawQuery) hmethod
        hguard).trans ?_
    constructor
    · rintro ⟨-, v, hv, hvpath, hvquery⟩
      exact verbatim_of_asksFor haccepted.2 hv hvpath hvquery
    · intro hr
      obtain ⟨v, hv, hasks⟩ := asksFor_of_verbatim haccepted.2 haccepted.rawQuery_plain hr
      exact ⟨by rw [hv]; rfl, v, hv, hasks⟩
  · -- The server has decoded what the browser encoded, so the path ends in the name itself.
    intro name r hurl hmethod
    have hlead : 37 ∉ ascii "/api/portfolios/" ∧ 63 ∉ ascii "/api/portfolios/" := by decide
    obtain ⟨u, hu, hpath, hquery⟩ := parseRequestURI_encodeURIComponent
      (show (ascii "/api/portfolios/").head? = some 47 by rfl) (by decide) hlead.2 hlead.1 name
    obtain rfl : r.url = u := Option.some.inj (hurl.symm.trans hu)
    have hguard : hasPrefix r.url.path (ascii "/api/internal/") = false := by
      rw [hpath]
      rfl
    refine (forwards_iff (Q := fun url => ∃ v, URL.parse url = some v ∧
      v.resource = some (b.segments ++ [ascii "api", ascii "portfolios", name])) hmethod
        hguard).trans ?_
    rw [targetURL_portfolio hpath hquery, ← namesPortfolio_iff b name]
    constructor
    · exact fun h => h.2
    · rintro ⟨v, hv, hresource⟩
      exact ⟨by rw [hv]; rfl, v, hv, hresource⟩

/-- The URL `http://v`. -/
def sampleBase : Base where
  origin :=
    { scheme := "http", authority := "v", user := none, host := "v"
      scheme_head := http_head
      scheme_bytes := http_bytes
      authority_plain := by decide
      authority_parses := by decide }
  segments := []
  plain := plainSegment_nil

/-- The request for the portfolio `name`. -/
def named (name : Str) : Request := { url := { path := "/api/portfolios/" ++ name } }

/-- A name with a blank is forwarded. -/
theorem forwarding_iff_spaced :
    Forwards ⟨sampleBase.apiURL, "k", aliceCodec⟩ (named "a b") (NamesPortfolio sampleBase "a b") :=
  ((forwarding_iff sampleBase "k" aliceCodec).2 "a b" (named "a b")
    (by decide) (by decide)).2 (by decide)

/-- For the portfolio `a#b` vire-server is asked for the portfolio `a`, and for the portfolio `50%`
the request cannot be made. -/
theorem portfolio_lost :
    (URL.parseRequestURI ("/api/portfolios/" ++ encodeURIComponent "a#b") = some (named "a#b").url ∧
      ∀ now now', ∃ req v, proxyRequest sampleSettings (named "a#b")
          (userAt sampleSettings (named "a#b") now now') = some req ∧
        URL.parse req.url = some v ∧ v.path = "/api/portfolios/a") ∧
    URL.parseRequestURI ("/api/portfolios/" ++ encodeURIComponent "50%") = some (named "50%").url ∧
      ∀ now now', proxyRequest sampleSettings (named "50%")
        (userAt sampleSettings (named "50%") now now') = none := by
  refine ⟨⟨by decide, fun now now' => ?_⟩, by decide, fun now now' => ?_⟩
  · have huser : userAt sampleSettings (named "a#b") now now' = [] := rfl
    rw [huser]
    exact ⟨⟨"GET", "http://v/api/portfolios/a#b", []⟩, _, by decide, rfl, by decide⟩
  · have huser : userAt sampleSettings (named "50%") now now' = [] := rfl
    rw [huser]
    decide

end VirePortal.Server.Forwarding
